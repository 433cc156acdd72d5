import Traccoon.Listen

/-!
# The loop that opens the listening socket

Both the body of the loop and its step look at the head of the list. So the loop does what it is meant to when its first round is its
only one (`opensSocket_iff`): otherwise it asks for the first entry again and again, with `addr_it` at the second, until `socket` has
changed its mind.
-/

namespace Traccoon

open CString

/-- The loop ends; it has tried entries from the first on, in the order of the list and each once; and if it has a socket, `addr_it` is the
entry it was made for, and the address bound to is that entry's. -/
def OpensSocket (socket : SocketAnswers) (servinfo : List AddrInfo) (servsock : Int) : Prop :=
  ∃ fuel s, openSocket socket servinfo fuel (Opening.start servinfo servsock) = some s ∧
    s.tried = List.range s.tried.length ∧ s.tried.length ≤ servinfo.length ∧
    (s.servsock ≠ -1 → ∃ i a, s.addrIt = some i ∧ s.tried.getLast? = some i ∧ servinfo[i]? = some a ∧
      bindAddr servinfo s = some a.aiAddr)

namespace ListeningSocketAux

variable {socket : SocketAnswers} {first second : AddrInfo} {rest : List AddrInfo} {servsock : Int}

/-- A round. -/
theorem openSocket_succ (fuel : Nat) (i : Nat) (tried : List Nat) :
    openSocket socket (first :: rest) (fuel + 1) { addrIt := some i, servsock := servsock, tried := tried } =
      if socket tried.length first.aiFamily first.aiSocktype first.aiProtocol ≠ -1 then
        some
          { addrIt := some i, servsock := socket tried.length first.aiFamily first.aiSocktype first.aiProtocol
            tried := tried ++ [0] }
      else
        openSocket socket (first :: rest) fuel
          { addrIt := entryAt (first :: rest) 1, servsock := socket tried.length first.aiFamily first.aiSocktype first.aiProtocol
            tried := tried ++ [0] } := rfl

theorem start_cons : Opening.start (first :: rest) servsock = { addrIt := some 0, servsock := servsock, tried := [] } := rfl

/-- Once `addr_it` is at the second entry, the loop calls `socket` for the first until it succeeds, and leaves `addr_it` where it is. -/
theorem openSocket_stuck (fuel : Nat) (k : Nat) {s : Opening}
    (h : openSocket socket (first :: second :: rest) fuel
      { addrIt := some 1, servsock := servsock, tried := List.replicate k 0 } = some s) :
    s.addrIt = some 1 ∧ ∃ m, k < m ∧ s.tried = List.replicate m 0 := by
  induction fuel generalizing k servsock with
  | zero => cases h
  | succ fuel ih =>
    rw [openSocket_succ, ← List.replicate_succ'] at h
    split at h
    · obtain rfl := Option.some.inj h
      exact ⟨rfl, k + 1, by omega, rfl⟩
    · obtain ⟨hit, m, hm, htried⟩ := ih (k + 1) h
      exact ⟨hit, m, by omega, htried⟩

/-- The first entry is tried twice, so the loop does not try each once. -/
theorem not_opensSocket (h : socket 0 first.aiFamily first.aiSocktype first.aiProtocol = -1) :
    ¬OpensSocket socket (first :: second :: rest) servsock := by
  rintro ⟨fuel, s, hs, hrange, -, -⟩
  cases fuel with
  | zero => cases hs
  | succ fuel =>
    rw [start_cons, openSocket_succ, List.length_nil, h, if_neg (fun hne => hne rfl)] at hs
    obtain ⟨-, m, hm, htried⟩ := openSocket_stuck fuel 1 hs
    rw [htried, List.length_replicate] at hrange
    have hsecond : (List.replicate m 0)[1]? = (List.range m)[1]? := by rw [← hrange]
    rw [List.getElem?_replicate, if_pos hm, List.getElem?_range hm] at hsecond
    cases hsecond

end ListeningSocketAux

open ListeningSocketAux

/-- For every list that is not empty and whatever `socket` answers to each call: the loop ends, tries the entries in order and each at most
once, and pairs the socket with the entry it was made for, exactly when the first call succeeds or the list has a single entry. -/
theorem opensSocket_iff (socket : SocketAnswers) (first : AddrInfo) (rest : List AddrInfo) (servsock : Int) :
    OpensSocket socket (first :: rest) servsock ↔
      socket 0 first.aiFamily first.aiSocktype first.aiProtocol ≠ -1 ∨ rest = [] := by
  constructor
  · intro hopens
    by_contra hnot
    rw [not_or, not_not] at hnot
    obtain ⟨hfails, hrest⟩ := hnot
    obtain ⟨second, rest, rfl⟩ := List.exists_cons_of_ne_nil hrest
    exact not_opensSocket hfails hopens
  · intro h
    by_cases hfirst : socket 0 first.aiFamily first.aiSocktype first.aiProtocol ≠ -1
    · refine ⟨1, { addrIt := some 0, servsock := socket 0 first.aiFamily first.aiSocktype first.aiProtocol, tried := [0] }, ?_, rfl,
        by simp, fun _ => ⟨0, first, rfl, rfl, rfl, rfl⟩⟩
      rw [start_cons, openSocket_succ, List.length_nil, if_pos hfirst]
      rfl
    · -- the only entry is given up, and NULL ends the loop
      obtain rfl := h.resolve_left hfirst
      refine ⟨2, { addrIt := none, servsock := -1, tried := [0] }, ?_, rfl, by simp, fun hne => absurd rfl hne⟩
      rw [start_cons, openSocket_succ, List.length_nil, if_neg hfirst, not_not.1 hfirst]
      rfl

namespace ListeningSocketExample

/-- A host that has an IPv6 and an IPv4 address. -/
def servinfo : List AddrInfo :=
  [{ aiFamily := 10, aiSocktype := 1, aiProtocol := 6, aiAddr := ascii "::" },
    { aiFamily := 2, aiSocktype := 1, aiProtocol := 6, aiAddr := ascii "0.0.0.0" }]

/-- IPv6 is disabled. -/
def noIpv6 : SocketAnswers := fun _ family _ _ => if family = 10 then -1 else 3

/-- The first call fails and the second succeeds. -/
def second : SocketAnswers := fun n _ _ _ => if n = 0 then -1 else 3

end ListeningSocketExample

open ListeningSocketExample

/-- Without IPv6 the loop never comes to the IPv4 address. -/
theorem not_opensSocket_noIpv6 : (∀ fuel, openSocket noIpv6 servinfo fuel (Opening.start servinfo 0) = none) ∧
    ¬OpensSocket noIpv6 servinfo 0 := by
  have hstuck : ∀ (fuel : Nat) (k : Nat) (servsock : Int) (tried : List Nat),
      openSocket noIpv6 servinfo fuel { addrIt := some k, servsock := servsock, tried := tried } = none := by
    intro fuel
    induction fuel with
    | zero => exact fun _ _ _ => rfl
    | succ fuel ih => exact fun _ _ _ => ih 1 _ _
  exact ⟨fun fuel => hstuck fuel 0 0 [], not_opensSocket rfl⟩

/-- A socket made for the first entry is bound to the address of the second. -/
example : openSocket second servinfo 2 (Opening.start servinfo 0) = some { addrIt := some 1, servsock := 3, tried := [0, 0] } := by decide

end Traccoon
