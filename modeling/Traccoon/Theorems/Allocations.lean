import Traccoon.Allocations
import Traccoon.Theorems.GetpeersHash

/-!
# What `getpeers` frees, and which sockets it closes

On each of its ways out `main` of `getpeers` has released what it has acquired, each resource once, and nothing else (`run_releases`), with
one exception: a connection on which the request could not be sent is left open.
-/

namespace Traccoon

open CString Ledger

namespace Getpeers

namespace AllocationsAux

variable {o : Settings} {tracker : Bytes} {e : Net.NetEnv} {uses : List (Use Resource)}

/-! ## The connection -/

theorem connectUses_other {r : Resource} (hr : ∀ j, r ≠ .sock j) (addresses : List Net.Attempt) (i : Nat) :
    usesOf r (connectUses i addresses).1 = [] := by
  induction addresses generalizing i with
  | nil => rfl
  | cons a rest ih =>
    cases a with
    | noSocket => exact ih (i + 1)
    | refused => simp [connectUses, (hr i).symm, ih (i + 1)]
    | connected => simp [connectUses, (hr i).symm]

/-- A socket that is not reached yet has not been used. -/
theorem connectUses_later {i j : Nat} (hij : j < i) (addresses : List Net.Attempt) :
    usesOf (.sock j) (connectUses i addresses).1 = [] ∧ (connectUses i addresses).2 ≠ some j := by
  induction addresses generalizing i with
  | nil => exact ⟨rfl, nofun⟩
  | cons a rest ih =>
    have hne : i ≠ j := by omega
    cases a with
    | noSocket => exact ih (by omega)
    | refused =>
      obtain ⟨huses, hconn⟩ := @ih (i + 1) (by omega)
      exact ⟨by simp [connectUses, hne, huses], hconn⟩
    | connected => exact ⟨by simp [connectUses, hne], by simpa [connectUses] using hne⟩

/-- Behind the loop the socket that is connected is open, and no other. -/
theorem connectUses_sock (addresses : List Net.Attempt) {i j : Nat} {held : Bool}
    (hheld : held = true ↔ (connectUses i addresses).2 = some j) : Toggles false (usesOf (.sock j) (connectUses i addresses).1) held := by
  induction addresses generalizing i with
  | nil => simpa [connectUses] using hheld
  | cons a rest ih =>
    cases a with
    | noSocket => exact ih hheld
    | refused =>
      by_cases hij : i = j
      · subst hij
        obtain ⟨huses, hconn⟩ := connectUses_later (Nat.lt_succ_self i) rest
        have hfalse : held = false := by simpa [connectUses, hconn] using hheld
        simp [connectUses, huses, hfalse]
      · simpa [connectUses, hij] using ih hheld
    | connected =>
      by_cases hij : i = j
      · simpa [connectUses, hij] using hheld
      · simpa [connectUses, hij] using hheld

/-- It is the first that can be connected. -/
theorem connectUses_connected (addresses : List Net.Attempt) (i : Nat) :
    (connectUses i addresses).2 = (addresses.findIdx? fun a => decide (a = .connected)).map (· + i) := by
  induction addresses generalizing i with
  | nil => rfl
  | cons a rest ih =>
    cases a with
    | noSocket => simp [connectUses, ih (i + 1), List.findIdx?_cons, Function.comp_def, Nat.add_comm, Nat.add_left_comm]
    | refused => simp [connectUses, ih (i + 1), List.findIdx?_cons, Function.comp_def, Nat.add_comm, Nat.add_left_comm]
    | connected => simp [connectUses, List.findIdx?_cons]

theorem findIdx?_connected_eq_none {addresses : List Net.Attempt} :
    (addresses.findIdx? fun a => decide (a = .connected)) = none ↔ Net.Attempt.connected ∉ addresses := by
  rw [List.findIdx?_eq_none_iff]
  constructor
  · intro h hin
    exact absurd (h _ hin) (by simp)
  · intro h a ha
    exact decide_eq_false fun heq => h (heq ▸ ha)

/-- There is no response if the request cannot be sent, and only then. -/
theorem exchange_response {url : UrlComponents} {outcome : Net.Outcome} (h : Net.exchange url e = some outcome) :
    outcome.response = none ↔
      (Net.sendLoop e.sends (stringMerge (requestParts url)) Net.maxSendRetryCount 0 0 0).2 < 0 := by
  simp only [Net.exchange] at h
  split at h
  · cases h
  split at h
  · rename_i hit
    obtain rfl := Option.some.inj h
    simp [hit]
  · rename_i hit
    refine ⟨fun hnone => ?_, fun hneg => absurd hneg hit⟩
    obtain ⟨⟨response, bytes⟩, -, h⟩ := Option.bind_eq_some_iff.1 h
    simp only at h
    split at h
    · split at h
      · obtain rfl := Option.some.inj h
        cases hnone
      · obtain rfl := Option.some.inj h
        cases hnone
    · cases h

/-! ## `http_get` -/

/-- The socket with this number is left open by a call of `http_get`. -/
def LeftOpen (e : Net.NetEnv) (outcome : Net.Outcome) (i : Nat) : Prop :=
  outcome.response = none ∧
    ∃ addresses, e.addresses = some addresses ∧ (addresses.findIdx? fun a => decide (a = .connected)) = some i

/-- What a call of `http_get` does with each resource. -/
structure Releases (e : Net.NetEnv) (outcome : Net.Outcome) (uses : List (Use Resource)) : Prop where
  tracker : usesOf .tracker uses = []
  path : usesOf .path uses = []
  conninfo : Toggles false (usesOf .conninfo uses) false
  requestText : Toggles false (usesOf .requestText uses) false
  response : Toggles false (usesOf .response uses) outcome.response.isSome
  sock : ∀ i held, (held = true ↔ LeftOpen e outcome i) → Toggles false (usesOf (.sock i) uses) held

/-- Without an open connection all is released. -/
theorem releases_unconnected {addresses : List Net.Attempt} (haddr : e.addresses = some addresses)
    (hconn : (connectUses 0 addresses).2 = none) (outcome : Net.Outcome) (hnone : outcome.response = none) :
    Releases e outcome (.acquire .conninfo :: ((connectUses 0 addresses).1 ++ [.release .conninfo])) where
  tracker := by simp [connectUses_other]
  path := by simp [connectUses_other]
  conninfo := by simp [connectUses_other]
  requestText := by simp [connectUses_other]
  response := by simp [connectUses_other, hnone]
  sock := by
    intro i held hheld
    have hfalse : held = false := by
      rw [Bool.eq_false_iff]
      intro htrue
      obtain ⟨-, addresses', haddr', hidx⟩ := hheld.1 htrue
      obtain rfl := Option.some.inj (haddr.symm.trans haddr')
      rw [connectUses_connected, hidx] at hconn
      cases hconn
    have hsock := @connectUses_sock addresses 0 i false (by simp [hconn])
    simpa [hfalse] using hsock

/-- With one, the socket is closed if there is a response. -/
theorem releases_connected {addresses : List Net.Attempt} (haddr : e.addresses = some addresses) {c : Nat}
    (hconn : (connectUses 0 addresses).2 = some c) (outcome : Net.Outcome) :
    Releases e outcome (.acquire .conninfo :: ((connectUses 0 addresses).1 ++ exchangeUses c outcome ++ [.release .conninfo])) where
  tracker := by cases hr : outcome.response <;> simp [connectUses_other, exchangeUses, hr]
  path := by cases hr : outcome.response <;> simp [connectUses_other, exchangeUses, hr]
  conninfo := by cases hr : outcome.response <;> simp [connectUses_other, exchangeUses, hr]
  requestText := by cases hr : outcome.response <;> simp [connectUses_other, exchangeUses, hr]
  response := by cases hr : outcome.response <;> simp [connectUses_other, exchangeUses, hr]
  sock := by
    intro i held hheld
    have hidx := connectUses_connected addresses 0
    simp only [Nat.add_zero, Option.map_id'] at hidx
    have hleft : LeftOpen e outcome i ↔ outcome.response = none ∧ c = i := by
      constructor
      · rintro ⟨hnone, addresses', haddr', hidx'⟩
        obtain rfl := Option.some.inj (haddr.symm.trans haddr')
        exact ⟨hnone, Option.some.inj (hconn.symm.trans (hidx.trans hidx'))⟩
      · rintro ⟨hnone, rfl⟩
        exact ⟨hnone, addresses, haddr, hidx.symm.trans hconn⟩
    have hsock := @connectUses_sock addresses 0 i (decide (c = i)) (by simp [hconn])
    cases hr : outcome.response with
    | none =>
      have heq : held = decide (c = i) := by
        rw [Bool.eq_iff_iff, hheld, hleft, decide_eq_true_iff]
        simp [hr]
      simpa [exchangeUses, hr, heq] using hsock
    | some response =>
      have heq : held = false := by
        rw [Bool.eq_false_iff]
        intro htrue
        have := (hleft.1 (hheld.1 htrue)).1
        rw [hr] at this
        cases this
      by_cases hc : c = i
      · rw [decide_eq_true hc] at hsock
        have := hsock.append (toggles_release.2 ⟨rfl, toggles_nil.2 rfl⟩ : Toggles true [Use.release (Resource.sock i)] false)
        simpa [exchangeUses, hr, heq, hc] using this
      · rw [decide_eq_false hc] at hsock
        simpa [exchangeUses, hr, heq, hc] using hsock

/-- Without addresses nothing is acquired. -/
theorem releases_nil {outcome : Net.Outcome} (hnone : outcome.response = none) (haddr : ∀ a rest, e.addresses ≠ some (a :: rest)) :
    Releases e outcome [] where
  tracker := rfl
  path := rfl
  conninfo := rfl
  requestText := rfl
  response := by simp [hnone]
  sock := by
    intro i held hheld
    have hfalse : held = false := by
      rw [Bool.eq_false_iff]
      intro htrue
      obtain ⟨-, addresses, haddresses, hidx⟩ := hheld.1 htrue
      cases addresses with
      | nil => cases hidx
      | cons a rest => exact haddr a rest haddresses
    simp [hfalse]

/-- Of a call of `http_get` that comes to something. -/
theorem httpGet_releases {host port path : Bytes} {outcome : Net.Outcome}
    (h : Net.httpGet (some host) (some port) (some path) e = some outcome) :
    ∃ uses, httpGetUses (some host) (some port) (some path) e = some uses ∧ Releases e outcome uses := by
  simp only [Net.httpGet] at h
  cases haddr : e.addresses with
  | none =>
    simp only [haddr, Option.some.injEq] at h
    exact ⟨[], by simp [httpGetUses, haddr], releases_nil (by rw [← h]) (by simp [haddr])⟩
  | some addresses =>
    simp only [haddr] at h
    cases addresses with
    | nil =>
      simp only [List.not_mem_nil, if_false, Option.some.injEq] at h
      exact ⟨[], by simp [httpGetUses, haddr], releases_nil (by rw [← h]) (by simp [haddr])⟩
    | cons first rest =>
      have hidx := connectUses_connected (first :: rest) 0
      cases hconn : (connectUses 0 (first :: rest)).2 with
      | none =>
        have hnot : Net.Attempt.connected ∉ first :: rest := by
          rw [hconn] at hidx
          exact findIdx?_connected_eq_none.1 (Option.map_eq_none_iff.1 hidx.symm)
        rw [if_neg hnot] at h
        obtain rfl := Option.some.inj h
        refine ⟨_, ?_, releases_unconnected haddr hconn _ rfl⟩
        simp only [httpGetUses, haddr]
        rw [show connectUses 0 (first :: rest) = (_, _) from (Prod.mk.eta).symm, hconn]
      | some c =>
        have hin : Net.Attempt.connected ∈ first :: rest := by
          by_contra hnot
          rw [hconn, findIdx?_connected_eq_none.2 hnot] at hidx
          cases hidx
        rw [if_pos hin] at h
        refine ⟨_, ?_, releases_connected haddr hconn outcome⟩
        simp only [httpGetUses, haddr, h]
        rw [show connectUses 0 (first :: rest) = (_, _) from (Prod.mk.eta).symm, hconn]
        rfl

/-! ## `main` -/

/-- A socket is left open by `main` if the request cannot be sent on it. -/
theorem leftOpen_iff {hash : Bytes} {url : UrlComponents} {outcome : Net.Outcome}
    (h : Net.httpGet (some url.host) (some url.port) (some (stringMerge (pathParts o hash url.path))) e = some outcome)
    (hhash : encodeHash o.hash.toList = some hash) (hurl : Net.trackerUrl tracker = some (.ok url)) (i : Nat) :
    LeftOpen e outcome i ↔ SendFails o tracker e i := by
  have hresponse : ∀ addresses, e.addresses = some addresses →
      (addresses.findIdx? fun a => decide (a = .connected)) = some i →
      (outcome.response = none ↔ (Net.sendLoop e.sends
        (stringMerge (requestParts { url with path := stringMerge (pathParts o hash url.path) })) Net.maxSendRetryCount 0 0 0).2 < 0) := by
    intro addresses haddr hidx
    have hin : Net.Attempt.connected ∈ addresses := by
      by_contra hnot
      rw [findIdx?_connected_eq_none.2 hnot] at hidx
      cases hidx
    simp only [Net.httpGet, haddr, if_pos hin] at h
    exact exchange_response h
  have hrequest : request o url = some (stringMerge (requestParts { url with path := stringMerge (pathParts o hash url.path) })) := by
    simp only [request, hhash, Option.bind_eq_bind, Option.bind_some, Option.pure_def]
  constructor
  · rintro ⟨hnone, addresses, haddr, hidx⟩
    exact ⟨url, _, addresses, hurl, hrequest, haddr, hidx, (hresponse addresses haddr hidx).1 hnone⟩
  · rintro ⟨url', text, addresses, hurl', htext, haddr, hidx, hsend⟩
    obtain rfl := Except.ok.inj (Option.some.inj (hurl.symm.trans hurl'))
    obtain rfl := Option.some.inj (hrequest.symm.trans htext)
    exact ⟨(hresponse addresses haddr hidx).2 hsend, addresses, haddr, hidx⟩

/-- What is held when `main` returns. -/
theorem leads_of_releases {outcome : Net.Outcome} (h : Releases e outcome uses) {held : Finset Resource}
    (hheld : ∀ r, r ∈ held ↔ ∃ i, r = .sock i ∧ LeftOpen e outcome i) :
    Leads {.tracker} (.acquire .path :: (uses ++ .release .path :: freeUses outcome)) held := by
  have hnot : ∀ r, (∀ i, r ≠ .sock i) → r ∉ held := fun r hr hin => by
    obtain ⟨i, hi, -⟩ := (hheld r).1 hin
    exact hr i hi
  have hother : ∀ r, r ≠ .tracker → r ≠ .response → usesOf r (freeUses outcome) = [] := by
    intro r h1 h2
    unfold freeUses
    split
    · split
      · simp [h1.symm, h2.symm]
      · simp [h1.symm, h2.symm]
    · simp [h1.symm]
  rw [leads_iff]
  intro r
  cases r with
  | tracker =>
    have hfree : usesOf .tracker (freeUses outcome) = [.release .tracker] := by
      unfold freeUses
      split
      · split
        · simp
        · simp
      · simp
    simp [h.tracker, hfree, hnot]
  | path => simp [h.path, hother, hnot]
  | conninfo => simpa [hother, hnot] using h.conninfo
  | requestText => simpa [hother, hnot] using h.requestText
  | response =>
    have hfree : Toggles outcome.response.isSome (usesOf .response (freeUses outcome)) false := by
      unfold freeUses
      split
      · rename_i response heq
        split
        · simp [heq]
        · simp [heq]
      · rename_i heq
        simp [heq]
    simpa [hnot] using h.response.append hfree
  | sock i =>
    have := h.sock i (decide (Resource.sock i ∈ held)) (by simp [hheld])
    simpa [hother] using this

end AllocationsAux

open AllocationsAux

/-- For all settings and trackers, and all answers of the network: when `main` returns it has released everything that it has acquired,
`tracker` among it, each resource once, and nothing else; only if the request could not be sent on a connection is that one left open. -/
theorem run_releases (inet : Inet) (o : Settings) (tracker : Bytes) (e : Net.NetEnv) (fuel : Nat) (walk : Walk (List Line × Int))
    (h : run inet o tracker e fuel = some walk) :
    ∃ uses, runUses o tracker e = some uses ∧ (∀ i, SendFails o tracker e i → Leads {.tracker} uses {.sock i}) ∧
      ((∀ i, ¬SendFails o tracker e i) → Leads {.tracker} uses ∅) := by
  obtain ⟨hash, hhash, h⟩ := Option.bind_eq_some_iff.1 h
  obtain ⟨parsed, hurl, h⟩ := Option.bind_eq_some_iff.1 h
  cases parsed with
  | error message =>
    refine ⟨[.release .tracker], by simp [runUses, hhash, hurl], fun i hi => ?_, fun _ => by decide⟩
    obtain ⟨url, -, -, hurl', -⟩ := hi
    cases Option.some.inj (hurl.symm.trans hurl')
  | ok url =>
    obtain ⟨outcome, hget, -⟩ := Option.bind_eq_some_iff.1 h
    obtain ⟨uses, huses, hreleases⟩ := httpGet_releases hget
    have hleft := leftOpen_iff hget hhash hurl
    refine ⟨_, by simp only [runUses, hhash, hurl, huses, hget, Option.bind_eq_bind, Option.bind_some]; rfl, ?_, ?_⟩
    · intro i hi
      refine leads_of_releases hreleases fun r => ?_
      simp only [Finset.mem_singleton, hleft]
      constructor
      · rintro rfl
        exact ⟨i, rfl, hi⟩
      · rintro ⟨j, rfl, hj⟩
        obtain ⟨-, -, addresses, -, -, haddr, hidx, -⟩ := hi
        obtain ⟨-, -, addresses', -, -, haddr', hidx', -⟩ := hj
        obtain rfl := Option.some.inj (haddr.symm.trans haddr')
        rw [Option.some.inj (hidx'.symm.trans hidx)]
    · intro hnone
      refine leads_of_releases hreleases fun r => ?_
      simp only [Finset.notMem_empty, hleft, false_iff]
      rintro ⟨i, -, hi⟩
      exact hnone i hi

namespace AllocationsExample

def tracker : Bytes := ascii "http://10.0.0.1:6969/announce"

def settings : Settings := GetpeersHashExample.settings GetpeersHashExample.lower (by decide)

/-- The second address answers, but the request cannot be sent. -/
def net : Net.NetEnv :=
  { addresses := some [.refused, .connected, .connected]
    sends := fun _ => -1
    recvs := []
    fresh := fun _ => Vector.replicate 512 0 }

theorem sendFails : SendFails settings tracker net 1 := by
  have hsend : (request settings GetpeersHashExample.url).map
      (fun t => decide ((Net.sendLoop net.sends t Net.maxSendRetryCount 0 0 0).2 < 0)) = some true := by decide +kernel
  obtain ⟨text, hrequest, hneg⟩ := Option.map_eq_some_iff.1 hsend
  exact ⟨_, text, _, rfl, hrequest, rfl, by decide, of_decide_eq_true hneg⟩

end AllocationsExample

open AllocationsExample

/-- The socket of the second address is left open. -/
theorem run_releases_unsent : ∃ uses, runUses settings tracker net = some uses ∧ Leads {.tracker} uses {.sock 1} := by
  obtain ⟨uses, huses, hfails, -⟩ := run_releases PlainInet.inet settings tracker net 0
    (.ok ([.text (ascii "Error fetching peers, aborting\n")], 1)) (by decide +kernel)
  exact ⟨uses, huses, hfails 1 sendFails⟩

end Getpeers

end Traccoon
