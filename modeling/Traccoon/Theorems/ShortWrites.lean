import Traccoon.Sending
import Traccoon.Lemmas.Requests
import Mathlib.Logic.Function.Basic

/-!
# Replies over a socket that takes less than it is offered

`reallySend` calls `send` once, and its callers do not look at what it returns. So a client receives the whole of a reply exactly when
each call takes all it is offered (`received_whole_iff`), and no reply but the empty one survives every short write.
-/

namespace Traccoon

open CString

/-- Each call takes a first part of the piece it is offered, of one byte at least if the piece has any. -/
def TakesSome (send : SendAnswers) (pieces : List Bytes) : Prop :=
  ∀ (k : Nat) piece, pieces[k]? = some piece → send k ≤ piece.length ∧ (piece ≠ [] → 1 ≤ send k)

namespace ShortWritesAux

variable {send : SendAnswers}

/-- No more is received than is sent. -/
theorem length_sendPieces_le (send : SendAnswers) (pieces : List Bytes) (fd : Connection) :
    (sendPieces send pieces fd).received.length ≤ fd.received.length + pieces.flatten.length := by
  induction pieces generalizing fd with
  | nil => exact Nat.le_refl _
  | cons piece pieces ih =>
    rw [sendPieces_cons]
    refine Nat.le_trans (ih _) ?_
    simp only [List.length_append, List.length_take, List.flatten_cons]
    omega

/-- A piece that is cut leaves the stream short for good. -/
theorem received_eq_iff (pieces : List Bytes) (fd : Connection)
    (h : ∀ (k : Nat) piece, pieces[k]? = some piece → send (fd.calls + k) ≤ piece.length) :
    (sendPieces send pieces fd).received = fd.received ++ pieces.flatten ↔
      ∀ (k : Nat) piece, pieces[k]? = some piece → send (fd.calls + k) = piece.length := by
  induction pieces generalizing fd with
  | nil => simp [sendPieces]
  | cons piece pieces ih =>
    have hfirst : send fd.calls ≤ piece.length := h 0 piece rfl
    have hrest : ∀ (k : Nat) p, pieces[k]? = some p → send (fd.calls + 1 + k) ≤ p.length := by
      intro k p hk
      rw [Nat.add_assoc, Nat.add_comm 1 k]
      exact h (k + 1) p hk
    rw [sendPieces_cons, List.flatten_cons, ← List.append_assoc]
    constructor
    · intro heq
      have hwhole : send fd.calls = piece.length := by
        have hle := length_sendPieces_le send pieces { calls := fd.calls + 1, received := fd.received ++ piece.take (send fd.calls) }
        rw [heq] at hle
        simp only [List.length_append, List.length_take] at hle
        omega
      rw [hwhole, List.take_length] at heq
      have hothers := (ih { calls := fd.calls + 1, received := fd.received ++ piece } hrest).1 heq
      intro k p hk
      cases k with
      | zero =>
        obtain rfl := Option.some.inj hk
        exact hwhole
      | succ k =>
        have := hothers k p hk
        rwa [Nat.add_assoc, Nat.add_comm 1 k] at this
    · intro hall
      have hwhole : send fd.calls = piece.length := hall 0 piece rfl
      rw [hwhole, List.take_length]
      refine (ih { calls := fd.calls + 1, received := fd.received ++ piece } hrest).2 ?_
      intro k p hk
      have := hall (k + 1) p hk
      rwa [← Nat.add_assoc, Nat.add_right_comm] at this

/-! ### How replies begin -/

/-- Nothing is sent, or the status line first. -/
def Headed (sent : List Bytes) : Prop := sent = [] ∨ ∃ rest, sent = ascii "HTTP/1.1 " :: rest

theorem headed_sendHttpHeaders (rcode headers : Bytes) (rest : List Bytes) : Headed (sendHttpHeaders rcode headers ++ rest) := by
  have hline : sendString (ascii "HTTP/1.1 ") = [ascii "HTTP/1.1 "] := by decide
  refine .inr ⟨(sendHttpHeaders rcode headers).tail ++ rest, ?_⟩
  rw [sendHttpHeaders, hline]
  rfl

theorem headed_headers (rcode headers : Bytes) : Headed (sendHttpHeaders rcode headers) := by
  rw [← List.append_nil (sendHttpHeaders rcode headers)]
  exact headed_sendHttpHeaders rcode headers []

theorem headed_track {inet : Inet} {ar : AnnounceRequest} {interval : Int} {e : TrackEnv} {db : Db} {effects : Effects}
    (h : track inet ar interval e db = some effects) : Headed effects.sent := by
  obtain ⟨ar', -, h⟩ := Option.bind_eq_some_iff.1 h
  simp only at h
  split at h
  · obtain rfl := Option.some.inj h
    exact headed_sendHttpHeaders _ _ _
  · split at h
    · obtain rfl := Option.some.inj h
      exact headed_sendHttpHeaders _ _ _
    · split at h
      · obtain rfl := Option.some.inj h
        exact headed_sendHttpHeaders _ _ _
      · split at h
        · obtain rfl := Option.some.inj h
          exact headed_sendHttpHeaders _ _ _
        · obtain ⟨r, -, h⟩ := Option.bind_eq_some_iff.1 h
          obtain rfl := Option.some.inj h
          exact headed_sendHttpHeaders _ _ _

theorem headed_scrape (hash : Option Bytes) (e : ScrapeEnv) (db : Db) : Headed (scrape hash e db).sent := by
  cases hash with
  | none => exact headed_headers _ _
  | some hash =>
    simp only [scrape]
    split
    · exact headed_sendHttpHeaders _ _ _
    · split
      · exact headed_sendHttpHeaders _ _ _
      · exact headed_sendHttpHeaders _ _ _

/-- The answers that a request carries with it. -/
def AnswersWith (P : List Bytes → Prop) : Request → Prop
  | .reply sent => P sent
  | .pending late => P late
  | _ => True

theorem headed_announceRequest (inet : Inet) (buffer : Bytes) (conn : Option SockAddr) :
    AnswersWith Headed (announceRequest inet buffer conn) := by
  unfold announceRequest
  split
  · trivial
  · split
    · unfold parseAnnounce
      split
      · split
        · trivial
        · exact headed_headers _ _
      · exact headed_headers _ _
    · exact headed_headers _ _

theorem headed_scrapeRequest {hashbuf : Vector UInt8 61} {buffer : Bytes} {request : Request}
    (h : scrapeRequest hashbuf buffer = some request) : AnswersWith Headed request := by
  unfold scrapeRequest at h
  split at h
  · unfold parseScrape at h
    split at h
    · obtain rfl := Option.some.inj h
      trivial
    · split at h
      · obtain ⟨hash, -, rfl⟩ := Option.map_eq_some_iff.1 h
        trivial
      · obtain rfl := Option.some.inj h
        exact .inl rfl
  · obtain rfl := Option.some.inj h
    exact headed_headers _ _

theorem headed_parseRequest {inet : Inet} {hashbuf : Vector UInt8 61} {text : Bytes} {conn : Option SockAddr} {request : Request}
    (h : parseRequest inet hashbuf text conn = some request) : AnswersWith Headed request := by
  rcases parseRequest_cases inet hashbuf text conn with ⟨t, rfl⟩ | ⟨t, rfl⟩ | hreply | hreply
  · rw [parseRequest_announce] at h
    obtain rfl := Option.some.inj h
    exact headed_announceRequest inet t conn
  · exact headed_scrapeRequest ((parseRequest_scrape inet hashbuf t conn).symm.trans h)
  · obtain rfl := Option.some.inj (hreply.symm.trans h)
    exact headed_sendHttpHeaders _ _ _
  · obtain rfl := Option.some.inj (hreply.symm.trans h)
    exact headed_headers _ _

theorem headed_reply {pieces : List Bytes} (h : Reply pieces) : Headed pieces := by
  cases h with
  | track h => exact headed_track h
  | scrape hash e db => exact headed_scrape hash e db
  | @parseSocket inet stack recvIter received announceInterval e db effects handled h =>
    unfold parseSocket at h
    simp only at h
    split at h
    · obtain ⟨rfl, -⟩ := Prod.mk.inj (Option.some.inj h)
      exact .inl rfl
    · obtain ⟨request, hrequest, h⟩ := Option.bind_eq_some_iff.1 h
      obtain ⟨text, -, hrequest⟩ := Option.bind_eq_some_iff.1 hrequest
      have hanswers := headed_parseRequest hrequest
      cases request with
      | announce ar =>
        obtain ⟨effects', ht, heq⟩ := Option.map_eq_some_iff.1 h
        obtain ⟨rfl, -⟩ := Prod.mk.inj heq
        exact headed_track ht
      | scrape hash =>
        obtain ⟨rfl, -⟩ := Prod.mk.inj (Option.some.inj h)
        exact headed_scrape hash e.scrape db
      | reply sent =>
        obtain ⟨rfl, -⟩ := Prod.mk.inj (Option.some.inj h)
        exact hanswers
      | dropped =>
        obtain ⟨rfl, -⟩ := Prod.mk.inj (Option.some.inj h)
        exact .inl rfl
      | pending late =>
        simp only [serve] at h
        split at h
        · obtain ⟨rfl, -⟩ := Prod.mk.inj (Option.some.inj h)
          exact hanswers
        · obtain ⟨rfl, -⟩ := Prod.mk.inj (Option.some.inj h)
          exact .inl rfl

/-! ### Sockets -/

/-- A socket that takes all it is offered. -/
def takesAll (pieces : List Bytes) : SendAnswers := fun k => ((pieces[k]?).map List.length).getD 0

theorem takesAll_eq {pieces : List Bytes} {k : Nat} {piece : Bytes} (hk : pieces[k]? = some piece) : takesAll pieces k = piece.length := by
  rw [takesAll, hk]
  rfl

theorem takesSome_takesAll (pieces : List Bytes) : TakesSome (takesAll pieces) pieces := by
  intro k piece hk
  rw [takesAll_eq hk]
  exact ⟨Nat.le_refl _, fun hne => List.length_pos_iff.2 hne⟩

/-- One piece is cut. -/
theorem takesSome_update {pieces : List Bytes} {k n : Nat} {piece : Bytes} (hk : pieces[k]? = some piece) (hn : 1 ≤ n ∧ n ≤ piece.length) :
    TakesSome (Function.update (takesAll pieces) k n) pieces := by
  intro j p hj
  by_cases hjk : j = k
  · subst hjk
    obtain rfl := Option.some.inj (hk.symm.trans hj)
    rw [Function.update_self]
    exact ⟨hn.2, fun _ => hn.1⟩
  · rw [Function.update_of_ne hjk]
    exact takesSome_takesAll pieces j p hj

end ShortWritesAux

open ShortWritesAux

/-- For every reply of `track`, `scrape` and `parseSocket`, and every socket whose calls of `send` take a first part of what they are
offered: the client receives the pieces of the reply in order with nothing missing exactly when each call takes all of its piece. A
reply that sends anything at all is damaged by some short write. -/
theorem received_whole_iff {pieces : List Bytes} (hreply : Reply pieces) (send : SendAnswers) (hsend : TakesSome send pieces) :
    ((sendPieces send pieces Connection.start).received = pieces.flatten ↔
      ∀ (k : Nat) piece, pieces[k]? = some piece → send k = piece.length) ∧
    (pieces ≠ [] → ∃ send, TakesSome send pieces ∧ (sendPieces send pieces Connection.start).received ≠ pieces.flatten) := by
  have hiff : ∀ send : SendAnswers, TakesSome send pieces → ((sendPieces send pieces Connection.start).received = pieces.flatten ↔
      ∀ (k : Nat) piece, pieces[k]? = some piece → send k = piece.length) := by
    intro send hsend
    have h := @received_eq_iff send pieces Connection.start (fun k piece hk => by
      rw [Connection.start, Nat.zero_add]
      exact (hsend k piece hk).1)
    simpa [Connection.start] using h
  refine ⟨hiff send hsend, fun hne => ?_⟩
  obtain ⟨rest, rfl⟩ := (headed_reply hreply).resolve_left hne
  -- one byte of the first piece is taken
  have hcut := @takesSome_update (ascii "HTTP/1.1 " :: rest) 0 1 _ rfl (by decide)
  refine ⟨_, hcut, fun heq => ?_⟩
  have hfirst := (hiff _ hcut).1 heq 0 _ rfl
  rw [Function.update_self] at hfirst
  exact absurd hfirst (by decide)

namespace ShortWritesExample

def hash : Bytes := ascii "00000000000000000000000000000000000000aa"

def env : ScrapeEnv := { torrent := .ok 0, seeds := .ok 0, completed := .ok 0, peers := .ok 0 }

/-- There is no torrent. -/
def db : Db := Db.blank

/-- The reply to a scrape of a hash that is not known. -/
def pieces : List Bytes := (scrape (some hash) env db).sent

theorem pieces_eq : pieces = [ascii "HTTP/1.1 ", ascii "200 OK", ascii "\r\n", ascii "X-LOLz-Had: much\r\n",
    ascii "Content-type: text/plain\r\nConnection: close\r\nServer: traccoon\r\n\r\n",
    ascii "d14:failure reason19:Hash not recognizede"] := by
  decide

/-- Everything is taken but the end of the fourth piece. -/
def cut : SendAnswers := Function.update (takesAll pieces) 3 10

end ShortWritesExample

open ShortWritesExample

/-- A header that is cut in its middle is not made up for: the client gets `X-LOLz-HadContent-type`. -/
theorem not_received_whole_cut : Reply pieces ∧ TakesSome cut pieces ∧
    (sendPieces cut pieces Connection.start).received ≠ pieces.flatten := by
  refine ⟨Reply.scrape _ env db, @takesSome_update _ _ _ (ascii "X-LOLz-Had: much\r\n") ?_ (by decide), ?_⟩
  · rw [pieces_eq]
    rfl
  · rw [cut, pieces_eq]
    decide

/-- A socket that takes everything delivers the reply. -/
theorem received_whole_iff_scrape : (sendPieces (takesAll pieces) pieces Connection.start).received = pieces.flatten :=
  (received_whole_iff (Reply.scrape _ env db) (takesAll pieces) (takesSome_takesAll pieces)).1.2 fun _ _ hk => takesAll_eq hk

end Traccoon
