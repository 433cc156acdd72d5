import Traccoon.Lemmas.FirstParts

/-!
# One answer for each connection

`parseSocket` answers late requests from iteration `MAX_RECV_ITER` on, and the loop of the worker those it leaves unhandled after that.
The two never both answer, and never both wait: whatever a client sends, and whatever the passes find, its slot is answered with at most
one status line, and is free again after `MAX_RECV_ITER`+1 iterations (`one_answer`).
-/

namespace Traccoon

open CString

/-- The status lines among the pieces sent: those that `sendHttpHeaders` begins with. -/
def statusLines (pieces : List Bytes) : Nat := pieces.countP (fun p => (ascii "HTTP/").isPrefixOf p)

/-- `recv` gives from 0 to 1023 bytes. -/
def Pass.Receives (p : Pass) : Prop := ∀ stack, p.round ≠ .readable stack none

/-- The call of `parseSocket` that a pass makes for a client, and what it comes to. -/
def Client.call (inet : Inet) (announceInterval : Int) (c : Client) (p : Pass) : Option (Effects × Bool) :=
  if c.closed then none
  else match p.round with
    | .idle => none
    | .readable stack received => parseSocket inet stack (c.recvIter + 1) received announceInterval p.env p.db

namespace OneAnswerAux

variable {inet : Inet} {announceInterval : Int}

/-! ## Pieces without a status line -/

theorem statusLines_append (a b : List Bytes) : statusLines (a ++ b) = statusLines a + statusLines b := List.countP_append

/-- A piece that does not begin with an H is no status line. -/
theorem statusLines_eq_zero {pieces : List Bytes} (h : ∀ p ∈ pieces, p.head? ≠ some 72) : statusLines pieces = 0 := by
  rw [statusLines, List.countP_eq_zero]
  intro p hp hpre
  obtain ⟨t, rfl⟩ := isPrefixOf_iff.1 hpre
  exact h _ hp rfl

/-- A formatted piece begins as its format does. -/
theorem head_snprintf {c : UInt8} (hc : c ≠ 0) (s : Bytes) : (cstr (snprintf trackBufSize (c :: s))).head? = some c := by
  have h : (c != 0) = true := by simpa using hc
  simp [snprintf, trackBufSize, cstr, h]

theorem head_peerEntry (noPeerId : Bool) (r : PeerRow) : (cstr (snprintf trackBufSize (peerEntry noPeerId r))).head? = some 100 := by
  cases noPeerId with
  | true => exact head_snprintf (by decide) _
  | false => exact head_snprintf (by decide) _

/-- No piece that the loop over the peers sends is a status line. -/
theorem peerLoop_pieces (inet : Inet) (ar : AnnounceRequest) (steps : List PeerStep) : ∀ (i : Int) (l : Listing),
    (∀ p ∈ l.sent, p.head? ≠ some 72) → ∀ p ∈ (peerLoop inet ar steps i l).sent, p.head? ≠ some 72 := by
  induction steps with
  | nil =>
    intro i l h
    exact h
  | cons s steps ih =>
    intro i l h
    cases s with
    | row r =>
      rw [peerLoop]
      split
      · refine ih (i + 1) _ ?_
        unfold pushPeer
        split
        · exact h
        · split
          · intro p hp
            rcases List.mem_append.1 hp with hp | hp
            · exact h p hp
            · obtain rfl := List.mem_singleton.1 hp
              rw [head_peerEntry]
              decide
          · split
            · split
              · exact h
              · exact h
            · split
              · exact h
              · exact h
      · exact h
    | done => exact h
    | fails code => exact h

/-- A piece of the compact form begins with the length of what it holds. -/
theorem head_compact (n : Nat) (s t : Bytes) : (snprintf trackBufSize (decimal n ++ s) ++ t).head? ≠ some 72 := by
  have hd := decimal_digits n
  obtain ⟨d, ds, hds⟩ := List.exists_cons_of_ne_nil (decimal_ne_nil n)
  rw [hds] at hd ⊢
  have hne : d ≠ 72 := by
    rintro rfl
    exact absurd (hd 72 (by simp)) (by decide)
  simp [snprintf, trackBufSize, hne]

theorem peerReply_pieces (ar : AnnounceRequest) (interval : Int) (steps : List PeerStep) :
    statusLines (peerReply inet ar interval steps) = 0 := by
  refine statusLines_eq_zero ?_
  intro p hp
  have hloop := peerLoop_pieces inet ar steps 0 { sent := [], buf4 := [], buf6 := [] } (by simp)
  simp only [peerReply, List.mem_append] at hp
  rcases hp with ((hp | hp) | hp) | hp
  · have hopen : (cstr (snprintf trackBufSize (respOpen interval ar.compact))).head? = some 100 := head_snprintf (by decide) _
    rw [List.mem_singleton.1 hp, hopen]
    decide
  · exact hloop p hp
  · split at hp
    · rcases List.mem_append.1 hp with hp | hp
      · obtain rfl := List.mem_singleton.1 hp
        exact head_compact _ _ _
      · split at hp
        · obtain rfl := List.mem_singleton.1 hp
          simp [snprintf, trackBufSize, ascii]
        · cases hp
    · cases hp
  · obtain rfl := List.mem_singleton.1 hp
    split
    · decide
    · decide

/-! ## What one call answers -/

theorem statusLines_ok : statusLines (sendHttpHeaders (ascii "200 OK") standardHeader) = 1 := by decide

/-- A reply of `track` has one status line. -/
theorem track_statusLines {ar : AnnounceRequest} {e : TrackEnv} {db : Db} {effects : Effects}
    (h : track inet ar announceInterval e db = some effects) : statusLines effects.sent ≤ 1 := by
  obtain ⟨ar', -, h⟩ := Option.bind_eq_some_iff.1 h
  have hline : ∀ piece : Bytes, piece.head? ≠ some 72 →
      statusLines (sendHttpHeaders (ascii "200 OK") standardHeader ++ [piece]) ≤ 1 := by
    intro piece hp
    rw [statusLines_append, statusLines_ok, statusLines_eq_zero (by simpa using hp)]
  simp only at h
  split at h
  · obtain rfl := Option.some.inj h
    exact hline _ (by decide)
  · split at h
    · obtain rfl := Option.some.inj h
      exact hline _ (by decide)
    · split at h
      · obtain rfl := Option.some.inj h
        exact hline _ (by decide)
      · split at h
        · obtain rfl := Option.some.inj h
          exact hline _ (by decide)
        · obtain ⟨r, -, h⟩ := Option.bind_eq_some_iff.1 h
          obtain rfl := Option.some.inj h
          simp only [statusLines_append, statusLines_ok, peerReply_pieces]
          exact Nat.le_refl _

/-- So has one of `scrape`. -/
theorem scrape_statusLines (hash : Option Bytes) (e : ScrapeEnv) (db : Db) : statusLines (scrape hash e db).sent ≤ 1 := by
  have hline : ∀ s : Bytes, statusLines (sendHttpHeaders (ascii "200 OK") standardHeader ++ sendString (100 :: s)) ≤ 1 := by
    intro s
    rw [statusLines_append, statusLines_ok, statusLines_eq_zero]
    intro p hp
    obtain rfl := List.mem_singleton.1 hp
    simp [cstr]
  cases hash with
  | none =>
    have h : statusLines (sendHttpHeaders (ascii "501 Not Implemented") standardHeader) = 1 := by decide
    exact Nat.le_of_eq h
  | some hash =>
    simp only [scrape]
    split
    · exact hline _
    · split
      · exact hline _
      · exact hline _

/-- The status lines in the answer that a request carries with it. -/
def answerLines : Request → Nat
  | .reply sent => statusLines sent
  | .pending late => statusLines late
  | _ => 0

theorem plainWrong_statusLines : statusLines plainWrong ≤ 1 := by decide

theorem announceRequest_answer (buffer : Bytes) (conn : Option SockAddr) : answerLines (announceRequest inet buffer conn) ≤ 1 := by
  have hparam : statusLines (sendHttpHeaders (ascii "400 Bad Syntax") (ascii "X-Failure-Reason: Failed Parameter Validation\r\n")) ≤ 1 := by
    decide
  have hmissing : statusLines (sendHttpHeaders (ascii "408 Timed out") (ascii "X-Failure-Reason: Missing parameters\r\n")) ≤ 1 := by
    decide
  unfold announceRequest
  split
  · exact Nat.zero_le 1
  · split
    · unfold parseAnnounce
      split
      · split
        · exact Nat.zero_le 1
        · exact hparam
      · exact hmissing
    · exact plainWrong_statusLines

theorem scrapeRequest_answer {hashbuf : Vector UInt8 61} {buffer : Bytes} {request : Request}
    (h : scrapeRequest hashbuf buffer = some request) : answerLines request ≤ 1 := by
  unfold scrapeRequest at h
  split at h
  · unfold parseScrape at h
    split at h
    · obtain rfl := Option.some.inj h
      exact Nat.zero_le 1
    · split at h
      · obtain ⟨hash, -, rfl⟩ := Option.map_eq_some_iff.1 h
        exact Nat.zero_le 1
      · obtain rfl := Option.some.inj h
        exact Nat.zero_le 1
  · obtain rfl := Option.some.inj h
    exact plainWrong_statusLines

/-- A text is parsed without reading outside the arrays, and the answer that comes with it has one status line at most. -/
theorem parseRequest_answer (inet : Inet) {text : Bytes} (hn : NoNul text) (hashbuf : Vector UInt8 61) (conn : Option SockAddr) :
    ∃ request, parseRequest inet hashbuf text conn = some request ∧ answerLines request ≤ 1 := by
  have hmilhouse : statusLines milhouse ≤ 1 := by decide
  have hmethod : statusLines notSupported ≤ 1 := by decide
  rcases parseRequest_cases inet hashbuf text conn with ⟨t, rfl⟩ | ⟨t, rfl⟩ | hp | hp
  · exact ⟨_, parseRequest_announce inet hashbuf t conn, announceRequest_answer t conn⟩
  · rw [parseRequest_scrape]
    obtain ⟨request, hr⟩ : ∃ request, scrapeRequest hashbuf t = some request := by
      rcases scrapeRequest_first (hn.of_suffix (List.suffix_append _ _)) [] with h | ⟨request, h⟩
      · exact ⟨_, h hashbuf⟩
      · exact ⟨request, (h hashbuf).1⟩
    exact ⟨request, hr, scrapeRequest_answer hr⟩
  · exact ⟨_, hp, hmilhouse⟩
  · exact ⟨_, hp, hmethod⟩

/-- A call that has peeked at from 0 to 1023 bytes returns. It sends one status line at most, and nothing if it returns false. -/
theorem parseSocket_answer (inet : Inet) (announceInterval : Int) (stack : Stack) (recvIter : Nat) (received : Bytes)
    (e : ClientEnv) (db : Db) :
    ∃ effects handled, parseSocket inet stack recvIter (some received) announceInterval e db = some (effects, handled) ∧
      statusLines effects.sent ≤ 1 ∧ (handled = false → effects.sent = []) := by
  simp only [parseSocket, Option.map_some]
  split
  · exact ⟨_, true, rfl, Nat.zero_le 1, fun _ => rfl⟩
  · have hpeek : ∀ request, parseRequest inet stack.hashbuf (cstr (received.take recvSize)) e.conn = some request →
        peekRequest inet stack (some (received.take recvSize)) e.conn = some request := by
      intro request h
      simp only [peekRequest, bufText, cstr_append_nul_any, Option.bind_eq_bind, Option.bind_some, h]
    obtain ⟨request, hr, hlines⟩ := parseRequest_answer inet (noNul_cstr (received.take recvSize)) stack.hashbuf e.conn
    simp only [hpeek request hr, Option.bind_eq_bind, Option.bind_some]
    cases request with
    | announce ar =>
      obtain ⟨infoHash, hp⟩ := prepareData_built (Builds.built ⟨stack, _, e.conn, hpeek _ hr⟩)
      obtain ⟨effects, ht, -⟩ := track_lookups inet hp announceInterval e.track db
      refine ⟨effects, true, by rw [serve, ht]; rfl, track_statusLines ht, fun h => by cases h⟩
    | scrape hash => exact ⟨_, true, rfl, scrape_statusLines hash e.scrape db, fun h => by cases h⟩
    | reply sent => exact ⟨_, true, rfl, hlines, fun h => by cases h⟩
    | dropped => exact ⟨_, true, rfl, Nat.zero_le 1, fun h => by cases h⟩
    | pending late =>
      rw [serve]
      split
      · exact ⟨_, true, rfl, hlines, fun h => by cases h⟩
      · exact ⟨_, false, rfl, Nat.zero_le 1, fun _ => rfl⟩

/-! ## The passes over one slot -/

/-- What holds of a slot after `n` passes: while it is open it has been sent nothing and each pass has been counted. -/
structure SlotInv (n : Nat) (c : Client) : Prop where
  open_ : c.closed = false → c.recvIter = n ∧ c.effects.sent = []
  iter : c.recvIter ≤ maxRecvIter + 1
  full : c.recvIter = maxRecvIter + 1 → c.closed = true
  lines : statusLines c.effects.sent ≤ 1

theorem slotInv_start (db : Db) : SlotInv 0 (Client.start db) :=
  { open_ := fun _ => ⟨rfl, rfl⟩
    iter := Nat.zero_le _
    full := fun h => by cases h
    lines := Nat.zero_le 1 }

/-- A closed slot is left alone. -/
theorem pass_closed {c : Client} (h : c.closed = true) (p : Pass) :
    c.pass inet announceInterval p = some { c with effects := { c.effects with db := p.db } } := by
  rw [Client.pass, Client.round, if_pos h]

/-- A pass over an open slot: what its call sends, if it makes one, and the late answer if the request is still not handled then. -/
theorem pass_open (inet : Inet) (announceInterval : Int) {c : Client} (hc : c.closed = false) {p : Pass} (hp : p.Receives) :
    ∃ sent handled after, c.pass inet announceInterval p = some after ∧ after.recvIter = c.recvIter + 1 ∧
      after.closed = (handled || decide (c.recvIter + 1 > maxRecvIter)) ∧
      after.effects.sent = c.effects.sent ++ sent ++ (if !handled && decide (c.recvIter + 1 > maxRecvIter) then wrongDoing else []) ∧
      statusLines sent ≤ 1 ∧ (handled = false → sent = []) ∧
      ∀ effects handled', c.call inet announceInterval p = some (effects, handled') → handled' = handled ∧ effects.sent = sent := by
  obtain ⟨r, env, db⟩ := p
  cases r with
  | idle =>
    refine ⟨[], false, ?_⟩
    simp only [Client.pass, Client.round, Client.call, hc, Bool.false_eq_true, if_false, Option.bind_eq_bind, Option.bind_some,
      Bool.not_false, Bool.true_and, Bool.false_or]
    by_cases hlate : c.recvIter + 1 > maxRecvIter
    · simp only [hlate, decide_true, if_true]
      exact ⟨_, rfl, rfl, rfl, rfl, Nat.zero_le 1, fun _ => trivial, fun _ _ h => by cases h⟩
    · simp only [hlate, decide_false, Bool.false_eq_true, if_false]
      exact ⟨_, rfl, rfl, rfl, by simp [Effects.andThen, Effects.none], Nat.zero_le 1, fun _ => trivial, fun _ _ h => by cases h⟩
  | readable stack received =>
    cases received with
    | none => exact absurd rfl (hp stack)
    | some received =>
      obtain ⟨effects, handled, hcall, hlines, hsent⟩ :=
        parseSocket_answer inet announceInterval stack (c.recvIter + 1) received env db
      refine ⟨effects.sent, handled, ?_⟩
      simp only [Client.pass, Client.round, Client.call, hc, Bool.false_eq_true, if_false, Option.bind_eq_bind, hcall,
        Option.bind_some]
      have hsame : ∀ effects' handled', some (effects, handled) = some (effects', handled') →
          handled' = handled ∧ effects'.sent = effects.sent := by
        intro effects' handled' h
        obtain ⟨rfl, rfl⟩ := Prod.mk.inj (Option.some.inj h)
        exact ⟨rfl, rfl⟩
      by_cases hlate : (!handled && decide (c.recvIter + 1 > maxRecvIter)) = true
      · simp only [hlate, if_true]
        simp only [Bool.and_eq_true] at hlate
        exact ⟨_, rfl, rfl, by rw [hlate.2, Bool.or_true], rfl, hlines, hsent, hsame⟩
      · simp only [hlate]
        refine ⟨_, rfl, rfl, ?_, by simp [Effects.andThen], hlines, hsent, hsame⟩
        cases handled with
        | true => rfl
        | false => simpa using hlate

theorem wrongDoing_statusLines : statusLines wrongDoing = 1 := by decide

/-- A pass keeps the invariant. -/
theorem slotInv_pass (inet : Inet) (announceInterval : Int) {n : Nat} {c : Client} (h : SlotInv n c) {p : Pass} (hp : p.Receives) :
    ∃ after, c.pass inet announceInterval p = some after ∧ SlotInv (n + 1) after := by
  cases hc : c.closed with
  | true =>
    refine ⟨_, pass_closed hc p, ?_⟩
    exact { open_ := fun ho => absurd (hc.symm.trans ho) (by decide), iter := h.iter, full := fun _ => hc, lines := h.lines }
  | false =>
    obtain ⟨hn, hnone⟩ := h.open_ hc
    have hle : c.recvIter ≤ maxRecvIter := by
      have h1 := h.iter
      have h2 : c.recvIter ≠ maxRecvIter + 1 := fun hf => absurd (hc.symm.trans (h.full hf)) (by decide)
      omega
    obtain ⟨sent, handled, after, hpass, hiter, hclosed, hsent, hlines, hquiet, -⟩ := pass_open inet announceInterval hc hp
    refine ⟨after, hpass, ?_⟩
    rw [hnone, List.nil_append] at hsent
    refine { open_ := ?_, iter := by omega, full := ?_, lines := ?_ }
    · intro ho
      rw [hclosed, Bool.or_eq_false_iff] at ho
      refine ⟨by omega, ?_⟩
      rw [hsent, hquiet ho.1, ho.2, Bool.and_false]
      rfl
    · intro hfull
      have hlate : c.recvIter + 1 > maxRecvIter := by omega
      rw [hclosed, decide_eq_true hlate, Bool.or_true]
    · rw [hsent, statusLines_append]
      cases handled with
      | true => simpa [statusLines] using hlines
      | false =>
        rw [hquiet rfl]
        split
        · exact Nat.le_of_eq (by rw [wrongDoing_statusLines]; rfl)
        · exact Nat.zero_le 1

/-- So do any passes, one after the other. -/
theorem slotInv_passes (inet : Inet) (announceInterval : Int) (passes : List Pass) : ∀ {n : Nat} {c : Client}, SlotInv n c →
    (∀ p ∈ passes, p.Receives) →
    ∃ after, c.passes inet announceInterval passes = some after ∧ SlotInv (n + passes.length) after := by
  induction passes with
  | nil =>
    intro n c h _
    exact ⟨c, rfl, h⟩
  | cons p passes ih =>
    intro n c h hrecv
    obtain ⟨mid, hp, hmid⟩ := slotInv_pass inet announceInterval h (hrecv p (by simp))
    obtain ⟨after, hps, hafter⟩ := ih hmid fun q hq => hrecv q (by simp [hq])
    refine ⟨after, by rw [Client.passes, hp, Option.bind_some, hps], ?_⟩
    rwa [List.length_cons, Nat.add_comm passes.length 1, ← Nat.add_assoc]

theorem passes_append (as bs : List Pass) : ∀ c : Client, c.passes inet announceInterval (as ++ bs) =
    (c.passes inet announceInterval as).bind (Client.passes inet announceInterval bs) := by
  induction as with
  | nil =>
    intro c
    rfl
  | cons p as ih =>
    intro c
    rw [List.cons_append, Client.passes, Client.passes, Option.bind_assoc]
    congr 1
    funext d
    exact ih d

/-- Nothing more is sent over a closed slot. -/
theorem passes_closed (inet : Inet) (announceInterval : Int) (passes : List Pass) : ∀ {c : Client}, c.closed = true →
    ∃ d, c.passes inet announceInterval passes = some d ∧ d.closed = true ∧ d.effects.sent = c.effects.sent := by
  induction passes with
  | nil =>
    intro c h
    exact ⟨c, rfl, h, rfl⟩
  | cons p passes ih =>
    intro c h
    rw [Client.passes, pass_closed h, Option.bind_some]
    exact ih h

end OneAnswerAux

open OneAnswerAux

/-- For every sequence of passes over one slot, each with any bytes to peek at or none, any answers to the calls it makes and any tables:
one status line at most is sent; each pass over the open slot counts an iteration, and with iteration `MAX_RECV_ITER`+1 it is closed. A
call that returns false has sent nothing, and one that returns true closes the slot. Once the slot is closed no call is made for it and
nothing is sent. -/
theorem one_answer (inet : Inet) (announceInterval : Int) (db : Db) (passes : List Pass) (hrecv : ∀ p ∈ passes, p.Receives) :
    (∃ c, (Client.start db).passes inet announceInterval passes = some c ∧ statusLines c.effects.sent ≤ 1 ∧
      (c.closed = false → c.recvIter = passes.length) ∧ (maxRecvIter + 1 ≤ passes.length → c.closed = true)) ∧
    (∀ pre p post, passes = pre ++ p :: post →
      ∃ before after, (Client.start db).passes inet announceInterval pre = some before ∧
        before.pass inet announceInterval p = some after ∧
        (∀ effects, before.call inet announceInterval p = some (effects, false) → effects.sent = []) ∧
        ∀ effects, before.call inet announceInterval p = some (effects, true) → after.closed = true) ∧
    ∀ pre mid p post, passes = pre ++ mid ++ p :: post →
      ∀ c, (Client.start db).passes inet announceInterval pre = some c → c.closed = true →
        ∃ d, (Client.start db).passes inet announceInterval (pre ++ mid) = some d ∧ d.call inet announceInterval p = none ∧
          d.effects.sent = c.effects.sent := by
  refine ⟨?_, ?_, ?_⟩
  · obtain ⟨c, hc, hinv⟩ := slotInv_passes inet announceInterval passes (slotInv_start db) hrecv
    refine ⟨c, hc, hinv.lines, ?_, ?_⟩
    · intro ho
      rw [(hinv.open_ ho).1, Nat.zero_add]
    · intro hn
      by_contra ho
      have hfalse : c.closed = false := by simpa using ho
      have h1 := (hinv.open_ hfalse).1
      have h2 := hinv.iter
      exact ho (hinv.full (by omega))
  · intro pre p post hsplit
    have hpre : ∀ q ∈ pre, q.Receives := fun q hq => hrecv q (by simp [hsplit, hq])
    have hp : p.Receives := hrecv p (by simp [hsplit])
    obtain ⟨before, hb, -⟩ := slotInv_passes inet announceInterval pre (slotInv_start db) hpre
    cases hc : before.closed with
    | true =>
      have hnone : before.call inet announceInterval p = none := by rw [Client.call, if_pos hc]
      refine ⟨before, _, hb, pass_closed hc p, ?_, ?_⟩
      · intro effects h
        cases hnone.symm.trans h
      · intro effects h
        cases hnone.symm.trans h
    | false =>
      obtain ⟨sent, handled, after, hpass, -, hclosed, -, -, hquiet, hcall⟩ := pass_open inet announceInterval hc hp
      refine ⟨before, after, hb, hpass, ?_, ?_⟩
      · intro effects h
        obtain ⟨hh, hs⟩ := hcall effects false h
        rw [hs, hquiet hh.symm]
      · intro effects h
        obtain ⟨hh, -⟩ := hcall effects true h
        rw [hclosed, ← hh, Bool.true_or]
  · intro pre mid p post _ c hc hclosed
    obtain ⟨d, hd, hdc, hsent⟩ := passes_closed inet announceInterval mid hclosed
    refine ⟨d, by rw [passes_append, hc, Option.bind_some, hd], ?_, hsent⟩
    rw [Client.call, if_pos hdc]

namespace OneAnswerExample

/-- A pass in which `select` does not report the socket. -/
def idle : Pass :=
  { round := .idle
    env :=
      { conn := none
        track := { torrent := .ok 0, prepare := sqliteOk, bind := sqliteOk, steps := [], first := .ok 0, again := .ok 0 }
        scrape := { torrent := .ok 0, seeds := .ok 0, completed := .ok 0, peers := .ok 0 } }
    db := Db.blank }

/-- A pass in which there are these bytes to peek at. -/
def readable (received : Bytes) : Pass :=
  { idle with round := .readable { buf := Vector.replicate 1024 0, hashbuf := Vector.replicate 61 0 } (some received) }

end OneAnswerExample

open OneAnswerExample

/-- A client that sends the first part of an announce and then nothing is closed after 201 passes, with one status line. -/
theorem one_answer_slow :
    ∃ c, (Client.start idle.db).passes PlainInet.inet 300 (readable (ascii "GET /announce?") :: List.replicate 200 idle) = some c ∧
      statusLines c.effects.sent ≤ 1 ∧ c.closed = true := by
  have h := (one_answer PlainInet.inet 300 idle.db (readable (ascii "GET /announce?") :: List.replicate 200 idle) (by
    intro p hp stack
    rcases List.mem_cons.1 hp with rfl | hp
    · exact fun h => by cases h
    · rw [List.eq_of_mem_replicate hp]
      exact fun h => by cases h)).1
  obtain ⟨c, hc, hlines, -, hclosed⟩ := h
  exact ⟨c, hc, hlines, hclosed (by rw [List.length_cons, List.length_replicate]; exact Nat.le_refl _)⟩

end Traccoon
