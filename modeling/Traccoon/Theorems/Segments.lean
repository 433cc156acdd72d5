import Traccoon.Lemmas.FirstParts

/-!
# Requests that arrive in segments

The dispatch of `parseSocket` rejects what is not yet a whole `GET /announce` or `GET /scrape` at once, where behind the command it
waits. So a request split into segments has the outcome of the whole one exactly when no pass of the worker meets some of the
command and not all of it (`sameOutcome_iff`).
-/

namespace Traccoon

open CString

/-- What happens while a request is on its way: a segment of it arrives, or the loop of the worker passes the client. -/
inductive Delivery where
  | segment (s : Bytes)
  | pass (stack : Stack)

/-- The bytes that have arrived. -/
def arrived : List Delivery → Bytes
  | [] => []
  | .segment s :: ds => s ++ arrived ds
  | .pass _ :: ds => arrived ds

/-- The rounds that the worker makes, when `a` has arrived before. A socket with nothing to read is not readable, and the peek gives
all that has arrived. -/
def rounds : Bytes → List Delivery → List Round
  | _, [] => []
  | a, .segment s :: ds => rounds (a ++ s) ds
  | a, .pass stack :: ds => (if a = [] then .idle else .readable stack (some a)) :: rounds a ds

/-- The request is split into segments; the worker passes the client fewer than `MAX_RECV_ITER` times, the last of them when all of
it has arrived. -/
structure Splits (request : Bytes) (ds : List Delivery) : Prop where
  segments : ∀ s, .segment s ∈ ds → s ≠ []
  whole : arrived ds = request
  last : ∃ ds' stack, ds = ds' ++ [.pass stack]
  few : (rounds [] ds).length < maxRecvIter

/-- A client served while its request arrives. -/
def serveClient (inet : Inet) (announceInterval : Int) (e : ClientEnv) (db : Db) (ds : List Delivery) : Option Client :=
  Client.run inet announceInterval e (rounds [] ds) (Client.start db)

/-- Served both ways, the client gets the same bytes, and the tables are left the same. -/
def SameOutcome (inet : Inet) (announceInterval : Int) (e : ClientEnv) (db : Db) (ds ds' : List Delivery) : Prop :=
  ∃ c c', serveClient inet announceInterval e db ds = some c ∧ serveClient inet announceInterval e db ds' = some c' ∧
    c.effects.sent.flatten = c'.effects.sent.flatten ∧ c.effects.db = c'.effects.db

/-- A pass meets some bytes, but fewer than the command has, when `a` has arrived before. -/
def looksEarly (command : Bytes) : Bytes → List Delivery → Bool
  | _, [] => false
  | a, .segment s :: ds => looksEarly command (a ++ s) ds
  | a, .pass _ :: ds => (a != [] && decide (a.length < command.length)) || looksEarly command a ds

namespace SegmentsAux

variable {inet : Inet} {announceInterval : Int} {e : ClientEnv} {db : Db}

theorem arrived_append (ds ds' : List Delivery) : arrived (ds ++ ds') = arrived ds ++ arrived ds' := by
  induction ds with
  | nil => rfl
  | cons d ds ih =>
    cases d with
    | segment s => simp only [List.cons_append, arrived, ih, List.append_assoc]
    | pass stack => simp only [List.cons_append, arrived, ih]

theorem rounds_append (ds ds' : List Delivery) : ∀ a, rounds a (ds ++ ds') = rounds a ds ++ rounds (a ++ arrived ds) ds' := by
  induction ds with
  | nil => simp [rounds, arrived]
  | cons d ds ih =>
    intro a
    cases d with
    | segment s => simp only [List.cons_append, rounds, arrived, ih, List.append_assoc]
    | pass stack => simp only [List.cons_append, rounds, arrived, ih]

theorem looksEarly_append (command : Bytes) (ds ds' : List Delivery) : ∀ a,
    looksEarly command a (ds ++ ds') = (looksEarly command a ds || looksEarly command (a ++ arrived ds) ds') := by
  induction ds with
  | nil => simp [looksEarly, arrived]
  | cons d ds ih =>
    intro a
    cases d with
    | segment s => simp only [List.cons_append, looksEarly, arrived, ih, List.append_assoc]
    | pass stack => simp only [List.cons_append, looksEarly, arrived, ih, Bool.or_assoc]

/-! ## Runs -/

/-- A client for which nothing has been done. -/
def Waiting (db : Db) (c : Client) : Prop := c.closed = false ∧ c.effects = Effects.none db

theorem run_append (rs rs' : List Round) (c : Client) :
    Client.run inet announceInterval e (rs ++ rs') c =
      (Client.run inet announceInterval e rs c).bind (Client.run inet announceInterval e rs') := by
  induction rs generalizing c with
  | nil => rfl
  | cons r rs ih =>
    simp only [List.cons_append, Client.run_cons, Option.bind_assoc]
    congr 1
    funext c'
    exact ih c'

/-- A pass over a waiting client when `p` has arrived. -/
theorem round_waiting {c : Client} (hw : Waiting db c) (hn : c.recvIter < maxRecvIter) {stack : Stack} {received : Option Bytes}
    {effects : Effects} {handled : Bool}
    (h : parseSocket inet stack (c.recvIter + 1) received announceInterval e db = some (effects, handled)) :
    c.round inet announceInterval e (.readable stack received) =
      some { recvIter := c.recvIter + 1, closed := handled, effects := effects } := by
  obtain ⟨hc, he⟩ := hw
  rw [Client.round_readable hc hn (by rw [he]; exact h), he, Effects.none_andThen]

/-- While no pass looks early, the client waits, or it has been closed with the outcome of the whole request. -/
theorem run_first {command t : Bytes} {effects : Effects} {handled : Bool} (hnone : handled = false → effects = Effects.none db)
    (hfirst : ∀ q, q <+: t → ∀ stack, ∀ n < maxRecvIter,
      parseSocket inet stack n (some (command ++ q)) announceInterval e db = some (Effects.none db, false) ∨
      parseSocket inet stack n (some (command ++ q)) announceInterval e db = some (effects, handled)) (ds : List Delivery) :
    ∀ (a : Bytes) (c : Client), Waiting db c → c.recvIter + (rounds a ds).length < maxRecvIter → a ++ arrived ds <+: command ++ t →
      looksEarly command a ds = false →
      ∃ c', Client.run inet announceInterval e (rounds a ds) c = some c' ∧
        ((Waiting db c' ∧ c'.recvIter = c.recvIter + (rounds a ds).length) ∨ (c'.closed = true ∧ c'.effects = effects)) := by
  induction ds with
  | nil =>
    intro a c hw _ _ _
    exact ⟨c, rfl, Or.inl ⟨hw, rfl⟩⟩
  | cons d ds ih =>
    intro a c hw hn ha hl
    cases d with
    | segment s => exact ih (a ++ s) c hw hn (by simpa only [arrived, List.append_assoc] using ha) hl
    | pass stack =>
      simp only [arrived] at ha
      simp only [looksEarly, Bool.or_eq_false_iff] at hl
      simp only [rounds, List.length_cons] at hn ⊢
      have hc := hw.1
      by_cases h0 : a = []
      · -- nothing to read yet
        rw [if_pos h0, Client.run_cons, Client.round_idle hc (by omega), Option.bind_some]
        obtain ⟨c', hrun, hc'⟩ := ih a { c with recvIter := c.recvIter + 1 } hw (by simp only; omega) ha hl.2
        refine ⟨c', hrun, ?_⟩
        rcases hc' with ⟨hw', hi⟩ | hc'
        · exact Or.inl ⟨hw', by rw [hi]; simp only; omega⟩
        · exact Or.inr hc'
      · -- the pass meets the whole command
        have hlen : command.length ≤ a.length := by
          have := hl.1
          simp only [Bool.and_eq_false_iff, bne_eq_false_iff_eq, h0, false_or, decide_eq_false_iff_not] at this
          omega
        have hpre : a <+: command ++ t := (List.prefix_append a _).trans ha
        obtain ⟨q, rfl⟩ := List.prefix_of_prefix_length_le (List.prefix_append command t) hpre hlen
        have hq : q <+: t := (List.prefix_append_right_inj command).1 hpre
        rw [if_neg h0, Client.run_cons]
        have hwait : ∃ c', Client.run inet announceInterval e (rounds (command ++ q) ds)
              { recvIter := c.recvIter + 1, closed := false, effects := Effects.none db } = some c' ∧
            ((Waiting db c' ∧ c'.recvIter = c.recvIter + ((rounds (command ++ q) ds).length + 1)) ∨
              (c'.closed = true ∧ c'.effects = effects)) := by
          obtain ⟨c', hrun, hc'⟩ := ih (command ++ q) { recvIter := c.recvIter + 1, closed := false, effects := Effects.none db }
            ⟨rfl, rfl⟩ (by simp only; omega) ha hl.2
          refine ⟨c', hrun, ?_⟩
          rcases hc' with ⟨hw', hi⟩ | hc'
          · exact Or.inl ⟨hw', by rw [hi]; simp only; omega⟩
          · exact Or.inr hc'
        rcases hfirst q hq stack (c.recvIter + 1) (by omega) with h | h
        · rw [round_waiting hw (by omega) h, Option.bind_some]
          exact hwait
        · rw [round_waiting hw (by omega) h, Option.bind_some]
          cases handled with
          | true => exact ⟨_, Client.run_closed _ rfl, Or.inr ⟨rfl, rfl⟩⟩
          | false =>
            rw [hnone rfl]
            rw [hnone rfl] at hwait
            exact hwait

theorem looksEarly_of_le (command : Bytes) {a : Bytes} {ds : List Delivery} (h : command.length ≤ a.length) :
    looksEarly command a ds = false := by
  induction ds generalizing a with
  | nil => rfl
  | cons d ds ih =>
    cases d with
    | segment s => exact ih (by simp only [List.length_append]; omega)
    | pass stack => simp [looksEarly, ih h, Nat.not_lt.2 h]

/-- Once a pass looks early, the client has been closed with an answer to another request. -/
theorem run_early {command : Bytes} (hc : command ∈ commands) (t : Bytes) (ds : List Delivery) :
    ∀ (a : Bytes) (c : Client), Waiting db c → c.recvIter + (rounds a ds).length < maxRecvIter → a ++ arrived ds <+: command ++ t →
      looksEarly command a ds = true →
      ∃ c', Client.run inet announceInterval e (rounds a ds) c = some c' ∧
        (c'.effects.sent = milhouse ∨ c'.effects.sent = notSupported) := by
  induction ds with
  | nil =>
    intro a c _ _ _ hl
    cases hl
  | cons d ds ih =>
    intro a c hw hn ha hl
    cases d with
    | segment s => exact ih (a ++ s) c hw hn (by simpa only [arrived, List.append_assoc] using ha) hl
    | pass stack =>
      simp only [arrived] at ha
      simp only [looksEarly, Bool.or_eq_true] at hl
      simp only [rounds, List.length_cons] at hn ⊢
      have hcl := hw.1
      by_cases h0 : a = []
      · rw [if_pos h0, Client.run_cons, Client.round_idle hcl (by omega), Option.bind_some]
        refine ih a { c with recvIter := c.recvIter + 1 } hw (by simp only; omega) ha ?_
        rcases hl with hl | hl
        · simp [h0] at hl
        · exact hl
      · have hpre : a <+: command ++ t := (List.prefix_append a _).trans ha
        have hlt : a.length < command.length := by
          rcases hl with hl | hl
          · simp only [Bool.and_eq_true, decide_eq_true_eq] at hl
            exact hl.2
          · by_contra hle
            rw [looksEarly_of_le command (Nat.not_lt.1 hle)] at hl
            cases hl
        have hac : a <+: command := List.prefix_of_prefix_length_le hpre (List.prefix_append command t) (Nat.le_of_lt hlt)
        obtain ⟨sent, hsent, h⟩ := parseSocket_early hc hac h0 hlt stack (c.recvIter + 1)
        rw [if_neg h0, Client.run_cons, round_waiting hw (by omega) h, Option.bind_some]
        exact ⟨_, Client.run_closed _ rfl, hsent⟩

theorem waiting_start (db : Db) : Waiting db (Client.start db) := ⟨rfl, rfl⟩

/-- A client served without an early look ends with the outcome of the whole request. -/
theorem serveClient_first {command t : Bytes} {ds : List Delivery} (hs : Splits (command ++ t) ds) (h0 : command ≠ [])
    {effects : Effects} {handled : Bool} (hnone : handled = false → effects = Effects.none db)
    (hwhole : ∀ stack, ∀ n < maxRecvIter,
      parseSocket inet stack n (some (command ++ t)) announceInterval e db = some (effects, handled))
    (hfirst : ∀ q, q <+: t → ∀ stack, ∀ n < maxRecvIter,
      parseSocket inet stack n (some (command ++ q)) announceInterval e db = some (Effects.none db, false) ∨
      parseSocket inet stack n (some (command ++ q)) announceInterval e db = some (effects, handled))
    (hl : looksEarly command [] ds = false) :
    ∃ c, serveClient inet announceInterval e db ds = some c ∧ c.effects = effects := by
  obtain ⟨ds', stack, rfl⟩ := hs.last
  have hall := hs.whole
  have hfew := hs.few
  simp only [arrived_append, arrived, List.append_nil] at hall
  simp only [rounds_append, rounds, List.nil_append, hall, List.length_append, List.length_cons, List.length_nil] at hfew
  rw [looksEarly_append, Bool.or_eq_false_iff] at hl
  have hstart : (Client.start db).recvIter = 0 := rfl
  obtain ⟨c, hrun, hc⟩ := run_first hnone hfirst ds' [] (Client.start db) (waiting_start db) (by omega)
    (by rw [List.nil_append, hall]) hl.1
  have hne : command ++ t ≠ [] := fun h => h0 (List.append_eq_nil_iff.1 h).1
  simp only [serveClient, rounds_append, rounds, List.nil_append, hall, if_neg hne]
  rw [run_append, hrun, Option.bind_some, Client.run_cons]
  rcases hc with ⟨hw, hi⟩ | ⟨hcl, he⟩
  · have h := hwhole stack (c.recvIter + 1) (by omega)
    rw [round_waiting hw (by omega) h]
    exact ⟨_, rfl, rfl⟩
  · rw [← Client.run_cons]
    exact ⟨c, Client.run_closed _ hcl, he⟩

/-- A client that is looked at early ends with an answer to another request. -/
theorem serveClient_early {command : Bytes} (hc : command ∈ commands) {t : Bytes} {ds : List Delivery}
    (hs : Splits (command ++ t) ds) (hl : looksEarly command [] ds = true) :
    ∃ c, serveClient inet announceInterval e db ds = some c ∧ (c.effects.sent = milhouse ∨ c.effects.sent = notSupported) := by
  have hstart : (Client.start db).recvIter = 0 := rfl
  have hfew := hs.few
  exact run_early hc t ds [] (Client.start db) (waiting_start db) (by omega) (by rw [List.nil_append, hs.whole]) hl

theorem splits_one {command : Bytes} (hc : command ∈ commands) (t : Bytes) (stack : Stack) :
    Splits (command ++ t) [.segment (command ++ t), .pass stack] :=
  { segments := by simp [ne_nil_of_mem_commands hc]
    whole := by simp [arrived]
    last := ⟨[_], stack, rfl⟩
    few := by simp [rounds, maxRecvIter] }

/-- Two ways of receiving a request without an early look have the same outcome. -/
theorem sameOutcome {command t : Bytes} (hc : command ∈ commands) (hlen : (command ++ t).length < recvSize)
    {ds ds' : List Delivery} (hs : Splits (command ++ t) ds) (hs' : Splits (command ++ t) ds')
    (hl : looksEarly command [] ds = false) (hl' : looksEarly command [] ds' = false) :
    SameOutcome inet announceInterval e db ds ds' := by
  obtain ⟨effects, handled, hnone, -, hwhole, hfirst⟩ := parseSocket_first hc t hlen
  obtain ⟨c, hrun, he⟩ := serveClient_first hs (ne_nil_of_mem_commands hc) hnone hwhole hfirst hl
  obtain ⟨c', hrun', he'⟩ := serveClient_first hs' (ne_nil_of_mem_commands hc) hnone hwhole hfirst hl'
  exact ⟨c, c', hrun, hrun', by rw [he, he'], by rw [he, he']⟩

/-- With an early look in one of them only, they have not. -/
theorem not_sameOutcome {command t : Bytes} (hc : command ∈ commands) (hlen : (command ++ t).length < recvSize)
    {ds ds' : List Delivery} (hs : Splits (command ++ t) ds) (hs' : Splits (command ++ t) ds')
    (hl : looksEarly command [] ds = true) (hl' : looksEarly command [] ds' = false) :
    ¬SameOutcome inet announceInterval e db ds ds' := by
  obtain ⟨effects, handled, hnone, hreply, hwhole, hfirst⟩ := parseSocket_first hc t hlen
  obtain ⟨c, hrun, hbad⟩ := serveClient_early hc hs hl
  obtain ⟨c', hrun', he'⟩ := serveClient_first hs' (ne_nil_of_mem_commands hc) hnone hwhole hfirst hl'
  intro h
  obtain ⟨d, d', hd, hd', hsent, -⟩ := h
  obtain rfl := Option.some.inj (hd.symm.trans hrun)
  obtain rfl := Option.some.inj (hd'.symm.trans hrun')
  rw [he'] at hsent
  exact ne_wholeReply hbad hreply hsent

end SegmentsAux

open SegmentsAux

/-- For every announce and every scrape shorter than the peek, every split of it and every schedule of passes, the outcome is that of
the request in one segment exactly when no pass meets some bytes of the command and not all of them. -/
theorem sameOutcome_iff (inet : Inet) (announceInterval : Int) (e : ClientEnv) (db : Db) (command : Bytes)
    (hc : command ∈ commands) (t : Bytes) (hlen : (command ++ t).length < recvSize) (ds : List Delivery)
    (hs : Splits (command ++ t) ds) (stack : Stack) :
    SameOutcome inet announceInterval e db ds [.segment (command ++ t), .pass stack] ↔ looksEarly command [] ds = false := by
  have hone := splits_one hc t stack
  constructor
  · intro h
    rw [← Bool.not_eq_true]
    intro hl
    exact not_sameOutcome hc hlen hs hone hl (by simp [looksEarly]) h
  · intro hl
    exact sameOutcome hc hlen hs hone hl (by simp [looksEarly])

namespace SegmentsExample

def stack : Stack := { buf := Vector.replicate 1024 0, hashbuf := Vector.replicate 61 0 }

/-- Every statement succeeds; the peer query finds nobody. -/
def env : ClientEnv :=
  { conn := some (.in4 (ipv4 10 0 0 1))
    track := { torrent := .ok 0, prepare := sqliteOk, bind := sqliteOk, steps := [], first := .ok 0, again := .ok 0 }
    scrape := { torrent := .ok 0, seeds := .ok 0, completed := .ok 0, peers := .ok 0 } }

def db : Db := Db.blank

/-- A request in two segments, with a pass after each. -/
def halves (first second : String) : List Delivery :=
  [.segment (ascii first), .pass stack, .segment (ascii second), .pass stack]

theorem splits_halves (first second : String) (h1 : ascii first ≠ []) (h2 : ascii second ≠ []) :
    Splits (ascii first ++ ascii second) (halves first second) :=
  { segments := by simp [halves, h1, h2]
    whole := by simp [halves, arrived]
    last := ⟨[_, _, _], stack, rfl⟩
    few := by
      simp only [halves, rounds, List.length_cons, List.length_nil]
      decide }

end SegmentsExample

open SegmentsExample

/-- A scrape whose first segment ends inside its parameter. -/
theorem sameOutcome_iff_target :
    SameOutcome PlainInet.inet 1800 env db (halves "GET /scrape?info_hash=aaaaa" "aaaaaaaaaaaaaaa HTTP/1.1")
      [.segment (ascii "GET /scrape" ++ ascii "?info_hash=aaaaaaaaaaaaaaaaaaaa HTTP/1.1"), .pass stack] :=
  (sameOutcome_iff PlainInet.inet 1800 env db (ascii "GET /scrape") (by decide)
    (ascii "?info_hash=aaaaaaaaaaaaaaaaaaaa HTTP/1.1") (by decide) (halves "GET /scrape?info_hash=aaaaa" "aaaaaaaaaaaaaaa HTTP/1.1")
    (splits_halves "GET /scrape?info_hash=aaaaa" "aaaaaaaaaaaaaaa HTTP/1.1" (by decide) (by decide)) stack).2 (by decide)

/-- A scrape whose first segment ends inside the command is answered as a request for something else. -/
theorem not_sameOutcome_command :
    Splits (ascii "GET /scrape HTTP/1.1") (halves "GET /scr" "ape HTTP/1.1") ∧
    (∃ c, serveClient PlainInet.inet 1800 env db (halves "GET /scr" "ape HTTP/1.1") = some c ∧ c.effects.sent = milhouse) ∧
    ¬SameOutcome PlainInet.inet 1800 env db (halves "GET /scr" "ape HTTP/1.1")
      [.segment (ascii "GET /scrape HTTP/1.1"), .pass stack] := by
  have hs : Splits (ascii "GET /scrape" ++ ascii " HTTP/1.1") (halves "GET /scr" "ape HTTP/1.1") :=
    splits_halves "GET /scr" "ape HTTP/1.1" (by decide) (by decide)
  refine ⟨hs, ⟨_, rfl, rfl⟩, ?_⟩
  exact not_sameOutcome (by decide) (by decide) hs (splits_one (by decide) _ stack) (by decide) (by decide)

end Traccoon
