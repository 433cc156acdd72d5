import Traccoon.Lemmas.Rows
import Traccoon.Upkeep

/-!
# How old the rows get

The prunes are at least three announce intervals apart, and none is skipped for longer than that as long as connections come. So behind
every turn of the accept loop all rows are younger than six intervals, if the last prune succeeded, and no row is removed before it is
three intervals old (`rows_age`). A prune that fails is not made up for: the next one comes three intervals later.
-/

namespace Traccoon

open CString

variable {ι : Type}

namespace UpkeepAux

variable {calls : ι → Call} {a t₀ : Int} {s : Upkeep ι}

/-! ## The invariant -/

/-- What holds in every state of a run that starts at `t₀`. -/
structure Inv (a t₀ : Int) (s : Upkeep ι) : Prop where
  first : 0 ≤ s.timeLast
  last : s.timeLast ≤ s.latest
  due : s.timeNow - s.timeLast < 3 * a
  apart : s.prunes * (3 * a) ≤ s.timeLast - t₀
  rows : s.pruned = some true → ∀ r ∈ s.tracker.db.peers, s.timeLast - 3 * a ≤ r.expires

theorem inv_start (db : Db) (ha : 0 < a) (h0 : 0 ≤ t₀) : Inv a t₀ (Upkeep.start db t₀ : Upkeep ι) :=
  { first := h0
    last := Int.le_refl _
    due := by simp only [Upkeep.start]; omega
    apart := by simp [Upkeep.start]
    rows := fun h => by cases h }

variable [DecidableEq ι]

theorem inv_call {i : ι} {e : StmtEnv} (h : Inv a t₀ s) (ht : (UpkeepAction.call i e).Timely a s.latest) :
    Inv a t₀ (s.step calls a (.call i e)) := by
  have := h.last
  refine ⟨h.first, h.last, h.due, h.apart, fun hp r hr => ?_⟩
  rcases updatePeerStep_expires (calls i).torrentid (calls i).ar s.tracker.db (s.tracker.pc i) e r hr with ⟨r', hr', he⟩ | ⟨now, hc, he⟩
  · rw [he]
    exact h.rows hp r' hr'
  · obtain ⟨h0, hlag, hsmall⟩ := ht now (by rw [hc]; exact List.mem_singleton_self _)
    rw [he, int32_of_lt h0 hsmall]
    simp only [Upkeep.step]
    omega

/-- What a turn of the accept loop can be: the loop has been left; the clock fails, and it will be; or there is a time, and the peers are
pruned or not. -/
theorem pass_cases (h : s.timeNow - s.timeLast < 3 * a) (clock : Option Int) (e : StmtEnv) :
    s.step calls a (.pass clock e) = s ∨
    (clock = none ∧ s.step calls a (.pass clock e) =
      { s with killserver := true, ended := true, latest := e.clock.toList.getLastD s.latest }) ∨
    ∃ now, clock = some now ∧
      ((now - s.timeLast < 3 * a ∧ s.step calls a (.pass clock e) =
          { s with timeNow := now, ended := s.killserver, latest := e.clock.getD now }) ∨
       (3 * a ≤ now - s.timeLast ∧ s.step calls a (.pass clock e) =
          { s with timeNow := now, timeLast := now, ended := s.killserver, latest := e.clock.getD now,
                   tracker := s.tracker.step calls (.prune (3 * a) e), prunes := s.prunes + 1,
                   pruned := some (decide ((prunePeers s.tracker.db (3 * a) e).1 = 0)) })) := by
  cases hended : s.ended with
  | true => exact Or.inl (by simp only [Upkeep.step, hended, if_true])
  | false =>
    right
    cases clock with
    | none =>
      refine Or.inl ⟨rfl, ?_⟩
      simp only [Upkeep.step, hended, Bool.false_eq_true, if_false, Upkeep.readClock, Upkeep.checkPrune, UpkeepAction.readings]
      rw [if_neg (by omega)]
      rfl
    | some now =>
      have hlatest : (now :: e.clock.toList).getLastD s.latest = e.clock.getD now := by
        cases e.clock with
        | none => rfl
        | some t => rfl
      refine Or.inr ⟨now, rfl, ?_⟩
      by_cases hdue : now - s.timeLast < 3 * a
      · refine Or.inl ⟨hdue, ?_⟩
        simp only [Upkeep.step, hended, Bool.false_eq_true, if_false, Upkeep.readClock, Upkeep.checkPrune, UpkeepAction.readings,
          Option.toList_some, List.singleton_append, hlatest]
        rw [if_neg (by omega)]
      · refine Or.inr ⟨by omega, ?_⟩
        simp only [Upkeep.step, hended, Bool.false_eq_true, if_false, Upkeep.readClock, Upkeep.checkPrune, UpkeepAction.readings,
          Option.toList_some, List.singleton_append, hlatest]
        rw [if_pos (by omega)]

omit [DecidableEq ι] in
/-- The times that a turn of the accept loop reads. -/
theorem pass_times {now : Int} {e : StmtEnv} (ht : (UpkeepAction.pass (some now) e : UpkeepAction ι).Timely a s.latest) :
    s.latest ≤ now ∧ now ≤ e.clock.getD now ∧ e.clock.getD now < 2147483648 := by
  obtain ⟨horder, hsmall⟩ := ht
  cases hc : e.clock with
  | none =>
    simp [hc] at horder hsmall
    simp only [Option.getD_none]
    omega
  | some t =>
    simp [hc] at horder hsmall
    simp only [Option.getD_some]
    omega

theorem inv_pass {clock : Option Int} {e : StmtEnv} (h : Inv a t₀ s) (ha : 0 < a) (h3 : 3 * a < 2147483648)
    (ht : (UpkeepAction.pass clock e : UpkeepAction ι).Timely a s.latest) : Inv a t₀ (s.step calls a (.pass clock e)) := by
  have hfirst := h.first
  have hlast := h.last
  rcases @pass_cases ι calls a s _ h.due clock e with heq | ⟨rfl, heq⟩ | ⟨now, rfl, ⟨hnot, heq⟩ | ⟨hdue, heq⟩⟩
  · rwa [heq]
  · rw [heq]
    have hmono : s.latest ≤ e.clock.toList.getLastD s.latest := by
      obtain ⟨horder, -⟩ := ht
      cases hc : e.clock with
      | none => exact Int.le_refl _
      | some t =>
        rw [hc] at horder
        simpa using horder
    exact ⟨hfirst, hlast.trans hmono, h.due, h.apart, h.rows⟩
  · obtain ⟨h1, h2, -⟩ := pass_times ht
    rw [heq]
    exact ⟨hfirst, hlast.trans (h1.trans h2), hnot, h.apart, h.rows⟩
  · obtain ⟨h1, h2, h4⟩ := pass_times ht
    have hapart := h.apart
    rw [heq]
    refine ⟨by simp only; omega, h2, by simp only; omega, ?_, ?_⟩
    · simp only [Nat.cast_add, Nat.cast_one, add_mul, one_mul]
      omega
    · -- the prune that succeeded left nothing older
      intro hp r hr
      have hzero : (prunePeers s.tracker.db (3 * a) e).1 = 0 := by simpa using hp
      rcases prunePeers_cases s.tracker.db (3 * a) e with ⟨u, hc, hprune⟩ | ⟨hne, -⟩
      · rw [hc, Option.getD_some] at h2 h4
        have hcut : int32 (u - 3 * a) = u - 3 * a := int32_of_lt (by omega) (by omega)
        simp only [Tracker.step, hprune, Db.queryPrunePeers, List.mem_filter, decide_eq_true_eq, hcut] at hr
        simp only
        omega
      · exact absurd hzero hne

theorem inv_step {act : UpkeepAction ι} (h : Inv a t₀ s) (ha : 0 < a) (h3 : 3 * a < 2147483648) (ht : act.Timely a s.latest) :
    Inv a t₀ (s.step calls a act) := by
  cases act with
  | call i e => exact inv_call h ht
  | pass clock e => exact inv_pass h ha h3 ht
  | sigint => exact ⟨h.first, h.last, h.due, h.apart, h.rows⟩

/-- A prune comes three intervals after the one before it, or after the start. -/
theorem prune_due (h : Inv a t₀ s) (act : UpkeepAction ι) :
    ((s.step calls a act).prunes = s.prunes ∧ (s.step calls a act).timeLast = s.timeLast) ∨
    ∃ now e, act = .pass (some now) e ∧ 3 * a ≤ now - s.timeLast ∧
      (s.step calls a act).prunes = s.prunes + 1 ∧ (s.step calls a act).timeLast = now := by
  cases act with
  | call i e => exact Or.inl ⟨rfl, rfl⟩
  | sigint => exact Or.inl ⟨rfl, rfl⟩
  | pass clock e =>
    rcases @pass_cases ι calls a s _ h.due clock e with heq | ⟨-, heq⟩ | ⟨now, rfl, ⟨-, heq⟩ | ⟨hdue, heq⟩⟩
    · exact Or.inl (by rw [heq]; exact ⟨rfl, rfl⟩)
    · exact Or.inl (by rw [heq]; exact ⟨rfl, rfl⟩)
    · exact Or.inl (by rw [heq]; exact ⟨rfl, rfl⟩)
    · exact Or.inr ⟨now, e, rfl, hdue, by rw [heq], by rw [heq]⟩

/-- Only a prune removes a row, and only one that is old enough. -/
theorem removed_old {act : UpkeepAction ι} (h : Inv a t₀ s) (ha : 0 < a) (h3 : 3 * a < 2147483648) (ht : act.Timely a s.latest) {r : Peer}
    (hr : r ∈ s.tracker.db.peers) (hgone : ∀ r' ∈ (s.step calls a act).tracker.db.peers, r'.id ≠ r.id) :
    ∃ now e u, act = .pass (some now) e ∧ e.clock = some u ∧ 3 * a ≤ now - s.timeLast ∧ r.expires < u - 3 * a := by
  have hfirst := h.first
  have hlast := h.last
  cases act with
  | call i e =>
    obtain ⟨r', hr', hbecomes⟩ := updatePeerStep_keeps (calls i).torrentid (calls i).ar s.tracker.db (s.tracker.pc i) e r hr
    exact absurd hbecomes.id (hgone r' hr')
  | pass clock e =>
    rcases @pass_cases ι calls a s _ h.due clock e with heq | ⟨rfl, heq⟩ | ⟨now, rfl, ⟨hnot, heq⟩ | ⟨hdue, heq⟩⟩
    · exact absurd rfl (hgone r (by rwa [heq]))
    · exact absurd rfl (hgone r (by rwa [heq]))
    · exact absurd rfl (hgone r (by rwa [heq]))
    · obtain ⟨h1, h2, h4⟩ := pass_times ht
      rw [heq] at hgone
      rcases prunePeers_cases s.tracker.db (3 * a) e with ⟨u, hc, hprune⟩ | ⟨-, hprune⟩
      · rw [hc, Option.getD_some] at h2 h4
        refine ⟨now, e, u, rfl, hc, hdue, ?_⟩
        have hcut : int32 (u - 3 * a) = u - 3 * a := int32_of_lt (by omega) (by omega)
        by_contra hyoung
        refine hgone r ?_ rfl
        simp only [Tracker.step, hprune, Db.queryPrunePeers, List.mem_filter, decide_eq_true_eq, hcut]
        exact ⟨hr, by omega⟩
      · exact absurd rfl (hgone r (by simpa only [Tracker.step, hprune] using hr))
  | sigint => exact absurd rfl (hgone r hr)

/-- The tables and the calls take steps of the tracker. -/
theorem tracker_step (s : Upkeep ι) (act : UpkeepAction ι) :
    ∃ actions, (s.step calls a act).tracker = Machine.run (Tracker.step calls) s.tracker actions := by
  cases act with
  | call i e => exact ⟨[.call i e], rfl⟩
  | pass clock e =>
    rw [Upkeep.step]
    cases s.ended with
    | true => exact ⟨[], rfl⟩
    | false =>
      have hsame : (s.readClock clock).tracker = s.tracker := by
        cases clock with
        | none => rfl
        | some now => rfl
      simp only [Bool.false_eq_true, if_false, Upkeep.checkPrune]
      split
      · exact ⟨[.prune (3 * a) e], by simp only [hsame]; rfl⟩
      · exact ⟨[], hsame⟩
  | sigint => exact ⟨[], rfl⟩

end UpkeepAux

open UpkeepAux

/-- In every run with a positive announce interval `a`, three of which an `int` holds, in which the clock does not go back and stays below
2^31, and no statement of a call is run more than three intervals after it has read the clock, whatever the tables at its start, the calls
in flight, the answers of SQLite and the order of the steps: the tables are those of a run of the calls and of prunes; a step is a prune
only where three intervals have passed since the last one, or since the start, so there are no more of them than that; none is due behind
a turn of the accept loop; if the last one succeeded, every row is younger than six intervals behind the latest turn; and the next step
removes a row only if it is a prune, and the row more than three intervals old. -/
theorem rows_age [DecidableEq ι] (calls : ι → Call) (a : Int) (ha : 0 < a) (h3 : 3 * a < 2147483648) (db : Db) (t₀ : Int) (h0 : 0 ≤ t₀)
    (schedule : List (UpkeepAction ι))
    (htimely : Machine.Each (Upkeep.step calls a) (fun s act => act.Timely a s.latest) (Upkeep.start db t₀) schedule) :
    let s := Machine.run (Upkeep.step calls a) (Upkeep.start db t₀) schedule
    (∃ actions, s.tracker = Machine.run (Tracker.step calls) (Tracker.start db) actions) ∧
    (∀ act : UpkeepAction ι, ((s.step calls a act).prunes = s.prunes ∧ (s.step calls a act).timeLast = s.timeLast) ∨
      ∃ now e, act = .pass (some now) e ∧ 3 * a ≤ now - s.timeLast ∧
        (s.step calls a act).prunes = s.prunes + 1 ∧ (s.step calls a act).timeLast = now) ∧
    s.prunes * (3 * a) ≤ s.timeLast - t₀ ∧ s.timeNow - s.timeLast < 3 * a ∧
    (s.pruned = some true → ∀ r ∈ s.tracker.db.peers, s.timeNow - 6 * a < r.expires) ∧
    ∀ act : UpkeepAction ι, act.Timely a s.latest → ∀ r ∈ s.tracker.db.peers,
      (∀ r' ∈ (s.step calls a act).tracker.db.peers, r'.id ≠ r.id) →
      ∃ now e u, act = .pass (some now) e ∧ e.clock = some u ∧ 3 * a ≤ now - s.timeLast ∧ r.expires < u - 3 * a := by
  intro s
  have hinv : Inv a t₀ s := Machine.invariant_of_each (Inv a t₀) (fun s act h ht => inv_step h ha h3 ht) (inv_start db ha h0) htimely
  refine ⟨?_, fun act => prune_due hinv act, hinv.apart, hinv.due, ?_, fun act ht r hr hgone => removed_old hinv ha h3 ht hr hgone⟩
  · refine Machine.invariant (fun s : Upkeep ι => ∃ actions, s.tracker = Machine.run (Tracker.step calls) (Tracker.start db) actions)
      ?_ ⟨[], rfl⟩ s (Machine.visits_end _ _ _)
    rintro s act ⟨actions, h⟩
    obtain ⟨more, hmore⟩ := @tracker_step ι calls a _ s act
    exact ⟨actions ++ more, by rw [hmore, h, Machine.run_append]⟩
  · intro hp r hr
    have := hinv.rows hp r hr
    have := hinv.due
    omega

namespace UpkeepExample

/-- An announce of a peer that has nine bytes left. -/
def calls : Unit → Call := fun _ =>
  { torrentid := 1
    ar := { infoHash := [], peerId := ascii "-TC0010-", ip := ascii "10.0.0.1", port := 6881, protover := 4, event := .started,
            left := 9, compact := false, noPeerId := false, numwant := 50 } }

/-- The peer is recorded at 1000, and its row is written a second time after the main thread has read 1800. -/
def schedule : List (UpkeepAction Unit) :=
  [.call () (.ok 1000), .call () (.ok 1000), .pass (some 1800) (.ok 1800), .call () (.ok 1799), .call () (.ok 1799),
   .pass (some 1900) (.ok 1900)]

/-- The turn of the accept loop that comes next. -/
def turn : UpkeepAction Unit := .pass (some 2800) (.ok 2801)

end UpkeepExample

open UpkeepExample

/-- With an interval of 300 seconds there has been one prune when the server has run from 900 to 1900, and the row is kept; the second one
comes at 2800 and removes it. -/
theorem rows_age_twice :
    let s := Machine.run (Upkeep.step calls 300) (Upkeep.start (Db.ofTorrent ⟨1, ascii "00", 0⟩) 900) schedule
    s.tracker.db.peers.map Peer.expires = [1799] ∧ s.prunes = 1 ∧ s.prunes * (3 * 300) ≤ s.timeLast - 900 ∧
    (∀ r ∈ s.tracker.db.peers, s.timeNow - 6 * 300 < r.expires) ∧
    (s.step calls 300 turn).tracker.db.peers = [] ∧ (s.step calls 300 turn).prunes = 2 ∧
    ∀ r ∈ s.tracker.db.peers, ∃ now e u, turn = .pass (some now) e ∧ e.clock = some u ∧ 3 * 300 ≤ now - s.timeLast ∧
      r.expires < u - 3 * 300 := by
  have h := rows_age calls 300 (by decide) (by decide) (Db.ofTorrent ⟨1, ascii "00", 0⟩) 900 (by decide) schedule (by decide)
  obtain ⟨-, -, hapart, -, hrows, hremoved⟩ := h
  have hnone : (Upkeep.step calls 300 (Machine.run (Upkeep.step calls 300) (Upkeep.start (Db.ofTorrent ⟨1, ascii "00", 0⟩) 900) schedule)
      turn).tracker.db.peers = [] := by decide
  refine ⟨by decide, by decide, hapart, hrows (by decide), hnone, by decide, fun r hr => ?_⟩
  exact hremoved turn (by decide) r hr (by rw [hnone]; exact fun r' hr' => absurd hr' List.not_mem_nil)

end Traccoon
