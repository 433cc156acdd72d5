import Traccoon.Lemmas.PoolStep
import Traccoon.Lib.Champion

/-!
# `LAZIEST_WORKER` when nothing changes

While the workers keep the clients they have, the register comes to name one with the fewest after two phases in which each of them has
updated it, whatever count it was left with; one phase is not enough, since the worker named may put its own count there last
(`laziest_settles`).
-/

namespace Traccoon

open Champion

variable {c : Config}

/-- The updates of workers one after the other, each in one step, while each has this many clients. -/
def updates (clientsActive : Fin c.workerthreads → Int) (schedule : List (Fin c.workerthreads)) (l : LaziestWorker) : LaziestWorker :=
  Machine.run (fun l w => l.update (tid w) (clientsActive w)) l schedule

/-- The register holds the least number of clients that a worker has, and names a worker that has it. -/
def Settled (clientsActive : Fin c.workerthreads → Int) (l : LaziestWorker) : Prop :=
  (∀ w, l.activeSockets ≤ clientsActive w) ∧ ∃ w : Fin c.workerthreads, l.threadID = tid w ∧ clientsActive w = l.activeSockets

instance (clientsActive : Fin c.workerthreads → Int) (l : LaziestWorker) : Decidable (Settled clientsActive l) :=
  inferInstanceAs (Decidable (_ ∧ _))

/-- The update of a worker is one step of the register if no other step comes between. -/
theorem Pool.update_stages (s : Pool c) (w : Fin c.workerthreads) (e : Answers) (h : s.stages w = .compareThreadID) :
    ∃ n, (Machine.run Pool.step s (List.replicate n (.worker w false e))).laziest = s.laziest.update (tid w) (s.clientsActive w) ∧
      (Machine.run Pool.step s (List.replicate n (.worker w false e))).stages w = .running := by
  -- the two writes, from a state with the register and the count as they are now
  have hwrite : ∀ t : Pool c, t.stages w = .writeThreadID →
      (Machine.run Pool.step t (List.replicate 2 (.worker w false e))).laziest =
          { threadID := tid w, activeSockets := t.clientsActive w } ∧
        (Machine.run Pool.step t (List.replicate 2 (.worker w false e))).stages w = .running := by
    intro t ht
    simp [Pool.step, Pool.workerStep, ht, Pool.setStage, Pool.setThreadID, Pool.setActiveSockets, Pool.proceed]
  unfold LaziestWorker.update
  by_cases hnamed : s.laziest.threadID = tid w
  · have hstep : Pool.step s (.worker w false e) = s.setStage w .writeThreadID := by
      simp only [Pool.step, Pool.workerStep, h, if_pos hnamed]
    refine ⟨2 + 1, ?_⟩
    rw [List.replicate_succ, Machine.run_cons, hstep, if_pos (Or.inl hnamed)]
    exact hwrite _ (stages_setStage _ _ _)
  · have hstep : Pool.step s (.worker w false e) = s.setStage w .compareActiveSockets := by
      simp only [Pool.step, Pool.workerStep, h, if_neg hnamed]
    by_cases hmore : s.laziest.activeSockets > s.clientsActive w
    · have hstep' : Pool.step (s.setStage w .compareActiveSockets) (.worker w false e) =
          (s.setStage w .compareActiveSockets).setStage w .writeThreadID := by
        simp only [Pool.step, Pool.workerStep, stages_setStage]
        exact if_pos hmore
      refine ⟨2 + 1 + 1, ?_⟩
      rw [List.replicate_succ, List.replicate_succ, Machine.run_cons, hstep, Machine.run_cons, hstep', if_pos (Or.inr hmore)]
      exact hwrite _ (stages_setStage _ _ _)
    · refine ⟨2, ?_⟩
      rw [if_neg (not_or.2 ⟨hnamed, hmore⟩), List.replicate_succ, Machine.run_cons, hstep]
      simp [Pool.step, Pool.workerStep, Pool.setStage, hmore, Pool.proceed]

namespace SettlingAux

/-- The register that holds a record of the workers. -/
def ofRecord (r : Record (Fin c.workerthreads) Int) : LaziestWorker := { threadID := tid r.holder, activeSockets := r.mark }

theorem tid_inj {v w : Fin c.workerthreads} : tid v = tid w ↔ v = w := by
  unfold tid
  rw [Fin.ext_iff]
  omega

/-- A worker updates the register as it challenges the record. -/
theorem update_ofRecord (clientsActive : Fin c.workerthreads → Int) (r : Record (Fin c.workerthreads) Int) (w : Fin c.workerthreads) :
    (ofRecord r).update (tid w) (clientsActive w) = ofRecord (r.challenge clientsActive w) := by
  simp only [LaziestWorker.update, Record.challenge, ofRecord, tid_inj, gt_iff_lt]
  split
  · rfl
  · rfl

theorem updates_ofRecord (clientsActive : Fin c.workerthreads → Int) (schedule : List (Fin c.workerthreads))
    (r : Record (Fin c.workerthreads) Int) :
    updates clientsActive schedule (ofRecord r) = ofRecord (Machine.run (Record.challenge clientsActive) r schedule) := by
  unfold updates
  induction schedule generalizing r with
  | nil => rfl
  | cons w schedule ih => rw [Machine.run_cons, Machine.run_cons, update_ofRecord, ih]

/-- The first worker has most clients, and the register says that it has none. -/
def busy (w : Fin c.workerthreads) : Int := if w.1 = 0 then 2 else 1

/-- Workers that find another one named, with no clients, leave the register. -/
theorem updates_busy {schedule : List (Fin c.workerthreads)} (h : ∀ w ∈ schedule, w.1 ≠ 0) :
    updates busy schedule { threadID := 1, activeSockets := 0 } = { threadID := 1, activeSockets := 0 } := by
  unfold updates
  induction schedule with
  | nil => rfl
  | cons w schedule ih =>
    obtain ⟨hw, hrest⟩ := List.forall_mem_cons.1 h
    have hleft : ({ threadID := 1, activeSockets := 0 } : LaziestWorker).update (tid w) (busy w) =
        { threadID := 1, activeSockets := 0 } := by
      refine if_neg (not_or.2 ⟨?_, ?_⟩)
      · simp only [tid]
        omega
      · simp only [busy, if_neg hw]
        decide
    rw [Machine.run_cons, hleft]
    exact ih hrest

end SettlingAux

open SettlingAux

/-- For every number of workers, whatever numbers of clients they have and keep, and whatever count the register has for the worker it
names: after two phases in each of which every worker updates the register, it holds the least of the numbers and names a worker that
has it. One phase is not enough, for any two workers or more. -/
theorem laziest_settles (clientsActive : Fin c.workerthreads → Int) (l : LaziestWorker) (v : Fin c.workerthreads)
    (hl : l.threadID = tid v) (first second : List (Fin c.workerthreads)) (h1 : ∀ w, w ∈ first) (h2 : ∀ w, w ∈ second) :
    Settled clientsActive (updates clientsActive (first ++ second) l) ∧
    ∀ c : Config, 2 ≤ c.workerthreads → ∃ (clientsActive : Fin c.workerthreads → Int) (l : LaziestWorker) (v : Fin c.workerthreads)
      (phase : List (Fin c.workerthreads)),
      l.threadID = tid v ∧ (∀ w, w ∈ phase) ∧ ¬Settled clientsActive (updates clientsActive phase l) := by
  constructor
  · obtain ⟨threadID, activeSockets⟩ := l
    obtain rfl : threadID = tid v := hl
    have hrecord : ({ threadID := tid v, activeSockets := activeSockets } : LaziestWorker) =
      ofRecord { holder := v, mark := activeSockets } := rfl
    obtain ⟨hle, hacc⟩ := Record.challenges_settled (f := clientsActive) (r := { holder := v, mark := activeSockets }) (h1 v) h2
    rw [hrecord, updates_ofRecord]
    exact ⟨hle, _, rfl, hacc.symm⟩
  · intro c hc
    -- the others leave the register to the first worker, which comes last and has more clients than they
    let rest := (List.finRange c.workerthreads).filter (fun w => decide (w.1 ≠ 0))
    let zero : Fin c.workerthreads := ⟨0, by omega⟩
    have hrest : ∀ w ∈ rest, w.1 ≠ 0 := fun w hw => of_decide_eq_true (List.mem_filter.1 hw).2
    refine ⟨busy, { threadID := 1, activeSockets := 0 }, zero, rest ++ [zero], rfl, ?_, ?_⟩
    · intro w
      rw [List.mem_append, List.mem_singleton]
      by_cases hw : w.1 = 0
      · exact .inr (Fin.ext hw)
      · exact .inl (List.mem_filter.2 ⟨List.mem_finRange w, decide_eq_true hw⟩)
    · rintro ⟨hle, -⟩
      have hrun := updates_busy hrest
      unfold updates at hle hrun
      rw [Machine.run_append, hrun] at hle
      have hend : (2 : Int) ≤ 1 := hle ⟨1, hc⟩
      exact absurd hend (by decide)

namespace SettlingExample

/-- Three workers with 4, 1 and 3 clients. -/
abbrev config : Config := { workerthreads := 3, queuesize := 20, pos := by decide }

def clientsActive (w : Fin config.workerthreads) : Int := [4, 1, 3].getD w.1 0

end SettlingExample

open SettlingExample

/-- The third worker is named, with a count that is not its own, and comes last in the first phase. -/
theorem laziest_settles_three :
    updates clientsActive [1, 0, 2] { threadID := 3, activeSockets := 0 } = { threadID := 3, activeSockets := 3 } ∧
    Settled clientsActive (updates clientsActive ([1, 0, 2] ++ [0, 2, 1, 0]) { threadID := 3, activeSockets := 0 }) :=
  ⟨by decide, (laziest_settles clientsActive _ 2 rfl [1, 0, 2] [0, 2, 1, 0] (by decide) (by decide)).1⟩

end Traccoon
