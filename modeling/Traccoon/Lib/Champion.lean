import Traccoon.Lib.Machine
import Mathlib.Order.Lattice

/-!
# A record, and those who challenge it

A record names its holder and a mark. A challenger sets it anew if it is the holder, or if its own mark is lower. The mark that the
record starts with need not be the holder's: `challenges_settled` says that two rounds in which everyone comes by are enough for the
record to be that of the lowest mark.
-/

namespace Champion

open Machine

variable {ι α : Type*} [DecidableEq ι] [LinearOrder α] {f : ι → α}

/-- The holder, and the mark it was entered with. -/
structure Record (ι α : Type*) where
  holder : ι
  mark : α

namespace Record

/-- A challenger with its mark. -/
def challenge (f : ι → α) (r : Record ι α) (i : ι) : Record ι α :=
  if r.holder = i ∨ f i < r.mark then { holder := i, mark := f i } else r

/-- The mark is the holder's. -/
def Accurate (f : ι → α) (r : Record ι α) : Prop := r.mark = f r.holder

/-- A challenger sets the record, or it is not the holder and leaves it. -/
theorem challenge_cases (f : ι → α) (r : Record ι α) (i : ι) :
    r.challenge f i = { holder := i, mark := f i } ∨ r.challenge f i = r ∧ r.holder ≠ i ∧ r.mark ≤ f i := by
  unfold challenge
  split
  · exact .inl rfl
  · rename_i h
    rw [not_or, not_lt] at h
    exact .inr ⟨rfl, h⟩

theorem Accurate.challenge {r : Record ι α} (h : r.Accurate f) (i : ι) : (r.challenge f i).Accurate f := by
  rcases challenge_cases f r i with heq | ⟨heq, -, -⟩
  · rw [heq]
    rfl
  · rw [heq]
    exact h

/-- The mark of an accurate record never rises, and is no higher than the challenger's. -/
theorem Accurate.challenge_le {r : Record ι α} (h : r.Accurate f) (i : ι) :
    (r.challenge f i).mark ≤ r.mark ∧ (r.challenge f i).mark ≤ f i := by
  unfold Record.challenge
  split
  · rename_i hset
    refine ⟨?_, le_refl _⟩
    rcases hset with hholder | hlt
    · rw [h, hholder]
    · exact le_of_lt hlt
  · rename_i hleft
    rw [not_or, not_lt] at hleft
    exact ⟨le_refl _, hleft.2⟩

/-! ## Rounds -/

theorem Accurate.run {r : Record ι α} (h : r.Accurate f) (round : List ι) : (run (Record.challenge f) r round).Accurate f := by
  induction round generalizing r with
  | nil => exact h
  | cons i round ih => exact ih (h.challenge i)

/-- The record becomes accurate in a round in which its holder comes by: whoever has taken it from the holder before has entered its
own mark. -/
theorem accurate_run {r : Record ι α} {round : List ι} (h : r.holder ∈ round) : (run (Record.challenge f) r round).Accurate f := by
  induction round generalizing r with
  | nil => cases h
  | cons i round ih =>
    rw [run_cons]
    rcases challenge_cases f r i with heq | ⟨heq, hne, -⟩
    · refine Accurate.run ?_ round
      rw [heq]
      rfl
    · rw [heq]
      exact ih ((List.mem_cons.1 h).resolve_left hne)

theorem Accurate.run_le {r : Record ι α} (h : r.Accurate f) (round : List ι) :
    (Machine.run (Record.challenge f) r round).mark ≤ r.mark := by
  induction round generalizing r with
  | nil => exact le_refl _
  | cons i round ih => exact le_trans (ih (h.challenge i)) (h.challenge_le i).1

/-- After a round from an accurate record, its mark is no higher than that of anyone who came by. -/
theorem Accurate.run_le_of_mem {r : Record ι α} (h : r.Accurate f) {round : List ι} {i : ι} (hi : i ∈ round) :
    (Machine.run (Record.challenge f) r round).mark ≤ f i := by
  induction round generalizing r with
  | nil => cases hi
  | cons j round ih =>
    rw [run_cons]
    rcases List.mem_cons.1 hi with rfl | hi
    · exact le_trans ((h.challenge i).run_le round) (h.challenge_le i).2
    · exact ih (h.challenge j) hi

/-- Two rounds, the first with the holder and the second with everyone: the mark is the lowest there is, and the holder's. -/
theorem challenges_settled {r : Record ι α} {first second : List ι} (h1 : r.holder ∈ first) (h2 : ∀ i, i ∈ second) :
    (∀ i, (Machine.run (Record.challenge f) r (first ++ second)).mark ≤ f i) ∧
      (Machine.run (Record.challenge f) r (first ++ second)).Accurate f := by
  have hfirst : (Machine.run (Record.challenge f) r first).Accurate f := accurate_run h1
  rw [run_append]
  exact ⟨fun i => hfirst.run_le_of_mem (h2 i), hfirst.run second⟩

end Record

end Champion
