import Mathlib.Data.Finset.Erase
import Mathlib.Data.Finset.Insert
import Mathlib.Data.List.Basic
import Traccoon.Lib.Machine

/-!
# Resources that are acquired and released

What a program does with its resources is a list of uses. A resource that is held is not acquired again, and only one that is held is
released. Whether a list of uses keeps to that, and what is held behind it, is seen from the uses of each resource alone (`leads_iff`).
-/

namespace Ledger

/-- A use of a resource. -/
inductive Use (ρ : Type*) where
  | acquire (r : ρ)
  | release (r : ρ)
  deriving DecidableEq

variable {ρ : Type*}

/-- The resource that is used. -/
def Use.resource : Use ρ → ρ
  | .acquire r => r
  | .release r => r

/-- Whether a resource is held behind a use of it, if the use is allowed. -/
def toggle (held : Bool) : Use ρ → Option Bool
  | .acquire _ => if held then none else some true
  | .release _ => if held then some false else none

/-- Uses of one resource that lead from its being held, or not, to its being held, or not. -/
def Toggles (held : Bool) (uses : List (Use ρ)) (held' : Bool) : Prop := Machine.run (Machine.lift toggle) (some held) uses = some held'

instance (held : Bool) (uses : List (Use ρ)) (held' : Bool) : Decidable (Toggles held uses held') := inferInstanceAs (Decidable (_ = _))

@[simp] theorem toggles_nil {held held' : Bool} : Toggles held ([] : List (Use ρ)) held' ↔ held = held' := by
  rw [Toggles, Machine.run_nil, Option.some.injEq]

theorem not_toggles_none (uses : List (Use ρ)) (held : Bool) : Machine.run (Machine.lift toggle) none uses ≠ some held := by
  rw [Machine.run_lift_none]
  exact (Option.some_ne_none held).symm

@[simp] theorem toggles_acquire {held held' : Bool} {r : ρ} {uses : List (Use ρ)} :
    Toggles held (.acquire r :: uses) held' ↔ held = false ∧ Toggles true uses held' := by
  cases held with
  | false => simp [Toggles, toggle]
  | true => simpa [Toggles, toggle] using not_toggles_none uses held'

@[simp] theorem toggles_release {held held' : Bool} {r : ρ} {uses : List (Use ρ)} :
    Toggles held (.release r :: uses) held' ↔ held = true ∧ Toggles false uses held' := by
  cases held with
  | false => simpa [Toggles, toggle] using not_toggles_none uses held'
  | true => simp [Toggles, toggle]

/-- Uses after one another. -/
theorem Toggles.append {a b c : Bool} {uses uses' : List (Use ρ)} (h : Toggles a uses b) (h' : Toggles b uses' c) :
    Toggles a (uses ++ uses') c := by
  rw [Toggles, Machine.run_append, h]
  exact h'

variable [DecidableEq ρ]

/-- The uses of a resource. -/
def usesOf (r : ρ) (uses : List (Use ρ)) : List (Use ρ) := uses.filter fun u => decide (u.resource = r)

@[simp] theorem usesOf_nil (r : ρ) : usesOf r [] = [] := rfl

@[simp] theorem usesOf_acquire (r q : ρ) (uses : List (Use ρ)) :
    usesOf r (.acquire q :: uses) = if q = r then .acquire q :: usesOf r uses else usesOf r uses := by
  by_cases h : q = r
  · simp [usesOf, Use.resource, h]
  · simp [usesOf, Use.resource, h]

@[simp] theorem usesOf_release (r q : ρ) (uses : List (Use ρ)) :
    usesOf r (.release q :: uses) = if q = r then .release q :: usesOf r uses else usesOf r uses := by
  by_cases h : q = r
  · simp [usesOf, Use.resource, h]
  · simp [usesOf, Use.resource, h]

@[simp] theorem usesOf_append (r : ρ) (uses uses' : List (Use ρ)) : usesOf r (uses ++ uses') = usesOf r uses ++ usesOf r uses' :=
  List.filter_append ..

/-- Each resource of a list acquired. -/
theorem usesOf_acquire_all {qs : List ρ} (h : qs.Nodup) (r : ρ) :
    usesOf r (qs.map .acquire) = if r ∈ qs then [.acquire r] else [] := by
  induction qs with
  | nil => rfl
  | cons q qs ih =>
    obtain ⟨hq, hqs⟩ := List.nodup_cons.1 h
    rw [List.map_cons, usesOf_acquire, ih hqs]
    by_cases hr : q = r
    · rw [if_pos hr, if_neg (hr ▸ hq), if_pos (by simp [hr]), hr]
    · rw [if_neg hr]
      simp [show r ≠ q from fun h => hr h.symm]

/-- Each resource of a list released. -/
theorem usesOf_release_all {qs : List ρ} (h : qs.Nodup) (r : ρ) :
    usesOf r (qs.map .release) = if r ∈ qs then [.release r] else [] := by
  induction qs with
  | nil => rfl
  | cons q qs ih =>
    obtain ⟨hq, hqs⟩ := List.nodup_cons.1 h
    rw [List.map_cons, usesOf_release, ih hqs]
    by_cases hr : q = r
    · rw [if_pos hr, if_neg (hr ▸ hq), if_pos (by simp [hr]), hr]
    · rw [if_neg hr]
      simp [show r ≠ q from fun h => hr h.symm]

/-- What is held behind a use, if the use is allowed. -/
def step (held : Finset ρ) : Use ρ → Option (Finset ρ)
  | .acquire r => if r ∈ held then none else some (insert r held)
  | .release r => if r ∈ held then some (held.erase r) else none

/-- Uses that lead from what is held to what is held. -/
def Leads (held : Finset ρ) (uses : List (Use ρ)) (held' : Finset ρ) : Prop :=
  Machine.run (Machine.lift step) (some held) uses = some held'

instance (held : Finset ρ) (uses : List (Use ρ)) (held' : Finset ρ) : Decidable (Leads held uses held') :=
  inferInstanceAs (Decidable (_ = _))

/-- What one use does to each resource. -/
theorem leads_cons_iff {held held' : Finset ρ} {u : Use ρ} {uses : List (Use ρ)} :
    Leads held (u :: uses) held' ↔ ∃ mid, step held u = some mid ∧ Leads mid uses held' := by
  rw [Leads, Machine.run_cons, Machine.lift_some]
  cases h : step held u with
  | none =>
    rw [Machine.run_lift_none]
    exact ⟨fun h => (by cases h), fun ⟨mid, h, _⟩ => (by cases h)⟩
  | some mid => exact ⟨fun h => ⟨mid, rfl, h⟩, fun ⟨_, heq, h⟩ => Option.some.inj heq ▸ h⟩

/-- Uses lead from what is held to what is held if, for each resource, its own uses do. -/
theorem leads_iff {held held' : Finset ρ} {uses : List (Use ρ)} :
    Leads held uses held' ↔ ∀ r, Toggles (decide (r ∈ held)) (usesOf r uses) (decide (r ∈ held')) := by
  induction uses generalizing held with
  | nil =>
    simp only [Leads, Machine.run_nil, Option.some.injEq, usesOf_nil, toggles_nil, decide_eq_decide]
    exact Finset.ext_iff
  | cons u uses ih =>
    rw [leads_cons_iff]
    cases u with
    | acquire q =>
      constructor
      · rintro ⟨mid, hstep, hrest⟩ r
        have hr := ih.1 hrest r
        simp only [step] at hstep
        split at hstep
        · cases hstep
        · rename_i hq
          obtain rfl := Option.some.inj hstep
          rw [usesOf_acquire]
          split
          · rename_i heq
            subst heq
            simpa [hq] using hr
          · rename_i hne
            simpa [show r ≠ q from fun h => hne h.symm] using hr
      · intro h
        have hq := h q
        rw [usesOf_acquire, if_pos rfl, toggles_acquire, decide_eq_false_iff_not] at hq
        refine ⟨insert q held, by rw [step, if_neg hq.1], ih.2 fun r => ?_⟩
        by_cases heq : q = r
        · subst heq
          simpa using hq.2
        · have hr := h r
          rw [usesOf_acquire, if_neg heq] at hr
          simpa [show r ≠ q from fun h => heq h.symm] using hr
    | release q =>
      constructor
      · rintro ⟨mid, hstep, hrest⟩ r
        have hr := ih.1 hrest r
        simp only [step] at hstep
        split at hstep
        · rename_i hq
          obtain rfl := Option.some.inj hstep
          rw [usesOf_release]
          split
          · rename_i heq
            subst heq
            simpa [hq] using hr
          · rename_i hne
            simpa [show r ≠ q from fun h => hne h.symm] using hr
        · cases hstep
      · intro h
        have hq := h q
        rw [usesOf_release, if_pos rfl, toggles_release, decide_eq_true_eq] at hq
        refine ⟨held.erase q, by rw [step, if_pos hq.1], ih.2 fun r => ?_⟩
        by_cases heq : q = r
        · subst heq
          simpa using hq.2
        · have hr := h r
          rw [usesOf_release, if_neg heq] at hr
          simpa [show r ≠ q from fun h => heq h.symm] using hr

end Ledger
