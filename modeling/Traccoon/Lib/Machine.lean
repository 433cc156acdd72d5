import Mathlib.Data.List.Basic
import Mathlib.Data.List.Infix

/-!
# Machines that take one labelled step after another

A machine is a step function on states; a schedule is the list of labels it is driven with. A state is visited when a first part
of the schedule leads to it. The rules below turn what one step preserves into what holds of every state visited.
-/

namespace Machine

variable {σ α : Type*}

/-- The state a schedule leads to. -/
def run (step : σ → α → σ) (s : σ) (as : List α) : σ := as.foldl step s

/-- A state that a run along the schedule passes through, its first and last state included. -/
def Visits (step : σ → α → σ) (s : σ) (as : List α) (t : σ) : Prop := ∃ pre, pre <+: as ∧ run step s pre = t

@[simp] theorem run_nil (step : σ → α → σ) (s : σ) : run step s [] = s := rfl

@[simp] theorem run_cons (step : σ → α → σ) (s : σ) (a : α) (as : List α) :
    run step s (a :: as) = run step (step s a) as := rfl

theorem run_append (step : σ → α → σ) (s : σ) (as bs : List α) :
    run step s (as ++ bs) = run step (run step s as) bs := by
  simp [run]

/-- One label taken several times. -/
theorem run_replicate_add (step : σ → α → σ) (s : σ) (a : α) (m n : Nat) :
    run step s (List.replicate (m + n) a) = run step (run step s (List.replicate m a)) (List.replicate n a) := by
  rw [List.replicate_add, run_append]

theorem visits_start (step : σ → α → σ) (s : σ) (as : List α) : Visits step s as s := ⟨[], List.nil_prefix, rfl⟩

theorem visits_end (step : σ → α → σ) (s : σ) (as : List α) : Visits step s as (run step s as) :=
  ⟨as, List.prefix_refl _, rfl⟩

/-- The states visited after the first step are visited by the whole run. -/
theorem Visits.cons {step : σ → α → σ} {s t : σ} {a : α} {as : List α} (h : Visits step (step s a) as t) :
    Visits step s (a :: as) t := by
  obtain ⟨pre, hp, hr⟩ := h
  exact ⟨a :: pre, List.cons_prefix_cons.2 ⟨rfl, hp⟩, hr⟩

/-- One step further. -/
theorem Visits.next {step : σ → α → σ} {s t : σ} {as : List α} (h : Visits step s as t) (a : α) :
    ∃ bs, Visits step s bs (step t a) := by
  obtain ⟨pre, -, hpre⟩ := h
  refine ⟨pre ++ [a], pre ++ [a], List.prefix_refl _, ?_⟩
  rw [run_append, hpre, run_cons, run_nil]

/-- A state visited is the first one, or visited after the first step. -/
theorem visits_cons_iff {step : σ → α → σ} {s t : σ} {a : α} {as : List α} :
    Visits step s (a :: as) t ↔ t = s ∨ Visits step (step s a) as t := by
  constructor
  · intro h
    obtain ⟨pre, hp, rfl⟩ := h
    cases pre with
    | nil => exact Or.inl rfl
    | cons b pre =>
      obtain ⟨rfl, hp'⟩ := List.cons_prefix_cons.1 hp
      exact Or.inr ⟨pre, hp', rfl⟩
  · intro h
    rcases h with rfl | h
    · exact visits_start _ _ _
    · exact h.cons

/-- What holds at the start and is kept by every step taken from a state that meets the guard holds of every state visited by a
run all of whose states meet the guard. -/
theorem invariant_of_guard {step : σ → α → σ} (inv : σ → Prop) {guard : σ → Prop} (hstep : ∀ s a, inv s → guard s → inv (step s a))
    {s : σ} {as : List α} (h0 : inv s) (hg : ∀ t, Visits step s as t → guard t) : ∀ t, Visits step s as t → inv t := by
  induction as generalizing s with
  | nil =>
    intro t h
    obtain ⟨pre, hp, rfl⟩ := h
    rw [List.prefix_nil.1 hp]
    exact h0
  | cons a as ih =>
    intro t h
    rcases visits_cons_iff.1 h with rfl | h
    · exact h0
    · exact ih (hstep s a h0 (hg s (visits_start _ _ _))) (fun t ht => hg t ht.cons) t h

/-- What holds at the start and is kept by every step holds of every state visited. -/
theorem invariant {step : σ → α → σ} (inv : σ → Prop) (hstep : ∀ s a, inv s → inv (step s a)) {s : σ} {as : List α} (h0 : inv s) :
    ∀ t, Visits step s as t → inv t :=
  invariant_of_guard inv (fun s a h (_ : True) => hstep s a h) h0 (fun _ _ => trivial)

/-- What holds of each step of a run, in the state it is taken from. -/
def Each (step : σ → α → σ) (P : σ → α → Prop) : σ → List α → Prop
  | _, [] => True
  | s, a :: as => P s a ∧ Each step P (step s a) as

instance Each.decidable {step : σ → α → σ} {P : σ → α → Prop} [∀ s a, Decidable (P s a)] :
    ∀ (s : σ) (as : List α), Decidable (Each step P s as)
  | _, [] => isTrue trivial
  | s, a :: as => @instDecidableAnd _ _ inferInstance (Each.decidable (step s a) as)

/-- What holds at the start and is kept by every step that `P` admits, as it does all steps of the run, holds at its end. -/
theorem invariant_of_each {step : σ → α → σ} (inv : σ → Prop) {P : σ → α → Prop} (hstep : ∀ s a, inv s → P s a → inv (step s a))
    {s : σ} {as : List α} (h0 : inv s) (hP : Each step P s as) : inv (run step s as) := by
  induction as generalizing s with
  | nil => exact h0
  | cons a as ih => exact ih (hstep s a h0 hP.1) hP.2

/-- What follows, in the states visited, from what holds of each step holds of each step. -/
theorem Each.imp {step : σ → α → σ} {P Q : σ → α → Prop} {s : σ} {as : List α} (h : Each step P s as)
    (hPQ : ∀ t a, Visits step s as t → P t a → Q t a) : Each step Q s as := by
  induction as generalizing s with
  | nil => trivial
  | cons a as ih =>
    exact ⟨hPQ s a (visits_start _ _ _) h.1, ih h.2 fun t b ht => hPQ t b ht.cons⟩

/-- If what a step keeps is told by `Q`, then it holds of every state visited when `Q` holds of every step, and only then. `inv` is
what holds of the states in any case. -/
theorem visits_iff_each {step : σ → α → σ} {P inv : σ → Prop} {Q : σ → α → Prop} (hinv : ∀ s a, inv s → inv (step s a))
    (hstep : ∀ s a, inv s → P s → (P (step s a) ↔ Q s a)) {s : σ} {as : List α} (h0 : inv s) (hP : P s) :
    (∀ t, Visits step s as t → P t) ↔ Each step Q s as := by
  induction as generalizing s with
  | nil =>
    refine ⟨fun _ => trivial, ?_⟩
    rintro - t ⟨pre, hp, rfl⟩
    rw [List.prefix_nil.1 hp]
    exact hP
  | cons a as ih =>
    constructor
    · intro h
      have hP' : P (step s a) := h _ (visits_start _ _ _).cons
      exact ⟨(hstep s a h0 hP).1 hP', (ih (hinv s a h0) hP').1 fun t ht => h t ht.cons⟩
    · rintro ⟨hQ, hrest⟩ t ht
      rcases visits_cons_iff.1 ht with rfl | ht
      · exact hP
      · exact (ih (hinv s a h0) ((hstep s a h0 hP).2 hQ)).2 hrest t ht

/-- The steps of a run, and those of another that goes on where it ends. -/
theorem each_append {step : σ → α → σ} {P : σ → α → Prop} {s : σ} {as bs : List α} :
    Each step P s (as ++ bs) ↔ Each step P s as ∧ Each step P (run step s as) bs := by
  induction as generalizing s with
  | nil => exact (and_iff_right trivial).symm
  | cons a as ih => rw [List.cons_append, Each, Each, ih, run_cons, and_assoc]

theorem Each.and {step : σ → α → σ} {P Q : σ → α → Prop} {s : σ} {as : List α} (hP : Each step P s as) (hQ : Each step Q s as) :
    Each step (fun t a => P t a ∧ Q t a) s as := by
  induction as generalizing s with
  | nil => trivial
  | cons a as ih => exact ⟨⟨hP.1, hQ.1⟩, ih hP.2 hQ.2⟩

/-! ## Two machines -/

/-- What the steps of a run are to an observer, in order. -/
def trace {β : Type*} (step : σ → α → σ) (event : σ → α → β) : σ → List α → List β
  | _, [] => []
  | s, a :: as => event s a :: trace step event (step s a) as

/-- If each step of a run is, seen through `π`, the step of another machine that `event` says, then the run is, seen through `π`, the run
of that machine that the events say. -/
theorem run_trace {τ β : Type*} {step : σ → α → σ} {step' : τ → β → τ} (π : σ → τ) (event : σ → α → β) {s : σ} {as : List α}
    (h : ∀ t a, Visits step s as t → π (step t a) = step' (π t) (event t a)) :
    run step' (π s) (trace step event s as) = π (run step s as) := by
  induction as generalizing s with
  | nil => rfl
  | cons a as ih =>
    rw [trace, run_cons, run_cons, ← h s a (visits_start _ _ _)]
    exact ih fun t b ht => h t b ht.cons

/-! ## Steps that may have no result -/

/-- A step function that may have no result, on states that may have been lost. -/
def lift (step : σ → α → Option σ) (s : Option σ) (a : α) : Option σ := s.bind fun s => step s a

@[simp] theorem lift_some (step : σ → α → Option σ) (s : σ) (a : α) : lift step (some s) a = step s a := rfl

/-- A state that has been lost stays so. -/
theorem run_lift_none (step : σ → α → Option σ) (as : List α) : run (lift step) none as = none := by
  induction as with
  | nil => rfl
  | cons a as ih => exact ih

/-- A state that a run passes through whose steps have had results so far. -/
def Reaches (step : σ → α → Option σ) (s : σ) (as : List α) (t : σ) : Prop := Visits (lift step) (some s) as (some t)

/-- What the start of a run satisfies and each of its results keeps holds of every state reached. -/
theorem Reaches.invariant {step : σ → α → Option σ} (inv : σ → Prop) (hstep : ∀ s a t, inv s → step s a = some t → inv t) {s t : σ}
    {as : List α} (h0 : inv s) (h : Reaches step s as t) : inv t := by
  refine Machine.invariant (fun o : Option σ => ∀ u, o = some u → inv u) ?_ ?_ _ h t rfl
  · intro o a ho u hu
    obtain ⟨v, rfl, hv⟩ := Option.bind_eq_some_iff.1 hu
    exact hstep v a u (ho v rfl) hv
  · intro u hu
    exact Option.some.inj hu ▸ h0

/-- The same where a step keeps it if it is one that `P` admits in the state it is taken from, as all steps of the run are. -/
theorem Reaches.invariant_of_each {step : σ → α → Option σ} (inv : σ → Prop) {P : σ → α → Prop}
    (hstep : ∀ s a t, inv s → P s a → step s a = some t → inv t) {s t : σ} {as : List α} (h0 : inv s)
    (hP : Each (lift step) (fun o a => ∀ u, o = some u → P u a) (some s) as) (h : Reaches step s as t) : inv t := by
  induction as generalizing s with
  | nil =>
    obtain ⟨pre, hp, hr⟩ := h
    rw [List.prefix_nil.1 hp] at hr
    exact Option.some.inj hr ▸ h0
  | cons a as ih =>
    rcases visits_cons_iff.1 h with heq | h
    · exact Option.some.inj heq ▸ h0
    · rw [lift_some] at h
      cases hs : step s a with
      | none =>
        rw [hs] at h
        obtain ⟨pre, -, hr⟩ := h
        rw [run_lift_none] at hr
        cases hr
      | some u =>
        have hrest := hP.2
        rw [lift_some, hs] at hrest
        rw [hs] at h
        exact ih (hstep s a u h0 (hP.1 s rfl) hs) hrest h

end Machine
