import Mathlib.Data.Set.Insert

/-!
# Members on duty, and the one that is named

Members come on duty and go off it, and one of them is named for what comes next. A roster is manned if the member named is on duty
whenever anyone is. `Roster.manned_after_iff` says which events leave a manned roster so.
-/

namespace Duty

variable {ι : Type*}

/-- The members on duty, and the one named, if the name is that of a member. -/
structure Roster (ι : Type*) where
  serving : Set ι
  named : Option ι

/-- What may happen: nothing, a member comes on duty or goes off it, or a member is named. -/
inductive Event (ι : Type*) where
  | idle
  | enter (i : ι)
  | leave (i : ι)
  | claim (i : ι)

namespace Roster

/-- The roster after an event. -/
def after (r : Roster ι) : Event ι → Roster ι
  | .idle => r
  | .enter i => { r with serving := insert i r.serving }
  | .leave i => { r with serving := r.serving \ {i} }
  | .claim i => { r with named := some i }

/-- The member named is on duty, or nobody is. -/
def Manned (r : Roster ι) : Prop := r.serving.Nonempty → ∃ i ∈ r.serving, r.named = some i

/-- The events that leave a manned roster manned. -/
def Admits (r : Roster ι) : Event ι → Prop
  | .idle => True
  | .enter i => r.named ≠ some i → ∃ j ∈ r.serving, r.named = some j
  | .leave i => r.named = some i → ∀ j ∈ r.serving, j = i
  | .claim i => r.serving.Nonempty → i ∈ r.serving

theorem manned_enter_iff {r : Roster ι} (i : ι) : (r.after (.enter i)).Manned ↔ r.Admits (.enter i) := by
  constructor
  · intro h hne
    obtain ⟨j, hj, hnamed⟩ := h ⟨i, Set.mem_insert i _⟩
    rcases hj with rfl | hj
    · exact absurd hnamed hne
    · exact ⟨j, hj, hnamed⟩
  · intro h _
    by_cases hi : r.named = some i
    · exact ⟨i, Set.mem_insert i _, hi⟩
    · obtain ⟨j, hj, hnamed⟩ := h hi
      exact ⟨j, Set.mem_insert_of_mem i hj, hnamed⟩

theorem manned_leave_iff {r : Roster ι} (h : r.Manned) (i : ι) : (r.after (.leave i)).Manned ↔ r.Admits (.leave i) := by
  constructor
  · intro h' hi j hj
    by_contra hne
    obtain ⟨k, hk, hnamed⟩ := h' ⟨j, hj, hne⟩
    rw [show (r.after (.leave i)).named = r.named from rfl, hi] at hnamed
    exact hk.2 (Option.some.inj hnamed).symm
  · rintro h' ⟨j, hj, hne⟩
    obtain ⟨k, hk, hnamed⟩ := h ⟨j, hj⟩
    refine ⟨k, ⟨hk, ?_⟩, hnamed⟩
    rintro rfl
    exact hne (h' hnamed j hj)

theorem manned_claim_iff {r : Roster ι} (i : ι) : (r.after (.claim i)).Manned ↔ r.Admits (.claim i) := by
  constructor
  · intro h hn
    obtain ⟨j, hj, hnamed⟩ := h hn
    obtain rfl : i = j := Option.some.inj hnamed
    exact hj
  · intro h hn
    exact ⟨i, h hn, rfl⟩

/-- Which events leave a manned roster manned. -/
theorem manned_after_iff {r : Roster ι} (h : r.Manned) (e : Event ι) : (r.after e).Manned ↔ r.Admits e := by
  cases e with
  | idle => exact ⟨fun _ => trivial, fun _ => h⟩
  | enter i => exact manned_enter_iff i
  | leave i => exact manned_leave_iff h i
  | claim i => exact manned_claim_iff i

end Roster

end Duty
