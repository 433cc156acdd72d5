import Mathlib.Data.List.Basic
import Mathlib.Data.List.Perm.Basic

/-!
# The first few of a list, in whatever order it comes

Some of a list are looked for, and of its first `w` those are counted that can be had. `count_eq_min_iff` says when the count does not
depend on the order.
-/

namespace Sample

variable {α : Type*} {p q : α → Bool} {xs order : List α} {w : Nat}

/-- Those that are not counted may all come first. -/
theorem exists_worst (p : α → Bool) (xs : List α) (w : Nat) : ∃ order : List α, order.Perm xs ∧
    ((order.take w).filter p).length = min (w - (xs.filter fun x => !p x).length) (xs.filter p).length := by
  refine ⟨(xs.filter fun x => !p x) ++ xs.filter p, List.perm_append_comm.trans (List.filter_append_perm p xs), ?_⟩
  have hbad : ((xs.filter fun x => !p x).take w).filter p = [] := by
    rw [List.filter_eq_nil_iff]
    intro x hx
    simpa using (List.mem_filter.1 (List.mem_of_mem_take hx)).2
  have hgood : ((xs.filter p).take (w - (xs.filter fun x => !p x).length)).filter p =
      (xs.filter p).take (w - (xs.filter fun x => !p x).length) :=
    List.filter_eq_self.2 fun x hx => (List.mem_filter.1 (List.mem_of_mem_take hx)).2
  rw [List.take_append, List.filter_append, hbad, hgood, List.nil_append, List.length_take]

/-- When all of `q` are counted and nothing else is, no order misses one if there is nothing else or all are taken. -/
theorem count_of_all (hperm : order.Perm xs) (hpq : ∀ x ∈ xs, p x = q x) (h : xs.filter q = xs ∨ xs.length ≤ w) :
    ((order.take w).filter p).length = min w (xs.filter q).length := by
  have hsame : ∀ x ∈ order.take w, p x = q x := fun x hx => hpq x (hperm.subset (List.mem_of_mem_take hx))
  rw [List.filter_congr hsame]
  rcases h with hall | hle
  · have hq : ∀ x ∈ order.take w, q x = true := fun x hx =>
      List.filter_eq_self.1 hall x (hperm.subset (List.mem_of_mem_take hx))
    rw [List.filter_eq_self.2 hq, hall, List.length_take, hperm.length_eq]
  · have hlen : (xs.filter q).length ≤ w := Nat.le_trans (List.length_filter_le _ _) hle
    rw [List.take_of_length_le (by rw [hperm.length_eq]; exact hle), (hperm.filter q).length_eq, Nat.min_eq_right hlen]

/-- Of `q` only some are counted. They are, up to `w` of them and in every order, exactly when there are none, or all are counted and there
is nothing else or all is taken. -/
theorem count_eq_min_iff (hw : 1 ≤ w) (hpq : ∀ x ∈ xs, p x = true → q x = true) :
    (∀ order : List α, order.Perm xs → ((order.take w).filter p).length = min w (xs.filter q).length) ↔
      xs.filter q = [] ∨ (∀ x ∈ xs.filter q, p x = true) ∧ (xs.filter q = xs ∨ xs.length ≤ w) := by
  have hsub : (xs.filter p).Sublist (xs.filter q) := by
    have hboth : xs.filter p = (xs.filter q).filter p := by
      rw [List.filter_filter]
      refine List.filter_congr fun x hx => ?_
      cases hp : p x with
      | true => rw [hpq x hx hp, Bool.and_self]
      | false => rw [Bool.false_and]
    rw [hboth]
    exact List.filter_sublist
  constructor
  · intro h
    obtain ⟨order, hperm, hworst⟩ := exists_worst p xs w
    have hcount := h order hperm
    have hsplit := List.length_eq_length_filter_add (l := xs) p
    have hle := hsub.length_le
    have hle' : (xs.filter q).length ≤ xs.length := List.length_filter_le _ _
    rw [hworst] at hcount
    by_cases hnone : xs.filter q = []
    · exact .inl hnone
    · have hpos := List.length_pos_iff.2 hnone
      -- what is not counted is exactly what is not of `q`, and if there is such a thing then all is taken
      have hall : (xs.filter p).length = (xs.filter q).length := by omega
      refine .inr ⟨fun x hx => ?_, ?_⟩
      · rw [← hsub.eq_of_length hall] at hx
        exact (List.mem_filter.1 hx).2
      · by_cases hrest : (xs.filter q).length = xs.length
        · exact .inl (List.filter_sublist.eq_of_length hrest)
        · exact .inr (by omega)
  · rintro (hnone | ⟨hall, hrest⟩) order hperm
    · have hzero : (order.take w).filter p = [] := by
        rw [List.filter_eq_nil_iff]
        intro x hx hp
        have hmem := hperm.subset (List.mem_of_mem_take hx)
        exact List.filter_eq_nil_iff.1 hnone x hmem (hpq x hmem hp)
      rw [hzero, hnone, List.length_nil, Nat.min_zero]
    · refine count_of_all hperm (fun x hx => ?_) hrest
      cases hq : q x with
      | true => exact hall x (List.mem_filter.2 ⟨hx, hq⟩)
      | false =>
        cases hp : p x with
        | true => exact absurd (hpq x hx hp) (by simp [hq])
        | false => rfl

end Sample
