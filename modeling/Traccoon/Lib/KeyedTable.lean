import Mathlib.Data.Set.Card

/-!
# Tables read by key

A table is a list of rows, and a row has a key. Under a key the table holds the first row that has it (`lookup`). While no two rows have
the same key the table is a map with finitely many entries: appending a row and deleting rows are the operations of maps, and counting
rows counts entries.
-/

namespace KeyedTable

variable {ρ κ : Type*} [BEq κ] {key : ρ → κ} {rows : List ρ}

/-- What the table holds under a key. -/
def lookup (key : ρ → κ) (rows : List ρ) (k : κ) : Option ρ := rows.find? (fun r => key r == k)

variable [LawfulBEq κ]

theorem lookup_some {k : κ} {r : ρ} (h : lookup key rows k = some r) : r ∈ rows ∧ key r = k :=
  ⟨List.mem_of_find?_eq_some h, by simpa using List.find?_some h⟩

theorem lookup_eq_none_iff {k : κ} : lookup key rows k = none ↔ k ∉ rows.map key := by
  simp [lookup, List.find?_eq_none]

/-- A row whose key no other row has is what the table holds under it. -/
theorem lookup_of_mem (hn : (rows.map key).Nodup) {r : ρ} (h : r ∈ rows) : lookup key rows (key r) = some r := by
  cases hl : lookup key rows (key r) with
  | none => exact absurd (List.mem_map_of_mem h) (lookup_eq_none_iff.1 hl)
  | some r' =>
    obtain ⟨hm, hk⟩ := lookup_some hl
    rw [List.inj_on_of_nodup_map hn hm h hk]

/-- A row appended under a new key is an entry added. -/
theorem lookup_append [DecidableEq κ] {r : ρ} (h : key r ∉ rows.map key) :
    lookup key (rows ++ [r]) = Function.update (lookup key rows) (key r) (some r) := by
  funext k
  by_cases hk : k = key r
  · subst hk
    rw [Function.update_self, lookup, List.find?_append, ← lookup, lookup_eq_none_iff.2 h]
    simp
  · rw [Function.update_of_ne hk, lookup, List.find?_append, ← lookup]
    have hne : (key r == k) = false := by simpa using Ne.symm hk
    simp [hne]

/-- Deleting rows deletes their entries. -/
theorem lookup_filter (hn : (rows.map key).Nodup) (p : ρ → Bool) (k : κ) :
    lookup key (rows.filter p) k = (lookup key rows k).filter p := by
  have hn' : ((rows.filter p).map key).Nodup := hn.sublist (List.filter_sublist.map key)
  cases hl : lookup key rows k with
  | none =>
    rw [Option.filter_none]
    rw [lookup_eq_none_iff] at hl ⊢
    exact fun hk => hl ((List.filter_sublist.map key).subset hk)
  | some r =>
    obtain ⟨hm, rfl⟩ := lookup_some hl
    cases hp : p r with
    | true => rw [Option.filter_some_pos hp, lookup_of_mem hn' (List.mem_filter.2 ⟨hm, hp⟩)]
    | false =>
      rw [Option.filter_some_neg (by simpa using hp), lookup_eq_none_iff]
      intro hk
      obtain ⟨r', hm', hk'⟩ := List.mem_map.1 hk
      obtain ⟨hr', hp'⟩ := List.mem_filter.1 hm'
      rw [List.inj_on_of_nodup_map hn hr' hm hk', hp] at hp'
      cases hp'

/-- As many rows satisfy a condition as there are keys under which the table holds one that does. -/
theorem length_filter_eq_ncard (hn : (rows.map key).Nodup) (p : ρ → Bool) :
    (rows.filter p).length = {k | ∃ r, lookup key rows k = some r ∧ p r = true}.ncard := by
  classical
  have hset : {k | ∃ r, lookup key rows k = some r ∧ p r = true} = ↑((rows.filter p).map key).toFinset := by
    ext k
    simp only [Set.mem_ofPred_eq, List.coe_toFinset, List.mem_map, List.mem_filter]
    constructor
    · rintro ⟨r, hl, hp⟩
      obtain ⟨hm, hk⟩ := lookup_some hl
      exact ⟨r, ⟨hm, hp⟩, hk⟩
    · rintro ⟨r, ⟨hm, hp⟩, rfl⟩
      exact ⟨r, lookup_of_mem hn hm, hp⟩
  rw [hset, Set.ncard_coe_finset, List.toFinset_card_of_nodup (hn.sublist (List.filter_sublist.map key)), List.length_map]

end KeyedTable
