import Traccoon.Lib.Bencode

/-!
# What a bencoded value contains, and where

A value contains itself, the elements of its lists, and the keys and values of its dictionaries, at any depth (`Occurs`). `preorder`
lists them, each before what it contains and a key directly before its value, so that their encodings start at increasing offsets.
-/

namespace Bencode

open CString

/-- In the encoding of the first value, the encoding of a value it contains starts behind this many bytes. -/
inductive Occurs : Value → Nat → Value → Prop where
  | self (v : Value) : Occurs v 0 v
  | item {a b : List Value} {u w : Value} {n : Nat} : Occurs u n w →
      Occurs (.list (a ++ u :: b)) (1 + (encodeList a).length + n) w
  | key {a b : List (Bytes × Value)} {k : Bytes} {u : Value} : Occurs (.dict (a ++ (k, u) :: b)) (1 + (encodeEntries a).length) (.str k)
  | value {a b : List (Bytes × Value)} {k : Bytes} {u w : Value} {n : Nat} : Occurs u n w →
      Occurs (.dict (a ++ (k, u) :: b)) (1 + (encodeEntries a).length + (encodeStr k).length + n) w

/-- A value in its place: how deep it stands, and where its encoding starts. -/
structure Node where
  level : Nat
  offset : Nat
  value : Value

mutual
/-- What a value contains, in the order of a walk through it. A value of a dictionary hangs below its key. -/
def preorder (level offset : Nat) : Value → List Node
  | .str s => [⟨level, offset, .str s⟩]
  | .int n => [⟨level, offset, .int n⟩]
  | .list vs => ⟨level, offset, .list vs⟩ :: preorderList (level + 1) (offset + 1) vs
  | .dict es => ⟨level, offset, .dict es⟩ :: preorderEntries (level + 1) (offset + 1) es

/-- What the elements of a list contain. -/
def preorderList (level offset : Nat) : List Value → List Node
  | [] => []
  | v :: vs => preorder level offset v ++ preorderList level (offset + v.encode.length) vs

/-- What the entries of a dictionary contain. -/
def preorderEntries (level offset : Nat) : List (Bytes × Value) → List Node
  | [] => []
  | (k, v) :: es => ⟨level, offset, .str k⟩ :: preorder (level + 1) (offset + (encodeStr k).length) v ++
      preorderEntries level (offset + (encodeStr k).length + v.encode.length) es
end

/-- The encoding of a value that is contained stands in the encoding of the value that contains it. -/
theorem Occurs.text {v w : Value} {n : Nat} (h : Occurs v n w) : ∃ a b, v.encode = a ++ (w.encode ++ b) ∧ a.length = n := by
  induction h with
  | self v => exact ⟨[], [], by simp, rfl⟩
  | @item a b u w n _ ih =>
    obtain ⟨x, y, hu, rfl⟩ := ih
    refine ⟨108 :: (encodeList a ++ x), y ++ (encodeList b ++ [101]), ?_, ?_⟩
    · simp [encode_list, encodeList_eq_flatMap, hu]
    · simp only [List.length_cons, List.length_append]
      omega
  | @key a b k u =>
    refine ⟨100 :: encodeEntries a, u.encode ++ (encodeEntries b ++ [101]), ?_, ?_⟩
    · rw [encode_dict, encodeEntries_append, encodeEntries, encode_str]
      simp
    · simp only [List.length_cons]
      omega
  | @value a b k u w n _ ih =>
    obtain ⟨x, y, hu, rfl⟩ := ih
    refine ⟨100 :: (encodeEntries a ++ (encodeStr k ++ x)), y ++ (encodeEntries b ++ [101]), ?_, ?_⟩
    · rw [encode_dict, encodeEntries_append, encodeEntries, hu]
      simp
    · simp only [List.length_cons, List.length_append]
      omega

/-! ## Where the nodes lie -/

/-- The encoding of a node lies between these offsets. -/
def Node.Within (x : Node) (start stop : Nat) : Prop := start ≤ x.offset ∧ x.offset + x.value.encode.length ≤ stop

theorem Node.Within.mono {x : Node} {a b a' b' : Nat} (h : x.Within a b) (ha : a' ≤ a) (hb : b ≤ b') : x.Within a' b' :=
  ⟨ha.trans h.1, h.2.trans hb⟩

mutual
theorem within_preorder : ∀ (v : Value) (level offset : Nat), ∀ x ∈ preorder level offset v,
    x.Within offset (offset + v.encode.length)
  | .str s, level, offset, x, hx => by
    rw [preorder, List.mem_singleton] at hx
    subst hx
    exact ⟨Nat.le_refl _, Nat.le_refl _⟩
  | .int n, level, offset, x, hx => by
    rw [preorder, List.mem_singleton] at hx
    subst hx
    exact ⟨Nat.le_refl _, Nat.le_refl _⟩
  | .list vs, level, offset, x, hx => by
    rw [preorder] at hx
    rcases List.mem_cons.1 hx with rfl | hx
    · exact ⟨Nat.le_refl _, Nat.le_refl _⟩
    · refine (within_preorderList vs _ _ x hx).mono (by omega) ?_
      rw [encode_list]
      simp only [List.length_cons, List.length_append, List.length_nil]
      omega
  | .dict es, level, offset, x, hx => by
    rw [preorder] at hx
    rcases List.mem_cons.1 hx with rfl | hx
    · exact ⟨Nat.le_refl _, Nat.le_refl _⟩
    · refine (within_preorderEntries es _ _ x hx).mono (by omega) ?_
      rw [encode_dict]
      simp only [List.length_cons, List.length_append, List.length_nil]
      omega

theorem within_preorderList : ∀ (vs : List Value) (level offset : Nat), ∀ x ∈ preorderList level offset vs,
    x.Within offset (offset + (encodeList vs).length)
  | [], level, offset, x, hx => by
    rw [preorderList] at hx
    exact absurd hx List.not_mem_nil
  | v :: vs, level, offset, x, hx => by
    rw [preorderList] at hx
    rw [encodeList, List.length_append]
    rcases List.mem_append.1 hx with hx | hx
    · exact (within_preorder v _ _ x hx).mono (Nat.le_refl _) (by omega)
    · exact (within_preorderList vs _ _ x hx).mono (by omega) (by omega)

theorem within_preorderEntries : ∀ (es : List (Bytes × Value)) (level offset : Nat), ∀ x ∈ preorderEntries level offset es,
    x.Within offset (offset + (encodeEntries es).length)
  | [], level, offset, x, hx => by
    rw [preorderEntries] at hx
    exact absurd hx List.not_mem_nil
  | (k, v) :: es, level, offset, x, hx => by
    rw [preorderEntries, List.cons_append] at hx
    rw [encodeEntries, List.length_append, List.length_append]
    rcases List.mem_cons.1 hx with rfl | hx
    · refine ⟨Nat.le_refl _, ?_⟩
      simp only [encode_str]
      omega
    · rcases List.mem_append.1 hx with hx | hx
      · exact (within_preorder v _ _ x hx).mono (by omega) (by omega)
      · exact (within_preorderEntries es _ _ x hx).mono (by omega) (by omega)
end

/-- An encoding is not empty, so what lies behind a node starts at a greater offset. -/
theorem encode_length_pos (v : Value) : 0 < v.encode.length := (complete_encode v).length_pos

/-- Nodes up to an offset stand before the nodes from that offset on. -/
theorem lt_of_within {a b c d : Nat} {x y : Node} (hx : x.Within a b) (hy : y.Within c d) (hbc : b ≤ c) : x.offset < y.offset := by
  have := encode_length_pos x.value
  have h1 := hx.2
  have h2 := hy.1
  omega

mutual
/-- Each node starts behind the nodes before it. -/
theorem pairwise_preorder : ∀ (v : Value) (level offset : Nat), (preorder level offset v).Pairwise fun x y => x.offset < y.offset
  | .str s, level, offset => by
    rw [preorder]
    exact List.pairwise_singleton _ _
  | .int n, level, offset => by
    rw [preorder]
    exact List.pairwise_singleton _ _
  | .list vs, level, offset => by
    rw [preorder, List.pairwise_cons]
    refine ⟨?_, pairwise_preorderList vs _ _⟩
    intro y hy
    have := (within_preorderList vs _ _ y hy).1
    simp only
    omega
  | .dict es, level, offset => by
    rw [preorder, List.pairwise_cons]
    refine ⟨?_, pairwise_preorderEntries es _ _⟩
    intro y hy
    have := (within_preorderEntries es _ _ y hy).1
    simp only
    omega

theorem pairwise_preorderList : ∀ (vs : List Value) (level offset : Nat),
    (preorderList level offset vs).Pairwise fun x y => x.offset < y.offset
  | [], level, offset => by
    rw [preorderList]
    exact List.Pairwise.nil
  | v :: vs, level, offset => by
    rw [preorderList, List.pairwise_append]
    refine ⟨pairwise_preorder v _ _, pairwise_preorderList vs _ _, ?_⟩
    intro x hx y hy
    exact lt_of_within (within_preorder v _ _ x hx) (within_preorderList vs _ _ y hy) (Nat.le_refl _)

theorem pairwise_preorderEntries : ∀ (es : List (Bytes × Value)) (level offset : Nat),
    (preorderEntries level offset es).Pairwise fun x y => x.offset < y.offset
  | [], level, offset => by
    rw [preorderEntries]
    exact List.Pairwise.nil
  | (k, v) :: es, level, offset => by
    have hk := encode_length_pos (.str k)
    rw [encode_str] at hk
    rw [preorderEntries, List.cons_append, List.pairwise_cons, List.pairwise_append]
    refine ⟨?_, pairwise_preorder v _ _, pairwise_preorderEntries es _ _, ?_⟩
    · intro y hy
      simp only
      rcases List.mem_append.1 hy with hy | hy
      · have := (within_preorder v _ _ y hy).1
        omega
      · have := (within_preorderEntries es _ _ y hy).1
        omega
    · intro x hx y hy
      exact lt_of_within (within_preorder v _ _ x hx) (within_preorderEntries es _ _ y hy) (Nat.le_refl _)
end

/-! ## The nodes are what the value contains -/

mutual
theorem occurs_of_mem_preorder : ∀ (v : Value) (level offset : Nat), ∀ x ∈ preorder level offset v,
    ∃ n, x.offset = offset + n ∧ Occurs v n x.value
  | .str s, level, offset, x, hx => by
    rw [preorder, List.mem_singleton] at hx
    subst hx
    exact ⟨0, rfl, Occurs.self _⟩
  | .int m, level, offset, x, hx => by
    rw [preorder, List.mem_singleton] at hx
    subst hx
    exact ⟨0, rfl, Occurs.self _⟩
  | .list vs, level, offset, x, hx => by
    rw [preorder] at hx
    rcases List.mem_cons.1 hx with rfl | hx
    · exact ⟨0, rfl, Occurs.self _⟩
    · obtain ⟨a, u, b, n, rfl, hn, h⟩ := occurs_of_mem_preorderList vs _ _ x hx
      exact ⟨1 + (encodeList a).length + n, by omega, Occurs.item h⟩
  | .dict es, level, offset, x, hx => by
    rw [preorder] at hx
    rcases List.mem_cons.1 hx with rfl | hx
    · exact ⟨0, rfl, Occurs.self _⟩
    · obtain ⟨a, k, u, b, rfl, ⟨hn, hk⟩ | ⟨n, hn, h⟩⟩ := occurs_of_mem_preorderEntries es _ _ x hx
      · exact ⟨1 + (encodeEntries a).length, by omega, hk ▸ Occurs.key⟩
      · exact ⟨1 + (encodeEntries a).length + (encodeStr k).length + n, by omega, Occurs.value h⟩

theorem occurs_of_mem_preorderList : ∀ (vs : List Value) (level offset : Nat), ∀ x ∈ preorderList level offset vs,
    ∃ a u b n, vs = a ++ u :: b ∧ x.offset = offset + (encodeList a).length + n ∧ Occurs u n x.value
  | [], level, offset, x, hx => by
    rw [preorderList] at hx
    exact absurd hx List.not_mem_nil
  | v :: vs, level, offset, x, hx => by
    rw [preorderList] at hx
    rcases List.mem_append.1 hx with hx | hx
    · obtain ⟨n, hn, h⟩ := occurs_of_mem_preorder v _ _ x hx
      exact ⟨[], v, vs, n, rfl, hn, h⟩
    · obtain ⟨a, u, b, n, rfl, hn, h⟩ := occurs_of_mem_preorderList vs _ _ x hx
      refine ⟨v :: a, u, b, n, rfl, ?_, h⟩
      rw [encodeList, List.length_append]
      omega

theorem occurs_of_mem_preorderEntries : ∀ (es : List (Bytes × Value)) (level offset : Nat), ∀ x ∈ preorderEntries level offset es,
    ∃ a k u b, es = a ++ (k, u) :: b ∧ ((x.offset = offset + (encodeEntries a).length ∧ x.value = .str k) ∨
      ∃ n, x.offset = offset + (encodeEntries a).length + (encodeStr k).length + n ∧ Occurs u n x.value)
  | [], level, offset, x, hx => by
    rw [preorderEntries] at hx
    exact absurd hx List.not_mem_nil
  | (k, v) :: es, level, offset, x, hx => by
    rw [preorderEntries, List.cons_append] at hx
    rcases List.mem_cons.1 hx with rfl | hx
    · exact ⟨[], k, v, es, rfl, Or.inl ⟨rfl, rfl⟩⟩
    · rcases List.mem_append.1 hx with hx | hx
      · obtain ⟨n, hn, h⟩ := occurs_of_mem_preorder v _ _ x hx
        exact ⟨[], k, v, es, rfl, Or.inr ⟨n, hn, h⟩⟩
      · obtain ⟨a, k', u, b, rfl, h⟩ := occurs_of_mem_preorderEntries es _ _ x hx
        refine ⟨(k, v) :: a, k', u, b, rfl, ?_⟩
        rw [encodeEntries, List.length_append, List.length_append]
        rcases h with ⟨hn, hk⟩ | ⟨n, hn, h⟩
        · exact Or.inl ⟨by omega, hk⟩
        · exact Or.inr ⟨n, by omega, h⟩
end

theorem mem_preorderList {x : Node} {level : Nat} {u : Value} {b : List Value} : ∀ (a : List Value) {offset : Nat},
    x ∈ preorder level (offset + (encodeList a).length) u → x ∈ preorderList level offset (a ++ u :: b)
  | [], offset, h => by
    rw [List.nil_append, preorderList]
    exact List.mem_append_left _ h
  | v :: a, offset, h => by
    rw [List.cons_append, preorderList]
    refine List.mem_append_right _ (mem_preorderList a ?_)
    rwa [encodeList, List.length_append, ← Nat.add_assoc] at h

theorem mem_preorderEntries {x : Node} {level : Nat} {k : Bytes} {u : Value} {b : List (Bytes × Value)} :
    ∀ (a : List (Bytes × Value)) {offset : Nat},
    x ∈ preorderEntries level (offset + (encodeEntries a).length) ((k, u) :: b) → x ∈ preorderEntries level offset (a ++ (k, u) :: b)
  | [], offset, h => h
  | (l, v) :: a, offset, h => by
    rw [List.cons_append, preorderEntries]
    refine List.mem_append_right _ (mem_preorderEntries a ?_)
    rwa [encodeEntries, List.length_append, List.length_append, ← Nat.add_assoc, ← Nat.add_assoc] at h

theorem exists_mem_preorder {v w : Value} {n : Nat} (h : Occurs v n w) : ∀ level offset : Nat,
    ∃ x ∈ preorder level offset v, x.offset = offset + n ∧ x.value = w := by
  induction h with
  | self v =>
    intro level offset
    cases v <;> exact ⟨_, by rw [preorder]; exact List.mem_cons_self, rfl, rfl⟩
  | @item a b u w n _ ih =>
    intro level offset
    obtain ⟨x, hx, hn, hw⟩ := ih (level + 1) (offset + 1 + (encodeList a).length)
    refine ⟨x, ?_, by omega, hw⟩
    rw [preorder]
    exact List.mem_cons_of_mem _ (mem_preorderList a hx)
  | @key a b k u =>
    intro level offset
    refine ⟨⟨level + 1, offset + 1 + (encodeEntries a).length, .str k⟩, ?_, by simp only; omega, rfl⟩
    rw [preorder]
    refine List.mem_cons_of_mem _ (mem_preorderEntries a ?_)
    rw [preorderEntries, List.cons_append]
    exact List.mem_cons_self
  | @value a b k u w n _ ih =>
    intro level offset
    obtain ⟨x, hx, hn, hw⟩ := ih (level + 1 + 1) (offset + 1 + (encodeEntries a).length + (encodeStr k).length)
    refine ⟨x, ?_, by omega, hw⟩
    rw [preorder]
    refine List.mem_cons_of_mem _ (mem_preorderEntries a ?_)
    rw [preorderEntries, List.cons_append]
    exact List.mem_cons_of_mem _ (List.mem_append_left _ hx)

/-- The nodes of the walk are the values contained, each where its encoding starts. -/
theorem mem_preorder_iff (v w : Value) (level offset n : Nat) :
    (∃ x ∈ preorder level offset v, x.offset = offset + n ∧ x.value = w) ↔ Occurs v n w := by
  constructor
  · rintro ⟨x, hx, hn, rfl⟩
    obtain ⟨m, hm, h⟩ := occurs_of_mem_preorder v level offset x hx
    obtain rfl : m = n := by omega
    exact h
  · intro h
    exact exists_mem_preorder h level offset

end Bencode
