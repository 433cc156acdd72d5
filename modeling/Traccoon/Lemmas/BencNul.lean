import Traccoon.Lemmas.BencScan

/-!
# A byte of an encoding overwritten by a NUL

What is left is the encoding of another value of the same kind, where the byte belonged to a string, or a text that has no length
(`overwritten`). The induction is on the value: an element in front of the byte is passed, and the one that holds it is never measured.
-/

namespace Traccoon

open CString Bencode

namespace BencNul

/-- With anything behind it, the text has no length. -/
def Broken (x : Bytes) : Prop :=
  ∀ (buf s : Bytes) (p io : Int) (fuel : Nat), TextAt buf p (x ++ s) → x.length < 2147483648 → 2 * x.length ≤ fuel →
    bencEntityLength buf fuel p io = .ok (-1)

/-- With anything behind it, the text does not end a run of elements, the first of which has number `k`. -/
def BrokenElements (keys : Bool) (k : Nat) (x : Bytes) : Prop :=
  ∀ (buf s : Bytes) (p offset io : Int) (fuel : Nat), TextAt buf (p + offset + 1) (x ++ s) → 0 ≤ offset →
    offset + x.length < 2147483648 → 2 * x.length < fuel → bencElements buf fuel keys p io offset k = .ok (-1)

/-- With anything behind it, the text has no type. -/
def Untyped (x : Bytes) : Prop := ∀ (buf s : Bytes) (p : Int), TextAt buf p (x ++ s) → bencEntityType buf p = .ok .fail

/-! ## Where a NUL stands -/

theorem set_before {l t : Bytes} {k : Nat} (h : k < l.length) (b : UInt8) : (l ++ t).set k b = l.set k b ++ t := by
  rw [List.set_append, if_pos h]

theorem set_behind {l t : Bytes} {k : Nat} (h : l.length ≤ k) (b : UInt8) : (l ++ t).set k b = l ++ t.set (k - l.length) b := by
  rw [List.set_append, if_neg (by omega)]

/-- The text up to the byte stays. -/
theorem set_eq_take {l : Bytes} {k : Nat} (h : k < l.length) (b : UInt8) : ∃ t, l.set k b = l.take k ++ b :: t :=
  ⟨l.drop (k + 1), by rw [List.set_eq_take_append_cons_drop, if_pos h]⟩

theorem digits_take {ds : Bytes} (h : Digits ds) (k : Nat) : Digits (ds.take k) := fun d hd => h d (List.mem_of_mem_take hd)

/-- A NUL in the place of a type, or behind digits. -/
theorem untyped_digits {ds : Bytes} (hd : Digits ds) (t : Bytes) : Untyped (ds ++ 0 :: t) := by
  intro buf s p h
  have h' : TextAt buf p (ds ++ 0 :: (t ++ s)) := by simpa using h
  rw [bencEntityType_other h' hd (by decide) (fun _ => by decide), if_neg (fun h0 => absurd h0.1 (by decide))]

theorem untyped_nul (t : Bytes) : Untyped (0 :: t) := @untyped_digits [] (fun _ h => by cases h) t

theorem Untyped.ne_nil {x : Bytes} (h : Untyped x) : x ≠ [] := by
  rintro rfl
  have := h [100] [100] 0 (textAt_zero _)
  revert this
  decide

theorem Untyped.broken {x : Bytes} (h : Untyped x) : Broken x := by
  intro buf s p io fuel ht _ hf
  have hpos := List.length_pos_iff.2 h.ne_nil
  obtain ⟨f, rfl⟩ : ∃ f, fuel = f + 1 := ⟨fuel - 1, by omega⟩
  simp only [bencEntityLength, h buf s p ht, walk_ok_bind]
  rfl

/-! ## Elements -/

/-- A NUL where an element or the closing letter should stand. -/
theorem brokenElements_nul (keys : Bool) (k : Nat) (t : Bytes) : BrokenElements keys k (0 :: t) := by
  intro buf s p offset io fuel h _ _ hf
  obtain ⟨f, rfl⟩ : ∃ f, fuel = f + 1 := ⟨fuel - 1, by omega⟩
  have hb : byteAt buf (p + offset + 1) = .ok 0 := TextAt.byteAt (t := t ++ s) h
  simp only [bencElements, hb, walk_ok_bind]
  rfl

/-- An element that has no length; one in the place of a key has no type either. -/
theorem Broken.elements {x : Bytes} (hx : Broken x) {keys : Bool} {k : Nat} (hkey : keys = true → k % 2 = 0 → Untyped x)
    {c : UInt8} {t : Bytes} (hct : x = c :: t) (hc : c ≠ 101) (rest : Bytes) : BrokenElements keys k (x ++ rest) := by
  intro buf s p offset io fuel h h0 hlen hf
  obtain ⟨f, rfl⟩ : ∃ f, fuel = f + 1 := ⟨fuel - 1, by omega⟩
  simp only [List.length_append, Nat.cast_add] at hlen hf
  rw [List.append_assoc] at h
  by_cases h00 : c = 0
  · subst h00 hct
    exact brokenElements_nul keys k t buf (rest ++ s) p offset io (f + 1) h h0 (by omega) (by omega)
  · have hb : byteAt buf (p + offset + 1) = .ok c := by
      rw [hct] at h
      exact TextAt.byteAt (t := t ++ (rest ++ s)) h
    simp only [bencElements, hb, walk_ok_bind, ne_eq, hc, h00, not_false_eq_true, and_self, if_true]
    by_cases hk : keys = true ∧ k % 2 = 0
    · rw [badKey, if_pos hk, hkey hk.1 hk.2 buf (rest ++ s) _ h]
      rfl
    · rw [badKey, if_neg hk, walk_ok_bind, hx buf (rest ++ s) _ _ f h (by omega) (by omega)]
      rfl

/-- An element in front of the byte is passed. -/
theorem BrokenElements.cons {e x : Bytes} {keys : Bool} {k : Nat} (hs : keys = true → k % 2 = 0 → IsStr e) (he : Complete e)
    (hx : BrokenElements keys (k + 1) x) : BrokenElements keys k (e ++ x) := by
  intro buf s p offset io fuel h h0 hlen hf
  obtain ⟨f, rfl⟩ : ∃ f, fuel = f + 1 := ⟨fuel - 1, by omega⟩
  have hpos := he.length_pos
  simp only [List.length_append, Nat.cast_add] at hlen hf
  rw [List.append_assoc] at h
  rw [bencElements_cons (measures _ buf f).1 io hs he h h0 (by omega) (by omega)]
  refine hx buf s p (offset + e.length) io f ?_ (by omega) (by omega) (by omega)
  have := h.move
  rwa [show p + offset + 1 + (e.length : Int) = p + (offset + e.length) + 1 by omega] at this

/-- A list or dictionary whose elements do not end. -/
theorem BrokenElements.broken {x : Bytes} {keys : Bool} (hx : BrokenElements keys 0 x) :
    Broken ((if keys then 100 else 108) :: x) := by
  intro buf s p io fuel h hlen hf
  simp only [List.length_cons] at hlen hf
  obtain ⟨f, rfl⟩ : ∃ f, fuel = f + 1 := ⟨fuel - 1, by omega⟩
  have h1 : TextAt buf (p + 0 + 1) (x ++ s) := by
    rw [Int.add_zero]
    exact TextAt.next (by simpa using h)
  have hl := hx buf s p 0 io f h1 (by omega) (by omega) (by omega)
  cases keys with
  | true =>
    have hty : bencEntityType buf p = .ok .dict := bencEntityType_dict (t := x ++ s) (by simpa using h)
    simp only [bencEntityLength, hty, walk_ok_bind, hl]
  | false =>
    have hty : bencEntityType buf p = .ok .list := bencEntityType_list (t := x ++ s) (by simpa using h)
    simp only [bencEntityLength, hty, walk_ok_bind, hl]

/-! ## Strings and integers -/

/-- A string: its bytes may be any, its length and the colon may not. -/
theorem overwritten_str (a : Bytes) {k : Nat} (hk : k < (encodeStr a).length) :
    (∃ b, (encodeStr a).set k 0 = encodeStr b) ∨ Untyped ((encodeStr a).set k 0) := by
  have hd := decimal_digits a.length
  rw [encodeStr, List.length_append, List.length_cons] at hk
  by_cases hfront : k ≤ (decimal a.length).length
  · right
    obtain ⟨t, ht⟩ := set_eq_take (show k < (encodeStr a).length by rw [encodeStr]; simpa using hk) 0
    rw [ht, encodeStr, List.take_append_of_le_length hfront]
    exact untyped_digits (digits_take hd k) t
  · left
    refine ⟨a.set (k - (decimal a.length).length - 1) 0, ?_⟩
    rw [encodeStr, encodeStr, List.length_set, set_behind (by omega)]
    obtain ⟨j, hj⟩ : ∃ j, k - (decimal a.length).length = j + 1 := ⟨k - (decimal a.length).length - 1, by omega⟩
    rw [hj, List.set_cons_succ, Nat.add_sub_cancel]

/-- A part of an integer in front of its end is a sign, or none, and digits. -/
theorem take_minus_digits {neg : Bool} {ds : Bytes} (hd : Digits ds) {j : Nat} (hj : j ≤ (minus neg ++ ds).length) (t : Bytes) :
    ∃ neg' ds', Digits ds' ∧ (minus neg ++ ds ++ t).take j = minus neg' ++ ds' := by
  rw [List.take_append_of_le_length hj]
  cases neg with
  | false => exact ⟨false, ds.take j, digits_take hd j, rfl⟩
  | true =>
    cases j with
    | zero => exact ⟨false, [], fun _ h => (by cases h), rfl⟩
    | succ j => exact ⟨true, ds.take j, digits_take hd j, rfl⟩

/-- An integer holds no byte that may be a NUL. -/
theorem overwritten_int (n : Numeral) {k : Nat} (hk : k < (Value.int n).encode.length) : Broken ((Value.int n).encode.set k 0) := by
  rw [Value.encode] at hk ⊢
  cases k with
  | zero =>
    rw [List.set_cons_zero]
    exact (untyped_nul _).broken
  | succ j =>
    simp only [List.length_cons, List.length_append, List.length_nil] at hk
    obtain ⟨t, ht⟩ := set_eq_take (show j < (minus n.neg ++ n.digits ++ [101]).length by simp; omega) 0
    obtain ⟨neg', ds', hd', htake⟩ := take_minus_digits n.isDigits (show j ≤ (minus n.neg ++ n.digits).length by simp; omega) [101]
    rw [List.set_cons_succ, ht, htake]
    intro buf s p io fuel h _ hf
    obtain ⟨f, rfl⟩ : ∃ f, fuel = f + 1 := ⟨fuel - 1, by simp only [List.length_cons] at hf; omega⟩
    have h' : TextAt buf p (105 :: (minus neg' ++ (ds' ++ 0 :: (t ++ s)))) := by simpa using h
    simp only [bencEntityLength, bencEntityType_int h', walk_ok_bind]
    rw [bencIntLength_eq neg' hd' (by decide) (fun _ _ => by decide) h', if_neg (by decide)]

/-! ## Values -/

/-- The first byte of an encoding, overwritten or not, closes nothing. -/
theorem head_set (v : Value) (k : Nat) : ∃ c t, v.encode.set k 0 = c :: t ∧ c ≠ 101 := by
  obtain ⟨c, t, hct, ho⟩ := encode_opens v
  rw [hct]
  cases k with
  | zero => exact ⟨0, t, rfl, by decide⟩
  | succ k => exact ⟨c, t.set k 0, rfl, (opens_unique ho ho).2⟩

mutual
theorem overwritten : ∀ (v : Value) {k : Nat}, k < v.encode.length →
    (∃ w : Value, w.kind = v.kind ∧ v.encode.set k 0 = w.encode) ∨ Broken (v.encode.set k 0)
  | .str a, k, hk => by
    rw [Value.encode] at hk ⊢
    rcases overwritten_str a hk with ⟨b, hb⟩ | hu
    · exact Or.inl ⟨.str b, rfl, by rw [hb, Value.encode]⟩
    · exact Or.inr hu.broken
  | .int n, k, hk => Or.inr (overwritten_int n hk)
  | .list vs, k, hk => by
    rw [Value.encode] at hk ⊢
    cases k with
    | zero => exact Or.inr (untyped_nul _).broken
    | succ j =>
      simp only [List.length_cons, List.length_append, List.length_nil] at hk
      rw [List.set_cons_succ]
      rcases overwritten_list vs 0 (k := j) (by omega) with ⟨ws, hws⟩ | hb
      · exact Or.inl ⟨.list ws, rfl, by rw [hws, Value.encode]⟩
      · exact Or.inr hb.broken
  | .dict es, k, hk => by
    rw [Value.encode] at hk ⊢
    cases k with
    | zero => exact Or.inr (untyped_nul _).broken
    | succ j =>
      simp only [List.length_cons, List.length_append, List.length_nil] at hk
      rw [List.set_cons_succ]
      rcases overwritten_entries es 0 rfl (k := j) (by omega) with ⟨fs, hfs⟩ | hb
      · exact Or.inl ⟨.dict fs, rfl, by rw [hfs, Value.encode]⟩
      · exact Or.inr hb.broken

theorem overwritten_list : ∀ (vs : List Value) (i : Nat) {k : Nat}, k ≤ (encodeList vs).length →
    (∃ ws, (encodeList vs ++ [101]).set k 0 = encodeList ws ++ [101]) ∨ BrokenElements false i ((encodeList vs ++ [101]).set k 0)
  | [], i, k, hk => by
    rw [encodeList] at hk ⊢
    obtain rfl := Nat.le_zero.1 hk
    exact Or.inr (brokenElements_nul false i [])
  | v :: vs, i, k, hk => by
    rw [encodeList, List.length_append] at hk
    rw [encodeList, List.append_assoc]
    by_cases hfirst : k < v.encode.length
    · rw [set_before hfirst]
      rcases overwritten v hfirst with ⟨w, -, hw⟩ | hb
      · exact Or.inl ⟨w :: vs, by rw [hw, encodeList, List.append_assoc]⟩
      · obtain ⟨c, t, hct, hc⟩ := head_set v k
        exact Or.inr (hb.elements (fun h : false = true => by cases h) hct hc _)
    · rw [set_behind (by omega)]
      rcases overwritten_list vs (i + 1) (k := k - v.encode.length) (by omega) with ⟨ws, hws⟩ | hb
      · exact Or.inl ⟨v :: ws, by rw [hws, encodeList, List.append_assoc]⟩
      · exact Or.inr (BrokenElements.cons (fun h => by cases h) (complete_encode v) hb)

theorem overwritten_entries : ∀ (es : List (Bytes × Value)) (i : Nat), i % 2 = 0 → ∀ {k : Nat}, k ≤ (encodeEntries es).length →
    (∃ fs, (encodeEntries es ++ [101]).set k 0 = encodeEntries fs ++ [101]) ∨
      BrokenElements true i ((encodeEntries es ++ [101]).set k 0)
  | [], i, _, k, hk => by
    rw [encodeEntries] at hk ⊢
    obtain rfl := Nat.le_zero.1 hk
    exact Or.inr (brokenElements_nul true i [])
  | (a, v) :: es, i, hi, k, hk => by
    rw [encodeEntries, List.length_append, List.length_append] at hk
    rw [encodeEntries, List.append_assoc, List.append_assoc]
    have hstr : Complete (encodeStr a) := Entity.str (isStr_encodeStr a)
    by_cases hkey : k < (encodeStr a).length
    · rw [set_before hkey]
      rcases overwritten_str a hkey with ⟨b, hb⟩ | hu
      · exact Or.inl ⟨(b, v) :: es, by rw [hb, encodeEntries, List.append_assoc, List.append_assoc]⟩
      · obtain ⟨c, t, hct, hc⟩ := head_set (.str a) k
        rw [encode_str] at hct
        exact Or.inr (hu.broken.elements (fun _ _ => hu) hct hc _)
    · rw [set_behind (by omega)]
      by_cases hvalue : k - (encodeStr a).length < v.encode.length
      · rw [set_before hvalue]
        rcases overwritten v hvalue with ⟨w, -, hw⟩ | hb
        · exact Or.inl ⟨(a, w) :: es, by rw [hw, encodeEntries, List.append_assoc, List.append_assoc]⟩
        · obtain ⟨c, t, hct, hc⟩ := head_set v (k - (encodeStr a).length)
          exact Or.inr (BrokenElements.cons (fun _ _ => isStr_encodeStr a) hstr (hb.elements (fun _ h => absurd h (by omega)) hct hc _))
      · rw [set_behind (by omega)]
        rcases overwritten_entries es (i + 1 + 1) (by omega) (k := k - (encodeStr a).length - v.encode.length) (by omega) with
          ⟨fs, hfs⟩ | hb
        · exact Or.inl ⟨(a, v) :: fs, by rw [hfs, encodeEntries, List.append_assoc, List.append_assoc]⟩
        · exact Or.inr (BrokenElements.cons (fun _ _ => isStr_encodeStr a) hstr
            (BrokenElements.cons (fun _ h => absurd h (by omega)) (complete_encode v) hb))
end

end BencNul

end Traccoon
