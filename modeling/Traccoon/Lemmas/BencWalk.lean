import Traccoon.BencAccess
import Traccoon.Lemmas.BencComplete

/-!
# What the walks over lists and dictionaries do with whole elements

One lemma per accessor, then the loop: an element that is an entity is passed by exactly its length, so the offset is the length of
the elements passed (`Passed`), whatever the functions that look for an element ask of each.
-/

namespace Traccoon

open CString Bencode

/-! ## Types -/

/-- The type of an entity by the kind of its value. -/
def entityType : Kind → BencEntityType
  | .str => .string
  | .int => .int
  | .list => .list
  | .dict => .dict

/-- The type of the encoding of a value is its kind. -/
theorem bencEntityType_encode {buf s : Bytes} {p : Int} (v : Value) (h : TextAt buf p (v.encode ++ s)) :
    bencEntityType buf p = .ok (entityType v.kind) := by
  cases v with
  | str a =>
    rw [Value.encode, encodeStr, List.append_assoc] at h
    exact bencEntityType_string h (decimal_digits _) (decimal_ne_nil _)
  | int n =>
    rw [Value.encode] at h
    exact bencEntityType_int h
  | list vs =>
    rw [Value.encode] at h
    exact bencEntityType_list h
  | dict es =>
    rw [Value.encode] at h
    exact bencEntityType_dict h

/-! ## Strings -/

theorem stringLength_digits {buf ds t : Bytes} {p : Int} (h : TextAt buf p (ds ++ 58 :: t)) (hd : Digits ds) (hne : ds ≠ [])
    (hlen : digitsVal ds < 2147483648) : Benc.stringLength buf p = .ok (digitsVal ds) := by
  have hv : strtoul (buf.drop p.toNat) = digitsVal ds := by
    rw [h.drop, strtoul_append_cons (by decide) (by decide) (by decide) (by decide), strtoul_digits hd hne (by omega)]
  simp only [Benc.stringLength, bencEntityType_string h hd hne, walk_ok_bind, hv]
  rw [int32_of_lt (by omega) (by omega)]
  rfl

/-- The length of a string; anything else has none. -/
theorem stringLength_encode {buf s : Bytes} {p : Int} (v : Value) (h : TextAt buf p (v.encode ++ s)) (hlen : v.encode.length < 2147483648) :
    Benc.stringLength buf p = .ok (match v with
      | .str a => a.length
      | _ => -1) := by
  cases v with
  | str a =>
    rw [encode_str, encodeStr] at h hlen
    rw [List.length_append, List.length_cons] at hlen
    rw [List.append_assoc] at h
    rw [stringLength_digits h (decimal_digits _) (decimal_ne_nil _) (by rw [digitsVal_decimal]; omega), digitsVal_decimal]
  | int n =>
    rw [Benc.stringLength, bencEntityType_encode _ h]
    rfl
  | list vs =>
    rw [Benc.stringLength, bencEntityType_encode _ h]
    rfl
  | dict es =>
    rw [Benc.stringLength, bencEntityType_encode _ h]
    rfl

/-- The digits hold no colon, so the first one ends them. -/
theorem takeWhile_colon {ds : Bytes} (hd : Digits ds) (t : Bytes) : (ds ++ 58 :: t).takeWhile (· != 58) = ds := by
  rw [List.takeWhile_append_of_pos, List.takeWhile_cons_of_neg (by decide), List.append_nil]
  intro b hb
  simp only [bne_iff_ne, ne_eq]
  rintro rfl
  exact absurd (hd 58 hb) (by decide)

theorem stringDataOffset_digits {buf ds t : Bytes} {p : Int} (h : TextAt buf p (ds ++ 58 :: t)) (hd : Digits ds) (hne : ds ≠ [])
    (hlen : ds.length + 1 < 2147483648) : Benc.stringDataOffset buf p = .ok (ds.length + 1 : Nat) := by
  simp only [Benc.stringDataOffset, bencEntityType_string h hd hne, walk_ok_bind, h.drop, takeWhile_colon hd, h.move.byteAt]
  rw [int32_of_lt (by omega) (by omega)]
  rfl

/-- Two texts of one length are compared to their ends. -/
theorem strncmpEq_eq {buf : Bytes} : ∀ {key s post : Bytes} {p : Int}, TextAt buf p (s ++ post) → s.length = key.length →
    Benc.strncmpEq buf p key = .ok (decide (s = key))
  | [], s, post, p, _, hlen => by
    obtain rfl := List.eq_nil_of_length_eq_zero hlen
    rfl
  | c :: key, [], post, p, _, hlen => by simp at hlen
  | c :: key, b :: s, post, p, h, hlen => by
    have hb : byteAt buf p = .ok b := TextAt.byteAt (t := s ++ post) h
    simp only [Benc.strncmpEq, hb, walk_ok_bind]
    by_cases hcb : c = b
    · subst hcb
      rw [if_pos rfl, strncmpEq_eq (TextAt.next (t := s ++ post) h) (by simpa using hlen)]
      simp
    · rw [if_neg hcb]
      simp [Ne.symm hcb]
      rfl

/-! ## Integers -/

/-- What stands behind the `i` decides: a sign, digits, and the byte behind them. -/
theorem intValue_eq {buf ds t : Bytes} {p : Int} {c : UInt8} (neg : Bool) (hd : Digits ds) (hc : isDigit c = false)
    (hs : neg = false → ds = [] → c ≠ 45) (h : TextAt buf p (105 :: (minus neg ++ (ds ++ c :: t)))) (defval : Int) :
    Benc.intValue buf p defval = .ok (if (minus neg).length + ds.length ≤ 1 ∨ c ≠ 101 then defval
      else int32 (strtol (minus neg ++ (ds ++ c :: t)))) := by
  have h1 := h.next
  obtain ⟨b, hb, hneg⟩ := byteAt_sign hd hs h
  have hi : (if b = 45 then (1 : Int) else 0) = (minus neg).length := by
    cases neg with
    | true => rw [if_pos (hneg.2 rfl)]; rfl
    | false => rw [if_neg (fun h45 => by cases hneg.1 h45)]; rfl
  have h2 : TextAt buf (p + ((minus neg).length + 1)) (ds ++ c :: t) := by
    have := h1.move
    rwa [show p + 1 + ((minus neg).length : Int) = p + ((minus neg).length + 1) by omega] at this
  have h3 := h2.move.byteAt
  rw [show p + (((minus neg).length : Int) + 1) + (ds.length : Int) = p + ((minus neg).length + ds.length + 1) by omega] at h3
  simp only [Benc.intValue, bencEntityType_int h, walk_ok_bind, hb, hi, h2.skipDigits hd hc, h3, h1.drop]
  by_cases hlen : (minus neg).length + ds.length ≤ 1
  · rw [if_pos (by omega), if_pos (Or.inl hlen)]
    rfl
  · rw [if_neg (by omega)]
    by_cases hc101 : c = 101
    · rw [if_neg (by simp [hc101]), if_neg (by simp [hc101, hlen])]
      rfl
    · rw [if_pos hc101, if_pos (Or.inr hc101)]
      rfl

/-- One digit is enough exactly for the numbers below ten. -/
theorem length_decimal_le_one_iff (n : Nat) : (decimal n).length ≤ 1 ↔ n ≤ 9 := by
  rw [decimal, List.length_map, Nat.length_toDigits_le_iff (by decide) (by decide)]
  omega

/-- `strtol` reads back what `%d` wrote of an `int`. -/
theorem strtol_decimalInt {n : Int} (h : IsInt32 n) (s : Bytes) :
    strtol (decimalInt n ++ 101 :: s) = n := by
  obtain ⟨h1, h2⟩ := h
  have hdig := takeWhile_digits (decimal_digits n.natAbs) (c := 101) (by decide) s
  unfold decimalInt
  split
  · have hdrop : (45 :: (decimal n.natAbs ++ 101 :: s)).dropWhile isSpace = 45 :: (decimal n.natAbs ++ 101 :: s) :=
      List.dropWhile_cons_of_neg (by decide)
    simp only [strtol, List.cons_append, hdrop, sign, hdig, digitsVal_decimal, if_true]
    omega
  · rw [strtol_digits (decimal_digits _) (decimal_ne_nil _) (by decide), digitsVal_decimal]
    omega

/-- The encoding of an `int`, with anything behind it. -/
theorem intValue_encodeInt {buf s : Bytes} {p : Int} {n : Int} (hn : IsInt32 n) (h : TextAt buf p (encodeInt n ++ s)) (defval : Int) :
    Benc.intValue buf p defval = .ok (if n < 0 ∨ 9 < n then n else defval) := by
  have htext : decimalInt n ++ 101 :: s = minus (decide (n < 0)) ++ (decimal n.natAbs ++ 101 :: s) := by
    unfold decimalInt
    by_cases hneg : n < 0 <;> simp [hneg, minus]
  have h' : TextAt buf p (105 :: (minus (decide (n < 0)) ++ (decimal n.natAbs ++ 101 :: s))) := by
    rw [← htext]
    simpa [encodeInt] using h
  rw [intValue_eq _ (decimal_digits _) (by decide) (fun _ hnil => absurd hnil (decimal_ne_nil _)) h', ← htext,
    strtol_decimalInt hn, int32_of_isInt32 hn]
  have hpos := List.length_pos_iff.2 (decimal_ne_nil n.natAbs)
  have hone := length_decimal_le_one_iff n.natAbs
  by_cases hneg : n < 0
  · have hminus : (minus (decide (n < 0))).length = 1 := by simp [hneg, minus]
    rw [if_neg (not_or.2 ⟨by omega, by simp⟩), if_pos (Or.inl hneg)]
  · have hminus : (minus (decide (n < 0))).length = 0 := by simp [hneg, minus]
    by_cases h9 : 9 < n
    · rw [if_neg (not_or.2 ⟨by omega, by simp⟩), if_pos (Or.inr h9)]
    · rw [if_pos (Or.inl (by omega)), if_neg (by omega)]

/-! ## What is asked of an element -/

variable {intOk : Bytes → Prop} {buf : Bytes} {p offset item : Int}

/-- A string in the place of a key is looked at. -/
theorem visitKey_isStr {e post : Bytes} (test : Nat → Int → Int → Walk (Option Int)) (fuel : Nat) (hi : item % 2 = 0) (he : IsStr e)
    (h : TextAt buf (p + offset + 1) (e ++ post)) : Benc.visitKey buf p test fuel offset item = test fuel offset item := by
  obtain ⟨ds, s, hd, hne, -, rfl⟩ := he
  have h' : TextAt buf (p + offset + 1) (ds ++ 58 :: (s ++ post)) := by simpa using h
  simp only [Benc.visitKey, hi, if_true, bencEntityType_string h' hd hne, walk_ok_bind]

/-- A value is not looked at. -/
theorem visitKey_value (test : Nat → Int → Int → Walk (Option Int)) (fuel : Nat) (hi : item % 2 ≠ 0) :
    Benc.visitKey buf p test fuel offset item = .ok none := by
  simp only [Benc.visitKey, hi, if_false]
  rfl

/-- A whole string is the key looked for when its bytes are, and the value is then looked for behind it. -/
theorem matchKey_eq {ds s post key : Bytes} {fuel : Nat} (hd : Digits ds) (hne : ds ≠ []) (hv : digitsVal ds = s.length)
    (h : TextAt buf (p + offset + 1) (ds ++ 58 :: s ++ post)) (h0 : 0 ≤ offset)
    (hlen : offset + 1 + (ds ++ 58 :: s).length < 2147483648) (hf : (ds ++ 58 :: s).length ≤ fuel) :
    Benc.matchKey buf p key fuel offset item =
      .ok (if s = key then some (offset + 1 + (ds ++ 58 :: s).length) else none) := by
  have hl := (measures (fun _ => True) buf fuel).1 (ds ++ 58 :: s) post (p + offset + 1) 0 (Entity.str ⟨ds, s, hd, hne, hv, rfl⟩) h
    (by omega) hf
  have h' : TextAt buf (p + offset + 1) (ds ++ 58 :: (s ++ post)) := by simpa using h
  simp only [List.length_append, List.length_cons] at hlen hl ⊢
  have hs := stringLength_digits h' hd hne (by omega)
  simp only [Benc.matchKey, hs, hv, walk_ok_bind]
  by_cases hk : key.length = s.length
  · rw [if_pos (by omega)]
    have hdata : TextAt buf (p + offset + 1 + (ds.length + 1 : Nat)) (s ++ post) := by
      have := h'.move.next
      rwa [show p + offset + 1 + (ds.length : Int) + 1 = p + offset + 1 + ((ds.length + 1 : Nat) : Int) by omega] at this
    simp only [stringDataOffset_digits h' hd hne (by omega), walk_ok_bind, strncmpEq_eq hdata hk.symm]
    by_cases hsk : s = key
    · simp only [hsk, decide_true, if_true]
      rw [← hsk, hl, walk_ok_bind, int32_of_lt (by omega) (by omega)]
      rfl
    · simp only [hsk, decide_false, Bool.false_eq_true, if_false]
      rfl
  · rw [if_neg (by omega), if_neg (by rintro rfl; exact hk rfl)]
    rfl

/-! ## The loop -/

variable {visit : Nat → Int → Int → Walk (Option Int)}

theorem walk_close {c : UInt8} {t : Bytes} (h : TextAt buf (p + offset + 1) (c :: t)) (hc : c = 101 ∨ c = 0) (fuel : Nat) :
    Benc.walk buf visit (fuel + 1) p offset item = .ok (-1) := by
  simp only [Benc.walk, h.byteAt, walk_ok_bind]
  rw [if_neg (by tauto)]
  rfl

theorem walk_return {c : UInt8} {t : Bytes} (h : TextAt buf (p + offset + 1) (c :: t)) (hc : c ≠ 101 ∧ c ≠ 0) {fuel : Nat} {r : Int}
    (hv : visit fuel offset item = .ok (some r)) : Benc.walk buf visit (fuel + 1) p offset item = .ok r := by
  simp only [Benc.walk, h.byteAt, walk_ok_bind, hc, ne_eq, not_false_eq_true, and_self, if_true, hv]
  rfl

/-- An element that is an entity, and not the one looked for, is passed. -/
theorem walk_pass {e post : Bytes} {fuel : Nat} (he : Entity intOk e) (h : TextAt buf (p + offset + 1) (e ++ post)) (h0 : 0 ≤ offset)
    (hlen : offset + e.length < 2147483648) (hi : 0 ≤ item ∧ item + 1 < 2147483648) (hf : e.length ≤ fuel)
    (hv : visit fuel offset item = .ok none) :
    Benc.walk buf visit (fuel + 1) p offset item = Benc.walk buf visit fuel p (offset + e.length) (item + 1) := by
  have hl := (measures intOk buf fuel).1 e post (p + offset + 1) 0 he h (by omega) hf
  obtain ⟨c, t, rfl, hc⟩ := entity_head_continues he
  have hb : byteAt buf (p + offset + 1) = .ok c := TextAt.byteAt (t := t ++ post) h
  simp only [Benc.walk, hb, walk_ok_bind, hc, ne_eq, not_false_eq_true, and_self, if_true, hv, hl]
  rw [int32_of_lt (by omega) (by omega), int32_of_lt (by omega) (by omega)]

/-- The loop over what starts at `p` passes these elements, `k` of them, because none is the one looked for. -/
inductive Passed (intOk : Bytes → Prop) (buf : Bytes) (visit : Nat → Int → Int → Walk (Option Int)) (p : Int) :
    Nat → Bytes → Prop where
  | start : Passed intOk buf visit p 0 []
  | pass {k : Nat} {xs e post : Bytes} : Passed intOk buf visit p k xs → Entity intOk e →
      TextAt buf (p + xs.length + 1) (e ++ post) → xs.length + e.length < 2147483648 →
      (∀ fuel, e.length ≤ fuel → visit fuel xs.length k = .ok none) → Passed intOk buf visit p (k + 1) (xs ++ e)

/-- Each element has a byte at least. -/
theorem Passed.le_length {k : Nat} {xs : Bytes} (h : Passed intOk buf visit p k xs) : k ≤ xs.length := by
  induction h with
  | start => exact Nat.le_refl _
  | pass _ he _ _ _ ih =>
    have := he.length_pos
    rw [List.length_append]
    omega

/-- Each element costs the loop one unit of fuel, and has a byte at least. -/
theorem Passed.walk {k : Nat} {xs : Bytes} (h : Passed intOk buf visit p k xs) : ∀ r fuel : Nat, 0 < r → xs.length + r ≤ fuel →
    ∃ fuel', r ≤ fuel' ∧ Benc.walk buf visit fuel p 0 0 = Benc.walk buf visit fuel' p xs.length k := by
  induction h with
  | start =>
    intro r fuel _ hf
    exact ⟨fuel, by simpa using hf, rfl⟩
  | @pass k xs e post hp he ht hlen hv ih =>
    intro r fuel hr hf
    rw [List.length_append] at hf
    obtain ⟨fuel', hf', hw⟩ := ih (e.length + r) fuel (by omega) (by omega)
    have hk := hp.le_length
    have hpos := he.length_pos
    obtain ⟨f, rfl⟩ : ∃ f, fuel' = f + 1 := ⟨fuel' - 1, by omega⟩
    refine ⟨f, by omega, ?_⟩
    rw [hw, walk_pass he ht (by omega) (by omega) ⟨by omega, by omega⟩ (by omega) (hv f (by omega)), List.length_append]
    congr 1

end Traccoon
