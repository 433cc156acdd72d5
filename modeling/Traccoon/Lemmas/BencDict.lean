import Traccoon.Lemmas.BencWalk

/-!
# Looking for an entry of an encoded dictionary

On the encoding of a dictionary, with anything behind it, the two functions pass whole entries: an entry stands behind the opening
letter and the entries before it. The induction is on the entries passed.
-/

namespace Traccoon

open CString Bencode

variable {buf : Bytes} {p : Int} {test : Nat → Int → Int → Walk (Option Int)}

/-- A key stands behind the opening letter and the entries before it. -/
theorem textAt_key {pre post : List (Bytes × Value)} {k s : Bytes} {v : Value}
    (h : TextAt buf p ((Value.dict (pre ++ (k, v) :: post)).encode ++ s)) :
    TextAt buf (p + (1 + (encodeEntries pre).length : Nat)) (encodeStr k ++ (v.encode ++ (encodeEntries post ++ 101 :: s))) := by
  rw [encode_dict, encodeEntries_append, encodeEntries] at h
  have h1 : TextAt buf (p + 1) (encodeEntries pre ++ (encodeStr k ++ (v.encode ++ (encodeEntries post ++ 101 :: s)))) :=
    TextAt.next (c := 100) (by simpa using h)
  have := h1.move
  rwa [show p + 1 + ((encodeEntries pre).length : Int) = p + (1 + (encodeEntries pre).length : Nat) by omega] at this

/-- Its value stands behind it. -/
theorem textAt_value (pre : List (Bytes × Value)) {post : List (Bytes × Value)} {k s : Bytes} {v : Value}
    (h : TextAt buf p ((Value.dict (pre ++ (k, v) :: post)).encode ++ s)) :
    TextAt buf (p + (1 + (encodeEntries pre).length + (encodeStr k).length : Nat)) (v.encode ++ (encodeEntries post ++ 101 :: s)) := by
  have := (textAt_key h).move
  rwa [show p + ((1 + (encodeEntries pre).length : Nat) : Int) + ((encodeStr k).length : Int) =
    p + (1 + (encodeEntries pre).length + (encodeStr k).length : Nat) by omega] at this

/-- Entries whose keys are not the one looked for are passed. -/
theorem passed_entries (pre : List (Bytes × Value)) : ∀ {post : Bytes}, TextAt buf (p + 1) (encodeEntries pre ++ post) →
    (encodeEntries pre).length < 2147483648 →
    (∀ a k v b, pre = a ++ (k, v) :: b → ∀ post fuel, TextAt buf (p + (encodeEntries a).length + 1) (encodeStr k ++ post) →
      (encodeStr k).length ≤ fuel → test fuel (encodeEntries a).length (2 * a.length : Nat) = .ok none) →
    Passed (fun ds => ds ≠ []) buf (Benc.visitKey buf p test) p (2 * pre.length) (encodeEntries pre) := by
  induction pre using List.reverseRecOn with
  | nil =>
    intro post _ _ _
    exact Passed.start
  | append_singleton pre e ih =>
    obtain ⟨k, v⟩ := e
    intro post h hlen hno
    have henc : encodeEntries (pre ++ [(k, v)]) = encodeEntries pre ++ encodeStr k ++ v.encode := by
      rw [encodeEntries_append, encodeEntries, encodeEntries, List.append_nil, List.append_assoc]
    rw [henc] at h hlen ⊢
    simp only [List.append_assoc, List.length_append] at h hlen
    have hp := ih h (by omega) fun a k' v' b hab => hno a k' v' (b ++ [(k, v)]) (by rw [hab]; simp)
    have hk : TextAt buf (p + (encodeEntries pre).length + 1) (encodeStr k ++ (v.encode ++ post)) := by
      have := h.move
      rwa [show p + 1 + ((encodeEntries pre).length : Int) = p + (encodeEntries pre).length + 1 by omega] at this
    have hv : TextAt buf (p + (encodeEntries pre ++ encodeStr k).length + 1) (v.encode ++ post) := by
      have := hk.move
      rw [List.length_append]
      rwa [show p + ((encodeEntries pre).length : Int) + 1 + ((encodeStr k).length : Int) =
        p + ((encodeEntries pre).length + (encodeStr k).length : Nat) + 1 by omega] at this
    have hkey : Passed (fun ds => ds ≠ []) buf (Benc.visitKey buf p test) p (2 * pre.length + 1) (encodeEntries pre ++ encodeStr k) := by
      refine Passed.pass hp (Entity.str (isStr_encodeStr k)) hk (by omega) fun fuel hf => ?_
      rw [visitKey_isStr test fuel (by omega) (isStr_encodeStr k) hk]
      exact hno pre k v [] rfl _ fuel hk hf
    have hentry := Passed.pass hkey (complete_encode v) hv (by rw [List.length_append]; omega) fun fuel _ =>
      visitKey_value test fuel (by omega)
    rwa [show 2 * pre.length + 1 + 1 = 2 * (pre ++ [(k, v)]).length by simp; omega] at hentry

variable {es : List (Bytes × Value)} {s : Bytes} {fuel : Nat}

/-- The loop over a dictionary that passes all entries. -/
theorem walk_entries (h : TextAt buf p ((Value.dict es).encode ++ s)) (hlen : (Value.dict es).encode.length < 2147483648)
    (hf : (Value.dict es).encode.length ≤ fuel)
    (hno : ∀ a k v b, es = a ++ (k, v) :: b → ∀ post fuel, TextAt buf (p + (encodeEntries a).length + 1) (encodeStr k ++ post) →
      (encodeStr k).length ≤ fuel → test fuel (encodeEntries a).length (2 * a.length : Nat) = .ok none) :
    Benc.walk buf (Benc.visitKey buf p test) fuel p 0 0 = .ok (-1) := by
  rw [encode_dict] at h hlen hf
  simp only [List.length_cons, List.length_append, List.length_nil] at hlen hf
  have h1 : TextAt buf (p + 1) (encodeEntries es ++ 101 :: s) := TextAt.next (c := 100) (by simpa using h)
  obtain ⟨f, hf', hw⟩ := (passed_entries es h1 (by omega) hno).walk 1 fuel (by omega) (by omega)
  obtain ⟨f, rfl⟩ : ∃ f', f = f' + 1 := ⟨f - 1, by omega⟩
  have hend : TextAt buf (p + (encodeEntries es).length + 1) (101 :: s) := by
    have := h1.move
    rwa [show p + 1 + ((encodeEntries es).length : Int) = p + (encodeEntries es).length + 1 by omega] at this
  rw [hw, walk_close hend (Or.inl rfl)]

/-- The loop over a dictionary up to an entry whose key it returns at. -/
theorem walk_entry {pre post : List (Bytes × Value)} {k : Bytes} {v : Value} {r : Int}
    (h : TextAt buf p ((Value.dict es).encode ++ s)) (hlen : (encodeEntries pre).length < 2147483648)
    (hf : (Value.dict es).encode.length ≤ fuel) (hes : es = pre ++ (k, v) :: post)
    (hno : ∀ a k v b, pre = a ++ (k, v) :: b → ∀ post fuel, TextAt buf (p + (encodeEntries a).length + 1) (encodeStr k ++ post) →
      (encodeStr k).length ≤ fuel → test fuel (encodeEntries a).length (2 * a.length : Nat) = .ok none)
    (hyes : ∀ post fuel, TextAt buf (p + (encodeEntries pre).length + 1) (encodeStr k ++ post) → (encodeStr k).length ≤ fuel →
      test fuel (encodeEntries pre).length (2 * pre.length : Nat) = .ok (some r)) :
    Benc.walk buf (Benc.visitKey buf p test) fuel p 0 0 = .ok r := by
  subst hes
  rw [encode_dict, encodeEntries_append, encodeEntries] at h hf
  simp only [List.length_cons, List.length_append, List.length_nil] at hf
  have h1 : TextAt buf (p + 1) (encodeEntries pre ++ (encodeStr k ++ (v.encode ++ (encodeEntries post ++ 101 :: s)))) :=
    TextAt.next (c := 100) (by simpa using h)
  obtain ⟨f, hf', hw⟩ := (passed_entries pre h1 (by omega) hno).walk ((encodeStr k).length + 1) fuel (by omega) (by omega)
  obtain ⟨f, rfl⟩ : ∃ f', f = f' + 1 := ⟨f - 1, by omega⟩
  have hk : TextAt buf (p + (encodeEntries pre).length + 1) (encodeStr k ++ (v.encode ++ (encodeEntries post ++ 101 :: s))) := by
    have := h1.move
    rwa [show p + 1 + ((encodeEntries pre).length : Int) = p + (encodeEntries pre).length + 1 by omega] at this
  obtain ⟨c, t, hct, hc⟩ := entity_head_continues (Entity.str (isStr_encodeStr k) : Entity (fun _ => True) _)
  have hv := hyes _ f hk (by omega)
  rw [hw]
  refine walk_return (hct ▸ hk) hc ?_
  rw [visitKey_isStr test f (by omega) (isStr_encodeStr k) hk, hv]

/-! ## The two functions -/

theorem dictKeyOffset_walk (h : TextAt buf p ((Value.dict es).encode ++ s)) {index : Int} (h0 : 0 ≤ index) :
    Benc.dictKeyOffset buf fuel p index =
      Benc.walk buf (Benc.visitKey buf p (Benc.visitItem (int32 (index * 2)))) fuel p 0 0 := by
  rw [encode_dict] at h
  simp only [Benc.dictKeyOffset, bencEntityType_dict h, walk_ok_bind]
  rw [if_neg (by omega)]

theorem dictValueOffset_walk (h : TextAt buf p ((Value.dict es).encode ++ s)) (key : Bytes) :
    Benc.dictValueOffset buf fuel p (some key) = Benc.walk buf (Benc.visitKey buf p (Benc.matchKey buf p key)) fuel p 0 0 := by
  rw [encode_dict] at h
  simp only [Benc.dictValueOffset, bencEntityType_dict h, walk_ok_bind]

/-- Two bytes at least for each entry. -/
theorem two_mul_length_le (es : List (Bytes × Value)) : 2 * es.length ≤ (encodeEntries es).length := by
  induction es with
  | nil => exact Nat.le_refl _
  | cons e es ih =>
    obtain ⟨k, v⟩ := e
    have hk := (Entity.str (isStr_encodeStr k) : Entity (fun _ => True) _).length_pos
    have hv := (complete_encode v).length_pos
    simp only [encodeEntries, List.length_append, List.length_cons]
    omega

/-- A key in front of the one looked for by number is passed. -/
theorem visitItem_other {index : Int} (hi : IsInt32 index) {i : Nat} (h : (i : Int) < index) (fuel : Nat) (offset : Int) :
    Benc.visitItem (int32 (index * 2)) fuel offset (2 * i : Nat) = .ok none := by
  have hne : ((2 * i : Nat) : Int) ≠ int32 (index * 2) := by
    obtain ⟨-, h2⟩ := hi
    unfold int32
    omega
  rw [Benc.visitItem, if_neg hne]
  rfl

/-- The key of number `pre.length` stands behind the entries before it. -/
theorem dictKeyOffset_entry {pre post : List (Bytes × Value)} {k : Bytes} {v : Value} (h : TextAt buf p ((Value.dict es).encode ++ s))
    (hlen : (Value.dict es).encode.length < 2147483648) (hf : (Value.dict es).encode.length ≤ fuel)
    (hes : es = pre ++ (k, v) :: post) : Benc.dictKeyOffset buf fuel p pre.length = .ok (1 + (encodeEntries pre).length : Nat) := by
  have hcount := two_mul_length_le pre
  have hpre : (encodeEntries pre).length + 1 < 2147483648 := by
    rw [hes, encode_dict, encodeEntries_append] at hlen
    simp only [List.length_cons, List.length_append] at hlen
    omega
  rw [dictKeyOffset_walk h (by omega)]
  refine walk_entry h (by omega) hf hes ?_ ?_
  · intro a k' v' b hab _ fuel' _ _
    refine visitItem_other ⟨by omega, by omega⟩ ?_ fuel' _
    rw [hab]
    simp
  · intro _ fuel' _ _
    have hindex : ((2 * pre.length : Nat) : Int) = int32 (pre.length * 2) := by
      rw [int32_of_lt (by omega) (by omega)]
      omega
    rw [Benc.visitItem, if_pos hindex, int32_of_lt (by omega) (by omega)]
    simp only [pure, Except.pure, Except.ok.injEq, Option.some.injEq]
    omega

/-- There is no key of a number that the dictionary has no entry for. -/
theorem dictKeyOffset_none (h : TextAt buf p ((Value.dict es).encode ++ s)) (hlen : (Value.dict es).encode.length < 2147483648)
    (hf : (Value.dict es).encode.length ≤ fuel) {index : Int} (hi : IsInt32 index) (hle : (es.length : Int) ≤ index) :
    Benc.dictKeyOffset buf fuel p index = .ok (-1) := by
  rw [dictKeyOffset_walk h (by omega)]
  refine walk_entries h hlen hf ?_
  intro a k v b hab _ fuel' _ _
  refine visitItem_other hi ?_ fuel' _
  rw [hab] at hle
  simp only [List.length_append, List.length_cons] at hle
  omega

/-- What is asked of a key that stands whole in the buffer. -/
theorem matchKey_encodeStr {k key post : Bytes} {offset item : Int}
    (h : TextAt buf (p + offset + 1) (encodeStr k ++ post)) (h0 : 0 ≤ offset)
    (hlen : offset + 1 + (encodeStr k).length < 2147483648) (hf : (encodeStr k).length ≤ fuel) :
    Benc.matchKey buf p key fuel offset item = .ok (if k = key then some (offset + 1 + (encodeStr k).length) else none) :=
  matchKey_eq (decimal_digits _) (decimal_ne_nil _) (digitsVal_decimal _) h h0 hlen hf

/-- The value of the first entry with a key stands behind that key, and is found there if an `int` holds its offset. -/
theorem dictValueOffset_within (pre : List (Bytes × Value)) {post : List (Bytes × Value)} {key : Bytes} {v : Value}
    (h : TextAt buf p ((Value.dict es).encode ++ s)) (hoff : 1 + (encodeEntries pre).length + (encodeStr key).length < 2147483648)
    (hf : (Value.dict es).encode.length ≤ fuel) (hes : es = pre ++ (key, v) :: post) (hfirst : ∀ e ∈ pre, e.1 ≠ key) :
    Benc.dictValueOffset buf fuel p (some key) = .ok (1 + (encodeEntries pre).length + (encodeStr key).length : Nat) := by
  rw [dictValueOffset_walk h key]
  refine walk_entry h (by omega) hf hes ?_ ?_
  · intro a k v' b hab post' fuel' hk hf'
    have hlen' : (encodeEntries a).length + (encodeStr k).length + 1 ≤ (encodeEntries pre).length := by
      have hv := (complete_encode v').length_pos
      rw [hab, encodeEntries_append, encodeEntries]
      simp only [List.length_append]
      omega
    rw [matchKey_encodeStr hk (by omega) (by omega) hf', if_neg (hfirst (k, v') (by simp [hab]))]
  · intro post' fuel' hk hf'
    rw [matchKey_encodeStr hk (by omega) (by omega) hf', if_pos rfl]
    simp only [Except.ok.injEq, Option.some.injEq]
    omega

/-- So is the value of the first entry with a key in a dictionary shorter than 2^31 bytes. -/
theorem dictValueOffset_entry (pre : List (Bytes × Value)) {post : List (Bytes × Value)} {key : Bytes} {v : Value}
    (h : TextAt buf p ((Value.dict es).encode ++ s)) (hlen : (Value.dict es).encode.length < 2147483648)
    (hf : (Value.dict es).encode.length ≤ fuel) (hes : es = pre ++ (key, v) :: post) (hfirst : ∀ e ∈ pre, e.1 ≠ key) :
    Benc.dictValueOffset buf fuel p (some key) = .ok (1 + (encodeEntries pre).length + (encodeStr key).length : Nat) := by
  refine dictValueOffset_within pre h ?_ hf hes hfirst
  rw [hes, encode_dict, encodeEntries_append, encodeEntries] at hlen
  simp only [List.length_cons, List.length_append] at hlen
  omega

/-- A key that no entry has is not found. -/
theorem dictValueOffset_none {key : Bytes} (h : TextAt buf p ((Value.dict es).encode ++ s))
    (hlen : (Value.dict es).encode.length < 2147483648) (hf : (Value.dict es).encode.length ≤ fuel) (hno : ∀ e ∈ es, e.1 ≠ key) :
    Benc.dictValueOffset buf fuel p (some key) = .ok (-1) := by
  rw [dictValueOffset_walk h key]
  refine walk_entries h hlen hf ?_
  intro a k v b hab post fuel' hk hf'
  have hlen' : (encodeEntries a).length + (encodeStr k).length + 1 < 2147483648 := by
    rw [hab, encode_dict, encodeEntries_append, encodeEntries] at hlen
    simp only [List.length_cons, List.length_append] at hlen
    omega
  rw [matchKey_encodeStr hk (by omega) (by omega) hf', if_neg (hno (k, v) (by simp [hab]))]

/-- The value of the first entry with a key is found behind the start of the dictionary, or there is no such entry. -/
theorem dictValueOffset_cases (h : TextAt buf p ((Value.dict es).encode ++ s)) (hlen : (Value.dict es).encode.length < 2147483648)
    (hf : (Value.dict es).encode.length ≤ fuel) (key : Bytes) :
    ((Value.dict es).get? key = none ∧ Benc.dictValueOffset buf fuel p (some key) = .ok (-1)) ∨
    ∃ (v : Value) (o : Nat) (s' : Bytes), (Value.dict es).get? key = some v ∧ Benc.dictValueOffset buf fuel p (some key) = .ok o ∧
      0 < o ∧ TextAt buf (p + o) (v.encode ++ s') ∧ o + v.encode.length < (Value.dict es).encode.length := by
  rcases get?_dict_cases es key with ⟨pre, v, post, hes, hfirst, hget⟩ | ⟨hno, hget⟩
  · right
    have hoff := dictValueOffset_entry pre h hlen hf hes hfirst
    subst hes
    refine ⟨v, _, _, hget, hoff, by omega, textAt_value pre h, ?_⟩
    simp only [encode_dict, encodeEntries_append, encodeEntries, List.length_cons, List.length_append]
    omega
  · exact Or.inl ⟨hget, dictValueOffset_none h hlen hf hno⟩

end Traccoon
