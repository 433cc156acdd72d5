import Traccoon.Torrentinfo
import Traccoon.Lemmas.BencWalk

/-!
# Looking for an element of an encoded list

On the encoding of a list, with anything behind it, the walk passes whole elements: an element stands behind the opening letter and the
elements before it. The two programs count on an offset that is not positive to end their loops.
-/

namespace Traccoon

open CString Bencode

/-- Where the element of number `j` of an encoded list starts: behind the opening letter and the elements before it. -/
def elementOffset (vs : List Value) (j : Nat) : Nat := 1 + (encodeList (vs.take j)).length

/-- Each element has a byte at least. -/
theorem length_le_encodeList (vs : List Value) : vs.length ≤ (encodeList vs).length := by
  induction vs with
  | nil => exact Nat.le_refl _
  | cons v vs ih =>
    have := (complete_encode v).length_pos
    simp only [encodeList, List.length_append, List.length_cons]
    omega

variable {buf : Bytes} {p : Int} {vs : List Value} {s : Bytes} {fuel : Nat}

/-- The elements stand behind the opening letter. -/
theorem textAt_elements (h : TextAt buf p ((Value.list vs).encode ++ s)) : TextAt buf (p + 1) (encodeList vs ++ 101 :: s) := by
  rw [encode_list] at h
  exact TextAt.next (c := 108) (by simpa using h)

/-- An element stands behind the elements before it. -/
theorem textAt_element {j : Nat} {v : Value} (h : TextAt buf p ((Value.list vs).encode ++ s)) (hj : vs[j]? = some v) :
    TextAt buf (p + elementOffset vs j) (v.encode ++ (encodeList (vs.drop (j + 1)) ++ 101 :: s)) := by
  have h1 := textAt_elements h
  rw [(split_at hj).1, encodeList_append, encodeList, List.append_assoc, List.append_assoc] at h1
  have := h1.move
  rwa [show p + 1 + ((encodeList (vs.take j)).length : Int) = p + (elementOffset vs j : Nat) by unfold elementOffset; omega] at this

/-- Elements in front of the one looked for are passed. -/
theorem passed_elements {index : Int} (pre : List Value) : ∀ {post : Bytes}, TextAt buf (p + 1) (encodeList pre ++ post) →
    (encodeList pre).length < 2147483648 → (pre.length : Int) ≤ index →
    Passed (fun ds => ds ≠ []) buf (Benc.visitItem index) p pre.length (encodeList pre) := by
  induction pre using List.reverseRecOn with
  | nil =>
    intro post _ _ _
    exact Passed.start
  | append_singleton pre v ih =>
    intro post h hlen hle
    have henc : encodeList (pre ++ [v]) = encodeList pre ++ v.encode := by
      rw [encodeList_append, encodeList, encodeList, List.append_nil]
    simp only [henc, List.append_assoc, List.length_append, List.length_cons, List.length_nil] at h hlen hle ⊢
    have hv : TextAt buf (p + (encodeList pre).length + 1) (v.encode ++ post) := by
      have := h.move
      rwa [show p + 1 + ((encodeList pre).length : Int) = p + (encodeList pre).length + 1 by omega] at this
    refine Passed.pass (ih h (by omega) (by omega)) (complete_encode v) hv hlen fun fuel _ => ?_
    have hne : (pre.length : Int) ≠ index := by omega
    rw [Benc.visitItem, if_neg hne]
    rfl

/-! ## The offsets -/

theorem listItemOffset_walk (h : TextAt buf p ((Value.list vs).encode ++ s)) {index : Int} (h0 : 0 ≤ index) :
    Benc.listItemOffset buf fuel p index = Benc.walk buf (Benc.visitItem index) fuel p 0 0 := by
  rw [encode_list] at h
  simp only [Benc.listItemOffset, bencEntityType_list h, walk_ok_bind]
  rw [if_neg (by omega)]

/-- The element of number `j` is found where it stands, if an `int` holds its offset. -/
theorem listItemOffset_within {j : Nat} (h : TextAt buf p ((Value.list vs).encode ++ s)) (hoff : elementOffset vs j < 2147483648)
    (hf : (Value.list vs).encode.length ≤ fuel) (hj : j < vs.length) : Benc.listItemOffset buf fuel p j = .ok (elementOffset vs j) := by
  have hv : vs[j]? = some vs[j] := List.getElem?_eq_getElem hj
  obtain ⟨hvs, htake⟩ := split_at hv
  have hsplit : encodeList vs = encodeList (vs.take j) ++ (vs[j].encode ++ encodeList (vs.drop (j + 1))) := by
    conv_lhs => rw [hvs, encodeList_append, encodeList]
  have htext := textAt_element h hv
  have h1 := textAt_elements h
  rw [hsplit, List.append_assoc] at h1
  rw [encode_list, hsplit] at hf
  simp only [List.length_cons, List.length_append, List.length_nil, elementOffset] at hoff hf
  have hpassed := @passed_elements buf p j (vs.take j) _ h1 (by omega) (by omega)
  obtain ⟨f, hf', hw⟩ := hpassed.walk 1 fuel (by omega) (by omega)
  obtain ⟨f, rfl⟩ : ∃ f', f = f' + 1 := ⟨f - 1, by omega⟩
  obtain ⟨c, t, hct, hc⟩ := entity_head_continues (complete_encode vs[j])
  rw [listItemOffset_walk h (by omega), hw, htake]
  rw [show p + (elementOffset vs j : Nat) = p + (encodeList (vs.take j)).length + 1 by unfold elementOffset; omega] at htext
  refine walk_return (hct ▸ htext) hc ?_
  rw [Benc.visitItem, if_pos rfl, int32_of_lt (by omega) (by omega)]
  simp only [pure, Except.pure, Except.ok.injEq, Option.some.injEq, elementOffset]
  omega

/-- So is every element of a list shorter than 2^31 bytes. -/
theorem listItemOffset_element {j : Nat} (h : TextAt buf p ((Value.list vs).encode ++ s))
    (hlen : (Value.list vs).encode.length < 2147483648) (hf : (Value.list vs).encode.length ≤ fuel) (hj : j < vs.length) :
    Benc.listItemOffset buf fuel p j = .ok (elementOffset vs j) := by
  refine listItemOffset_within h ?_ hf hj
  rw [encode_list, (split_at (List.getElem?_eq_getElem hj)).1, encodeList_append] at hlen
  simp only [List.length_cons, List.length_append, elementOffset] at hlen ⊢
  omega

/-- No element is found under a number that the list has none for. -/
theorem listItemOffset_none (h : TextAt buf p ((Value.list vs).encode ++ s)) (hlen : (Value.list vs).encode.length < 2147483648)
    (hf : (Value.list vs).encode.length ≤ fuel) {index : Int} (hle : (vs.length : Int) ≤ index) :
    Benc.listItemOffset buf fuel p index = .ok (-1) := by
  have h1 := textAt_elements h
  rw [encode_list] at hlen hf
  simp only [List.length_cons, List.length_append, List.length_nil] at hlen hf
  obtain ⟨f, hf', hw⟩ := (passed_elements vs h1 (by omega) hle).walk 1 fuel (by omega) (by omega)
  obtain ⟨f, rfl⟩ : ∃ f', f = f' + 1 := ⟨f - 1, by omega⟩
  have hend : TextAt buf (p + (encodeList vs).length + 1) (101 :: s) := by
    have := h1.move
    rwa [show p + 1 + ((encodeList vs).length : Int) = p + (encodeList vs).length + 1 by omega] at this
  rw [listItemOffset_walk h (by omega), hw, walk_close hend (Or.inl rfl)]

/-! ## The loop that counts -/

/-- A loop that goes on as long as an offset is positive ends with the number of the first that is not. -/
theorem countFrom_eq {offset : Nat → Int → Walk Int} {enough m : Nat} (hm : m < 2147483648)
    (hpos : ∀ fuel i : Nat, enough ≤ fuel → i < m → ∃ off : Int, offset fuel i = .ok off ∧ 0 < off)
    (hend : ∀ fuel : Nat, enough ≤ fuel → ∃ off : Int, offset fuel m = .ok off ∧ off ≤ 0) :
    ∀ (k i fuel : Nat), i + k = m → enough + k < fuel → Torrentinfo.countFrom offset fuel i = .ok m := by
  intro k
  induction k with
  | zero =>
    intro i fuel hi hf
    obtain ⟨f, rfl⟩ : ∃ f, fuel = f + 1 := ⟨fuel - 1, by omega⟩
    obtain rfl : i = m := by omega
    obtain ⟨off, hoff, hneg⟩ := hend f (by omega)
    simp only [Torrentinfo.countFrom, hoff, walk_ok_bind]
    rw [if_neg (by omega)]
    rfl
  | succ k ih =>
    intro i fuel hi hf
    obtain ⟨f, rfl⟩ : ∃ f, fuel = f + 1 := ⟨fuel - 1, by omega⟩
    obtain ⟨off, hoff, hpositive⟩ := hpos f i (by omega) (by omega)
    simp only [Torrentinfo.countFrom, hoff, walk_ok_bind]
    rw [if_pos hpositive, int32_of_lt (by omega) (by omega)]
    exact ih (i + 1) f (by omega) (by omega)

theorem countItems_eq (h : TextAt buf p ((Value.list vs).encode ++ s)) (hlen : (Value.list vs).encode.length < 2147483648)
    (hf : 2 * (Value.list vs).encode.length ≤ fuel) : Torrentinfo.countItems buf fuel p = .ok vs.length := by
  have hcount := length_le_encodeList vs
  have henc : (Value.list vs).encode.length = (encodeList vs).length + 2 := by
    rw [encode_list]
    simp
  refine @countFrom_eq _ (Value.list vs).encode.length _ (by omega) ?_ ?_ vs.length 0 fuel (by omega) (by omega)
  · intro f i hf' hi
    refine ⟨_, listItemOffset_element h hlen hf' hi, ?_⟩
    unfold elementOffset
    omega
  · intro f hf'
    exact ⟨-1, listItemOffset_none h hlen hf' (Int.le_refl _), by decide⟩

end Traccoon
