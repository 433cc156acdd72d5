import Traccoon.Benc

/-!
# `benc_entity_length` measures every entity of the grammar

One lemma per kind of entity, then the recursion: on a text that starts with an entity shorter than 2^31 bytes the function
returns exactly the length of that entity. The induction is on the derivation of the entity; for the loops the invariant is
that `offset` is the number of bytes of the elements already passed.
-/

namespace Traccoon

open CString Bencode

variable {intOk : Bytes → Prop}

/-- A string: the digits, the colon, and the announced number of bytes, there or not. -/
theorem bencStringLength_digits {buf ds t : Bytes} {p : Int} (h : TextAt buf p (ds ++ 58 :: t)) (hd : Digits ds) (hne : ds ≠ []) :
    bencStringLength buf p = .ok (int32 (ds.length + min 9223372036854775807 (digitsVal ds : Int) + 1)) := by
  have hpos : 0 < ds.length := List.length_pos_iff.2 hne
  simp only [bencStringLength, h.skipDigits hd not_isDigit_colon, h.move.byteAt, walk_ok_bind, hpos, and_self, if_true, h.drop,
    strtol_digits hd hne not_isDigit_colon, pure, Except.pure]

/-- A whole string shorter than 2^31 bytes. -/
theorem bencStringLength_isStr {buf e : Bytes} {p : Int} (he : IsStr e) (post : Bytes) (h : TextAt buf p (e ++ post))
    (hlen : e.length < 2147483648) : bencStringLength buf p = .ok e.length := by
  obtain ⟨ds, s, hd, hne, hv, rfl⟩ := he
  have h' : TextAt buf p (ds ++ 58 :: (s ++ post)) := by simpa using h
  simp only [List.length_append, List.length_cons] at hlen ⊢
  rw [bencStringLength_digits h' hd hne, int32_of_lt (by omega) (by omega)]
  simp only [Except.ok.injEq]
  omega

/-- The byte behind the `i` is a minus exactly when a sign is written: a digit is none, and neither is what ends an integer without
digits. -/
theorem byteAt_sign {buf ds t : Bytes} {p : Int} {c : UInt8} {neg : Bool} (hd : Digits ds) (hs : neg = false → ds = [] → c ≠ 45)
    (h : TextAt buf p (105 :: (minus neg ++ (ds ++ c :: t)))) : ∃ b, byteAt buf (p + 1) = .ok b ∧ (b = 45 ↔ neg = true) := by
  cases neg with
  | true => exact ⟨45, TextAt.byteAt (t := ds ++ c :: t) h.next, by simp⟩
  | false =>
    cases ds with
    | nil => exact ⟨c, TextAt.byteAt (t := t) h.next, by simp [hs rfl rfl]⟩
    | cons d ds =>
      refine ⟨d, TextAt.byteAt (t := ds ++ c :: t) h.next, ?_⟩
      have hne : d ≠ 45 := by
        rintro rfl
        exact absurd (hd 45 List.mem_cons_self) (by decide)
      simp [hne]

/-- An integer: the sign, the digits (none are asked for), and whether an `e` follows. -/
theorem bencIntLength_eq {buf ds t : Bytes} {p : Int} {c : UInt8} (neg : Bool) (hd : Digits ds) (hc : isDigit c = false)
    (hs : neg = false → ds = [] → c ≠ 45) (h : TextAt buf p (105 :: (minus neg ++ (ds ++ c :: t)))) :
    bencIntLength buf p = .ok (if c = 101 then int32 ((minus neg).length + ds.length + 2) else -1) := by
  obtain ⟨b, hb, hneg⟩ := byteAt_sign hd hs h
  have hi : (if b = 45 then (2 : Int) else 1) = (minus neg).length + 1 := by
    cases neg with
    | true => rw [if_pos (hneg.2 rfl)]; rfl
    | false => rw [if_neg (fun h45 => by cases hneg.1 h45)]; rfl
  have h2 : TextAt buf (p + ((minus neg).length + 1)) (ds ++ c :: t) := by
    have := h.next.move
    rwa [show p + 1 + ((minus neg).length : Int) = p + ((minus neg).length + 1) by omega] at this
  have h3 := h2.move.byteAt
  rw [show p + (((minus neg).length : Int) + 1) + (ds.length : Int) = p + ((minus neg).length + 1 + ds.length) by omega] at h3
  simp only [bencIntLength, hb, walk_ok_bind, hi, h2.skipDigits hd hc, h3]
  rw [show ((minus neg).length : Int) + 1 + ds.length + 1 = (minus neg).length + ds.length + 2 by omega]
  split
  · rfl
  · rfl

/-- A whole integer shorter than 2^31 bytes. -/
theorem bencIntLength_int {buf ds : Bytes} {p : Int} (neg : Bool) (hd : Digits ds) (post : Bytes)
    (h : TextAt buf p (105 :: (minus neg ++ ds ++ [101]) ++ post))
    (hlen : (105 :: (minus neg ++ ds ++ [101])).length < 2147483648) :
    bencIntLength buf p = .ok (105 :: (minus neg ++ ds ++ [101])).length := by
  simp only [List.length_cons, List.length_append, List.length_nil] at hlen ⊢
  have h' : TextAt buf p (105 :: (minus neg ++ (ds ++ 101 :: post))) := by simpa using h
  rw [bencIntLength_eq neg hd (by decide) (fun _ _ => by decide) h', if_pos rfl, int32_of_lt (by omega) (by omega)]
  simp only [Except.ok.injEq]
  omega

/-- A string in the place of a key passes the key test; in a list nothing is tested. -/
theorem badKey_of_isStr {buf e post : Bytes} {p : Int} {keys : Bool} {k : Nat} (hs : keys = true → k % 2 = 0 → IsStr e)
    (h : TextAt buf p (e ++ post)) : badKey buf keys k p = .ok false := by
  unfold badKey
  split
  · rename_i hk
    obtain ⟨ds, s, hd, hne, -, rfl⟩ := hs hk.1 hk.2
    have h' : TextAt buf p (ds ++ 58 :: (s ++ post)) := by simpa using h
    rw [bencEntityType_string h' hd hne]
    rfl
  · rfl

/-- With this fuel, the length of every entity shorter than 2^31 bytes is returned, whatever follows it. -/
def MeasuresEntity (intOk : Bytes → Prop) (buf : Bytes) (fuel : Nat) : Prop :=
  ∀ (e post : Bytes) (p io : Int), Entity intOk e → TextAt buf p (e ++ post) → e.length < 2147483648 → e.length ≤ fuel →
    bencEntityLength buf fuel p io = .ok e.length

/-- With this fuel, the loops return the bytes of the elements passed, of the elements left, and two for the brackets. -/
def MeasuresElements (intOk : Bytes → Prop) (buf : Bytes) (fuel : Nat) : Prop :=
  ∀ (keys : Bool) (k k' : Nat) (xs post : Bytes) (p offset io : Int), Items intOk keys k k' xs →
    TextAt buf (p + offset + 1) (xs ++ 101 :: post) → 0 ≤ offset → offset + xs.length + 2 < 2147483648 →
    xs.length + 1 ≤ fuel → (keys = true → k' % 2 = 0) →
    bencElements buf fuel keys p io offset k = .ok (offset + xs.length + 2)

theorem measuresEntity_succ {buf : Bytes} {fuel : Nat} (ih : MeasuresElements intOk buf fuel) :
    MeasuresEntity intOk buf (fuel + 1) := by
  intro e post p io he h hlen hf
  cases he with
  | str hs =>
    have hl := bencStringLength_isStr hs post h hlen
    obtain ⟨ds, s, hd, hne, -, rfl⟩ := hs
    have h' : TextAt buf p (ds ++ 58 :: (s ++ post)) := by simpa using h
    simp only [bencEntityLength, bencEntityType_string h' hd hne, walk_ok_bind, hl]
  | @int neg ds hd _ =>
    simp only [bencEntityLength, bencEntityType_int h, walk_ok_bind]
    exact bencIntLength_int neg hd post h hlen
  | @list k xs hi =>
    simp only [List.length_cons, List.length_append, List.length_nil] at hlen hf ⊢
    have h1 : TextAt buf (p + 0 + 1) (xs ++ 101 :: post) := TextAt.next (by simpa using h)
    have hl := ih false 0 k xs post p 0 io hi h1 (by omega) (by omega) (by omega) (fun hk => by cases hk)
    simp only [bencEntityLength, bencEntityType_list h, walk_ok_bind, hl, Except.ok.injEq]
    omega
  | @dict k xs hi hk =>
    simp only [List.length_cons, List.length_append, List.length_nil] at hlen hf ⊢
    have h1 : TextAt buf (p + 0 + 1) (xs ++ 101 :: post) := TextAt.next (by simpa using h)
    have hl := ih true 0 k xs post p 0 io hi h1 (by omega) (by omega) (by omega) (fun _ => hk)
    simp only [bencEntityLength, bencEntityType_dict h, walk_ok_bind, hl, Except.ok.injEq]
    omega

/-- The first byte of an entity never ends a loop. -/
theorem entity_head_continues {e : Bytes} (he : Entity intOk e) : ∃ c t, e = c :: t ∧ c ≠ 101 ∧ c ≠ 0 := by
  obtain ⟨c, t, rfl, hc⟩ := he.head
  refine ⟨c, t, rfl, ?_⟩
  rcases hc with hc | rfl | rfl | rfl
  · exact ⟨(isDigit_ne hc).2.2.2.1, (isDigit_ne hc).2.2.2.2⟩
  · decide
  · decide
  · decide

/-- One round of a loop over an element that is an entity: `offset` grows by its length. -/
theorem bencElements_cons {buf e post : Bytes} {fuel : Nat} (ih : MeasuresEntity intOk buf fuel) {keys : Bool} {k : Nat}
    {p offset : Int} (io : Int) (hs : keys = true → k % 2 = 0 → IsStr e) (he : Entity intOk e)
    (h : TextAt buf (p + offset + 1) (e ++ post)) (h0 : 0 ≤ offset) (hlen : offset + e.length < 2147483648)
    (hf : e.length ≤ fuel) :
    bencElements buf (fuel + 1) keys p io offset k = bencElements buf fuel keys p io (offset + e.length) (k + 1) := by
  have hl := ih e post (p + offset + 1) (int32 (io + offset + 1)) he h (by omega) hf
  have hk := badKey_of_isStr hs h
  obtain ⟨c, t, rfl, hc⟩ := entity_head_continues he
  have hb : byteAt buf (p + offset + 1) = .ok c := h.byteAt
  have hne : ((c :: t).length : Int) ≠ -1 := by omega
  simp only [bencElements, hb, walk_ok_bind, ne_eq, hc, not_false_eq_true, and_self, if_true, hk, Bool.false_eq_true,
    if_false, hl, hne]
  rw [int32_of_lt (by omega) (by omega)]

theorem measuresElements_succ {buf : Bytes} {fuel : Nat} (ihe : MeasuresEntity intOk buf fuel)
    (ih : MeasuresElements intOk buf fuel) : MeasuresElements intOk buf (fuel + 1) := by
  intro keys k k' xs post p offset io hi h h0 hlen hf hk
  cases hi with
  | nil =>
    simp only [List.length_nil, Nat.cast_zero, List.nil_append] at h hlen ⊢
    simp only [bencElements, h.byteAt, walk_ok_bind]
    rw [if_neg (by simp), if_pos ⟨trivial, hk⟩, int32_of_lt (by omega) (by omega)]
    simp only [pure, Except.pure, Except.ok.injEq]
    omega
  | @cons _ _ _ e xs hs he ht =>
    have hpos := he.length_pos
    simp only [List.length_append, Nat.cast_add, List.append_assoc] at h hlen hf ⊢
    have hm : TextAt buf (p + (offset + e.length) + 1) (xs ++ 101 :: post) := by
      have := h.move
      have hidx : p + offset + 1 + (e.length : Int) = p + (offset + e.length) + 1 := by omega
      rwa [hidx] at this
    rw [bencElements_cons ihe io hs he h h0 (by omega) (by omega),
      ih keys (k + 1) k' xs post p (offset + e.length) io ht hm (by omega) (by omega) (by omega) hk]
    simp only [Except.ok.injEq]
    omega

/-- The two invariants hold together at every fuel. -/
theorem measures (intOk : Bytes → Prop) (buf : Bytes) (fuel : Nat) :
    MeasuresEntity intOk buf fuel ∧ MeasuresElements intOk buf fuel := by
  induction fuel with
  | zero =>
    refine ⟨fun e post p io he h hlen hf => ?_, fun keys k k' xs post p offset io hi h h0 hlen hf hk => ?_⟩
    · have := he.length_pos
      omega
    · omega
  | succ fuel ih => exact ⟨measuresEntity_succ ih.2, measuresElements_succ ih.1 ih.2⟩

/-- A buffer that starts with an entity: its length is returned. -/
theorem bencReturns_entity {e post : Bytes} (he : Entity intOk e) (io : Int) (hlen : e.length < 2147483648) :
    BencReturns (e ++ post) io e.length :=
  ⟨e.length, (measures intOk _ e.length).1 e post 0 io he (textAt_zero _) hlen (Nat.le_refl _)⟩

end Traccoon
