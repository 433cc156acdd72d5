import Traccoon.Lemmas.BencFuel

/-!
# Where `benc_entity_length` looks

`Scans b r` says that on the buffer `b` the parser starts an entity at the text `r`: at the start of `b`, or behind the elements
already passed in a list or dictionary it scans. It names positions by the grammar alone, without running the parser. The
integers of this grammar may have no digit, as the parser asks for none.
-/

namespace Traccoon

open CString Bencode

/-- What the parser takes for an entity: the grammar of bencoding, except that an integer needs no digit. -/
abbrev Accepted (e : Bytes) : Prop := Entity (fun _ => True) e

/-- The elements the parser takes inside a list, or inside a dictionary (`keys`). -/
abbrev AcceptedItems (keys : Bool) (k k' : Nat) (xs : Bytes) : Prop := Items (fun _ => True) keys k k' xs

/-- The letter that opens a dictionary (`keys`) or a list. -/
def opening (keys : Bool) : UInt8 := if keys then 100 else 108

/-- The type of entity it opens. -/
def bracket (keys : Bool) : BencEntityType := if keys then .dict else .list

/-- A text the parser takes for a string: digits and a colon. -/
def StartsStr (t : Bytes) : Prop := ∃ ds s : Bytes, Digits ds ∧ ds ≠ [] ∧ t = ds ++ 58 :: s

theorem bencEntityType_startsStr {buf r post : Bytes} {p : Int} (hs : StartsStr r) (h : TextAt buf p (r ++ post)) :
    bencEntityType buf p = .ok .string := by
  obtain ⟨ds, s, hd, hne, rfl⟩ := hs
  exact bencEntityType_string (t := s ++ post) (by simpa using h) hd hne

/-- The texts at which the parser starts an entity. -/
inductive Scans (b : Bytes) : Bytes → Prop where
  | start : Scans b b
  | element {keys : Bool} {k : Nat} {xs t : Bytes} {c : UInt8} (h : Scans b (opening keys :: (xs ++ c :: t)))
      (hx : AcceptedItems keys 0 k xs) (hc : c ≠ 101 ∧ c ≠ 0) (hs : keys = true → k % 2 = 0 → StartsStr (c :: t)) :
      Scans b (c :: t)

theorem Scans.suffix {b r : Bytes} (h : Scans b r) : r <:+ b := by
  induction h with
  | start => exact List.suffix_refl _
  | @element keys k xs t c _ _ _ _ ih =>
    exact List.IsSuffix.trans ⟨opening keys :: xs, by simp⟩ ih

/-- No scanned string announces more bytes than the buffer still holds. -/
def InBounds (b : Bytes) : Prop :=
  ∀ ds s : Bytes, Scans b (ds ++ 58 :: s) → Digits ds → ds ≠ [] → digitsVal ds ≤ s.length

/-- What the buffer starts with, if the parser takes it for an entity, has a digit in each of its integers. -/
def DigitsPresent (b : Bytes) : Prop := ∀ e rest : Bytes, b = e ++ rest → Accepted e → Complete e

/-- Wherever digits and a colon stand in the buffer, the bytes they announce stand behind them. -/
def StringsFit (b : Bytes) : Prop := ∀ ds s : Bytes, ds ++ 58 :: s <:+ b → Digits ds → ds ≠ [] → digitsVal ds ≤ s.length

theorem inBounds_of_stringsFit {b : Bytes} (h : StringsFit b) : InBounds b := fun ds s hr => h ds s hr.suffix

/-- It can be read off the text. -/
theorem stringsFit_of_tails {b : Bytes} (h : ∀ t ∈ b.tails, (t.dropWhile isDigit).head? = some 58 →
    digitsVal (t.takeWhile isDigit) < (t.dropWhile isDigit).length) : StringsFit b := by
  intro ds s hs hd _
  have htake := takeWhile_digits hd (c := 58) (by decide) s
  have hdrop : (ds ++ 58 :: s).dropWhile isDigit = 58 :: s := by
    have hall := List.takeWhile_append_dropWhile (p := isDigit) (l := ds ++ 58 :: s)
    rw [htake] at hall
    exact List.append_cancel_left hall
  have := h _ ((List.mem_tails _ _).2 hs) (by rw [hdrop]; rfl)
  rw [htake, hdrop, List.length_cons] at this
  omega

/-- No `int` of the parser overflows: the announced string lengths, the lengths of entities and the running offsets of the
loops all stay below 2^31. -/
structure NoWrap (b : Bytes) : Prop where
  string : ∀ ds s : Bytes, Scans b (ds ++ 58 :: s) → Digits ds → ds ≠ [] → ds.length + 1 + digitsVal ds < 2147483648
  entity : ∀ e rest : Bytes, Scans b (e ++ rest) → Accepted e → e.length < 2147483648
  run : ∀ (keys : Bool) (k : Nat) (xs rest : Bytes), Scans b (opening keys :: (xs ++ rest)) → AcceptedItems keys 0 k xs →
    xs.length < 2147483648
  advance : ∀ (keys : Bool) (k : Nat) (xs ds s : Bytes), Scans b (opening keys :: (xs ++ (ds ++ 58 :: s))) →
    AcceptedItems keys 0 k xs → Digits ds → ds ≠ [] → xs.length + (ds.length + 1 + digitsVal ds) < 2147483648

/-! ## Runs of elements -/

/-- A loop passes a run of elements: its offset grows by the length of the run, its fuel falls by the number of elements. -/
theorem bencElements_run {buf : Bytes} {keys : Bool} {k k' : Nat} {xs : Bytes} (h : AcceptedItems keys k k' xs) :
    ∀ {post : Bytes} {p offset : Int} (io : Int) (fuel : Nat), TextAt buf (p + offset + 1) (xs ++ post) → 0 ≤ offset →
      offset + xs.length < 2147483648 → xs.length ≤ fuel →
      ∃ n, bencElements buf (fuel + n) keys p io offset k = bencElements buf fuel keys p io (offset + xs.length) k' := by
  match h with
  | .nil =>
    intro post p offset io fuel _ _ _ _
    exact ⟨0, by simp⟩
  | @Items.cons _ _ _ _ e xs hs he ht =>
    intro post p offset io fuel htx h0 hlen hf
    simp only [List.length_append, Nat.cast_add, List.append_assoc] at htx hlen hf ⊢
    have hm : TextAt buf (p + (offset + e.length) + 1) (xs ++ post) := by
      have := htx.move
      have hidx : p + offset + 1 + (e.length : Int) = p + (offset + e.length) + 1 := by omega
      rwa [hidx] at this
    obtain ⟨n, hn⟩ := bencElements_run ht io fuel hm (by omega) (by omega) (by omega)
    refine ⟨n + 1, ?_⟩
    rw [← Nat.add_assoc, bencElements_cons (measures _ _ _).1 io hs he htx h0 (by omega) (by omega), hn]
    congr 1
    omega

/-! ## Texts that end in the terminator -/

/-- Every terminated text is a run of digits and a byte that is no digit. -/
theorem exists_digits (r : Bytes) : ∃ ds c t, r ++ [0] = ds ++ c :: t ∧ Digits ds ∧ isDigit c = false := by
  induction r with
  | nil => exact ⟨[], 0, [], rfl, by simp [Digits], by decide⟩
  | cons d r ih =>
    by_cases hd : isDigit d = true
    · obtain ⟨ds, c, t, h, hds, hc⟩ := ih
      refine ⟨d :: ds, c, t, by simp [h], ?_, hc⟩
      intro x hx
      rcases List.mem_cons.1 hx with rfl | hx
      · exact hd
      · exact hds x hx
    · exact ⟨[], d, r ++ [0], rfl, by simp [Digits], by simpa using hd⟩

/-- A part of a terminated text that ends in a byte other than the terminator lies before the terminator. -/
theorem split_before_nul {r a t : Bytes} {c : UInt8} (h : r ++ [0] = a ++ c :: t) (hc : c ≠ 0) :
    ∃ t', r = a ++ c :: t' ∧ t = t' ++ [0] := by
  rcases List.eq_nil_or_concat t with rfl | ⟨t', x, rfl⟩
  · have := (List.append_inj' h rfl).2
    simp only [List.cons.injEq, and_true] at this
    exact absurd this.symm hc
  · rw [List.concat_eq_append] at h ⊢
    have h' : r ++ [0] = (a ++ c :: t') ++ [x] := by simpa using h
    obtain ⟨h1, h2⟩ := List.append_inj' h' rfl
    simp only [List.cons.injEq, and_true] at h2
    exact ⟨t', h1, by rw [h2]⟩

/-- Behind an `i`, every terminated text is a sign or none, digits, and a byte that is no digit. -/
theorem exists_sign_digits (r : Bytes) : ∃ neg ds c t, r ++ [0] = minus neg ++ (ds ++ c :: t) ∧ Digits ds ∧ isDigit c = false ∧
    (neg = false → ds = [] → c ≠ 45) := by
  obtain ⟨ds, c, t, h, hd, hc⟩ := exists_digits r
  by_cases hsign : ds = [] ∧ c = 45
  · obtain ⟨rfl, rfl⟩ := hsign
    obtain ⟨r', rfl, -⟩ := split_before_nul h (by decide)
    obtain ⟨ds, c, t', h', hd, hc⟩ := exists_digits r'
    exact ⟨true, ds, c, t', by rw [← h']; rfl, hd, hc, fun hn => by cases hn⟩
  · exact ⟨false, ds, c, t, h, hd, hc, fun _ hds hc45 => hsign ⟨hds, hc45⟩⟩

/-- On a terminated text, an `i` is measured when a sign or none, digits and an `e` follow, and is no entity otherwise. -/
theorem bencIntLength_cases {buf r : Bytes} {p : Int} (h : TextAt buf p (105 :: r ++ [0])) :
    bencIntLength buf p = .ok (-1) ∨ ∃ neg ds rest, r = minus neg ++ ds ++ 101 :: rest ∧ Digits ds ∧
      bencIntLength buf p = .ok (int32 ((minus neg).length + ds.length + 2)) := by
  obtain ⟨neg, ds, c, t, hr, hd, hc, hs⟩ := exists_sign_digits r
  rw [List.cons_append, hr] at h
  have hl := bencIntLength_eq neg hd hc hs h
  by_cases h101 : c = 101
  · subst h101
    obtain ⟨rest, hrest, -⟩ := split_before_nul (a := minus neg ++ ds) (by rw [hr, List.append_assoc]) (by decide)
    exact Or.inr ⟨neg, ds, rest, hrest, hd, by rw [hl, if_pos rfl]⟩
  · exact Or.inl (by rw [hl, if_neg h101])

/-- A terminated text is read at its first byte. -/
theorem TextAt.byteAt_nul {buf r : Bytes} {p : Int} (h : TextAt buf p (r ++ [0])) :
    ∃ c t, r ++ [0] = c :: t ∧ Traccoon.byteAt buf p = .ok c := by
  cases r with
  | nil => exact ⟨0, [], rfl, h.byteAt⟩
  | cons c r => exact ⟨c, r ++ [0], rfl, h.byteAt⟩

/-- The type of a text that starts with none of the three letters: a string if digits and a colon come first. -/
theorem bencEntityType_other {buf ds t : Bytes} {p : Int} {c : UInt8} (h : TextAt buf p (ds ++ c :: t)) (hd : Digits ds)
    (hc : isDigit c = false) (hl : ds = [] → c ≠ 100 ∧ c ≠ 108 ∧ c ≠ 105) :
    bencEntityType buf p = .ok (if c = 58 ∧ ds ≠ [] then .string else .fail) := by
  by_cases hs : c = 58 ∧ ds ≠ []
  · obtain ⟨rfl, hne⟩ := hs
    rw [bencEntityType_string h hd hne]
    simp [hne]
  · rw [if_neg hs]
    have hb : ∃ d, byteAt buf p = .ok d ∧ d ≠ 100 ∧ d ≠ 108 ∧ d ≠ 105 := by
      cases ds with
      | nil => exact ⟨c, h.byteAt, hl rfl⟩
      | cons d ds =>
        obtain ⟨h1, h2, h3, -, -⟩ := isDigit_ne (hd d (by simp))
        exact ⟨d, h.byteAt, h1, h2, h3⟩
    obtain ⟨d, hb, h1, h2, h3⟩ := hb
    have hlen : ¬(c = 58 ∧ 0 < ds.length) := by
      intro ⟨h58, hpos⟩
      exact hs ⟨h58, List.length_pos_iff.1 hpos⟩
    simp only [bencEntityType, hb, walk_ok_bind, h1, h2, h3, if_false, h.skipDigits hd hc, h.move.byteAt, hlen]
    rfl

/-- The four kinds of text a pointer may stand at, and the type each is given. -/
theorem bencEntityType_cases {buf r : Bytes} {p : Int} (h : TextAt buf p (r ++ [0])) :
    (∃ t, r = 100 :: t ∧ bencEntityType buf p = .ok .dict) ∨ (∃ t, r = 108 :: t ∧ bencEntityType buf p = .ok .list) ∨
    (∃ t, r = 105 :: t ∧ bencEntityType buf p = .ok .int) ∨ (StartsStr r ∧ bencEntityType buf p = .ok .string) ∨
    bencEntityType buf p = .ok .fail := by
  obtain ⟨c, t, hct, hb⟩ := h.byteAt_nul
  have hr : c ≠ 0 → ∃ t', r = c :: t' := by
    intro hc
    obtain ⟨t', h', -⟩ := split_before_nul (a := []) hct hc
    exact ⟨t', h'⟩
  by_cases h1 : c = 100
  · subst h1
    obtain ⟨t', rfl⟩ := hr (by decide)
    exact Or.inl ⟨t', rfl, bencEntityType_dict h⟩
  by_cases h2 : c = 108
  · subst h2
    obtain ⟨t', rfl⟩ := hr (by decide)
    exact Or.inr (Or.inl ⟨t', rfl, bencEntityType_list h⟩)
  by_cases h3 : c = 105
  · subst h3
    obtain ⟨t', rfl⟩ := hr (by decide)
    exact Or.inr (Or.inr (Or.inl ⟨t', rfl, bencEntityType_int h⟩))
  obtain ⟨ds, x, u, hx, hds, hxd⟩ := exists_digits r
  have ht := bencEntityType_other (hx ▸ h) hds hxd (by
    rintro rfl
    rw [hx] at hct
    obtain ⟨rfl, -⟩ := List.cons.inj hct
    exact ⟨h1, h2, h3⟩)
  by_cases hs : x = 58 ∧ ds ≠ []
  · obtain ⟨rfl, hne⟩ := hs
    obtain ⟨s, hs, -⟩ := split_before_nul hx (by decide)
    exact Or.inr (Or.inr (Or.inr (Or.inl ⟨⟨ds, s, hds, hne, hs⟩, bencEntityType_string (hx ▸ h) hds hne⟩)))
  · exact Or.inr (Or.inr (Or.inr (Or.inr (by rw [ht, if_neg hs]))))

/-- An opening letter, and only it, gives the type of its bracket. -/
theorem bencEntityType_opening {buf t post : Bytes} {p : Int} {keys : Bool} (h : TextAt buf p (opening keys :: t ++ post)) :
    bencEntityType buf p = .ok (bracket keys) := by
  cases keys with
  | true => exact bencEntityType_dict (t := t ++ post) h
  | false => exact bencEntityType_list (t := t ++ post) h

theorem opening_of_type {buf r : Bytes} {keys : Bool} {p : Int} (h : TextAt buf p (r ++ [0]))
    (hty : bencEntityType buf p = .ok (bracket keys)) : ∃ t, r = opening keys :: t := by
  rcases bencEntityType_cases h with ⟨t, rfl, ht⟩ | ⟨t, rfl, ht⟩ | ⟨t, rfl, ht⟩ | ⟨-, ht⟩ | ht
  all_goals rw [hty] at ht; cases keys
  all_goals first
    | exact ⟨t, rfl⟩
    | simp [bracket] at ht

end Traccoon
