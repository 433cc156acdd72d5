import Traccoon.Lemmas.BencSound

/-!
# The length of a bencoded entity

`benc_entity_length` is complete: it measures the encoding of every value, whatever follows (`bencEntityLength_encode`). It is
not sound on arbitrary buffers: the announced length of a string is believed, and an integer needs no digit. It is sound on a
buffer exactly when no string it scans announces more than the buffer holds and no integer of the entity lacks its digits,
as long as no `int` overflows (`measuresSoundly_iff`).
-/

namespace Traccoon

open CString Bencode

/-- The canonical encoding of a value, followed by any bytes: the length of the encoding is returned, with every offset handed
to the debug output and with any fuel from that length on. -/
theorem bencEntityLength_encode (v : Value) (s : Bytes) (initialOffset : Int) (hlen : v.encode.length < 2147483648)
    (fuel : Nat) (hf : v.encode.length ≤ fuel) :
    bencEntityLength (v.encode ++ s) fuel 0 initialOffset = .ok v.encode.length :=
  (measures _ _ fuel).1 v.encode s 0 initialOffset (complete_encode v) (textAt_zero _) hlen hf

/-- The dictionary `{"a": [-7, ""]}`, with bytes behind it. -/
theorem bencEntityLength_encode_dict :
    (Value.dict [(ascii "a", .list [.int (Numeral.ofInt (-7)), .str []])]).encode = ascii "d1:ali-7e0:ee" ∧
    bencEntityLength (ascii "d1:ali-7e0:ee" ++ [101, 0]) 13 0 0 = .ok 13 := by
  have h := bencEntityLength_encode (.dict [(ascii "a", .list [.int (Numeral.ofInt (-7)), .str []])]) [101, 0] 0
    (by decide) 13 (by decide)
  exact ⟨by decide, h⟩

/-- The parser is right about the buffer `b`, given a terminator behind it: it inspects no byte outside, and a length it
returns that is not negative lies within `b` and is the length of one complete entity. (What it returns after a read outside
would depend on bytes that are not the buffer's.) -/
def MeasuresSoundly (b : Bytes) : Prop :=
  ∀ fuel, bencEntityLength (b ++ [0]) fuel 0 0 ≠ .error .fault ∧
    ∀ n : Int, bencEntityLength (b ++ [0]) fuel 0 0 = .ok n → 0 ≤ n → n ≤ b.length ∧ Complete (b.take n.toNat)

/-- A string that announces five bytes and holds two. -/
theorem not_measuresSoundly_short_string : ¬MeasuresSoundly (ascii "5:ab") := by
  intro h
  have h7 := ((h 1).2 7 (by decide) (by decide)).1
  exact absurd h7 (by decide)

namespace BencAux

variable {b : Bytes}

/-- From the start of a scanned list or dictionary, the walk reaches the element behind a run with as much fuel as wanted. -/
theorem reaches_element {keys : Bool} {k : Nat} {xs t : Bytes} {c : UInt8} (hw : NoWrap b)
    (hr : Scans b (opening keys :: (xs ++ c :: t))) (hx : AcceptedItems keys 0 k xs) (hc : c ≠ 101 ∧ c ≠ 0)
    (hs : keys = true → k % 2 = 0 → StartsStr (c :: t)) {p : Int} (io : Int)
    (h : TextAt (b ++ [0]) p (opening keys :: (xs ++ c :: t) ++ [0])) (fuel : Nat) (hf : xs.length ≤ fuel) :
    ∃ fuel', bencEntityLength (b ++ [0]) fuel' p io = (do
      let l ← bencEntityLength (b ++ [0]) fuel (p + xs.length + 1) (int32 (io + xs.length + 1))
      if l = -1 then pure (-1) else bencElements (b ++ [0]) fuel keys p io (int32 (xs.length + l)) (k + 1)) := by
  have h1 : TextAt (b ++ [0]) (p + 0 + 1) (xs ++ (c :: t ++ [0])) := by
    have := TextAt.next (t := xs ++ (c :: t ++ [0])) (by simpa using h)
    simpa using this
  have h2 : TextAt (b ++ [0]) (p + xs.length + 1) (c :: t ++ [0]) := by
    have := h1.move
    have hidx : p + 0 + 1 + (xs.length : Int) = p + xs.length + 1 := by omega
    rwa [hidx] at this
  have hbc : byteAt (b ++ [0]) (p + xs.length + 1) = .ok c := h2.byteAt
  have hk : badKey (b ++ [0]) keys k (p + xs.length + 1) = .ok false := by
    unfold badKey
    split
    · rename_i hk
      rw [bencEntityType_startsStr (hs hk.1 hk.2) h2]
      rfl
    · rfl
  have hrun := hw.run keys k xs (c :: t) hr hx
  obtain ⟨n, hn⟩ := bencElements_run hx io (fuel + 1) h1 (by omega) (by omega) (by omega)
  refine ⟨fuel + 1 + n + 1, ?_⟩
  have ht : bencEntityLength (b ++ [0]) (fuel + 1 + n + 1) p io = bencElements (b ++ [0]) (fuel + 1 + n) keys p io 0 0 := by
    cases keys with
    | true => simp only [bencEntityLength, bencEntityType_dict (t := xs ++ c :: t ++ [0]) h, walk_ok_bind]
    | false => simp only [bencEntityLength, bencEntityType_list (t := xs ++ c :: t ++ [0]) h, walk_ok_bind]
  rw [ht, hn, Int.zero_add]
  simp only [bencElements, hbc, walk_ok_bind, ne_eq, hc, not_false_eq_true, and_self, if_true, hk, Bool.false_eq_true,
    if_false]

/-- A walk that faults at a scanned text makes the walk over the whole buffer fault. -/
theorem fault_propagates (hw : NoWrap b) {r : Bytes} (hr : Scans b r)
    (hfault : ∀ p io, TextAt (b ++ [0]) p (r ++ [0]) → ∃ fuel, bencEntityLength (b ++ [0]) fuel p io = .error .fault) :
    ∃ fuel, bencEntityLength (b ++ [0]) fuel 0 0 = .error .fault := by
  induction hr with
  | start => exact hfault 0 0 (textAt_zero _)
  | @element keys k xs t c h hx hc hs ih =>
    refine ih fun p io hp => ?_
    have h2 : TextAt (b ++ [0]) (p + xs.length + 1) (c :: t ++ [0]) := by
      have := TextAt.move (a := opening keys :: xs) (t := c :: t ++ [0]) (by simpa using hp)
      rwa [show p + ((opening keys :: xs).length : Int) = p + xs.length + 1 by simp; omega] at this
    obtain ⟨fuel, hfuel⟩ := hfault _ (int32 (io + xs.length + 1)) h2
    have hmono := bencEntityLength_mono (Nat.le_max_left fuel xs.length) hfuel (by simp)
    obtain ⟨fuel', h'⟩ := reaches_element hw h hx hc hs io hp (max fuel xs.length) (Nat.le_max_right _ _)
    exact ⟨fuel', by rw [h', hmono]; rfl⟩

/-- What a scanned string returns: its digits, the colon and the announced number of bytes, there or not. -/
theorem bencEntityLength_string {buf ds s : Bytes} {p : Int} (io : Int) (h : TextAt buf p (ds ++ 58 :: s)) (hd : Digits ds)
    (hne : ds ≠ []) (hlen : ds.length + 1 + digitsVal ds < 2147483648) (fuel : Nat) :
    bencEntityLength buf (fuel + 1) p io = .ok (ds.length + 1 + digitsVal ds : Nat) := by
  simp only [bencEntityLength, bencEntityType_string h hd hne, walk_ok_bind, bencStringLength_digits h hd hne]
  rw [int32_of_lt (by omega) (by omega)]
  simp only [Except.ok.injEq]
  omega

/-- A scanned string that announces more than the buffer holds: the parser returns too much or reads outside. -/
theorem overlong_unsound (hw : NoWrap b) {ds s : Bytes} (hr : Scans b (ds ++ 58 :: s)) (hd : Digits ds) (hne : ds ≠ [])
    (hlong : s.length < digitsVal ds) : ¬MeasuresSoundly b := by
  intro hsound
  have hl := hw.string ds s hr hd hne
  have hval : ∀ (fuel : Nat) (p io : Int), TextAt (b ++ [0]) p (ds ++ 58 :: s ++ [0]) →
      bencEntityLength (b ++ [0]) (fuel + 1) p io = .ok (ds.length + 1 + digitsVal ds : Nat) :=
    fun fuel p io hp => bencEntityLength_string io (s := s ++ [0]) (by simpa using hp) hd hne hl fuel
  generalize hrd : ds ++ 58 :: s = r at hr hval
  cases hr with
  | start =>
    -- the buffer is the string: the length returned is longer than the buffer
    have hn := ((hsound 1).2 _ (hval 0 0 0 (textAt_zero _)) (by omega)).1
    rw [← hrd] at hn
    simp only [List.length_append, List.length_cons] at hn
    omega
  | @element keys k xs t c h hx hc hs =>
    -- the string is an element: the next round of the loop reads behind the buffer
    have hadv := hw.advance keys k xs ds s (hrd ▸ h) hx hd hne
    obtain ⟨fuel, hf⟩ := fault_propagates hw h fun p io hp => by
      have h2 : TextAt (b ++ [0]) (p + xs.length + 1) (c :: t ++ [0]) := by
        have := TextAt.move (a := opening keys :: xs) (t := c :: t ++ [0]) (by simpa using hp)
        rwa [show p + ((opening keys :: xs).length : Int) = p + xs.length + 1 by simp; omega] at this
      have hend : TextAt (b ++ [0]) (p + xs.length + 1 + (c :: t ++ [0]).length) [] :=
        TextAt.move (a := c :: t ++ [0]) (by simpa using h2)
      obtain ⟨fuel', h'⟩ := reaches_element hw h hx hc hs io hp (xs.length + 1) (by omega)
      refine ⟨fuel', ?_⟩
      have hfault := hend.byteAt_end (digitsVal ds - s.length - 1)
      have hlen : (c :: t ++ [0]).length = ds.length + 1 + s.length + 1 := by
        rw [← hrd]
        simp only [List.length_append, List.length_cons, List.length_nil]
        omega
      rw [h', hval _ _ _ h2, walk_ok_bind, if_neg (by omega), int32_of_lt (by omega) (by omega), bencElements,
        show p + ((xs.length : Int) + ((ds.length + 1 + digitsVal ds : Nat) : Int)) + 1 =
          p + xs.length + 1 + ((c :: t ++ [0]).length : Int) + ((digitsVal ds - s.length - 1 : Nat) : Int) by omega,
        hfault]
      rfl
    exact (hsound fuel).1 hf

/-- Strings in bounds and digits in the integers make the parser right. -/
theorem sound_of_inBounds (hw : NoWrap b) (hi : InBounds b) (hd : DigitsPresent b) : MeasuresSoundly b := by
  intro fuel
  obtain ⟨hf, hn⟩ := (walks hi hw fuel).1 b 0 0 Scans.start (textAt_zero _)
  refine ⟨hf, fun n hret h0 => ?_⟩
  rcases hn n hret with rfl | ⟨e, rest, hb, he, rfl⟩
  · omega
  · refine ⟨?_, ?_⟩
    · rw [hb, List.length_append]
      omega
    · rw [Int.toNat_natCast, hb, List.take_left]
      exact hd e rest hb he

theorem inBounds_of_sound (hw : NoWrap b) (hsound : MeasuresSoundly b) : InBounds b := by
  intro ds s hr hd hne
  by_contra hlong
  exact overlong_unsound hw hr hd hne (by omega) hsound

/-- What the buffer starts with is measured whole, so a right parser has found an entity with all its digits. -/
theorem digitsPresent_of_sound (hw : NoWrap b) (hsound : MeasuresSoundly b) : DigitsPresent b := by
  intro e rest hb he
  have hlen := hw.entity e rest (hb ▸ Scans.start) he
  have hret := (measures _ (b ++ [0]) e.length).1 e (rest ++ [0]) 0 0 he
    (by rw [← List.append_assoc, ← hb]; exact textAt_zero _) hlen (Nat.le_refl _)
  have hc := ((hsound _).2 _ hret (by omega)).2
  rwa [Int.toNat_natCast, hb, List.take_left] at hc

/-- A buffer that starts with the encoding of a value starts with no other entity. -/
theorem digitsPresent_encode (v : Value) (s : Bytes) (hlen : (v.encode ++ s).length < 2147483648) : DigitsPresent (v.encode ++ s) := by
  intro e rest hb he
  have hle := congrArg List.length hb
  simp only [List.length_append] at hle hlen
  have h1 := (measures _ (v.encode ++ s) (v.encode.length + e.length)).1 v.encode s 0 0 (complete_encode v) (textAt_zero _)
    (by omega) (by omega)
  have h2 := (measures _ (v.encode ++ s) (v.encode.length + e.length)).1 e rest 0 0 he (hb ▸ textAt_zero _) (by omega) (by omega)
  have hl := Except.ok.inj (h1.symm.trans h2)
  rw [← (List.append_inj hb (by omega)).1]
  exact complete_encode v

end BencAux

open BencAux

/-- Within a buffer shorter than 2^31 bytes, strings that stay in bounds keep every `int` from overflowing. -/
theorem noWrap_of_inBounds {b : Bytes} (hlen : b.length < 2147483648) (hi : InBounds b) : NoWrap b := by
  have hstr : ∀ ds s : Bytes, Scans b (ds ++ 58 :: s) → Digits ds → ds ≠ [] →
      ds.length + 1 + digitsVal ds ≤ (ds ++ 58 :: s).length := by
    intro ds s hr hd hne
    have := hi ds s hr hd hne
    simp only [List.length_append, List.length_cons]
    omega
  refine ⟨fun ds s hr hd hne => ?_, fun e rest hr _ => ?_, fun keys k xs rest hr _ => ?_,
    fun keys k xs ds s hr hx hd hne => ?_⟩
  · have h1 := hstr ds s hr hd hne
    have h2 := hr.suffix.length_le
    omega
  · have := hr.suffix.length_le
    simp only [List.length_append] at this
    omega
  · have := hr.suffix.length_le
    simp only [List.length_cons, List.length_append] at this
    omega
  · -- the string behind the run is an element of its own
    have hsuf := hr.suffix.length_le
    obtain ⟨d, ds', rfl⟩ := List.exists_cons_of_ne_nil hne
    obtain ⟨-, -, -, h101, h0⟩ := isDigit_ne (hd d (by simp))
    have h1 := hstr (d :: ds') s (Scans.element hr hx ⟨h101, h0⟩ fun _ _ => ⟨d :: ds', s, hd, hne, rfl⟩) hd hne
    simp only [List.length_cons, List.length_append] at h1 hsuf ⊢
    omega

/-- On a buffer shorter than 2^31 bytes the parser is right when no string it scans announces more bytes than the buffer holds
behind it and what it takes for an entity has a digit in each integer; and where no `int` overflows, only then. -/
theorem measuresSoundly_iff (b : Bytes) :
    (b.length < 2147483648 → InBounds b ∧ DigitsPresent b → MeasuresSoundly b) ∧
    (NoWrap b → (MeasuresSoundly b ↔ InBounds b ∧ DigitsPresent b)) :=
  ⟨fun hlen hc => sound_of_inBounds (noWrap_of_inBounds hlen hc.1) hc.1 hc.2,
    fun hw => ⟨fun hsound => ⟨inBounds_of_sound hw hsound, digitsPresent_of_sound hw hsound⟩,
      fun hc => sound_of_inBounds hw hc.1 hc.2⟩⟩

namespace BencLengthExample

/-- The dictionary `{"a": ["ab", 7]}`. -/
def nested : Value := .dict [(ascii "a", .list [.str (ascii "ab"), .int (Numeral.ofInt 7)])]

end BencLengthExample

/-- A dictionary with a list of a string and an integer in it. -/
theorem measuresSoundly_nested : BencLengthExample.nested.encode = ascii "d1:al2:abi7eee" ∧ MeasuresSoundly (ascii "d1:al2:abi7eee") := by
  have htext : BencLengthExample.nested.encode = ascii "d1:al2:abi7eee" := by decide
  refine ⟨htext, (measuresSoundly_iff _).1 (by decide) ⟨inBounds_of_stringsFit (stringsFit_of_tails (by decide)), ?_⟩⟩
  rw [← htext, ← List.append_nil BencLengthExample.nested.encode]
  exact digitsPresent_encode _ [] (by decide)

end Traccoon
