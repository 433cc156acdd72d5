import Traccoon.Getpeers
import Traccoon.Lemmas.PercentEncoding
import Traccoon.Lib.Query

/-!
# The hash that `getpeers` sends

`getpeers` decodes the hex text of its argument in place and writes the first twenty bytes of the array as a percent-encoding, whether
the decoder got to the end or not. So the hash it sends is a function of the text (`sentHash`); it is the one the text names exactly
when the decoder knows all its digits (`hexEncode_sentHash_iff`).
-/

namespace Traccoon

open CString Getpeers

/-- The twenty bytes in front of the array in which this text has been decoded. -/
def sentHash (u : Bytes) : Bytes :=
  ((hexDecode u).1 ++ if (hexDecode u).2 then [] else u.drop (hexDecode u).1.length).take maxHashLen

/-! ## Hex texts -/

/-- The characters that `isxdigit` accepts. -/
theorem mem_hexDigits {b : UInt8} (h : isXDigit b = true) : b ∈ hexDigits := by
  have hall : ∀ i < 256, isXDigit (UInt8.ofNat i) = true → UInt8.ofNat i ∈ hexDigits := by decide +kernel
  have := hall b.toNat b.toNat_lt
  rw [UInt8.ofNat_toNat] at this
  exact this h

theorem noNul_hexDigits {u : Bytes} (h : ∀ b ∈ u, b ∈ hexDigits) : NoNul u := fun h0 => (hexDigit_text (h 0 h0)).2 rfl

/-- Two digits of `hexdict` are the text of the byte they are decoded to. -/
theorem hexByte_decoded {x y : UInt8} {first second : Nat} (hx : charIndex hexdict x = some first)
    (hy : charIndex hexdict y = some second) : hexByte (UInt8.ofNat (first * 16 + second)) = [x, y] := by
  have h1 := charIndex_some hx
  have h2 := charIndex_some hy
  have hlen : hexdict.length = 16 := by decide
  have hlt1 := (List.getElem?_eq_some_iff.1 h1).1
  have hlt2 := (List.getElem?_eq_some_iff.1 h2).1
  rw [hlen] at hlt1 hlt2
  have hn : (UInt8.ofNat (first * 16 + second)).toNat = first * 16 + second := by
    rw [UInt8.toNat_ofNat']
    omega
  have hdiv : (first * 16 + second) / 16 = first := by omega
  have hmod : (first * 16 + second) % 16 = second := by omega
  rw [hexByte, hn, hdiv, hmod, List.getD_eq_getElem?_getD, h1, List.getD_eq_getElem?_getD, h2]
  rfl

theorem mem_hexdict {x : UInt8} {i : Nat} (h : charIndex hexdict x = some i) : x ∈ hexdict := List.mem_of_getElem? (charIndex_some h)

/-- A text of an even number of hexadecimal digits is the hex text of some bytes, or goes on behind one with a pair of digits that the
decoder does not know. -/
theorem hexDecode_digits (u : Bytes) : ∀ n, u.length = 2 * n → (∀ b ∈ u, b ∈ hexDigits) →
    ((∀ b ∈ u, b ∈ hexdict) ∧ ∃ bs, hexDecode u = (bs, true) ∧ hexEncode bs = u) ∨
    ∃ bs x y s, u = hexEncode bs ++ x :: y :: s ∧ ¬(x ∈ hexdict ∧ y ∈ hexdict) ∧ hexDecode u = (bs, false) := by
  induction u using hexDecode.induct with
  | case1 =>
    intro n _ _
    exact Or.inl ⟨by simp, [], rfl, rfl⟩
  | case2 x =>
    intro n hn _
    simp only [List.length_cons, List.length_nil] at hn
    omega
  | case3 x y s first second hy hx ih =>
    intro n hn hu
    have hbyte := hexByte_decoded hx hy
    rcases ih (n - 1) (by simp only [List.length_cons] at hn; omega) fun b hb => hu b (by simp [hb]) with
      ⟨hall, bs, hd, he⟩ | ⟨bs, x', y', s', hs, hbad, hd⟩
    · refine Or.inl ⟨?_, UInt8.ofNat (first * 16 + second) :: bs, ?_, ?_⟩
      · intro b hb
        rcases List.mem_cons.1 hb with rfl | hb
        · exact mem_hexdict hx
        · rcases List.mem_cons.1 hb with rfl | hb
          · exact mem_hexdict hy
          · exact hall b hb
      · simp only [hexDecode, hx, hy, hd]
      · rw [hexEncode, List.flatMap_cons, hbyte, ← hexEncode, he]
        rfl
    · refine Or.inr ⟨UInt8.ofNat (first * 16 + second) :: bs, x', y', s', ?_, hbad, ?_⟩
      · rw [hexEncode, List.flatMap_cons, hbyte, ← hexEncode, List.append_assoc, ← hs]
        rfl
      · simp only [hexDecode, hx, hy, hd]
  | case4 x y s hno =>
    intro n hn hu
    refine Or.inr ⟨[], x, y, s, rfl, ?_, ?_⟩
    · rintro ⟨hx, hy⟩
      rcases charIndex_hexDigit (hu x (by simp)) with ⟨hcx, -⟩ | ⟨hmx, -, -⟩
      · rcases charIndex_hexDigit (hu y (by simp)) with ⟨hcy, -⟩ | ⟨hmy, -, -⟩
        · exact hno _ _ hcx hcy
        · exact hmy hy
      · exact hmx hx
    · rw [hexDecode]
      split
      · rename_i hx hy
        exact absurd hy (hno _ _ hx)
      · rfl

/-- Decoding halves a text; it takes all of it, or stops before. -/
theorem length_hexDecode (u : Bytes) :
    2 * (hexDecode u).1.length ≤ u.length ∧ ((hexDecode u).2 = true → 2 * (hexDecode u).1.length = u.length) := by
  induction u using hexDecode.induct with
  | case1 => simp [hexDecode]
  | case2 x => simp [hexDecode]
  | case3 x y s first second hy hx ih =>
    simp only [hexDecode, hx, hy, List.length_cons]
    refine ⟨by omega, fun h => ?_⟩
    have := ih.2 h
    omega
  | case4 x y s hno =>
    rw [hexDecode]
    split
    · rename_i hx hy
      exact absurd hy (hno _ _ hx)
    · simp

theorem length_sentHash {u : Bytes} (hlen : u.length = maxHexencHashLen) : (sentHash u).length = maxHashLen := by
  obtain ⟨hle, hall⟩ := length_hexDecode u
  simp only [maxHexencHashLen] at hlen
  rw [sentHash, List.length_take]
  refine Nat.min_eq_left ?_
  cases h : (hexDecode u).2 with
  | true =>
    have := hall h
    simp only [if_true, List.append_nil]
    omega
  | false =>
    simp only [Bool.false_eq_true, if_false, List.length_append, List.length_drop]
    omega

/-- A hexadecimal digit as a byte has a hex text without letters. -/
theorem hexByte_hexDigit {c x y : UInt8} (hc : c ∈ hexDigits) (h : hexByte c = [tolower x, tolower y]) :
    x ∈ hexdict ∧ y ∈ hexdict := by
  have hdigit : ∀ c ∈ hexDigits, ∀ d ∈ hexByte c, isDigit d = true := by decide +kernel
  have hlower : ∀ x, isDigit (tolower x) = true → x ∈ hexdict := by
    intro x hx
    have hall : ∀ i < 256, isDigit (tolower (UInt8.ofNat i)) = true → UInt8.ofNat i ∈ hexdict := by decide +kernel
    have := hall x.toNat x.toNat_lt
    rw [UInt8.ofNat_toNat] at this
    exact this hx
  have hd := hdigit c hc
  rw [h] at hd
  exact ⟨hlower x (hd _ (by simp)), hlower y (hd _ (by simp))⟩

theorem strtolower_hexdict {u : Bytes} (h : ∀ b ∈ u, b ∈ hexdict) : strtolower u = u := by
  have hall : ∀ b ∈ hexdict, tolower b = b := by decide +kernel
  rw [strtolower, List.map_congr_left (g := id) fun b hb => hall b (h b hb), List.map_id]

/-- The hash sent for forty hexadecimal digits is the one they name, in either letter case, exactly when the decoder knows them all. -/
theorem hexEncode_sentHash_iff {u : Bytes} (hlen : u.length = maxHexencHashLen) (hu : ∀ b ∈ u, b ∈ hexDigits) :
    hexEncode (sentHash u) = strtolower u ↔ ∀ b ∈ u, b ∈ hexdict := by
  rcases hexDecode_digits u maxHashLen hlen hu with ⟨hall, bs, hd, he⟩ | ⟨bs, x, y, s, rfl, hbad, hd⟩
  · have hbs : bs.length = maxHashLen := by
      have := congrArg List.length he
      rw [length_hexEncode, hlen, maxHexencHashLen] at this
      omega
    refine ⟨fun _ => hall, fun _ => ?_⟩
    rw [sentHash, hd]
    simp only [if_true, List.append_nil]
    rw [List.take_of_length_le (by omega), he, strtolower_hexdict hall]
  · refine ⟨fun h => ?_, fun h => absurd ⟨h x (by simp), h y (by simp)⟩ hbad⟩
    exfalso
    simp only [List.length_append, length_hexEncode, List.length_cons, maxHexencHashLen, maxHashLen] at hlen
    -- the first byte behind those decoded is a character of the text
    obtain ⟨c, t, hct⟩ : ∃ c t, (hexEncode bs ++ x :: y :: s).drop bs.length = c :: t := by
      refine List.exists_cons_of_ne_nil ?_
      rw [← List.length_pos_iff, List.length_drop, List.length_append, length_hexEncode, List.length_cons]
      omega
    have hc : c ∈ hexDigits := hu c (List.mem_of_mem_drop (hct ▸ List.mem_cons_self))
    obtain ⟨k, hk⟩ : ∃ k, maxHashLen = bs.length + (k + 1) := ⟨maxHashLen - bs.length - 1, by simp only [maxHashLen]; omega⟩
    have hsent : sentHash (hexEncode bs ++ x :: y :: s) = bs ++ c :: t.take k := by
      rw [sentHash, hd]
      simp only [Bool.false_eq_true, if_false]
      rw [hct, hk, List.take_length_add_append, List.take_succ_cons]
    have hlow : strtolower (hexEncode bs) = hexEncode bs := strtolower_hexdict fun b hb => mem_hexEncode hb
    rw [hsent, hexEncode, List.flatMap_append, List.flatMap_cons, ← hexEncode, strtolower, List.map_append, ← strtolower, hlow,
      List.append_cancel_left_eq] at h
    have happend : hexByte c ++ hexEncode (t.take k) = [tolower x, tolower y] ++ strtolower s := by
      simpa [hexEncode, strtolower] using h
    have hbyte : hexByte c = [tolower x, tolower y] := (List.append_inj happend rfl).1
    exact hbad (hexByte_hexDigit hc hbyte)

/-! ## The percent-encoding -/

/-- The way `hashEncodeURL` writes a byte. -/
def urlPart (b : UInt8) : EncodedByte :=
  if h : charIndex nonreserved b = none then
    .escape (hexdict.getD (b.toNat / 16) 0) (hexdict.getD (b.toNat % 16) 0)
      ((by decide : ∀ i < 16, hexdict.getD i 0 ∈ hexDigits) _ (by have := b.toNat_lt; omega))
      ((by decide : ∀ i < 16, hexdict.getD i 0 ∈ hexDigits) _ (by omega))
  else
    .literal b ((by decide +kernel : ∀ b ∈ nonreserved, b ∉ ([37, 38, 32, 0] : Bytes)) b
      (List.mem_of_getElem? (charIndex_some (Option.ne_none_iff_exists'.1 h).choose_spec)))

/-- It is an encoding of the byte, without capital digits. -/
theorem urlPart_spec (b : UInt8) : (urlPart b).text = urlByte b ∧ (urlPart b).value = b ∧ (urlPart b).Lower := by
  unfold urlPart urlByte
  by_cases h : charIndex nonreserved b = none
  · have hdigit : ∀ i < 16, hexdict.getD i 0 ∈ hexdict ∧ hexVal (hexdict.getD i 0) = i := by decide
    obtain ⟨hm1, hv1⟩ := hdigit (b.toNat / 16) (by have := b.toNat_lt; omega)
    obtain ⟨hm2, hv2⟩ := hdigit (b.toNat % 16) (by omega)
    rw [dif_pos h, if_pos h]
    refine ⟨rfl, ?_, hm1, hm2⟩
    have hidx : b.toNat / 16 * 16 + b.toNat % 16 = b.toNat := by omega
    rw [EncodedByte.value, hv1, hv2, hidx, UInt8.ofNat_toNat]
  · rw [dif_neg h, if_neg h]
    exact ⟨rfl, rfl, trivial⟩

/-- The encoding of some bytes, byte by byte. -/
theorem urlEncode_eq (bs : Bytes) : urlEncode bs = encodedText (bs.map urlPart) := by
  rw [urlEncode, encodedText, List.flatMap_map]
  congr 1
  funext b
  exact (urlPart_spec b).1.symm

theorem encodedHash_urlPart (bs : Bytes) : encodedHash (bs.map urlPart) = bs := by
  rw [encodedHash, List.map_map]
  exact (List.map_congr_left (g := id) fun b _ => (urlPart_spec b).2.1).trans (List.map_id bs)

/-- The tracker decodes the encoding of twenty bytes to those bytes. -/
theorem valueHash_urlEncode {bs : Bytes} (hlen : bs.length = maxHashLen) : valueHash (encodedText (bs.map urlPart)) = bs := by
  refine ((valueHash_text_iff (by rw [List.length_map, hlen])).2 ?_).trans (encodedHash_urlPart bs)
  intro p hp
  obtain ⟨b, -, rfl⟩ := List.mem_map.1 hp
  exact (urlPart_spec b).2.2

/-- An encoded byte takes up to three characters. -/
theorem length_urlEncode_le (bs : Bytes) : (urlEncode bs).length ≤ 3 * bs.length := by
  induction bs with
  | nil => exact Nat.le_refl _
  | cons b bs ih =>
    have hb : (urlByte b).length ≤ 3 := by
      unfold urlByte
      split
      · simp [hexByte]
      · simp
    simp only [urlEncode, List.flatMap_cons, List.length_append, List.length_cons] at ih ⊢
    omega

/-- No byte of an encoding separates parameters. -/
theorem urlEncode_text (bs : Bytes) : ∀ b ∈ urlEncode bs, b ∉ Query.separators := by
  have hdict : ∀ b ∈ hexdict, b ∉ Query.separators := by decide +kernel
  have hplain : ∀ b ∈ nonreserved, b ∉ Query.separators := by decide +kernel
  intro b hb
  obtain ⟨a, -, hb⟩ := List.mem_flatMap.1 hb
  unfold urlByte at hb
  split at hb
  · rcases List.mem_cons.1 hb with rfl | hb
    · decide
    · exact hdict b (@mem_hexEncode [a] _ (by simpa [hexEncode] using hb))
  · rename_i h
    obtain ⟨i, hi⟩ := Option.ne_none_iff_exists'.1 h
    rw [List.mem_singleton.1 hb]
    exact hplain a (List.mem_of_getElem? (charIndex_some hi))

theorem noNul_urlEncode (bs : Bytes) : NoNul (urlEncode bs) := fun h => urlEncode_text bs 0 h (by decide)

/-- The string that `hashEncodeURL` leaves in an array, if there is a terminator behind the characters it may write. -/
theorem cstr_hashEncodeURL (data : Bytes) {maxlen : Nat} (hmax : maxUrlencHashLen ≤ maxlen)
    (hend : maxUrlencHashLen < maxlen ∨ ∃ t, data.drop maxlen = 0 :: t) :
    cstr (hashEncodeURL data maxlen) = urlEncode (data.take maxHashLen) := by
  have hlen := length_urlEncode_le (data.take maxHashLen)
  have htake : (data.take maxHashLen).length ≤ maxHashLen := List.length_take_le _ _
  simp only [maxUrlencHashLen] at hmax hend
  rw [hashEncodeURL, strncpy, List.take_of_length_le (by omega)]
  obtain ⟨n, hn⟩ : ∃ n, n = maxlen - (urlEncode (data.take maxHashLen)).length := ⟨_, rfl⟩
  rw [← hn]
  cases n with
  | zero =>
    rcases hend with hlt | ⟨t, ht⟩
    · omega
    · rw [List.replicate_zero, List.append_nil, ht]
      exact cstr_append_nul (noNul_urlEncode _) t
  | succ n =>
    rw [List.replicate_succ, List.append_assoc, List.cons_append]
    exact cstr_append_nul (noNul_urlEncode _) _

/-! ## The argument -/

/-- Forty hexadecimal digits are accepted, and the array then holds them. -/
theorem hashArgument_digits {x : Bytes} (hlen : x.length = maxHexencHashLen) (hx : ∀ b ∈ x, isXDigit b = true) :
    hashArgument (List.replicate 61 0) x = .ok (x ++ List.replicate 21 0) := by
  simp only [maxHexencHashLen, maxHashLen] at hlen
  rw [hashArgument, if_neg (by simp only [maxUrlencHashLen, maxHashLen]; omega), if_pos (List.all_eq_true.2 hx), strncpy,
    List.take_of_length_le (by omega), Nat.add_sub_cancel_left, List.drop_replicate, hlen]
  simp

/-- What the request then carries: the percent-encoding of the hash sent. -/
theorem encodeHash_digits {x : Bytes} (hlen : x.length = maxHexencHashLen) (hx : ∀ b ∈ x, b ∈ hexDigits) :
    ∃ hash, encodeHash (x ++ List.replicate 21 0) = some hash ∧ cstr hash = urlEncode (sentHash x) := by
  have hdec := destructiveHexDecode_eq (noNul_hexDigits hx) (List.replicate 20 0)
  have hrep : List.replicate 21 (0 : UInt8) = 0 :: List.replicate 20 0 := rfl
  have hbs := length_hexDecode x
  generalize hr : hexDecode x = r at hdec hbs
  obtain ⟨bs, ok⟩ := r
  simp only [maxHexencHashLen, maxHashLen] at hlen
  simp only [hlen] at hbs
  obtain ⟨d, hd, htake, hend⟩ : ∃ d, destructiveHexDecode (x ++ 0 :: List.replicate 20 0) = some d ∧
      d.1.take maxHashLen = sentHash x ∧ d.1.drop maxUrlencHashLen = [0] := by
    refine ⟨_, hdec, ?_, ?_⟩
    · rw [sentHash, hr]
      cases ok with
      | true =>
        have := hbs.2 rfl
        simp only [if_true, List.append_nil]
        rw [List.take_append_of_le_length (by simp only [maxHashLen]; omega)]
      | false =>
        simp only [Bool.false_eq_true, if_false]
        rw [List.drop_append_of_le_length (by omega), ← List.append_assoc, List.take_append_of_le_length]
        simp only [maxHashLen, List.length_append, List.length_drop]
        omega
    · have hlast : (x ++ 0 :: List.replicate 20 (0 : UInt8)).drop 60 = [0] := by
        rw [← hrep, List.drop_append, List.drop_eq_nil_of_le (by omega), hlen]
        rfl
      rw [← hlast]
      cases ok with
      | true =>
        have := hbs.2 rfl
        simp only [if_true, maxUrlencHashLen, maxHashLen]
        rw [List.append_cons, List.drop_append, List.drop_eq_nil_of_le (by simp; omega), List.drop_drop]
        simp only [List.length_append, List.length_cons, List.length_nil, List.nil_append]
        congr 1
        omega
      | false =>
        simp only [Bool.false_eq_true, if_false, maxUrlencHashLen, maxHashLen]
        rw [List.drop_append, List.drop_eq_nil_of_le (by omega), List.drop_drop, List.nil_append]
        congr 1
        omega
  rw [hrep]
  refine ⟨hashEncodeURL d.1 maxUrlencHashLen, by rw [encodeHash, hd]; rfl, ?_⟩
  rw [cstr_hashEncodeURL _ (Nat.le_refl _) (Or.inr ⟨[], hend⟩), htake]

end Traccoon
