import Traccoon.Lemmas.SentHash

/-!
# The decoders that overwrite what they read

`destructiveURLDecode` and `destructiveHexDecode` write into the buffer they are reading. They do what decoders with a buffer of their own
would do: they fail on the same texts and leave the same bytes, zeros among them, and neither looks behind the terminator
(`decoders_in_place`). What they return is an `int`, which a decoding of 2^31 bytes does not fit in.
-/

namespace Traccoon

open CString

/-- The byte that two digits stand for: `0` to `9` are the bytes from 48 on, `a` to `f` those from 97 on. -/
def hexPair (x y : UInt8) : UInt8 :=
  let value (b : UInt8) : Nat := if b ≤ 57 then b.toNat - 48 else b.toNat - 87
  UInt8.ofNat (value x * 16 + value y)

/-- A text that is scanned from left to right, and what it decodes to: bytes other than `%`, and escapes of two digits. -/
inductive Scanned : Bytes → Bytes → Prop where
  | nil : Scanned [] []
  | literal {b : UInt8} {s d : Bytes} (hb : b ≠ 37) (h : Scanned s d) : Scanned (b :: s) (b :: d)
  | escape {x y : UInt8} {s d : Bytes} (hx : x ∈ hexdict) (hy : y ∈ hexdict) (h : Scanned s d) :
      Scanned (37 :: x :: y :: s) (hexPair x y :: d)

/-- The scan meets a `%` in front of two bytes that are not both digits. -/
def MeetsBadEscape (s : Bytes) : Prop :=
  ∃ a d x y t, Scanned a d ∧ s = a ++ 37 :: x :: y :: t ∧ ¬(x ∈ hexdict ∧ y ∈ hexdict)

/-- The percent-decoding of a text: of all of it, or of all in front of a `%` that has fewer than two bytes behind it; these are kept. -/
def PercentDecodes (s d : Bytes) : Prop :=
  ∃ a b rest, Scanned a b ∧ s = a ++ rest ∧ d = b ++ rest ∧ (rest = [] ∨ rest = [37] ∨ ∃ x, rest = [37, x])

/-- No hex text: of odd length, or with a byte that is no digit. -/
def BadHex (s : Bytes) : Prop := s.length % 2 = 1 ∨ ∃ b ∈ s, b ∉ hexdict

/-- The hex decoding of a text: half as long, a byte for each pair of digits. -/
def HexDecodes (s d : Bytes) : Prop :=
  2 * d.length = s.length ∧ ∀ (k : Nat) x y, s[2 * k]? = some x → s[2 * k + 1]? = some y → d[k]? = some (hexPair x y)

/-- A decoder in place does what one with a buffer of its own does: it returns -1 on the texts that are bad, and on the others leaves
the decoding with a terminator behind it and returns its length. It stays inside a buffer that ends with the text, and leaves what lies
behind. -/
structure InPlace (decode : Bytes → Option (Bytes × Int)) (bad : Bytes → Prop) (decodes : Bytes → Bytes → Prop) (s : Bytes) : Prop where
  fails_iff : (∃ left, decode (s ++ [0]) = some (left, -1)) ↔ bad s
  decodes_of : ¬bad s → ∃ d left, decodes s d ∧ decode (s ++ [0]) = some (d ++ 0 :: left, (d.length : Int))
  behind : ∀ post, ∃ left r, decode (s ++ [0]) = some (left, r) ∧ decode (s ++ 0 :: post) = some (left ++ post, r)

namespace InPlaceAux

/-- Two digits are found, and make the byte they stand for. -/
theorem charIndex_hexPair {x y : UInt8} (hx : x ∈ hexdict) (hy : y ∈ hexdict) :
    ∃ first second, charIndex hexdict x = some first ∧ charIndex hexdict y = some second ∧
      UInt8.ofNat (first * 16 + second) = hexPair x y := by
  have hdigits : hexdict.map (charIndex hexdict) = hexdict.map fun b => some (if b ≤ 57 then b.toNat - 48 else b.toNat - 87) := rfl
  have hdigit := List.map_inj_left.1 hdigits
  exact ⟨_, _, hdigit x hx, hdigit y hy, rfl⟩

/-- Two digits are decoded, and two bytes that are not both digits are not. -/
theorem urlDecode_escape (x y : UInt8) (s : Bytes) :
    urlDecode (37 :: x :: y :: s) =
      if x ∈ hexdict ∧ y ∈ hexdict then (hexPair x y :: (urlDecode s).1, (urlDecode s).2) else ([], false) := by
  rw [urlDecode]
  by_cases hx : x ∈ hexdict
  · by_cases hy : y ∈ hexdict
    · obtain ⟨first, second, h1, h2, hpair⟩ := charIndex_hexPair hx hy
      rw [if_pos ⟨hx, hy⟩, h1, h2, ← hpair]
    · rw [if_neg (fun h => hy h.2), charIndex_eq_none hy]
      split
      · rename_i h
        cases h
      · rfl
  · rw [if_neg (fun h => hx h.1), charIndex_eq_none hx]

theorem urlDecode_literal {b : UInt8} (hb : b ≠ 37) (s : Bytes) : urlDecode (b :: s) = (b :: (urlDecode s).1, (urlDecode s).2) := by
  rw [urlDecode]
  intro x y t h
  exact absurd h hb

/-- What is scanned is decoded, and the decoder goes on behind it. -/
theorem urlDecode_scanned {a d : Bytes} (h : Scanned a d) (t : Bytes) :
    urlDecode (a ++ t) = (d ++ (urlDecode t).1, (urlDecode t).2) := by
  induction h with
  | nil => rfl
  | literal hb _ ih => rw [List.cons_append, urlDecode_literal hb, ih, List.cons_append]
  | escape hx hy _ ih =>
    rw [List.cons_append, List.cons_append, List.cons_append, urlDecode_escape, if_pos ⟨hx, hy⟩, ih, List.cons_append]

/-- The decoder comes to the end of a text, or to a bad escape. -/
theorem urlDecode_cases (s : Bytes) :
    (urlDecode s).2 = true ∧ PercentDecodes s (urlDecode s).1 ∨ (urlDecode s).2 = false ∧ MeetsBadEscape s := by
  induction s using urlDecode.induct with
  | case1 => exact .inl ⟨rfl, [], [], [], Scanned.nil, rfl, rfl, .inl rfl⟩
  | case2 x y s first second hy hx ih =>
    have hx' : x ∈ hexdict := List.mem_of_getElem? (charIndex_some hx)
    have hy' : y ∈ hexdict := List.mem_of_getElem? (charIndex_some hy)
    rw [urlDecode_escape, if_pos ⟨hx', hy'⟩]
    rcases ih with ⟨hend, a, b, rest, hscan, rfl, hd, hrest⟩ | ⟨hend, a, b, x', y', t, hscan, rfl, hbad⟩
    · exact .inl ⟨hend, _, _, rest, Scanned.escape hx' hy' hscan, rfl, by rw [hd, List.cons_append], hrest⟩
    · exact .inr ⟨hend, _, _, x', y', t, Scanned.escape hx' hy' hscan, rfl, hbad⟩
  | case3 x y s hne =>
    have hbad : ¬(x ∈ hexdict ∧ y ∈ hexdict) := by
      rintro ⟨hx, hy⟩
      obtain ⟨first, second, h1, h2, -⟩ := charIndex_hexPair hx hy
      exact hne first second h1 h2
    rw [urlDecode_escape, if_neg hbad]
    exact .inr ⟨rfl, [], [], x, y, s, Scanned.nil, rfl, hbad⟩
  | case4 b s hne ih =>
    by_cases hb : b = 37
    · -- a `%` with fewer than two bytes behind it
      subst hb
      rcases s with _ | ⟨x, _ | ⟨y, s⟩⟩
      · exact .inl ⟨rfl, [], [], [37], Scanned.nil, rfl, rfl, .inr (.inl rfl)⟩
      · have hkept : urlDecode [37, x] = ([37, x], true) := by simp [urlDecode]
        rw [hkept]
        exact .inl ⟨rfl, [], [], [37, x], Scanned.nil, rfl, rfl, .inr (.inr ⟨x, rfl⟩)⟩
      · exact absurd rfl (hne x y s rfl)
    · rw [urlDecode_literal hb]
      rcases ih with ⟨hend, a, d, rest, hscan, rfl, hd, hrest⟩ | ⟨hend, a, d, x', y', t, hscan, rfl, hbad⟩
      · exact .inl ⟨hend, _, _, rest, Scanned.literal hb hscan, rfl, by rw [hd, List.cons_append], hrest⟩
      · exact .inr ⟨hend, _, _, x', y', t, Scanned.literal hb hscan, rfl, hbad⟩

/-- There is one decoding at most, and where there is one the decoder finds it. -/
theorem percentDecodes_iff {s d : Bytes} : PercentDecodes s d ↔ urlDecode s = (d, true) := by
  constructor
  · rintro ⟨a, b, rest, hscan, rfl, rfl, hrest⟩
    have hkept : urlDecode rest = (rest, true) := by
      rcases hrest with rfl | rfl | ⟨x, rfl⟩
      · rfl
      · simp [urlDecode]
      · simp [urlDecode]
    rw [urlDecode_scanned hscan, hkept]
  · intro h
    rcases urlDecode_cases s with ⟨-, hdec⟩ | ⟨hend, -⟩
    · rw [h] at hdec
      exact hdec
    · rw [h] at hend
      cases hend

/-- It fails on a text that meets a bad escape, and only there. -/
theorem urlDecode_fails_iff (s : Bytes) : (urlDecode s).2 = false ↔ MeetsBadEscape s := by
  constructor
  · intro h
    rcases urlDecode_cases s with ⟨hend, -⟩ | ⟨-, hbad⟩
    · rw [h] at hend
      cases hend
    · exact hbad
  · rintro ⟨a, d, x, y, t, hscan, rfl, hbad⟩
    rw [urlDecode_scanned hscan, urlDecode_escape, if_neg hbad]

/-! ### Hex -/

/-- The decoder comes to the end of a text of pairs of digits, or the text is bad. -/
theorem hexDecode_cases (s : Bytes) :
    (hexDecode s).2 = true ∧ HexDecodes s (hexDecode s).1 ∧ ¬BadHex s ∨ (hexDecode s).2 = false ∧ BadHex s := by
  induction s using hexDecode.induct with
  | case1 =>
    refine .inl ⟨rfl, ⟨rfl, ?_⟩, ?_⟩
    · intro k x y hx
      cases hx
    · rintro (h | ⟨b, hb, -⟩)
      · cases h
      · cases hb
  | case2 x => exact .inr ⟨rfl, .inl rfl⟩
  | case3 x y s first second hy hx ih =>
    have hx' : x ∈ hexdict := List.mem_of_getElem? (charIndex_some hx)
    have hy' : y ∈ hexdict := List.mem_of_getElem? (charIndex_some hy)
    have hdec : hexDecode (x :: y :: s) = (hexPair x y :: (hexDecode s).1, (hexDecode s).2) := by
      obtain ⟨first', second', h1, h2, hpair⟩ := charIndex_hexPair hx' hy'
      rw [hexDecode, h1, h2, ← hpair]
    rw [hdec]
    rcases ih with ⟨hend, ⟨hlen, hpairs⟩, hgood⟩ | ⟨hend, hbad⟩
    · refine .inl ⟨hend, ⟨?_, ?_⟩, ?_⟩
      · simp only [List.length_cons]
        omega
      · intro k u v hu hv
        cases k with
        | zero =>
          obtain rfl := Option.some.inj hu
          obtain rfl := Option.some.inj hv
          rfl
        | succ k => exact hpairs k u v hu hv
      · rintro (hodd | ⟨b, hb, hno⟩)
        · refine hgood (.inl ?_)
          simp only [List.length_cons] at hodd
          omega
        · rcases List.mem_cons.1 hb with rfl | hb
          · exact hno hx'
          · rcases List.mem_cons.1 hb with rfl | hb
            · exact hno hy'
            · exact hgood (.inr ⟨b, hb, hno⟩)
    · refine .inr ⟨hend, ?_⟩
      rcases hbad with hodd | ⟨b, hb, hno⟩
      · left
        simp only [List.length_cons]
        omega
      · exact .inr ⟨b, List.mem_cons_of_mem _ (List.mem_cons_of_mem _ hb), hno⟩
  | case4 x y s hne =>
    have hdec : hexDecode (x :: y :: s) = ([], false) := by
      rw [hexDecode]
      split
      · rename_i hx hy
        exact absurd hy (hne _ _ hx)
      · rfl
    rw [hdec]
    refine .inr ⟨rfl, .inr ?_⟩
    by_cases hx : x ∈ hexdict
    · refine ⟨y, List.mem_cons_of_mem _ List.mem_cons_self, fun hy => ?_⟩
      obtain ⟨first, second, h1, h2, -⟩ := charIndex_hexPair hx hy
      exact hne first second h1 h2
    · exact ⟨x, List.mem_cons_self, hx⟩

/-! ### Counters that wrap -/

/-- A length that an `int` holds is returned as it is, and so is -1. -/
theorem int32_result {r : Bytes × Bool} (h : r.2 = true → r.1.length < 2147483648) :
    int32 (if r.2 then (r.1.length : Int) else -1) = if r.2 then (r.1.length : Int) else -1 := by
  refine int32_of_isInt32 ?_
  split
  · rename_i hr
    have := h hr
    exact ⟨by omega, by omega⟩
  · decide

/-- The percent decoder as it is compiled. -/
theorem unsigned_urlDecode {s : Bytes} (hs : NoNul s) (hlen : s.length < 4294967296) (post : Bytes) :
    Unsigned.destructiveURLDecode (s ++ 0 :: post) =
      some ((urlDecode s).1 ++ (if (urlDecode s).2 then 0 else 37) :: (s ++ 0 :: post).drop ((urlDecode s).1.length + 1),
        int32 (if (urlDecode s).2 then ((urlDecode s).1.length : Int) else -1)) := by
  rw [Unsigned.destructiveURLDecode_eq hlen, destructiveURLDecode_eq hs]
  rfl

/-- It returns the length of its decoding if this is below 2^31, and a negative number otherwise. -/
theorem not_inPlace_of_le {s d : Bytes} (hs : NoNul s) (hlen : s.length < 4294967296) (hd : PercentDecodes s d)
    (hle : 2147483648 ≤ d.length) : ¬InPlace Unsigned.destructiveURLDecode MeetsBadEscape PercentDecodes s := by
  intro h
  have hdec := percentDecodes_iff.1 hd
  have hgood : ¬MeetsBadEscape s := by
    rw [← urlDecode_fails_iff, hdec]
    exact Bool.true_eq_false_eq_False
  obtain ⟨d', left, hd', hret⟩ := h.decodes_of hgood
  have hsame : d' = d := by
    have := (percentDecodes_iff.1 hd').symm.trans hdec
    exact (Prod.mk.inj this).1
  rw [unsigned_urlDecode hs hlen, hdec, hsame] at hret
  have hint : int32 (d.length : Int) = d.length := (Prod.mk.inj (Option.some.inj hret)).2
  have hlt := (isInt32_int32 (d.length : Int)).2
  omega

/-! ### In place -/

/-- A decoder that leaves the bytes it has decoded, then the terminator, or something else where it has stopped, then what was there before,
decodes in place what `reference` decodes. -/
theorem inPlace_of_eq {decode : Bytes → Option (Bytes × Int)} {bad : Bytes → Prop} {decodes : Bytes → Bytes → Prop} {s : Bytes}
    {r : Bytes × Bool} (stop : Bytes) (hlen : r.1.length + stop.length ≤ s.length + 1) (hstop : r.2 = true → stop = [0])
    (hbad : r.2 = false ↔ bad s) (hdecodes : r.2 = true → decodes s r.1)
    (heq : ∀ post, decode (s ++ 0 :: post) =
      some (r.1 ++ stop ++ (s ++ 0 :: post).drop (r.1.length + stop.length), if r.2 then (r.1.length : Int) else -1)) :
    InPlace decode bad decodes s := by
  constructor
  · constructor
    · rintro ⟨left, h⟩
      rw [heq, Option.some.injEq, Prod.mk.injEq] at h
      refine hbad.1 ?_
      cases hr : r.2 with
      | false => rfl
      | true =>
        rw [hr, if_pos rfl] at h
        omega
    · intro h
      refine ⟨r.1 ++ stop ++ (s ++ [0]).drop (r.1.length + stop.length), ?_⟩
      rw [heq, hbad.2 h]
      rfl
  · intro h
    have hr : r.2 = true := by
      cases hr : r.2 with
      | false => exact absurd (hbad.1 hr) h
      | true => rfl
    refine ⟨r.1, (s ++ [0]).drop (r.1.length + 1), hdecodes hr, ?_⟩
    rw [heq, hr, hstop hr, if_pos rfl, List.append_assoc]
    rfl
  · intro post
    refine ⟨_, _, heq [], ?_⟩
    rw [heq, Option.some.injEq, Prod.mk.injEq]
    refine ⟨?_, rfl⟩
    have hsplit : s ++ 0 :: post = (s ++ [0]) ++ post := by simp
    rw [hsplit, List.drop_append_of_le_length (by simpa using hlen), List.append_assoc, List.append_assoc, List.append_assoc]

/-- Letters stand for themselves. From 2^31 of them on their number is not what is returned. -/
theorem not_inPlace_letters (n : Nat) {z : Int} (hlen : n < 4294967296) (hle : 2147483648 ≤ n) (hz : int32 n = z) :
    (∃ left, Unsigned.destructiveURLDecode (List.replicate n 97 ++ [0]) = some (left, z)) ∧
    ¬InPlace Unsigned.destructiveURLDecode MeetsBadEscape PercentDecodes (List.replicate n 97) := by
  have hscan : ∀ m, Scanned (List.replicate m 97) (List.replicate m 97) := by
    intro m
    induction m with
    | zero => exact Scanned.nil
    | succ m ih => exact Scanned.literal (by decide) ih
  have hdecodes : PercentDecodes (List.replicate n 97) (List.replicate n 97) :=
    ⟨_, _, [], hscan n, (List.append_nil _).symm, (List.append_nil _).symm, .inl rfl⟩
  have hs : NoNul (List.replicate n 97) := fun h => absurd (List.eq_of_mem_replicate h) (by decide)
  have hlength : (List.replicate n (97 : UInt8)).length = n := List.length_replicate
  constructor
  · have hret := unsigned_urlDecode hs (hlength.symm ▸ hlen) []
    rw [percentDecodes_iff.1 hdecodes, if_pos rfl, if_pos rfl, hlength, hz] at hret
    exact ⟨_, hret⟩
  · exact not_inPlace_of_le hs (hlength.symm ▸ hlen) hdecodes (hlength.symm ▸ hle)

end InPlaceAux

open InPlaceAux

/-- For every string of fewer than 2^32 bytes and whatever lies behind its terminator: `destructiveURLDecode` returns -1 exactly when the
scan meets a bad escape, `destructiveHexDecode` exactly when the text has odd length or a byte that is no digit; otherwise they leave the
decoding and a terminator, and return its length. Neither looks behind the terminator. Only a percent-decoding of 2^31 bytes or more is
too long for what is returned. -/
theorem decoders_in_place (s : Bytes) (hs : NoNul s) (hlen : s.length < 4294967296) :
    (InPlace Unsigned.destructiveURLDecode MeetsBadEscape PercentDecodes s ↔ ∀ d, PercentDecodes s d → d.length < 2147483648) ∧
    InPlace Unsigned.destructiveHexDecode BadHex HexDecodes s := by
  have hurl := length_urlDecode_le s
  have hhex := (length_hexDecode s).1
  constructor
  · constructor
    · intro h d hd
      by_contra hle
      exact not_inPlace_of_le hs hlen hd (Nat.le_of_not_lt hle) h
    · intro hshort
      have hdecodes : (urlDecode s).2 = true → PercentDecodes s (urlDecode s).1 := fun hend =>
        percentDecodes_iff.2 (Prod.ext rfl hend)
      refine inPlace_of_eq (if (urlDecode s).2 then [0] else [37]) ?_ (fun h => if_pos h) (urlDecode_fails_iff s) hdecodes ?_
      · split
        · exact Nat.succ_le_succ hurl.1
        · exact Nat.succ_le_succ hurl.1
      · intro post
        rw [unsigned_urlDecode hs hlen, int32_result fun hend => hshort _ (hdecodes hend)]
        cases (urlDecode s).2 <;> simp
  · have hdecodes : (hexDecode s).2 = true → HexDecodes s (hexDecode s).1 := by
      intro h
      rcases hexDecode_cases s with ⟨-, hdec, -⟩ | ⟨hend, -⟩
      · exact hdec
      · rw [h] at hend
        cases hend
    have hshort : (hexDecode s).2 = true → (hexDecode s).1.length < 2147483648 := by
      intro h
      have := (hdecodes h).1
      omega
    refine inPlace_of_eq (if (hexDecode s).2 then [0] else []) ?_ (fun h => if_pos h) ?_ hdecodes ?_
    · split
      · simp only [List.length_cons, List.length_nil]
        omega
      · simp only [List.length_nil]
        omega
    · rcases hexDecode_cases s with ⟨hend, -, hgood⟩ | ⟨hend, hbad⟩
      · simp [hend, hgood]
      · simp [hend, hbad]
    · intro post
      rw [Unsigned.destructiveHexDecode_eq hlen, destructiveHexDecode_eq hs, Option.map_some, Unsigned.narrowed, int32_result hshort]
      cases (hexDecode s).2 <;> simp

/-- `%00%41%4`: a zero byte does not end the decoding, and the last `%` is kept; `00414` is no hex text. -/
theorem decoders_in_place_zero :
    Unsigned.destructiveURLDecode (ascii "%00%41%4" ++ [0]) = some ([0, 65, 37, 52, 0, 49, 37, 52, 0], 4) ∧
    (∃ left, Unsigned.destructiveHexDecode (ascii "00414" ++ [0]) = some (left, -1)) ∧
    InPlace Unsigned.destructiveURLDecode MeetsBadEscape PercentDecodes (ascii "%00%41%4") := by
  refine ⟨by decide, ((decoders_in_place (ascii "00414") (by decide) (by decide)).2.fails_iff).2 (.inl rfl),
    (decoders_in_place (ascii "%00%41%4") (by decide) (by decide)).1.2 fun d hd => ?_⟩
  have hdec := percentDecodes_iff.1 hd
  have hle := (length_urlDecode_le (ascii "%00%41%4")).1
  rw [hdec] at hle
  exact Nat.lt_of_le_of_lt hle (by decide)

/-- Of 2^31 letters the decoder returns a negative length. -/
theorem not_inPlace_long :
    (∃ left, Unsigned.destructiveURLDecode (List.replicate 2147483648 97 ++ [0]) = some (left, -2147483648)) ∧
    ¬InPlace Unsigned.destructiveURLDecode MeetsBadEscape PercentDecodes (List.replicate 2147483648 97) :=
  not_inPlace_letters 2147483648 (by decide) (by decide) (by decide)

end Traccoon
