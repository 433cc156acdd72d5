import Traccoon.Header

/-!
# `encoding.c`: percent and hex encodings, in place

The decoders of the source overwrite the buffer they read, with a write index that never passes the read index. The model runs them
on the whole buffer, so that what is left behind in the buffer can be seen; `none` says that it read outside the buffer.
`urlDecode` is the same decoding on plain text, and `destructiveURLDecode_eq` says that the two agree; so are `hexDecode` and
`destructiveHexDecode_eq` for the hex decoder.

The program decodes in buffers of 61 bytes only, and the counters are numbers. The decoders under `Unsigned` have the counters of the
source; for a string of fewer than 2^32 bytes they differ in the narrowing of the result (`Unsigned.destructiveURLDecode_eq`).
-/

namespace Traccoon

open CString

/-- `hexdict`. -/
def hexdict : Bytes := ascii "0123456789abcdef"

/-- `charIndex(hay, needle)` on a string; `none` is -1. -/
def charIndex : Bytes → UInt8 → Option Nat
  | [], _ => none
  | b :: hay, needle => if b = needle then some 0 else (charIndex hay needle).map (· + 1)

/-- The two bytes behind the read index, if neither is the terminator. The second is read only if the first is not. -/
def bytesAfter (encoded : Bytes) (i : Nat) : Option (Option (UInt8 × UInt8)) := do
  let x ← encoded[i + 1]?
  if x = 0 then pure none
  else
    let y ← encoded[i + 2]?
    if y = 0 then pure none else pure (some (x, y))

/-- The loop of `destructiveURLDecode` at read index `i` and write index `c`; the first argument counts rounds. -/
def urlDecodeLoop : Nat → Bytes → Nat → Nat → Option (Bytes × Int)
  | 0, _, _, _ => none
  | n + 1, encoded, i, c => do
    let b ← encoded[i]?
    if b = 0 then pure (encoded.set c 0, (c : Int))
    else
      let encoded := encoded.set c b
      match ← if b = 37 then bytesAfter encoded i else pure none with
      | none => urlDecodeLoop n encoded (i + 1) (c + 1)
      | some (x, y) =>
        match charIndex hexdict x, charIndex hexdict y with
        | some first, some second => urlDecodeLoop n (encoded.set c (UInt8.ofNat (first * 16 + second))) (i + 3) (c + 1)
        | _, _ => pure (encoded, -1)

/-- `destructiveURLDecode(encoded)`: the buffer it leaves and the value it returns. -/
def destructiveURLDecode (encoded : Bytes) : Option (Bytes × Int) := urlDecodeLoop (encoded.length + 1) encoded 0 0

/-- The loop of `destructiveHexDecode` at read index `i` and write index `c`; the first argument counts rounds. -/
def hexDecodeLoop : Nat → Bytes → Nat → Nat → Option (Bytes × Int)
  | 0, _, _, _ => none
  | n + 1, encoded, i, c => do
    let x ← encoded[i]?
    if x = 0 then pure (encoded.set c 0, (c : Int))
    else
      let y ← encoded[i + 1]?
      if y = 0 then pure (encoded, -1)
      else match charIndex hexdict x, charIndex hexdict y with
        | some first, some second => hexDecodeLoop n (encoded.set c (UInt8.ofNat (first * 16 + second))) (i + 2) (c + 1)
        | _, _ => pure (encoded, -1)

/-- `destructiveHexDecode(encoded)`: the buffer it leaves and the value it returns. -/
def destructiveHexDecode (encoded : Bytes) : Option (Bytes × Int) := hexDecodeLoop (encoded.length + 1) encoded 0 0

/-! The counters of the two decoders are `unsigned`, and what they return is an `int`. Here they wrap. -/

namespace Unsigned

/-- The two bytes behind the read index, as above. -/
def bytesAfter (encoded : Bytes) (i : UInt32) : Option (Option (UInt8 × UInt8)) := do
  let x ← encoded[(i + 1).toNat]?
  if x = 0 then pure none
  else
    let y ← encoded[(i + 2).toNat]?
    if y = 0 then pure none else pure (some (x, y))

/-- The loop of `destructiveURLDecode`; the first argument counts rounds. -/
def urlDecodeLoop : Nat → Bytes → UInt32 → UInt32 → Option (Bytes × Int)
  | 0, _, _, _ => none
  | n + 1, encoded, i, c => do
    let b ← encoded[i.toNat]?
    if b = 0 then pure (encoded.set c.toNat 0, int32 c.toNat)
    else
      let encoded := encoded.set c.toNat b
      match ← if b = 37 then bytesAfter encoded i else pure none with
      | none => urlDecodeLoop n encoded (i + 1) (c + 1)
      | some (x, y) =>
        match charIndex hexdict x, charIndex hexdict y with
        | some first, some second => urlDecodeLoop n (encoded.set c.toNat (UInt8.ofNat (first * 16 + second))) (i + 3) (c + 1)
        | _, _ => pure (encoded, -1)

/-- `destructiveURLDecode(encoded)`. -/
def destructiveURLDecode (encoded : Bytes) : Option (Bytes × Int) := urlDecodeLoop (encoded.length + 1) encoded 0 0

/-- The loop of `destructiveHexDecode`; the first argument counts rounds. -/
def hexDecodeLoop : Nat → Bytes → UInt32 → UInt32 → Option (Bytes × Int)
  | 0, _, _, _ => none
  | n + 1, encoded, i, c => do
    let x ← encoded[i.toNat]?
    if x = 0 then pure (encoded.set c.toNat 0, int32 c.toNat)
    else
      let y ← encoded[(i + 1).toNat]?
      if y = 0 then pure (encoded, -1)
      else match charIndex hexdict x, charIndex hexdict y with
        | some first, some second => hexDecodeLoop n (encoded.set c.toNat (UInt8.ofNat (first * 16 + second))) (i + 2) (c + 1)
        | _, _ => pure (encoded, -1)

/-- `destructiveHexDecode(encoded)`. -/
def destructiveHexDecode (encoded : Bytes) : Option (Bytes × Int) := hexDecodeLoop (encoded.length + 1) encoded 0 0

end Unsigned

/-- The two hex digits of a byte. -/
def hexByte (b : UInt8) : Bytes := [hexdict.getD (b.toNat / 16) 0, hexdict.getD (b.toNat % 16) 0]

/-- The hex digits of a run of bytes. -/
def hexEncode (bs : Bytes) : Bytes := bs.flatMap hexByte

/-- `hashEncodeHex(hash, buffer_length)`: the buffer it leaves and the value it returns. A buffer shorter than what is copied
into it shows as one that has grown. -/
def hashEncodeHex (hash : Bytes) (bufferLength : Nat) : Bytes × Int :=
  if bufferLength < maxHexencHashLen + 1 then (hash, -1)
  else (hexEncode (hash.take maxHashLen) ++ 0 :: hash.drop (maxHexencHashLen + 1), 0)

/-- `nonreserved`. -/
def nonreserved : Bytes := ascii "ABCDEFGHIJKLMNOPQRSTUVWXYZabcdefghijklmnopqrstuvwxyz0123456789-_.~"

/-- The characters a byte is written with in a URL. -/
def urlByte (b : UInt8) : Bytes := if charIndex nonreserved b = none then 37 :: hexByte b else [b]

/-- The percent-encoding of a run of bytes. -/
def urlEncode (bs : Bytes) : Bytes := bs.flatMap urlByte

/-- `hashEncodeURL(data, maxlen)`: the buffer it leaves. The value it returns is always 0. -/
def hashEncodeURL (data : Bytes) (maxlen : Nat) : Bytes := strncpy data (urlEncode (data.take maxHashLen)) maxlen

/-! ## Hex digits -/

/-- `charIndex` gives a position of the byte. -/
theorem charIndex_some {hay : Bytes} {b : UInt8} {i : Nat} (h : charIndex hay b = some i) : hay[i]? = some b := by
  induction hay generalizing i with
  | nil => simp [charIndex] at h
  | cons c hay ih =>
    simp only [charIndex] at h
    split at h
    · rename_i hc
      obtain rfl := Option.some.inj h
      simp [hc]
    · obtain ⟨j, hj, rfl⟩ := Option.map_eq_some_iff.1 h
      simpa using ih hj

/-- `charIndex` gives the first position of the byte. -/
theorem charIndex_append {a : Bytes} {c : UInt8} (h : c ∉ a) (b : Bytes) : charIndex (a ++ c :: b) c = some a.length := by
  induction a with
  | nil => simp [charIndex]
  | cons x a ih =>
    simp only [List.mem_cons, not_or] at h
    simp only [List.cons_append, charIndex, if_neg (Ne.symm h.1), ih h.2, Option.map_some, List.length_cons]

theorem charIndex_eq_none {hay : Bytes} {b : UInt8} (h : b ∉ hay) : charIndex hay b = none := by
  induction hay with
  | nil => rfl
  | cons c hay ih =>
    simp only [List.mem_cons, not_or] at h
    rw [charIndex, if_neg (Ne.symm h.1), ih h.2, Option.map_none]

theorem length_hexEncode (bs : Bytes) : (hexEncode bs).length = 2 * bs.length := by
  induction bs with
  | nil => rfl
  | cons b bs ih =>
    simp only [hexEncode, List.flatMap_cons, List.length_append, List.length_cons] at ih ⊢
    rw [ih]
    simp only [hexByte, List.length_cons, List.length_nil]
    omega

theorem hexByte_injective : ∀ b c : UInt8, hexByte b = hexByte c → b = c := by
  intro b c h
  have hdigit : ∀ i < 16, ∀ j < 16, hexdict.getD i 0 = hexdict.getD j 0 → i = j := by decide
  have hb := b.toNat_lt
  have hc := c.toNat_lt
  simp only [hexByte, List.cons.injEq, and_true] at h
  have h1 := hdigit _ (by omega) _ (by omega) h.1
  have h2 := hdigit _ (by omega) _ (by omega) h.2
  apply UInt8.toNat_inj.1
  omega

/-- Different bytes have different hex texts. -/
theorem hexEncode_injective {as bs : Bytes} (h : hexEncode as = hexEncode bs) : as = bs := by
  induction as generalizing bs with
  | nil =>
    have := congrArg List.length h
    simp only [length_hexEncode, List.length_nil] at this
    exact (List.length_eq_zero_iff.1 (by omega)).symm
  | cons a as ih =>
    cases bs with
    | nil => simp [hexEncode, hexByte] at h
    | cons b bs =>
      simp only [hexEncode, List.flatMap_cons] at h
      obtain ⟨h1, h2⟩ := List.append_inj h (by simp [hexByte])
      rw [hexByte_injective a b h1, ih h2]

/-- Hex text consists of the sixteen digits. -/
theorem mem_hexEncode {bs : Bytes} {d : UInt8} (h : d ∈ hexEncode bs) : d ∈ hexdict := by
  obtain ⟨b, -, hd⟩ := List.mem_flatMap.1 h
  have hdigit : ∀ i < 16, hexdict.getD i 0 ∈ hexdict := by decide
  have hb := b.toNat_lt
  simp only [hexByte, List.mem_cons, List.not_mem_nil, or_false] at hd
  rcases hd with rfl | rfl
  · exact hdigit _ (by omega)
  · exact hdigit _ (by omega)

theorem noNul_hexEncode (bs : Bytes) : NoNul (hexEncode bs) := by
  intro h
  have := mem_hexEncode h
  simp [hexdict, ascii] at this

/-- What `hashEncodeHex` leaves in a buffer with room: the hex text of the first twenty bytes, as a string. -/
theorem cstr_hashEncodeHex (hash : Bytes) {bufferLength : Nat} (h : maxHexencHashLen < bufferLength) :
    cstr (hashEncodeHex hash bufferLength).1 = hexEncode (hash.take maxHashLen) := by
  rw [hashEncodeHex, if_neg (by omega)]
  exact cstr_append_nul (noNul_hexEncode _) _

/-! ## Percent decoding -/

/-- Percent decoding of a text: the bytes decoded, and whether the text was decoded to its end. Decoding stops at a `%` in front
of two bytes that are not both among `hexdict`; a `%` with fewer than two bytes behind it stands for itself. -/
def urlDecode : Bytes → Bytes × Bool
  | [] => ([], true)
  | 37 :: x :: y :: s =>
    match charIndex hexdict x, charIndex hexdict y with
    | some first, some second =>
      let r := urlDecode s
      (UInt8.ofNat (first * 16 + second) :: r.1, r.2)
    | _, _ => ([], false)
  | b :: s =>
    let r := urlDecode s
    (b :: r.1, r.2)

namespace EncodingAux

theorem take_succ_set {l : Bytes} {c : Nat} (h : c < l.length) (b : UInt8) : (l.set c b).take (c + 1) = l.take c ++ [b] := by
  rw [List.take_succ_eq_append_getElem (by simpa using h), List.take_set_of_le (Nat.le_refl c)]
  simp

theorem drop_set_of_lt {l : Bytes} {c i : Nat} (h : c < i) (b : UInt8) : (l.set c b).drop i = l.drop i := by
  rw [List.drop_set, if_pos h]

/-- A byte written back where it was read, or before, leaves the text from the read index on alone. -/
theorem drop_set_read {l : Bytes} {c i : Nat} {b : UInt8} {s : Bytes} (hc : c ≤ i) (h : l.drop i = b :: s) :
    (l.set c b).drop i = b :: s := by
  rcases Nat.lt_or_eq_of_le hc with hlt | rfl
  · rw [drop_set_of_lt hlt, h]
  · rw [List.drop_set, if_neg (Nat.lt_irrefl _), h]
    simp

theorem getElem?_of_drop {l s : Bytes} {b : UInt8} {i : Nat} (h : l.drop i = b :: s) : l[i]? = some b := by
  have := congrArg List.head? h
  simpa [List.head?_drop] using this

theorem drop_succ_of_drop {l s : Bytes} {b : UInt8} {i : Nat} (h : l.drop i = b :: s) : l.drop (i + 1) = s := by
  rw [← List.drop_drop, h]
  rfl

theorem lt_length_of_drop {l s : Bytes} {b : UInt8} {i : Nat} (h : l.drop i = b :: s) : i < l.length := by
  by_contra hn
  rw [List.drop_eq_nil_of_le (by omega)] at h
  cases h

/-- What the decoder leaves and returns when it has written `c` bytes and the text ahead decodes to `r`. -/
def decoded (encoded : Bytes) (c : Nat) (r : Bytes × Bool) : Bytes × Int :=
  (encoded.take c ++ r.1 ++ (if r.2 then 0 else 37) :: encoded.drop (c + r.1.length + 1), if r.2 then (c + r.1.length : Nat) else -1)

/-- A byte written at `c` is one more byte decoded. -/
theorem decoded_set {encoded : Bytes} {c : Nat} (h : c < encoded.length) (b : UInt8) (r : Bytes × Bool) :
    decoded (encoded.set c b) (c + 1) r = decoded encoded c (b :: r.1, r.2) := by
  simp only [decoded, take_succ_set h, List.length_cons, drop_set_of_lt (show c < c + 1 + r.1.length + 1 by omega),
    List.append_assoc, List.cons_append, List.nil_append]
  have hidx : c + 1 + r.1.length = c + (r.1.length + 1) := by omega
  rw [hidx]

/-- Bytes of a text are read as they are. -/
theorem bytesAfter_eq {encoded s : Bytes} {b x y : UInt8} {i : Nat} (h : encoded.drop i = b :: x :: y :: s) (hx : x ≠ 0) :
    bytesAfter encoded i = some (if y = 0 then none else some (x, y)) := by
  have h1 := drop_succ_of_drop h
  have h2 := drop_succ_of_drop h1
  simp only [bytesAfter, getElem?_of_drop h1, getElem?_of_drop h2, Option.bind_eq_bind, Option.bind_some, hx, if_false]
  split <;> rfl

theorem bytesAfter_end {encoded s : Bytes} {b : UInt8} {i : Nat} (h : encoded.drop i = b :: 0 :: s) :
    bytesAfter encoded i = some none := by
  have h1 := drop_succ_of_drop h
  simp [bytesAfter, getElem?_of_drop h1]

/-- One round over a byte that is copied. -/
theorem urlDecodeLoop_copy {encoded s : Bytes} {b : UInt8} {n i c : Nat} (h : encoded.drop i = b :: s) (hb : b ≠ 0)
    (he : b = 37 → bytesAfter (encoded.set c b) i = some none) :
    urlDecodeLoop (n + 1) encoded i c = urlDecodeLoop n (encoded.set c b) (i + 1) (c + 1) := by
  simp only [urlDecodeLoop, getElem?_of_drop h, Option.bind_eq_bind, Option.bind_some, hb, if_false]
  by_cases h37 : b = 37
  · simp [h37 ▸ he h37, h37]
  · simp [h37]

/-- One round over a `%` in front of two bytes. -/
theorem urlDecodeLoop_escape {encoded s : Bytes} {x y : UInt8} {n i c : Nat} (hc : c ≤ i)
    (h : encoded.drop i = 37 :: x :: y :: s) (hx : x ≠ 0) (hy : y ≠ 0) :
    urlDecodeLoop (n + 1) encoded i c =
      match charIndex hexdict x, charIndex hexdict y with
      | some first, some second => urlDecodeLoop n (encoded.set c (UInt8.ofNat (first * 16 + second))) (i + 3) (c + 1)
      | _, _ => some (encoded.set c 37, -1) := by
  have ha := bytesAfter_eq (drop_set_read hc h) hx
  rw [if_neg hy] at ha
  simp only [urlDecodeLoop, getElem?_of_drop h, Option.bind_eq_bind, Option.bind_some, if_neg (show ¬(37 : UInt8) = 0 by decide),
    if_true, ha, List.set_set]
  rfl

/-- The loop decodes the text ahead of its read index. -/
theorem urlDecodeLoop_eq (u post : Bytes) (hu : NoNul u) : ∀ (n : Nat) (encoded : Bytes) (i c : Nat), c ≤ i →
    encoded.drop i = u ++ 0 :: post → u.length < n → urlDecodeLoop n encoded i c = some (decoded encoded c (urlDecode u)) := by
  induction u using urlDecode.induct with
  | case1 =>
    intro n encoded i c hc h hn
    obtain ⟨n, rfl⟩ := Nat.exists_eq_succ_of_ne_zero (by omega : n ≠ 0)
    have hlt := lt_length_of_drop (List.nil_append _ ▸ h)
    simp only [urlDecodeLoop, getElem?_of_drop (List.nil_append _ ▸ h), Option.bind_eq_bind, Option.bind_some, if_true, urlDecode,
      decoded, List.append_nil, List.length_nil, Nat.add_zero, List.set_eq_take_append_cons_drop,
      if_pos (show c < encoded.length by omega)]
    rfl
  | case2 x y s first second hx hy ih =>
    intro n encoded i c hc h hn
    obtain ⟨n, rfl⟩ := Nat.exists_eq_succ_of_ne_zero (by omega : n ≠ 0)
    have hlt := lt_length_of_drop h
    have hd : (encoded.set c (UInt8.ofNat (first * 16 + second))).drop (i + 3) = s ++ 0 :: post := by
      rw [drop_set_of_lt (by omega), ← List.drop_drop, h]
      rfl
    simp only [NoNul, List.mem_cons, not_or] at hu
    rw [urlDecodeLoop_escape hc h (Ne.symm hu.2.1) (Ne.symm hu.2.2.1)]
    simp only [hx, hy, urlDecode]
    rw [ih hu.2.2.2 n _ (i + 3) (c + 1) (by omega) hd (by simp only [List.length_cons] at hn; omega), decoded_set (by omega)]
  | case3 x y s hn =>
    intro n encoded i c hc h hlen
    obtain ⟨n, rfl⟩ := Nat.exists_eq_succ_of_ne_zero (by omega : n ≠ 0)
    have hlt := lt_length_of_drop h
    simp only [NoNul, List.mem_cons, not_or] at hu
    rw [urlDecodeLoop_escape hc h (Ne.symm hu.2.1) (Ne.symm hu.2.2.1)]
    have hdec : urlDecode (37 :: x :: y :: s) = ([], false) := by
      rw [urlDecode]
      split
      · rename_i hx hy
        exact absurd hy (hn _ _ hx)
      · rfl
    rw [hdec]
    split
    · rename_i hx hy
      exact absurd hy (hn _ _ hx)
    · simp only [decoded, List.append_nil, List.length_nil, Nat.add_zero, List.set_eq_take_append_cons_drop,
        if_pos (show c < encoded.length by omega)]
      rfl
  | case4 b s hne ih =>
    intro n encoded i c hc h hn
    obtain ⟨n, rfl⟩ := Nat.exists_eq_succ_of_ne_zero (by omega : n ≠ 0)
    have hlt := lt_length_of_drop h
    simp only [NoNul, List.mem_cons, not_or] at hu
    have hread := drop_set_read hc h
    have hcopy : b = 37 → bytesAfter (encoded.set c b) i = some none := by
      rintro rfl
      rcases s with _ | ⟨x, _ | ⟨y, s⟩⟩
      · exact bytesAfter_end hread
      · simp only [List.mem_cons, List.not_mem_nil, or_false] at hu
        rw [bytesAfter_eq hread (Ne.symm hu.2)]
        rfl
      · exact absurd rfl (hne x y s rfl)
    have hdec : urlDecode (b :: s) = (b :: (urlDecode s).1, (urlDecode s).2) := by
      rw [urlDecode]
      exact hne
    rw [urlDecodeLoop_copy h (Ne.symm hu.1) hcopy,
      ih hu.2 n _ (i + 1) (c + 1) (by omega) (drop_succ_of_drop hread) (by simp only [List.length_cons] at hn; omega),
      decoded_set (by omega), hdec]

end EncodingAux

/-- The decoder in place, on a string and whatever lies behind its terminator: the decoded bytes, then the terminator or the `%` it
stopped at, then what was there before. -/
theorem destructiveURLDecode_eq {u : Bytes} (hu : NoNul u) (post : Bytes) :
    destructiveURLDecode (u ++ 0 :: post) =
      some ((urlDecode u).1 ++ (if (urlDecode u).2 then 0 else 37) :: (u ++ 0 :: post).drop ((urlDecode u).1.length + 1),
        if (urlDecode u).2 then ((urlDecode u).1.length : Int) else -1) := by
  rw [destructiveURLDecode, EncodingAux.urlDecodeLoop_eq u post hu _ (u ++ 0 :: post) 0 0 (Nat.le_refl 0) rfl
    (by rw [List.length_append, List.length_cons]; omega)]
  simp [EncodingAux.decoded]

/-! ## Hex decoding -/

/-- Hex decoding of a text: the bytes decoded, and whether the text was decoded to its end. Decoding stops at two bytes that are not
both among `hexdict`, and at a byte without a second one. -/
def hexDecode : Bytes → Bytes × Bool
  | [] => ([], true)
  | [_] => ([], false)
  | x :: y :: s =>
    match charIndex hexdict x, charIndex hexdict y with
    | some first, some second =>
      let r := hexDecode s
      (UInt8.ofNat (first * 16 + second) :: r.1, r.2)
    | _, _ => ([], false)

namespace EncodingAux

/-- What the hex decoder leaves and returns when it has written `c` bytes and the text ahead decodes to `r`: the terminator is only
written at the end of the text. -/
def hexDecoded (encoded : Bytes) (c : Nat) (r : Bytes × Bool) : Bytes × Int :=
  (encoded.take c ++ r.1 ++ (if r.2 then 0 :: encoded.drop (c + r.1.length + 1) else encoded.drop (c + r.1.length)),
    if r.2 then (c + r.1.length : Nat) else -1)

/-- A byte written at `c` is one more byte decoded. -/
theorem hexDecoded_set {encoded : Bytes} {c : Nat} (h : c < encoded.length) (b : UInt8) (r : Bytes × Bool) :
    hexDecoded (encoded.set c b) (c + 1) r = hexDecoded encoded c (b :: r.1, r.2) := by
  have hidx : c + 1 + r.1.length = c + (r.1.length + 1) := by omega
  simp only [hexDecoded, take_succ_set h, List.length_cons, drop_set_of_lt (show c < c + 1 + r.1.length + 1 by omega),
    drop_set_of_lt (show c < c + 1 + r.1.length by omega), List.append_assoc, List.cons_append, List.nil_append]
  rw [hidx]

/-- The loop decodes the text ahead of its read index. -/
theorem hexDecodeLoop_eq (u post : Bytes) (hu : NoNul u) : ∀ (n : Nat) (encoded : Bytes) (i c : Nat), c ≤ i →
    encoded.drop i = u ++ 0 :: post → u.length < n → hexDecodeLoop n encoded i c = some (hexDecoded encoded c (hexDecode u)) := by
  induction u using hexDecode.induct with
  | case1 =>
    intro n encoded i c hc h hn
    obtain ⟨n, rfl⟩ := Nat.exists_eq_succ_of_ne_zero (by omega : n ≠ 0)
    have hlt := lt_length_of_drop (List.nil_append _ ▸ h)
    simp only [hexDecodeLoop, getElem?_of_drop (List.nil_append _ ▸ h), Option.bind_eq_bind, Option.bind_some, if_true, hexDecode,
      hexDecoded, List.append_nil, List.length_nil, Nat.add_zero, List.set_eq_take_append_cons_drop,
      if_pos (show c < encoded.length by omega)]
    rfl
  | case2 x =>
    intro n encoded i c hc h hn
    obtain ⟨n, rfl⟩ := Nat.exists_eq_succ_of_ne_zero (by omega : n ≠ 0)
    have hx : x ≠ 0 := by
      rintro rfl
      simp [NoNul] at hu
    simp only [hexDecodeLoop, getElem?_of_drop h, getElem?_of_drop (drop_succ_of_drop h), Option.bind_eq_bind, Option.bind_some, hx,
      if_false, if_true, hexDecode, hexDecoded, Bool.false_eq_true, List.append_nil, List.length_nil, Nat.add_zero,
      List.take_append_drop]
    rfl
  | case3 x y s first second hx hy ih =>
    intro n encoded i c hc h hn
    obtain ⟨n, rfl⟩ := Nat.exists_eq_succ_of_ne_zero (by omega : n ≠ 0)
    have hlt := lt_length_of_drop h
    simp only [NoNul, List.mem_cons, not_or] at hu
    have hd : (encoded.set c (UInt8.ofNat (first * 16 + second))).drop (i + 2) = s ++ 0 :: post := by
      rw [drop_set_of_lt (by omega), ← List.drop_drop, h]
      rfl
    simp only [hexDecodeLoop, getElem?_of_drop h, getElem?_of_drop (drop_succ_of_drop h), Option.bind_eq_bind, Option.bind_some,
      if_neg (Ne.symm hu.1), if_neg (Ne.symm hu.2.1), hx, hy, hexDecode]
    rw [ih hu.2.2 n _ (i + 2) (c + 1) (by omega) hd (by simp only [List.length_cons] at hn; omega), hexDecoded_set (by omega)]
  | case4 x y s hn =>
    intro n encoded i c hc h hlen
    obtain ⟨n, rfl⟩ := Nat.exists_eq_succ_of_ne_zero (by omega : n ≠ 0)
    simp only [NoNul, List.mem_cons, not_or] at hu
    have hdec : hexDecode (x :: y :: s) = ([], false) := by
      rw [hexDecode]
      split
      · rename_i hx hy
        exact absurd hy (hn _ _ hx)
      · rfl
    simp only [hexDecodeLoop, getElem?_of_drop h, getElem?_of_drop (drop_succ_of_drop h), Option.bind_eq_bind, Option.bind_some,
      if_neg (Ne.symm hu.1), if_neg (Ne.symm hu.2.1), hdec, hexDecoded, Bool.false_eq_true, if_false, List.append_nil,
      List.length_nil, Nat.add_zero, List.take_append_drop]
    rfl

end EncodingAux

/-- The hex decoder in place, on a string and whatever lies behind its terminator: the decoded bytes, then the terminator and what was
there before, or all that was there before. -/
theorem destructiveHexDecode_eq {u : Bytes} (hu : NoNul u) (post : Bytes) :
    destructiveHexDecode (u ++ 0 :: post) =
      some ((hexDecode u).1 ++ (if (hexDecode u).2 then 0 :: (u ++ 0 :: post).drop ((hexDecode u).1.length + 1)
          else (u ++ 0 :: post).drop (hexDecode u).1.length),
        if (hexDecode u).2 then ((hexDecode u).1.length : Int) else -1) := by
  rw [destructiveHexDecode, EncodingAux.hexDecodeLoop_eq u post hu _ (u ++ 0 :: post) 0 0 (Nat.le_refl 0) rfl
    (by rw [List.length_append, List.length_cons]; omega)]
  simp [EncodingAux.hexDecoded]

/-! ## Counters that wrap -/

namespace Unsigned

/-- The result, as an `int`. -/
def narrowed (r : Bytes × Int) : Bytes × Int := (r.1, int32 r.2)

variable {encoded : Bytes} {i c : UInt32} {k : Nat}

/-- A counter that moves on to a byte at or in front of the terminator does not wrap. -/
theorem toNat_add_of_le (d : UInt32) (hk : k < 4294967296) (h : i.toNat + d.toNat ≤ k) : (i + d).toNat = i.toNat + d.toNat := by
  rw [UInt32.toNat_add, Nat.mod_eq_of_lt (by omega)]

/-- The terminator is behind a byte that is not one. -/
theorem lt_of_getElem?_ne {b : UInt8} {j : Nat} (h0 : encoded[k]? = some 0) (hb : encoded[j]? = some b) (hne : b ≠ 0) (hj : j ≤ k) :
    j < k := by
  refine Nat.lt_of_le_of_ne hj ?_
  rintro rfl
  exact hne (Option.some.inj (hb.symm.trans h0))

/-- A byte written in front of the terminator leaves it where it is. -/
theorem getElem?_set_of_lt (h0 : encoded[k]? = some 0) {j : Nat} (hj : j < k) (b : UInt8) : (encoded.set j b)[k]? = some 0 := by
  rw [List.getElem?_set_ne (Nat.ne_of_lt hj), h0]

theorem bytesAfter_eq (hk : k < 4294967296) (h0 : encoded[k]? = some 0) (hi : i.toNat < k) :
    bytesAfter encoded i = Traccoon.bytesAfter encoded i.toNat := by
  have h1 : (i + 1).toNat = i.toNat + 1 := toNat_add_of_le 1 hk hi
  rw [bytesAfter, Traccoon.bytesAfter, h1]
  cases hx : encoded[i.toNat + 1]? with
  | none => rfl
  | some x =>
    by_cases hx0 : x = 0
    · simp [hx0]
    · have hlt := lt_of_getElem?_ne h0 hx hx0 hi
      have h2 : (i + 2).toNat = i.toNat + 2 := toNat_add_of_le 2 hk hlt
      simp only [Option.bind_eq_bind, Option.bind_some, if_neg hx0, h2]

/-- Neither of the two bytes is the terminator. -/
theorem bytesAfter_lt {x y : UInt8} (h0 : encoded[k]? = some 0) (hi : i.toNat < k)
    (h : Traccoon.bytesAfter encoded i.toNat = some (some (x, y))) : i.toNat + 3 ≤ k := by
  rw [Traccoon.bytesAfter, Option.bind_eq_bind, Option.bind_eq_some_iff] at h
  obtain ⟨x', hx, h⟩ := h
  split at h
  · cases h
  · rename_i hx0
    obtain ⟨y', hy, h⟩ := Option.bind_eq_some_iff.1 h
    split at h
    · cases h
    · rename_i hy0
      exact lt_of_getElem?_ne h0 hy hy0 (lt_of_getElem?_ne h0 hx hx0 hi)

/-- In front of the terminator the counters do not wrap. -/
theorem urlDecodeLoop_eq (hk : k < 4294967296) : ∀ (n : Nat) (encoded : Bytes) (i c : UInt32), encoded[k]? = some 0 → c.toNat ≤ i.toNat →
    i.toNat ≤ k → urlDecodeLoop n encoded i c = (Traccoon.urlDecodeLoop n encoded i.toNat c.toNat).map narrowed := by
  intro n
  induction n with
  | zero => exact fun _ _ _ _ _ _ => rfl
  | succ n ih =>
    intro encoded i c h0 hc hi
    rw [urlDecodeLoop, Traccoon.urlDecodeLoop]
    cases hb : encoded[i.toNat]? with
    | none => rfl
    | some b =>
      by_cases hb0 : b = 0
      · simp [hb0, narrowed]
      · have hik := lt_of_getElem?_ne h0 hb hb0 hi
        have hck : c.toNat < k := Nat.lt_of_le_of_lt hc hik
        have hset : ∀ b', (encoded.set c.toNat b')[k]? = some 0 := getElem?_set_of_lt h0 hck
        have hi1 : (i + 1).toNat = i.toNat + 1 := toNat_add_of_le 1 hk hik
        have hc1 : (c + 1).toNat = c.toNat + 1 := toNat_add_of_le 1 hk hck
        have hcopy := ih (encoded.set c.toNat b) (i + 1) (c + 1) (hset b) (by omega) (by omega)
        rw [hi1, hc1] at hcopy
        simp only [Option.bind_eq_bind, Option.bind_some, if_neg hb0, bytesAfter_eq hk (hset b) hik]
        by_cases h37 : b = 37
        · simp only [if_pos h37]
          cases hafter : Traccoon.bytesAfter (encoded.set c.toNat b) i.toNat with
          | none => rfl
          | some bytes =>
            rcases bytes with _ | ⟨x, y⟩
            · exact hcopy
            · have hi3 := bytesAfter_lt (hset b) hik hafter
              have hi3' : (i + 3).toNat = i.toNat + 3 := toNat_add_of_le 3 hk hi3
              simp only [Option.bind_some]
              cases charIndex hexdict x with
              | none => rfl
              | some first =>
                cases charIndex hexdict y with
                | none => rfl
                | some second =>
                  have hescape := ih ((encoded.set c.toNat b).set c.toNat (UInt8.ofNat (first * 16 + second))) (i + 3) (c + 1)
                    (getElem?_set_of_lt (hset b) hck _) (by omega) (by omega)
                  rw [hi3', hc1] at hescape
                  exact hescape
        · simp only [if_neg h37]
          exact hcopy

/-- The same for hex. -/
theorem hexDecodeLoop_eq (hk : k < 4294967296) : ∀ (n : Nat) (encoded : Bytes) (i c : UInt32), encoded[k]? = some 0 → c.toNat ≤ i.toNat →
    i.toNat ≤ k → hexDecodeLoop n encoded i c = (Traccoon.hexDecodeLoop n encoded i.toNat c.toNat).map narrowed := by
  intro n
  induction n with
  | zero => exact fun _ _ _ _ _ _ => rfl
  | succ n ih =>
    intro encoded i c h0 hc hi
    rw [hexDecodeLoop, Traccoon.hexDecodeLoop]
    cases hx : encoded[i.toNat]? with
    | none => rfl
    | some x =>
      by_cases hx0 : x = 0
      · simp [hx0, narrowed]
      · have hik := lt_of_getElem?_ne h0 hx hx0 hi
        have hi1 : (i + 1).toNat = i.toNat + 1 := toNat_add_of_le 1 hk hik
        simp only [Option.bind_eq_bind, Option.bind_some, if_neg hx0, hi1]
        cases hy : encoded[i.toNat + 1]? with
        | none => rfl
        | some y =>
          by_cases hy0 : y = 0
          · simp only [Option.bind_some, if_pos hy0]
            rfl
          · have hik2 := lt_of_getElem?_ne h0 hy hy0 hik
            have hck : c.toNat < k := Nat.lt_of_le_of_lt hc hik
            have hi2 : (i + 2).toNat = i.toNat + 2 := toNat_add_of_le 2 hk hik2
            have hc1 : (c + 1).toNat = c.toNat + 1 := toNat_add_of_le 1 hk hck
            simp only [Option.bind_some, if_neg hy0]
            cases charIndex hexdict x with
            | none => rfl
            | some first =>
              cases charIndex hexdict y with
              | none => rfl
              | some second =>
                have hpair := ih (encoded.set c.toNat (UInt8.ofNat (first * 16 + second))) (i + 2) (c + 1)
                  (getElem?_set_of_lt h0 hck _) (by omega) (by omega)
                rw [hi2, hc1] at hpair
                exact hpair

/-- A string of fewer than 2^32 bytes is decoded as if the counters were numbers, and the result narrowed. -/
theorem destructiveURLDecode_eq {u : Bytes} (hlen : u.length < 4294967296) (post : Bytes) :
    destructiveURLDecode (u ++ 0 :: post) = (Traccoon.destructiveURLDecode (u ++ 0 :: post)).map narrowed :=
  urlDecodeLoop_eq hlen _ _ 0 0 (by simp) (Nat.le_refl 0) (Nat.zero_le _)

theorem destructiveHexDecode_eq {u : Bytes} (hlen : u.length < 4294967296) (post : Bytes) :
    destructiveHexDecode (u ++ 0 :: post) = (Traccoon.destructiveHexDecode (u ++ 0 :: post)).map narrowed :=
  hexDecodeLoop_eq hlen _ _ 0 0 (by simp) (Nat.le_refl 0) (Nat.zero_le _)

end Unsigned

end Traccoon
