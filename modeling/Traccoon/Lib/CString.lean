import Mathlib.Data.List.Basic
import Mathlib.Data.List.Infix
import Mathlib.Data.List.TakeWhile
import Mathlib.Tactic.Ring

/-!
# C strings, decimal text and machine integers

The part of the C library every module below stands on: a buffer is a list of bytes, the string it holds ends before its
first NUL, `strstr` searches for the first occurrence, `printf` writes decimal text and `strtol` reads it back with the
saturation of a 64-bit `long`. A pointer into a string is the rest of the string from there on.
-/

namespace CString

/-- A run of bytes: the contents of a buffer, or of a part of one. -/
abbrev Bytes := List UInt8

/-- The bytes of a string literal of ASCII characters. -/
def ascii (s : String) : Bytes := s.toList.map (fun c => UInt8.ofNat c.toNat)

/-- The string a buffer holds: its bytes before the first NUL. -/
def cstr (buf : Bytes) : Bytes := buf.takeWhile (· != 0)

/-- A string of C: no NUL inside. -/
def NoNul (s : Bytes) : Prop := (0 : UInt8) ∉ s

instance (s : Bytes) : Decidable (NoNul s) := inferInstanceAs (Decidable (¬_))

/-- `isdigit`: the ten decimal digits. -/
def isDigit (b : UInt8) : Bool := 48 ≤ b && b ≤ 57

/-- `isspace` in the C locale: blank, tab, newline, vertical tab, form feed, carriage return. -/
def isSpace (b : UInt8) : Bool := b == 32 || (9 ≤ b && b ≤ 13)

/-- `isxdigit`: the hexadecimal digits, in either letter case. -/
def isXDigit (b : UInt8) : Bool := isDigit b || (97 ≤ b && b ≤ 102) || (65 ≤ b && b ≤ 70)

/-- A nonempty run of decimal digits, as `strtol` reads a number. -/
def Digits (ds : Bytes) : Prop := ∀ d ∈ ds, isDigit d = true

instance (ds : Bytes) : Decidable (Digits ds) := inferInstanceAs (Decidable (∀ d ∈ ds, _))

/-- The value of a run of decimal digits. -/
def digitsVal (ds : Bytes) : Nat := ds.foldl (fun n d => 10 * n + (d.toNat - 48)) 0

/-- What `printf` writes for `%d` on a number that is not negative. -/
def decimal (n : Nat) : Bytes := (Nat.toDigits 10 n).map (fun c => UInt8.ofNat c.toNat)

/-- What `printf` writes for `%d`. -/
def decimalInt (z : Int) : Bytes := if z < 0 then 45 :: decimal z.natAbs else decimal z.natAbs

/-- Narrowing to `int`: the low 32 bits, read in two's complement. -/
def int32 (z : Int) : Int := (z + 2147483648) % 4294967296 - 2147483648

/-- A number that an `int` holds. -/
def IsInt32 (z : Int) : Prop := -2147483648 ≤ z ∧ z < 2147483648

instance (z : Int) : Decidable (IsInt32 z) := inferInstanceAs (Decidable (_ ∧ _))

/-- An optional sign: whether it is a minus, and the text after it. -/
def sign : Bytes → Bool × Bytes
  | 45 :: s => (true, s)
  | 43 :: s => (false, s)
  | s => (false, s)

/-- `strtol(s, NULL, 10)`: blanks are skipped, a sign is read, and the value saturates at the ends of a 64-bit `long`. -/
def strtol (s : Bytes) : Int :=
  let (neg, t) := sign (s.dropWhile isSpace)
  let v := digitsVal (t.takeWhile isDigit)
  if neg then max (-9223372036854775808) (-(v : Int)) else min 9223372036854775807 v

/-- `strtoul(s, NULL, 10)`: like `strtol`, on a 64-bit `unsigned long`; a minus negates modulo the word. -/
def strtoul (s : Bytes) : Nat :=
  let (neg, t) := sign (s.dropWhile isSpace)
  let v := digitsVal (t.takeWhile isDigit)
  if 18446744073709551616 ≤ v then 18446744073709551615
  else if neg then (18446744073709551616 - v) % 18446744073709551616 else v

/-- `strstr`: the text from the first occurrence of `pat` on. -/
def strstr : Bytes → Bytes → Option Bytes
  | [], pat => if pat.isPrefixOf [] then some [] else none
  | c :: s, pat => if pat.isPrefixOf (c :: s) then some (c :: s) else strstr s pat

/-- `strncpy(dst, src, n)`: at most `n` bytes of `src`, filled with NULs up to `n`; the rest of `dst` stays. A copy past the
end of `dst` shows as a result longer than `dst`. -/
def strncpy (dst src : Bytes) (n : Nat) : Bytes :=
  src.take n ++ List.replicate (n - src.length) 0 ++ dst.drop n

/-- The string `snprintf(buf, size, …)` leaves when it formats to `s`, one byte of `size` being for the terminator. It returns the
length of `s` all the same. -/
def snprintf (size : Nat) (s : Bytes) : Bytes := s.take (size - 1)

/-- `memcpy(buf + pos, src, …)` into an array of `n` bytes; `none` says that it does not stay inside. -/
def memcpy {n : Nat} (buf : Vector UInt8 n) (pos : Nat) (src : Bytes) : Option (Vector UInt8 n) :=
  if h : pos + src.length ≤ n then
    some ⟨(buf.toList.take pos ++ src ++ buf.toList.drop (pos + src.length)).toArray, by
      simp only [List.size_toArray, List.length_append, List.length_take, List.length_drop, Vector.length_toList]
      omega⟩
  else none

/-! ## Copies into arrays -/

/-- A copy that stays inside is read back behind what stood in front of it. -/
theorem memcpy_of_le {n : Nat} {buf : Vector UInt8 n} {pos : Nat} {src : Bytes} (h : pos + src.length ≤ n) :
    ∃ buf', memcpy buf pos src = some buf' ∧ buf'.toList.take (pos + src.length) = buf.toList.take pos ++ src := by
  refine ⟨_, dif_pos h, ?_⟩
  have hlen : (buf.toList.take pos ++ src).length = pos + src.length := by
    simp only [List.length_append, List.length_take, Vector.length_toList]
    omega
  exact List.take_left' hlen

/-! ## Strings in buffers -/

theorem noNul_cstr (buf : Bytes) : NoNul (cstr buf) := by
  intro h
  simpa using List.mem_takeWhile_imp h

/-- A string followed by its terminator is the string the buffer holds, whatever lies behind. -/
theorem cstr_append_nul {s : Bytes} (h : NoNul s) (rest : Bytes) : cstr (s ++ 0 :: rest) = s := by
  have hs : ∀ b ∈ s, (b != 0) = true := by
    intro b hb
    simp only [bne_iff_ne, ne_eq]
    rintro rfl
    exact h hb
  rw [cstr, List.takeWhile_append_of_pos hs]
  simp

/-- Bytes behind a NUL do not matter for the string a buffer holds. -/
theorem cstr_append_nul_any (s rest : Bytes) : cstr (s ++ 0 :: rest) = cstr s := by
  induction s with
  | nil => simp [cstr]
  | cons b s ih =>
    by_cases hb : b = 0
    · simp [cstr, hb]
    · simp only [cstr] at ih
      simp [cstr, hb, ih]

/-- The string in a buffer whose first part has no NUL. -/
theorem cstr_append {a : Bytes} (h : NoNul a) (b : Bytes) : cstr (a ++ b) = a ++ cstr b := by
  rw [cstr, List.takeWhile_append_of_pos]
  · rfl
  · intro x hx
    simp only [bne_iff_ne, ne_eq]
    rintro rfl
    exact h hx

theorem cstr_of_noNul {s : Bytes} (h : NoNul s) : cstr s = s := by
  rw [cstr, List.takeWhile_eq_self_iff]
  intro b hb
  simp only [bne_iff_ne, ne_eq]
  rintro rfl
  exact h hb

theorem NoNul.of_suffix {s t : Bytes} (h : NoNul s) (hs : t <:+ s) : NoNul t := fun h0 => h (hs.subset h0)

theorem NoNul.of_sublist {s t : Bytes} (h : NoNul s) (hs : t.Sublist s) : NoNul t := fun h0 => h (hs.subset h0)

theorem snprintf_of_lt {size : Nat} {s : Bytes} (h : s.length < size) : snprintf size s = s := by
  rw [snprintf, List.take_of_length_le (by omega)]

theorem noNul_append {s t : Bytes} : NoNul (s ++ t) ↔ NoNul s ∧ NoNul t := by
  simp [NoNul, not_or]

/-! ## Decimal text -/

theorem decimal_ne_nil (n : Nat) : decimal n ≠ [] := by
  simp [decimal, Nat.toDigits_ne_nil]

/-- `%d` writes digits only. -/
theorem decimal_digits (n : Nat) : Digits (decimal n) := by
  intro d hd
  simp only [decimal, List.mem_map] at hd
  obtain ⟨c, hc, rfl⟩ := hd
  have h := Nat.isDigit_of_mem_toDigits (by decide) (by decide) hc
  simp only [Char.isDigit, Bool.and_eq_true, decide_eq_true_eq] at h
  have h1 : 48 ≤ c.toNat := h.1
  have h2 : c.toNat ≤ 57 := h.2
  simp only [isDigit, Bool.and_eq_true, decide_eq_true_eq, UInt8.le_iff_toNat_le, UInt8.toNat_ofNat']
  constructor
  · simp only [UInt8.reduceToNat]
    omega
  · simp only [UInt8.reduceToNat]
    omega

/-- Reading the digits that `%d` wrote gives the number back. -/
theorem digitsVal_decimal (n : Nat) : digitsVal (decimal n) = n := by
  have key : ∀ (l : List Char), (∀ c ∈ l, c.isDigit = true) → ∀ k : Nat,
      (l.map (fun c => UInt8.ofNat c.toNat)).foldl (fun n d => 10 * n + (d.toNat - 48)) k = Nat.ofDigitChars 10 l k := by
    intro l
    induction l with
    | nil => intro _ k; rfl
    | cons c l ih =>
      intro h k
      have hc := h c (by simp)
      simp only [Char.isDigit, Bool.and_eq_true, decide_eq_true_eq] at hc
      have h2 : c.toNat ≤ 57 := hc.2
      have hm : (UInt8.ofNat c.toNat).toNat = c.toNat := by
        simp only [UInt8.toNat_ofNat']
        omega
      rw [List.map_cons, List.foldl_cons, ih (fun d hd => h d (by simp [hd])), Nat.ofDigitChars_cons, hm]
      rfl
  rw [decimal, digitsVal, key _ (fun c hc => Nat.isDigit_of_mem_toDigits (by decide) (by decide) hc)]
  exact Nat.ofDigitChars_ten_toDigits

theorem length_decimal_le {n k : Nat} (hk : 0 < k) (h : n < 10 ^ k) : (decimal n).length ≤ k := by
  rw [decimal, List.length_map]
  exact (Nat.length_toDigits_le_iff (by decide) hk).2 h

/-- An `int` is written with at most eleven characters. -/
theorem length_decimalInt_le {z : Int} (h : IsInt32 z) : (decimalInt z).length ≤ 11 := by
  have hz : z.natAbs < 10 ^ 10 := by
    obtain ⟨h1, h2⟩ := h
    omega
  have hd := length_decimal_le (by decide) hz
  unfold decimalInt
  split
  · simp only [List.length_cons]; omega
  · omega

theorem noNul_of_digits {ds : Bytes} (h : Digits ds) : NoNul ds := fun h0 => absurd (h 0 h0) (by decide)

theorem noNul_decimalInt (z : Int) : NoNul (decimalInt z) := by
  have hd := noNul_of_digits (decimal_digits z.natAbs)
  unfold decimalInt
  split
  · simpa [NoNul] using hd
  · exact hd

/-! ## Machine integers -/

theorem isInt32_int32 (z : Int) : IsInt32 (int32 z) := by
  unfold IsInt32 int32
  omega

theorem int32_of_isInt32 {z : Int} (h : IsInt32 z) : int32 z = z := by
  unfold IsInt32 at h
  unfold int32
  omega

/-- Narrowing gives zero for the multiples of 2^32. -/
theorem int32_eq_zero_iff {z : Int} : int32 z = 0 ↔ (4294967296 : Int) ∣ z := by
  unfold int32
  omega

/-- A number that is not negative and stays below the sign bit survives narrowing. -/
theorem int32_of_lt {z : Int} (h0 : 0 ≤ z) (h : z < 2147483648) : int32 z = z :=
  int32_of_isInt32 ⟨by omega, h⟩

/-! ## Reading numbers -/

/-- A digit is neither a blank nor a sign, so a number that starts with digits is read from its first byte on. -/
theorem sign_dropWhile_of_digit {d : UInt8} (hd : isDigit d = true) (s : Bytes) :
    sign ((d :: s).dropWhile isSpace) = (false, d :: s) := by
  have h : 48 ≤ d.toNat ∧ d.toNat ≤ 57 := by
    simpa [isDigit, UInt8.le_iff_toNat_le] using hd
  have hs : isSpace d = false := by
    simp only [isSpace, Bool.or_eq_false_iff, Bool.and_eq_false_iff, beq_eq_false_iff_ne, ne_eq, decide_eq_false_iff_not,
      UInt8.le_iff_toNat_le, ← UInt8.toNat_inj, UInt8.reduceToNat]
    omega
  have h45 : d ≠ 45 := by rintro rfl; simp at h
  have h43 : d ≠ 43 := by rintro rfl; simp at h
  rw [List.dropWhile_cons_of_neg (by simp [hs])]
  unfold sign
  split
  · rename_i heq; exact absurd (List.cons.inj heq).1 h45
  · rename_i heq; exact absurd (List.cons.inj heq).1 h43
  · rfl

/-- The digits in front of a byte that is no digit are the digits a number is read from. -/
theorem takeWhile_digits {ds : Bytes} (h : Digits ds) {c : UInt8} (hc : isDigit c = false) (s : Bytes) :
    (ds ++ c :: s).takeWhile isDigit = ds := by
  rw [List.takeWhile_append_of_pos h]
  simp [hc]

/-- `strtol` on a run of digits that ends before a byte that is no digit: the value, saturated. -/
theorem strtol_digits {ds : Bytes} (h : Digits ds) (hne : ds ≠ []) {c : UInt8} (hc : isDigit c = false) (s : Bytes) :
    strtol (ds ++ c :: s) = min 9223372036854775807 (digitsVal ds : Int) := by
  obtain ⟨d, ds', rfl⟩ := List.exists_cons_of_ne_nil hne
  have hd := h d (by simp)
  have ht := takeWhile_digits h hc s
  simp only [strtol, List.cons_append, sign_dropWhile_of_digit hd] at ht ⊢
  simp [ht]

/-- `strtoul` on a run of digits: the value, if it fits the word. -/
theorem strtoul_digits {ds : Bytes} (h : Digits ds) (hne : ds ≠ []) (hlt : digitsVal ds < 18446744073709551616) :
    strtoul ds = digitsVal ds := by
  obtain ⟨d, ds', rfl⟩ := List.exists_cons_of_ne_nil hne
  have hd := h d (by simp)
  have ht : (d :: ds').takeWhile isDigit = d :: ds' := List.takeWhile_eq_self_iff.2 h
  simp only [strtoul, sign_dropWhile_of_digit hd, ht]
  rw [if_neg (by omega)]
  rfl

theorem sign_append {c : UInt8} (h45 : c ≠ 45) (h43 : c ≠ 43) (s t : Bytes) :
    sign (s ++ c :: t) = ((sign s).1, (sign s).2 ++ c :: t) := by
  cases s with
  | nil =>
    simp only [List.nil_append, sign]
    split
    · rename_i heq
      exact absurd (List.cons.inj heq).1 h45
    · rename_i heq
      exact absurd (List.cons.inj heq).1 h43
    · rfl
  | cons x s =>
    by_cases hx : x = 45
    · subst hx
      rfl
    · by_cases hx' : x = 43
      · subst hx'
        rfl
      · rw [List.cons_append, sign, sign]
        · rfl
        · intro t ht
          exact hx (List.cons.inj ht).1
        · intro t ht
          exact hx' (List.cons.inj ht).1
        · intro t ht
          exact hx (List.cons.inj ht).1
        · intro t ht
          exact hx' (List.cons.inj ht).1

/-- A byte that cannot belong to a number ends it. -/
theorem strtoul_append_cons {c : UInt8} (hs : isSpace c = false) (hd : isDigit c = false) (h45 : c ≠ 45) (h43 : c ≠ 43)
    (s t : Bytes) : strtoul (s ++ c :: t) = strtoul s := by
  have hspace : (s ++ c :: t).dropWhile isSpace = s.dropWhile isSpace ++ c :: t := by
    rw [List.dropWhile_append]
    split
    · rename_i h
      rw [List.isEmpty_iff.1 h, List.dropWhile_cons_of_neg (by simp [hs]), List.nil_append]
    · rfl
  have hdigits : ∀ r : Bytes, (r ++ c :: t).takeWhile isDigit = r.takeWhile isDigit := by
    intro r
    rw [List.takeWhile_append]
    split
    · rename_i h
      rw [List.takeWhile_cons_of_neg (by simp [hd]), List.append_nil,
        (List.takeWhile_prefix isDigit).eq_of_length h]
    · rfl
  simp only [strtoul, hspace, sign_append h45 h43, hdigits]

/-! ## Searching -/

theorem isPrefixOf_iff {p s : Bytes} : p.isPrefixOf s = true ↔ p <+: s := List.isPrefixOf_iff_prefix

theorem strstr_here {s pat : Bytes} (h : pat <+: s) : strstr s pat = some s := by
  have h' := isPrefixOf_iff.2 h
  cases s <;> simp [strstr, h']

/-- A pattern that does not start here is looked for one byte further on. -/
theorem strstr_cons_skip {c : UInt8} {s pat : Bytes} (h : ¬pat <+: c :: s) :
    strstr (c :: s) pat = strstr s pat := by
  have h' : pat.isPrefixOf (c :: s) = false := by
    rw [← Bool.not_eq_true]
    exact fun hp => h (isPrefixOf_iff.1 hp)
  simp [strstr, h']

/-- What `strstr` finds starts with the pattern and is the end of the text. -/
theorem strstr_some {s pat t : Bytes} (h : strstr s pat = some t) : pat <+: t ∧ t <:+ s := by
  induction s with
  | nil =>
    simp only [strstr] at h
    split at h
    · rename_i hp
      obtain rfl := Option.some.inj h
      exact ⟨isPrefixOf_iff.1 hp, List.suffix_refl _⟩
    · cases h
  | cons c s ih =>
    simp only [strstr] at h
    split at h
    · rename_i hp
      obtain rfl := Option.some.inj h
      exact ⟨isPrefixOf_iff.1 hp, List.suffix_refl _⟩
    · obtain ⟨h1, h2⟩ := ih h
      exact ⟨h1, h2.trans (List.suffix_cons c s)⟩

/-- What is found in the first part of a text is found in the whole. -/
theorem strstr_append {s pat t : Bytes} (h : strstr s pat = some t) (u : Bytes) : strstr (s ++ u) pat = some (t ++ u) := by
  induction s with
  | nil =>
    obtain ⟨hp, hs⟩ := strstr_some h
    obtain rfl := List.suffix_nil.1 hs
    exact strstr_here (hp.trans (List.prefix_append _ _))
  | cons c s ih =>
    by_cases hp : pat <+: c :: s
    · obtain rfl := Option.some.inj ((strstr_here hp).symm.trans h)
      exact strstr_here (hp.trans (List.prefix_append _ _))
    · rw [strstr_cons_skip hp] at h
      obtain ⟨hpt, hts⟩ := strstr_some h
      -- an earlier occurrence in the whole would be one in the first part, which holds a whole occurrence further on
      have hlen : pat.length ≤ (c :: s).length := (hpt.length_le.trans hts.length_le).trans (Nat.le_succ _)
      have hskip : ¬pat <+: c :: (s ++ u) := by
        intro hpu
        exact hp (List.prefix_of_prefix_length_le hpu (List.prefix_append (c :: s) u) hlen)
      rw [List.cons_append, strstr_cons_skip hskip, ih h]

/-- `strstr` finds nothing exactly when the pattern is nowhere in the text. -/
theorem strstr_eq_none_iff {s pat : Bytes} : strstr s pat = none ↔ ¬pat <:+: s := by
  induction s with
  | nil =>
    simp only [strstr, List.infix_nil]
    by_cases hp : pat = []
    · simp [hp]
    · have : pat.isPrefixOf [] = false := by cases pat <;> simp_all
      simp [this, hp]
  | cons c s ih =>
    rw [List.infix_cons_iff, not_or]
    by_cases hp : pat <+: c :: s
    · simp [strstr_here hp, hp]
    · rw [strstr_cons_skip hp, ih]
      simp [hp]

/-- A pattern without the byte `c` lies on one side of `c`: the search goes on behind `c` when the part before it holds no
occurrence. -/
theorem strstr_append_cons {a b pat : Bytes} {c : UInt8} (hc : c ∉ pat) (hne : pat ≠ []) :
    strstr (a ++ c :: b) pat = match strstr a pat with
      | some t => some (t ++ c :: b)
      | none => strstr b pat := by
  induction a with
  | nil =>
    have h0 : strstr [] pat = none := by
      rw [strstr_eq_none_iff, List.infix_nil]
      exact hne
    rw [h0, List.nil_append]
    refine strstr_cons_skip fun hp => ?_
    obtain ⟨x, pat', rfl⟩ := List.exists_cons_of_ne_nil hne
    obtain ⟨rfl, -⟩ := List.cons_prefix_cons.1 hp
    simp at hc
  | cons x a ih =>
    by_cases hp : pat <+: x :: a
    · rw [strstr_here hp, strstr_here (hp.trans (List.prefix_append _ _))]
    · have hp' : ¬pat <+: x :: a ++ c :: b := by
        rintro ⟨r, hr⟩
        rcases List.append_eq_append_iff.1 hr with ⟨u, hu, -⟩ | ⟨u, hu, hu'⟩
        · exact hp ⟨u, hu.symm⟩
        · cases u with
          | nil => exact hp ⟨[], by simp [hu]⟩
          | cons y u =>
            obtain ⟨rfl, -⟩ := List.cons.inj hu'
            exact hc (by simp [hu])
      rw [strstr_cons_skip hp, ← ih]
      exact strstr_cons_skip hp'

end CString
