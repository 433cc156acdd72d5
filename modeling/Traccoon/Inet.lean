import Traccoon.Encoding
import Traccoon.Neth

/-!
# Addresses: `inet_ntop`, `inet_pton`, `htons`

The two conversions belong to the system's library and are a parameter of the model: `Inet` gives them, `Inet.Lawful` is what their
documentation promises and the tracker relies on.
-/

namespace Traccoon

open CString

/-- `inet_ntop` and `inet_pton` for the two address families. -/
structure Inet where
  ntop4 : Vector UInt8 4 → Bytes
  pton4 : Bytes → Option (Vector UInt8 4)
  ntop6 : Vector UInt8 16 → Bytes
  pton6 : Bytes → Option (Vector UInt8 16)

/-- The bytes of address texts. -/
def addressChars : Bytes := ascii "0123456789abcdef.:"

/-- `INET6_ADDRSTRLEN`. -/
def inet6Addrstrlen : Nat := 46

/-- What is promised of the two conversions: `inet_pton` reads what `inet_ntop` wrote, and that is a short text of digits, lower-case
hex digits, dots and colons. -/
structure Inet.Lawful (inet : Inet) : Prop where
  pton4_ntop4 : ∀ a, inet.pton4 (inet.ntop4 a) = some a
  pton6_ntop6 : ∀ a, inet.pton6 (inet.ntop6 a) = some a
  chars4 : ∀ a, ∀ b ∈ inet.ntop4 a, b ∈ addressChars
  chars6 : ∀ a, ∀ b ∈ inet.ntop6 a, b ∈ addressChars
  length4 : ∀ a, (inet.ntop4 a).length < inet6Addrstrlen
  length6 : ∀ a, (inet.ntop6 a).length < inet6Addrstrlen

/-- `struct sockaddr_storage`, as far as `parseSocket` looks at it. -/
inductive SockAddr where
  | in4 (addr : Vector UInt8 4)
  | in6 (addr : Vector UInt8 16)

/-- The four bytes of an IPv4 address. -/
def ipv4 (b0 b1 b2 b3 : UInt8) : Vector UInt8 4 := #v[b0, b1, b2, b3]

/-- `htons(port)`, as the two bytes copied from it: the low 16 bits of the `int`, most significant byte first. -/
def htons (port : Int) : Bytes :=
  [UInt8.ofNat ((port % 65536).toNat / 256), UInt8.ofNat ((port % 65536).toNat % 256)]

/-- `ntohs` of two bytes. -/
def ntohs (hi lo : UInt8) : Int := 256 * hi.toNat + lo.toNat

/-- A port comes back as its low 16 bits. -/
theorem ntohs_htons (port : Int) : ∃ hi lo, htons port = [hi, lo] ∧ ntohs hi lo = port % 65536 := by
  refine ⟨_, _, rfl, ?_⟩
  simp only [ntohs, UInt8.toNat_ofNat']
  omega

/-- Address text is a string without capital letters. -/
theorem addressChars_text {s : Bytes} (h : ∀ b ∈ s, b ∈ addressChars) : NoNul s ∧ strtolower s = s := by
  have hall : ∀ b ∈ addressChars, b ≠ 0 ∧ tolower b = b := by decide +kernel
  refine ⟨fun h0 => (hall 0 (h 0 h0)).1 rfl, ?_⟩
  rw [strtolower, List.map_congr_left (g := id) fun b hb => (hall b (h b hb)).2, List.map_id]

/-! ## Lawful conversions exist -/

namespace PlainInet

/-- The number a text starts with, and the rest. -/
def readByte (s : Bytes) : UInt8 × Bytes := (UInt8.ofNat (digitsVal (s.takeWhile isDigit)), s.dropWhile isDigit)

/-- The text of an IPv4 address. -/
def ntop4 (a : Vector UInt8 4) : Bytes :=
  decimal a[0].toNat ++ ascii "." ++ decimal a[1].toNat ++ ascii "." ++ decimal a[2].toNat ++ ascii "." ++ decimal a[3].toNat

/-- Four numbers with one byte between them; only the text that `ntop4` writes counts. -/
def pton4 (s : Bytes) : Option (Vector UInt8 4) :=
  let (b0, s0) := readByte s
  let (b1, s1) := readByte (s0.drop 1)
  let (b2, s2) := readByte (s1.drop 1)
  let (b3, _) := readByte (s2.drop 1)
  if ntop4 #v[b0, b1, b2, b3] = s then some #v[b0, b1, b2, b3] else none

/-- The groups of an IPv6 address, two bytes each. -/
def groups : Bytes → Bytes
  | x :: y :: z :: bs => hexByte x ++ hexByte y ++ 58 :: groups (z :: bs)
  | bs => hexEncode bs

/-- The text of an IPv6 address none of whose groups starts with a zero digit. -/
def ntop6 (a : Vector UInt8 16) : Bytes := groups a.toList

/-- The bytes of a hex text. -/
def unhex : Bytes → Option Bytes
  | [] => some []
  | x :: y :: s => do
    let hi ← charIndex hexdict x
    let lo ← charIndex hexdict y
    let bs ← unhex s
    pure (UInt8.ofNat (hi * 16 + lo) :: bs)
  | [_] => none

/-- The hex digits between the colons; only the text that `ntop6` writes counts. -/
def pton6 (s : Bytes) : Option (Vector UInt8 16) :=
  match unhex (s.filter (· != 58)) with
  | some bs =>
    if h : bs.length = 16 then
      let a : Vector UInt8 16 := ⟨bs.toArray, by simpa using h⟩
      if ntop6 a = s then some a else none
    else none
  | none => none

/-- Conversions that agree with the library's on every IPv4 address, and on the IPv6 addresses in which no group starts with a zero
digit. -/
def inet : Inet := { ntop4 := ntop4, pton4 := pton4, ntop6 := ntop6, pton6 := pton6 }

theorem readByte_decimal (b : UInt8) {c : UInt8} (hc : isDigit c = false) (s : Bytes) :
    readByte (decimal b.toNat ++ c :: s) = (b, c :: s) := by
  have hd := decimal_digits b.toNat
  rw [readByte, takeWhile_digits hd hc, digitsVal_decimal, UInt8.ofNat_toNat, List.dropWhile_append_of_pos hd]
  simp [hc]

theorem readByte_decimal_end (b : UInt8) : readByte (decimal b.toNat) = (b, []) := by
  have hd := decimal_digits b.toNat
  rw [readByte, List.takeWhile_eq_self_iff.2 hd, digitsVal_decimal, UInt8.ofNat_toNat, List.dropWhile_eq_nil_iff.2 hd]

theorem ascii_dot : ascii "." = [46] := by decide

theorem pton4_ntop4 (a : Vector UInt8 4) : pton4 (ntop4 a) = some a := by
  have hdot : isDigit 46 = false := by decide
  have ha : #v[a[0], a[1], a[2], a[3]] = a := by
    ext i hi
    match i, hi with
    | 0, _ => rfl
    | 1, _ => rfl
    | 2, _ => rfl
    | 3, _ => rfl
  have h0 : readByte (ntop4 a) =
      (a[0], ascii "." ++ decimal a[1].toNat ++ ascii "." ++ decimal a[2].toNat ++ ascii "." ++ decimal a[3].toNat) := by
    simp only [ntop4, ascii_dot, List.append_assoc, List.cons_append, List.nil_append, readByte_decimal _ hdot]
  simp only [pton4, h0, ascii_dot, List.append_assoc, List.cons_append, List.nil_append, List.drop_succ_cons, List.drop_zero,
    readByte_decimal _ hdot, readByte_decimal_end, ha, if_true]

theorem length_ntop4 (a : Vector UInt8 4) : (ntop4 a).length < inet6Addrstrlen := by
  have h : ∀ b : UInt8, (decimal b.toNat).length ≤ 3 := fun b => length_decimal_le (by decide) (by have := b.toNat_lt; omega)
  have h0 := h a[0]
  have h1 := h a[1]
  have h2 := h a[2]
  have h3 := h a[3]
  simp only [ntop4, ascii_dot, List.length_append, List.length_cons, List.length_nil, inet6Addrstrlen]
  omega

theorem mem_ntop4 (a : Vector UInt8 4) : ∀ b ∈ ntop4 a, b ∈ addressChars := by
  intro b hb
  have hdigit : ∀ n, b ∈ decimal n → b ∈ addressChars := by
    intro n hn
    have hd : 48 ≤ b.toNat ∧ b.toNat ≤ 57 := by simpa [isDigit, UInt8.le_iff_toNat_le] using decimal_digits n b hn
    have hall : ∀ i < 10, UInt8.ofNat (48 + i) ∈ addressChars := by decide
    have h := hall (b.toNat - 48) (by omega)
    have hidx : 48 + (b.toNat - 48) = b.toNat := by omega
    rwa [hidx, UInt8.ofNat_toNat] at h
  have hdot : (46 : UInt8) ∈ addressChars := by decide
  simp only [ntop4, ascii_dot, List.mem_append, List.mem_singleton] at hb
  rcases hb with (((((hb | rfl) | hb) | rfl) | hb) | rfl) | hb
  · exact hdigit _ hb
  · exact hdot
  · exact hdigit _ hb
  · exact hdot
  · exact hdigit _ hb
  · exact hdot
  · exact hdigit _ hb

/-- Without the colons, the groups are the hex text of the address. -/
theorem filter_groups : ∀ bs : Bytes, (groups bs).filter (· != 58) = hexEncode bs := by
  have hcolon : (58 : UInt8) ∉ hexdict := by decide
  have hhex : ∀ bs, (hexEncode bs).filter (· != 58) = hexEncode bs := by
    intro bs
    rw [List.filter_eq_self]
    intro b hb
    simp only [bne_iff_ne, ne_eq]
    rintro rfl
    exact hcolon (mem_hexEncode hb)
  intro bs
  induction bs using groups.induct with
  | case1 x y z bs ih =>
    have hx := hhex [x]
    have hy := hhex [y]
    simp only [hexEncode, List.flatMap_cons, List.flatMap_nil, List.append_nil] at hx hy ih ⊢
    simp [groups, hx, hy, ih]
  | case2 bs h =>
    rw [groups, hhex]
    exact h

theorem unhex_hexEncode (bs : Bytes) : unhex (hexEncode bs) = some bs := by
  induction bs with
  | nil => rfl
  | cons b bs ih =>
    have hall : ∀ i < 16, charIndex hexdict (hexdict.getD i 0) = some i := by decide
    have hb := b.toNat_lt
    simp only [hexEncode, List.flatMap_cons, hexByte, List.cons_append, List.nil_append] at ih ⊢
    rw [unhex, hall _ (by omega), hall _ (by omega), ih]
    simp only [Option.bind_eq_bind, Option.bind_some, Option.pure_def, Option.some.injEq, List.cons.injEq, and_true]
    have hidx : b.toNat / 16 * 16 + b.toNat % 16 = b.toNat := by omega
    rw [hidx, UInt8.ofNat_toNat]

theorem pton6_ntop6 (a : Vector UInt8 16) : pton6 (ntop6 a) = some a := by
  simp only [pton6, ntop6, filter_groups, unhex_hexEncode]
  simp [Vector.toList]

theorem length_groups : ∀ bs : Bytes, 2 * (groups bs).length ≤ 5 * bs.length
  | [] => by simp [groups, hexEncode]
  | [x] => by simp [groups, hexEncode, hexByte]
  | [x, y] => by simp [groups, hexEncode, hexByte]
  | x :: y :: z :: bs => by
    have := length_groups (z :: bs)
    simp only [groups, hexByte, List.length_append, List.length_cons, List.length_nil] at this ⊢
    omega

theorem mem_groups : ∀ (bs : Bytes), ∀ b ∈ groups bs, b ∈ addressChars := by
  have hall : ∀ b ∈ hexdict, b ∈ addressChars := by decide +kernel
  intro bs b hb
  by_cases h : b = 58
  · subst h
    decide
  · have hex : b ∈ hexEncode bs := by
      rw [← filter_groups]
      exact List.mem_filter.2 ⟨hb, by simpa using h⟩
    exact hall b (mem_hexEncode hex)

theorem lawful : inet.Lawful :=
  { pton4_ntop4 := pton4_ntop4
    pton6_ntop6 := pton6_ntop6
    chars4 := mem_ntop4
    chars6 := fun a => mem_groups a.toList
    length4 := length_ntop4
    length6 := fun a => by
      have := length_groups a.toList
      simp only [Vector.length_toList] at this
      simp only [inet, ntop6, inet6Addrstrlen]
      omega }

end PlainInet

end Traccoon
