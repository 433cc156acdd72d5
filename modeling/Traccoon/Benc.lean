import Traccoon.Lib.Bencode

/-!
# `benc/benc.c`: the type and the length of the entity a buffer starts with

The functions walk a `char*` into a buffer. Here the buffer is the list of its bytes, terminator included, and the pointer is
an index that may be any integer: the code adds lengths it has read to its pointers without a bound. A read outside the
buffer is a `fault`. The recursion and the loops of the source are bounded by nothing; the model counts them against a fuel,
and `fuel` says that it was used up. `int` arithmetic wraps at 32 bits, and `strtol` saturates at 64.
-/

namespace Traccoon

open CString Bencode

/-- Why a walk over a buffer gives no value: a byte outside the buffer was inspected, or the fuel was used up. -/
inductive Stop where
  | fault | fuel
  deriving DecidableEq, Repr

/-- A walk over a buffer. -/
abbrev Walk := Except Stop

/-- `BENC_ENTITY_TYPE`. -/
inductive BencEntityType where
  | fail | dict | list | int | string
  deriving DecidableEq, Repr

/-- `buf[k]`. -/
def byteAt (buf : Bytes) (k : Int) : Walk UInt8 :=
  if k < 0 then .error .fault
  else match buf[k.toNat]? with
    | some b => .ok b
    | none => .error .fault

/-- `for(;isdigit(buf[i]);i++)` from index `p` on: how many digits stand there. The loop inspects the first byte that is no
digit as well. -/
def skipDigits (buf : Bytes) (p : Int) : Walk Nat :=
  let n := ((buf.drop p.toNat).takeWhile isDigit).length
  (byteAt buf p).bind fun _ => (byteAt buf (p + n)).map fun _ => n

/-- `benc_entity_type(buf + p)`. -/
def bencEntityType (buf : Bytes) (p : Int) : Walk BencEntityType := do
  let c ← byteAt buf p
  if c = 100 then pure .dict
  else if c = 108 then pure .list
  else if c = 105 then pure .int
  else
    let i ← skipDigits buf p
    let c ← byteAt buf (p + i)
    if c = 58 ∧ 0 < i then pure .string else pure .fail

/-- The `T_INT` case of `benc_entity_length(buf + p, …)`: no digit is asked for between the sign and the `e`. -/
def bencIntLength (buf : Bytes) (p : Int) : Walk Int := do
  let c ← byteAt buf (p + 1)
  let i : Int := if c = 45 then 2 else 1
  let n ← skipDigits buf (p + i)
  let c ← byteAt buf (p + (i + n))
  if c = 101 then pure (int32 (i + n + 1)) else pure (-1)

/-- The `T_STRING` case of `benc_entity_length(buf + p, …)`: the announced length is added as it stands. -/
def bencStringLength (buf : Bytes) (p : Int) : Walk Int := do
  let i ← skipDigits buf p
  let c ← byteAt buf (p + i)
  if c = 58 ∧ 0 < i then pure (int32 (i + strtol (buf.drop p.toNat) + 1)) else pure (-1)

/-- The test of the `T_DICT` loop that an element of even number, a key, is a string. A list (`keys` off) has no such test. -/
def badKey (buf : Bytes) (keys : Bool) (itemIndex : Nat) (p : Int) : Walk Bool :=
  if keys = true ∧ itemIndex % 2 = 0 then (bencEntityType buf p).map (· != .string) else .ok false

mutual
/-- `benc_entity_length(buf + p, initial_offset)`. The second argument only feeds debug output. -/
def bencEntityLength (buf : Bytes) : Nat → Int → Int → Walk Int
  | 0, _, _ => .error .fuel
  | fuel + 1, p, initialOffset => do
    match ← bencEntityType buf p with
    | .dict => bencElements buf fuel true p initialOffset 0 0
    | .list => bencElements buf fuel false p initialOffset 0 0
    | .int => bencIntLength buf p
    | .string => bencStringLength buf p
    | .fail => pure (-1)

/-- The `while` loops of the `T_DICT` case (`keys`) and the `T_LIST` case: they differ in the test that an element of even
number is a string and in the test that the last element had an odd number. -/
def bencElements (buf : Bytes) : Nat → Bool → Int → Int → Int → Nat → Walk Int
  | 0, _, _, _, _, _ => .error .fuel
  | fuel + 1, keys, p, initialOffset, offset, itemIndex => do
    let c ← byteAt buf (p + offset + 1)
    if c ≠ 101 ∧ c ≠ 0 then
      let bad ← badKey buf keys itemIndex (p + offset + 1)
      if bad then pure (-1)
      else
        let itemLength ← bencEntityLength buf fuel (p + offset + 1) (int32 (initialOffset + offset + 1))
        if itemLength = -1 then pure (-1)
        else bencElements buf fuel keys p initialOffset (int32 (offset + itemLength)) (itemIndex + 1)
    else if c = 101 ∧ (keys = true → itemIndex % 2 = 0) then pure (int32 (offset + 2)) else pure (-1)
end

/-- `benc_entity_length(buf, initial_offset)` returns `n`. -/
def BencReturns (buf : Bytes) (initialOffset n : Int) : Prop := ∃ fuel, bencEntityLength buf fuel 0 initialOffset = .ok n

/-! ## Reading at a pointer -/

/-- The text a pointer `p` into the buffer points to. -/
def TextAt (buf : Bytes) (p : Int) (t : Bytes) : Prop := ∃ pre : Bytes, buf = pre ++ t ∧ p = pre.length

theorem textAt_zero (buf : Bytes) : TextAt buf 0 buf := ⟨[], rfl, rfl⟩

/-- Moving a pointer over the first part of its text. -/
theorem TextAt.move {buf a t : Bytes} {p : Int} (h : TextAt buf p (a ++ t)) : TextAt buf (p + a.length) t := by
  obtain ⟨pre, rfl, rfl⟩ := h
  exact ⟨pre ++ a, by simp, by simp⟩

theorem TextAt.next {buf t : Bytes} {p : Int} {c : UInt8} (h : TextAt buf p (c :: t)) : TextAt buf (p + 1) t :=
  h.move (a := [c])

theorem TextAt.drop {buf t : Bytes} {p : Int} (h : TextAt buf p t) : buf.drop p.toNat = t := by
  obtain ⟨pre, rfl, rfl⟩ := h
  simp

/-- A pointer with a text behind it reads the first byte of it. -/
theorem TextAt.byteAt {buf t : Bytes} {p : Int} {c : UInt8} (h : TextAt buf p (c :: t)) : byteAt buf p = .ok c := by
  obtain ⟨pre, rfl, rfl⟩ := h
  simp [Traccoon.byteAt]

/-- A pointer behind the last byte reads outside the buffer. -/
theorem TextAt.byteAt_end {buf : Bytes} {p : Int} (h : TextAt buf p []) (k : Nat) : Traccoon.byteAt buf (p + k) = .error .fault := by
  obtain ⟨pre, rfl, rfl⟩ := h
  have h0 : ¬((pre.length : Int) + k < 0) := by omega
  have h1 : ((pre.length : Int) + k).toNat = pre.length + k := by omega
  simp [Traccoon.byteAt, h0, h1]

@[simp] theorem walk_ok_bind {α β : Type} (a : α) (f : α → Walk β) : (Except.ok a >>= f) = f a := rfl

@[simp] theorem walk_error_bind {α β : Type} (e : Stop) (f : α → Walk β) : ((Except.error e : Walk α) >>= f) = .error e := rfl

/-- A run of digits before a byte that is no digit. -/
theorem TextAt.skipDigits {buf ds t : Bytes} {p : Int} {c : UInt8} (h : TextAt buf p (ds ++ c :: t)) (hd : Digits ds)
    (hc : isDigit c = false) : skipDigits buf p = .ok ds.length := by
  have hn : ((buf.drop p.toNat).takeWhile isDigit).length = ds.length := by
    rw [h.drop, takeWhile_digits hd hc]
  have hp : ∃ b, Traccoon.byteAt buf p = .ok b := by
    cases ds with
    | nil => exact ⟨c, h.byteAt⟩
    | cons d ds => exact ⟨d, h.byteAt⟩
  obtain ⟨b, hb⟩ := hp
  simp only [Traccoon.skipDigits, hn, hb, h.move.byteAt]
  rfl

/-! ## The type of an entity -/

theorem not_isDigit_colon : isDigit 58 = false := by decide

/-- A byte that is a digit is none of the letters the type test looks for. -/
theorem isDigit_ne {c : UInt8} (h : isDigit c = true) : c ≠ 100 ∧ c ≠ 108 ∧ c ≠ 105 ∧ c ≠ 101 ∧ c ≠ 0 := by
  refine ⟨?_, ?_, ?_, ?_, ?_⟩ <;> rintro rfl <;> simp [isDigit] at h

theorem bencEntityType_dict {buf t : Bytes} {p : Int} (h : TextAt buf p (100 :: t)) : bencEntityType buf p = .ok .dict := by
  simp [bencEntityType, h.byteAt]
  rfl

theorem bencEntityType_list {buf t : Bytes} {p : Int} (h : TextAt buf p (108 :: t)) : bencEntityType buf p = .ok .list := by
  simp [bencEntityType, h.byteAt]
  rfl

theorem bencEntityType_int {buf t : Bytes} {p : Int} (h : TextAt buf p (105 :: t)) : bencEntityType buf p = .ok .int := by
  simp [bencEntityType, h.byteAt]
  rfl

/-- Digits and a colon are a string, whatever follows. -/
theorem bencEntityType_string {buf ds t : Bytes} {p : Int} (h : TextAt buf p (ds ++ 58 :: t)) (hd : Digits ds) (hne : ds ≠ []) :
    bencEntityType buf p = .ok .string := by
  have hs := h.skipDigits hd not_isDigit_colon
  have hc := h.move.byteAt
  obtain ⟨d, ds', rfl⟩ := List.exists_cons_of_ne_nil hne
  obtain ⟨h1, h2, h3, -, -⟩ := isDigit_ne (hd d (by simp))
  have h0 : byteAt buf p = .ok d := h.byteAt
  simp [bencEntityType, h0, hs, h1, h2, h3] at hc ⊢
  simp [hc]
  rfl

end Traccoon
