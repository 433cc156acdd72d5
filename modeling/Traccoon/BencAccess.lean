import Traccoon.Benc

/-!
# `benc/benc.c`: reading a value, and looking for an element

The functions `getpeers` and `torrentinfo` read a buffer with. The three that look for an element walk over it alike: they add
what `benc_entity_length` returns to their offset, a failure as well, and look for a closing `e` or NUL only where they arrive.
-/

namespace Traccoon

open CString

namespace Benc

/-- `benc_int_value(buf + p, defval)`. Its index counts the sign and the digits, and one of these is not enough. -/
def intValue (buf : Bytes) (p defval : Int) : Walk Int := do
  match ← bencEntityType buf p with
  | .int =>
    let c ← byteAt buf (p + 1)
    let i : Int := if c = 45 then 1 else 0
    let n ← skipDigits buf (p + (i + 1))
    if i + n ≤ 1 then pure defval
    else
      let c ← byteAt buf (p + (i + n + 1))
      if c ≠ 101 then pure defval else pure (int32 (strtol (buf.drop (p + 1).toNat)))
  | _ => pure defval

/-- `benc_string_length(buf + p)`. -/
def stringLength (buf : Bytes) (p : Int) : Walk Int := do
  match ← bencEntityType buf p with
  | .string => pure (int32 (strtoul (buf.drop p.toNat)))
  | _ => pure (-1)

/-- `benc_string_data_offset(buf + p)`: one behind the first colon. -/
def stringDataOffset (buf : Bytes) (p : Int) : Walk Int := do
  match ← bencEntityType buf p with
  | .string =>
    let i := ((buf.drop p.toNat).takeWhile (· != 58)).length
    let _ ← byteAt buf (p + i)
    pure (int32 (i + 1))
  | _ => pure (-1)

/-- `!strncmp(key, buf + p, strlen(key))`, for a key without NUL: the first byte that differs ends the comparison. -/
def strncmpEq (buf : Bytes) (p : Int) : Bytes → Walk Bool
  | [] => pure true
  | c :: key => do
    let b ← byteAt buf p
    if c = b then strncmpEq buf (p + 1) key else pure false

/-- The loop of the functions that look for an element of what starts at `p`. `visit` looks at element number `item`, at `offset`, and
returns from the function, or lets the loop pass the element. -/
def walk (buf : Bytes) (visit : Nat → Int → Int → Walk (Option Int)) : Nat → Int → Int → Int → Walk Int
  | 0, _, _, _ => .error .fuel
  | fuel + 1, p, offset, item => do
    let c ← byteAt buf (p + offset + 1)
    if c ≠ 101 ∧ c ≠ 0 then
      match ← visit fuel offset item with
      | some r => pure r
      | none =>
        let length ← bencEntityLength buf fuel (p + offset + 1) 0
        walk buf visit fuel p (int32 (offset + length)) (int32 (item + 1))
    else pure (-1)

/-- What `benc_list_item_offset` asks of an element: whether it is the one. -/
def visitItem (index : Int) (_ : Nat) (offset item : Int) : Walk (Option Int) :=
  pure (if item = index then some (int32 (offset + 1)) else none)

/-- `benc_list_item_offset(buf + p, item)`. -/
def listItemOffset (buf : Bytes) (fuel : Nat) (p item : Int) : Walk Int := do
  if item < 0 then pure (-1)
  else match ← bencEntityType buf p with
    | .list => walk buf (visitItem item) fuel p 0 0
    | _ => pure (-1)

/-- The key test of the two dictionary functions: an element of even number has to be a string, and is then looked at. -/
def visitKey (buf : Bytes) (p : Int) (test : Nat → Int → Int → Walk (Option Int)) (fuel : Nat) (offset item : Int) :
    Walk (Option Int) := do
  if item % 2 = 0 then
    match ← bencEntityType buf (p + offset + 1) with
    | .string => test fuel offset item
    | _ => pure (some (-1))
  else pure none

/-- What `benc_dict_value_offset` asks of a key: its length, then its bytes. The `int` length is compared as a `size_t`. -/
def matchKey (buf : Bytes) (p : Int) (key : Bytes) (fuel : Nat) (offset _ : Int) : Walk (Option Int) := do
  let length ← stringLength buf (p + offset + 1)
  if (key.length : Int) = length % 18446744073709551616 then
    let data ← stringDataOffset buf (p + offset + 1)
    if ← strncmpEq buf (p + offset + 1 + data) key then
      let n ← bencEntityLength buf fuel (p + offset + 1) 0
      pure (some (int32 (offset + 1 + n)))
    else pure none
  else pure none

/-- `benc_dict_value_offset(buf + p, key)`; a null pointer has no key. -/
def dictValueOffset (buf : Bytes) (fuel : Nat) (p : Int) : Option Bytes → Walk Int
  | none => pure (-1)
  | some key => do
    match ← bencEntityType buf p with
    | .dict => walk buf (visitKey buf p (matchKey buf p key)) fuel p 0 0
    | _ => pure (-1)

/-- `benc_dict_key_offset(buf + p, index)`: the key of number `index` is the element of number `index*2`, an `int`. -/
def dictKeyOffset (buf : Bytes) (fuel : Nat) (p index : Int) : Walk Int := do
  if index < 0 then pure (-1)
  else match ← bencEntityType buf p with
    | .dict => walk buf (visitKey buf p (visitItem (int32 (index * 2)))) fuel p 0 0
    | _ => pure (-1)

end Benc

end Traccoon
