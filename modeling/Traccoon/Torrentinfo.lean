import Traccoon.BencAccess
import Traccoon.Encoding

/-!
# `torrentinfo/torrentinfo.c`: the node a torrent file starts with, and what it contains

`handle_bencoded_node` calls itself for the children it finds. What a call does that can be seen from outside is a list of `Event`s: the
call itself, the bytes it has `SHA1` hash, and what it prints. `SHA1` is a parameter. The recursion and the loops that count children are
bounded by nothing; the model counts them against a fuel.
-/

namespace Traccoon

open CString

namespace Torrentinfo

/-- The flags of `handle_bencoded_node`, which it hands on unchanged. -/
structure Flags where
  recurse : Bool
  displayHash : Bool
  displayType : Bool
  displayValues : Bool

/-- What a call of `handle_bencoded_node` does: it is entered, it hashes bytes, it prints. -/
inductive Event where
  | enter (recursionDepth : UInt32) (currentNode : Int)
  | sha1 (data : Bytes)
  | print (s : Bytes)
  deriving DecidableEq

/-- What a call or a loop does, and the value returned. -/
abbrev Trace := List Event × Int

/-- `MAX_PRINTABLE_STRING_LENGTH`. -/
def maxPrintableStringLength : Nat := 15

/-- `tab(num)`; the `unsigned` depth is taken as an `int`. -/
def tab (num : UInt32) : Event := .print (List.replicate (int32 num.toNat).toNat 9)

/-- The bytes `SHA1` reads for a length that is not negative. -/
def bytesAt (buf : Bytes) (p length : Int) : Walk Bytes :=
  if 0 ≤ p ∧ p + length ≤ buf.length then .ok ((buf.drop p.toNat).take length.toNat) else .error .fault

theorem bytesAt_eq {buf e post : Bytes} {p : Int} (h : TextAt buf p (e ++ post)) : bytesAt buf p e.length = .ok e := by
  obtain ⟨pre, rfl, rfl⟩ := h
  rw [bytesAt, if_pos ⟨by omega, by simp only [List.length_append]; omega⟩]
  simp

/-- The string `printf` reads for `%s`. -/
def stringAt (buf : Bytes) (p : Int) : Walk Bytes :=
  if 0 ≤ p ∧ 0 ∈ buf.drop p.toNat then .ok (cstr (buf.drop p.toNat)) else .error .fault

/-- `isprint` in the C locale. -/
def isPrint (b : UInt8) : Bool := 32 ≤ b && b ≤ 126

/-- The part under `display_hash`: the hash is printed, or no length is found. -/
def hashNode (sha1 : Bytes → Vector UInt8 20) (flags : Flags) (buf : Bytes) (fuel : Nat) (p : Int) : Walk Trace :=
  if flags.displayHash then do
    let len ← bencEntityLength buf fuel p 0
    if len < 0 then pure ([.print (ascii "Length calculation failed\n")], -1)
    else
      let data ← bytesAt buf p len
      pure ([.sha1 data, .print (hexEncode (sha1 data).toList ++ ascii " ")], 0)
  else pure ([], 0)

/-- `for(i=0;offset(i)>0;i++)`, from `i` on: the number the loop ends with. -/
def countFrom (offset : Nat → Int → Walk Int) : Nat → Int → Walk Int
  | 0, _ => .error .fuel
  | fuel + 1, i => do
    let off ← offset fuel i
    if 0 < off then countFrom offset fuel (int32 (i + 1)) else pure i

/-- `for(i=0;benc_dict_key_offset(current_node,i)>0;i++)`. -/
def countKeys (buf : Bytes) (fuel : Nat) (p : Int) : Walk Int := countFrom (fun fuel i => Benc.dictKeyOffset buf fuel p i) fuel 0

/-- `for(i=0;benc_list_item_offset(current_node,i)>0;i++)`. -/
def countItems (buf : Bytes) (fuel : Nat) (p : Int) : Walk Int := countFrom (fun fuel i => Benc.listItemOffset buf fuel p i) fuel 0

/-- The loop over the keys of a dictionary that is not recursed into; `key` is the call for a key. The first argument says how many
are left, from number `c` on. -/
def keyLoop (buf : Bytes) (fuel : Nat) (p : Int) (key : Int → Walk Trace) : Nat → Int → Walk (List Event)
  | 0, _ => pure []
  | n + 1, c => do
    let off ← Benc.dictKeyOffset buf fuel p c
    let (events, _) ← key (p + off)
    let others ← keyLoop buf fuel p key n (c + 1)
    pure (events ++ others)

/-- The loop over the entries of a dictionary that is recursed into; `key` and `value` are the calls for the two. What they return is
not looked at. -/
def entryLoop (buf : Bytes) (fuel : Nat) (p : Int) (key value : Int → Walk Trace) : Nat → Int → Walk (List Event)
  | 0, _ => pure []
  | n + 1, c => do
    let keyOffset ← Benc.dictKeyOffset buf fuel p c
    let length ← bencEntityLength buf fuel (p + keyOffset) 0
    let off := int32 (keyOffset + length)
    let (keyEvents, _) ← key (p + keyOffset)
    let (valueEvents, _) ← value (p + off)
    let others ← entryLoop buf fuel p key value n (c + 1)
    pure (keyEvents ++ valueEvents ++ others)

/-- The loop over the elements of a list; `node` is the call for an element. The first that fails ends it. -/
def itemLoop (buf : Bytes) (fuel : Nat) (p : Int) (node : Int → Walk Trace) : Nat → Int → Walk Trace
  | 0, _ => pure ([], 0)
  | n + 1, c => do
    let off ← Benc.listItemOffset buf fuel p c
    let (events, r) ← node (p + off)
    if r < 0 then
      pure (events ++ [.print (ascii "Failed to handle node " ++ decimalInt c ++ ascii " with offset " ++ decimalInt off ++ ascii "\n")],
        -1)
    else
      let (others, r) ← itemLoop buf fuel p node n (c + 1)
      pure (events ++ others, r)

/-- The loop over the bytes of a string, `n` of them left, from number `i` on. A long string is cut short below the root. -/
def stringLoop (buf : Bytes) (deep : Bool) : Nat → Nat → Int → Walk Bytes
  | 0, _, _ => pure []
  | n + 1, i, p =>
    if maxPrintableStringLength ≤ i ∧ deep = true then pure (ascii "[...]")
    else do
      let b ← byteAt buf p
      if isPrint b then
        let others ← stringLoop buf deep n (i + 1) (p + 1)
        pure (b :: others)
      else pure (ascii "[Non-printable]")

/-- The case `T_INT`. -/
def printInt (flags : Flags) (buf : Bytes) (p : Int) : Walk Trace := do
  let c ← Benc.intValue buf p (-1)
  let type := if flags.displayType then ascii "Integer " else []
  let value := if flags.displayValues then decimalInt c else []
  pure ([.print (type ++ value ++ ascii "\n")], 0)

/-- The case `T_STRING`. -/
def printString (flags : Flags) (buf : Bytes) (recursionDepth : UInt32) (p : Int) : Walk Trace := do
  let c ← Benc.stringLength buf p
  let type := if flags.displayType then ascii "String[" ++ decimalInt c ++ ascii "] " else []
  let value ← if flags.displayValues then do
      let off ← Benc.stringDataOffset buf p
      stringLoop buf (0 < recursionDepth) c.toNat 0 (p + off)
    else pure []
  pure ([.print (type ++ value ++ ascii "\n")], 0)

/-- What is printed of a dictionary or list: its type, the number of its children, the end of the line. -/
def printCount (flags : Flags) (type unit : Bytes) (i : Int) : Event :=
  .print ((if flags.displayType then type else []) ++
    (if flags.displayValues ∧ flags.displayType then ascii "(" ++ decimalInt i ++ unit else []) ++ ascii "\n")

/-- The case `T_DICT`; `node` is the recursion. -/
def handleDict (flags : Flags) (buf : Bytes) (fuel : Nat) (node : UInt32 → Int → Walk Trace) (recursionDepth : UInt32) (p : Int) :
    Walk Trace := do
  let i ← countKeys buf fuel p
  let keys ← if flags.displayValues ∧ ¬flags.recurse then keyLoop buf fuel p (node (recursionDepth + 1)) i.toNat 0 else pure []
  let entries ← if flags.recurse then
      entryLoop buf fuel p (node (recursionDepth + 1)) (node (recursionDepth + 2)) i.toNat 0
    else pure []
  pure (printCount flags (ascii "Dict ") (ascii " keys)") i :: (keys ++ entries), 0)

/-- The case `T_LIST`. -/
def handleList (flags : Flags) (buf : Bytes) (fuel : Nat) (node : UInt32 → Int → Walk Trace) (recursionDepth : UInt32) (p : Int) :
    Walk Trace := do
  let i ← countItems buf fuel p
  let (items, r) ← if flags.recurse then itemLoop buf fuel p (node (recursionDepth + 1)) i.toNat 0 else pure ([], 0)
  pure (printCount flags (ascii "List ") (ascii " entries)") i :: items, r)

/-- The `switch` over the type; `node` is the recursion. -/
def handleType (flags : Flags) (buf : Bytes) (fuel : Nat) (node : UInt32 → Int → Walk Trace) (recursionDepth : UInt32) (p : Int) :
    Walk Trace := do
  match ← bencEntityType buf p with
  | .dict => handleDict flags buf fuel node recursionDepth p
  | .list => handleList flags buf fuel node recursionDepth p
  | .int => printInt flags buf p
  | .string => printString flags buf recursionDepth p
  | .fail =>
    let s ← stringAt buf p
    pure ([.print (ascii "Type detection failed @ " ++ s ++ ascii "\n")], -1)

/-- `handle_bencoded_node(recursion_depth, buf + p, …)`. -/
def handleBencodedNode (sha1 : Bytes → Vector UInt8 20) (flags : Flags) (buf : Bytes) : Nat → UInt32 → Int → Walk Trace
  | 0, _, _ => .error .fuel
  | fuel + 1, recursionDepth, p => do
    let (hash, r) ← hashNode sha1 flags buf fuel p
    let start := .enter recursionDepth p :: tab recursionDepth :: hash
    if r < 0 then pure (start, -1)
    else
      let (events, r) ← handleType flags buf fuel (handleBencodedNode sha1 flags buf fuel) recursionDepth p
      pure (start ++ events, r)

end Torrentinfo

end Traccoon
