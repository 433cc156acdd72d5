import Traccoon.Torrentinfo

/-!
# `torrentinfo/torrentinfo.c`: the node named by `-k`

`main` takes the argument of `-k` apart with `strtok` and moves `rnode_offset` down one node for each token. A token that leads nowhere
is reported and passed over. The offset is an `unsigned`, and what the accessors return is an `int`.
-/

namespace Traccoon

open CString

namespace Torrentinfo

/-- `strtok(s, ".")`: the first token, and the text the next call goes on with. -/
def strtok (s : Bytes) : Option (Bytes × Bytes) :=
  let s := s.dropWhile (· == 46)
  if s = [] then none else some (s.takeWhile (· != 46), (s.dropWhile (· != 46)).drop 1)

/-- What is printed, and `rnode_offset`. -/
abbrev Resolved := List Event × Nat

/-- `rnode_offset+=i`, for an `i` that is not negative. -/
def moveBy (r : Nat) (i : Int) : Nat := (r + i.toNat) % 4294967296

/-- The case `T_LIST`: a token of digits alone is an index. -/
def resolveItem (buf : Bytes) (fuel : Nat) (token : Bytes) (r : Nat) : Walk Resolved :=
  if token.all isDigit = false then pure ([.print (ascii "Non-integral key supplied for list, skipping\n")], r)
  else do
    let i ← Benc.listItemOffset buf fuel r (int32 (strtoul token))
    if i < 0 then pure ([.print (ascii "List has no item " ++ token ++ ascii ", skipping\n")], r) else pure ([], moveBy r i)

/-- The case `T_DICT`. -/
def resolveKey (buf : Bytes) (fuel : Nat) (token : Bytes) (r : Nat) : Walk Resolved := do
  let i ← Benc.dictValueOffset buf fuel r (some token)
  if 0 < i then pure ([], moveBy r i) else pure ([.print (ascii "Dict has no key \"" ++ token ++ ascii "\", skipping\n")], r)

/-- The `switch` over the type of the node that has been reached. -/
def resolveToken (buf : Bytes) (fuel : Nat) (token : Bytes) (r : Nat) : Walk Resolved := do
  match ← bencEntityType buf r with
  | .list => resolveItem buf fuel token r
  | .dict => resolveKey buf fuel token r
  | _ => pure ([.print (ascii "Could not resolve full root path, token \"" ++ token ++ ascii "\" skipped\n")], r)

/-- The loop over the tokens. -/
def resolvePath (buf : Bytes) : Nat → Bytes → Nat → Walk Resolved
  | 0, _, _ => .error .fuel
  | fuel + 1, path, r =>
    match strtok path with
    | none => pure ([], r)
    | some (token, path) => do
      let (events, r) ← resolveToken buf fuel token r
      let (others, r) ← resolvePath buf fuel path r
      pure (events ++ others, r)

/-- `main` behind the options, on a buffer with the file and a terminator: the node named by `-k`, then what is in it. -/
def displayFile (sha1 : Bytes → Vector UInt8 20) (flags : Flags) (buf : Bytes) (rnode : Option Bytes) (fuel : Nat) : Walk Trace := do
  let (skipped, r) ← match rnode with
    | none => pure ([], 0)
    | some path => resolvePath buf fuel path 0
  let (events, result) ← handleBencodedNode sha1 flags buf fuel 0 r
  if result < 0 then pure (skipped ++ events ++ [.print (ascii "Error while handling data\n")], -1) else pure (skipped ++ events, 0)

end Torrentinfo

end Traccoon
