import Traccoon.NodePath
import Traccoon.Replies

/-!
# What a torrent file looks like

`outline` is what `torrentinfo` prints about a value: a line for each node it is asked to show, with as many tabs in front as the node is
deep, told from the value alone, for any reading of numbers. `descend` is the value that the argument of `-k` names, with what is reported
on the way.
-/

namespace Traccoon

open CString Bencode

namespace Torrentinfo

/-- What has been printed. -/
def printed (events : List Event) : Bytes :=
  events.flatMap fun
    | .print s => s
    | _ => []

/-! ## A line for each node -/

/-- What is in front of a node: the tabs, and the hash of its encoding. -/
def leadText (sha1 : Bytes → Vector UInt8 20) (flags : Flags) (level : Nat) (v : Value) : Bytes :=
  List.replicate level 9 ++ if flags.displayHash then hexEncode (sha1 v.encode).toList ++ ascii " " else []

/-- The characters shown of a string, from number `i` on. -/
def shownText (deep : Bool) : Nat → Bytes → Bytes
  | _, [] => []
  | i, b :: s =>
    if maxPrintableStringLength ≤ i ∧ deep = true then ascii "[...]"
    else if isPrint b then b :: shownText deep (i + 1) s
    else ascii "[Non-printable]"

/-- The line of a string. -/
def stringText (flags : Flags) (deep : Bool) (s : Bytes) : Bytes :=
  (if flags.displayType then ascii "String[" ++ decimal s.length ++ ascii "] " else []) ++
    (if flags.displayValues then shownText deep 0 s else []) ++ ascii "\n"

/-- The line of a number. -/
def intText (read : Value → Int) (flags : Flags) (n : Numeral) : Bytes :=
  (if flags.displayType then ascii "Integer " else []) ++
    (if flags.displayValues then decimalInt (read (.int n)) else []) ++ ascii "\n"

/-- The line of a dictionary or list. -/
def countText (flags : Flags) (type unit : Bytes) (n : Nat) : Bytes :=
  (if flags.displayType then type else []) ++
    (if flags.displayValues ∧ flags.displayType then ascii "(" ++ decimal n ++ unit else []) ++ ascii "\n"

/-- A key, which is a string. -/
def keyText (sha1 : Bytes → Vector UInt8 20) (flags : Flags) (level : Nat) (k : Bytes) : Bytes :=
  leadText sha1 flags level (.str k) ++ stringText flags (0 < level) k

mutual
/-- The lines of a value. Without `recurse`, of a dictionary its keys are shown and of a list nothing. -/
def outline (read : Value → Int) (sha1 : Bytes → Vector UInt8 20) (flags : Flags) (level : Nat) : Value → Bytes
  | .str s => leadText sha1 flags level (.str s) ++ stringText flags (0 < level) s
  | .int n => leadText sha1 flags level (.int n) ++ intText read flags n
  | .list vs =>
    leadText sha1 flags level (.list vs) ++ countText flags (ascii "List ") (ascii " entries)") vs.length ++
      if flags.recurse then outlineList read sha1 flags (level + 1) vs else []
  | .dict es =>
    leadText sha1 flags level (.dict es) ++ countText flags (ascii "Dict ") (ascii " keys)") es.length ++
      if flags.recurse then outlineEntries read sha1 flags (level + 1) es
      else if flags.displayValues then es.flatMap fun e => keyText sha1 flags (level + 1) e.1 else []

/-- The elements of a list, one after the other. -/
def outlineList (read : Value → Int) (sha1 : Bytes → Vector UInt8 20) (flags : Flags) (level : Nat) : List Value → Bytes
  | [] => []
  | v :: vs => outline read sha1 flags level v ++ outlineList read sha1 flags level vs

/-- The entries of a dictionary: the key, and the value one level below it. -/
def outlineEntries (read : Value → Int) (sha1 : Bytes → Vector UInt8 20) (flags : Flags) (level : Nat) : List (Bytes × Value) → Bytes
  | [] => []
  | (k, v) :: es => keyText sha1 flags level k ++ outline read sha1 flags (level + 1) v ++ outlineEntries read sha1 flags level es
end

mutual
/-- The numbers in a value. -/
def numerals : Value → List Numeral
  | .str _ => []
  | .int n => [n]
  | .list vs => numeralsList vs
  | .dict es => numeralsEntries es

def numeralsList : List Value → List Numeral
  | [] => []
  | v :: vs => numerals v ++ numeralsList vs

def numeralsEntries : List (Bytes × Value) → List Numeral
  | [] => []
  | (_, v) :: es => numerals v ++ numeralsEntries es
end

/-! ## The node named by `-k` -/

/-- The tokens of a path: what stands between the dots, where anything does. -/
def tokens (path : Bytes) : List Bytes := (path.splitOn 46).filter (· ≠ [])

/-- The element of a list with a number that may be negative. -/
def item (vs : List Value) (i : Int) : Option Value := if 0 ≤ i then vs[i.toNat]? else none

/-- Where a token leads from a value, or what is reported. -/
def child (token : Bytes) : Value → Except Bytes Value
  | .list vs =>
    if token.all isDigit = false then .error (ascii "Non-integral key supplied for list, skipping\n")
    else match item vs (int32 (strtoul token)) with
      | some w => .ok w
      | none => .error (ascii "List has no item " ++ token ++ ascii ", skipping\n")
  | .dict es =>
    match (Value.dict es).get? token with
    | some w => .ok w
    | none => .error (ascii "Dict has no key \"" ++ token ++ ascii "\", skipping\n")
  | _ => .error (ascii "Could not resolve full root path, token \"" ++ token ++ ascii "\" skipped\n")

/-- What is reported about the tokens that lead nowhere, and the value the others lead to. -/
def descend : List Bytes → Value → Bytes × Value
  | [], v => ([], v)
  | token :: ts, v =>
    match child token v with
    | .ok w => descend ts w
    | .error message =>
      let (messages, w) := descend ts v
      (message ++ messages, w)

end Torrentinfo

end Traccoon
