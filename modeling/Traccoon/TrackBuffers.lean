import Traccoon.Track

/-!
# The arrays of `track`

The loop over the peers once more, with the arrays its compact branch copies into. The value is `none` when a copy does not stay inside
its array.
-/

namespace Traccoon

open CString

/-- `buf4` and `buf6`, and how far they are filled. -/
structure PeerBuffers where
  buf4 : Vector UInt8 1024
  pos4 : Nat
  buf6 : Vector UInt8 1024
  pos6 : Nat

/-- What the case `SQLITE_ROW` does to the arrays: two copies, of the address and of the port behind it. -/
def copyRow (inet : Inet) (ar : AnnounceRequest) (r : PeerRow) (b : PeerBuffers) : Option PeerBuffers :=
  if isRequester ar r then some b
  else if !ar.compact then some b
  else if r.protover = 4 then
    match inet.pton4 r.ip with
    | none => some b
    | some a => do
      let buf4 ← memcpy b.buf4 b.pos4 a.toList
      let buf4 ← memcpy buf4 (b.pos4 + 4) (htons r.port)
      pure { b with buf4 := buf4, pos4 := b.pos4 + 4 + 2 }
  else
    match inet.pton6 r.ip with
    | none => some b
    | some a => do
      let buf6 ← memcpy b.buf6 b.pos6 a.toList
      let buf6 ← memcpy buf6 (b.pos6 + 16) (htons r.port)
      pure { b with buf6 := buf6, pos6 := b.pos6 + 16 + 2 }

/-- The loop over the peers from iteration `i` on. -/
def copyRows (inet : Inet) (ar : AnnounceRequest) : List PeerStep → Int → PeerBuffers → Option PeerBuffers
  | .row r :: steps, i, b => if i < ar.numwant then copyRow inet ar r b >>= copyRows inet ar steps (i + 1) else some b
  | _, _, b => some b

/-- A list is copied into `buf` behind its length and sent from there: what `buf` holds then, and the piece. -/
def sendList (buf : Vector UInt8 1024) (text : Bytes) (list : Vector UInt8 1024) (pos : Nat) : Option (Vector UInt8 1024 × Bytes) := do
  let buf ← memcpy buf 0 (snprintf trackBufSize text ++ [0])
  if pos ≤ 1024 then
    let buf ← memcpy buf text.length (list.toList.take pos)
    pure (buf, buf.toList.take (text.length + pos))
  else none

/-- The part behind the loop of a compact reply, up to its end. -/
def sendLists (buf : Vector UInt8 1024) (b : PeerBuffers) : Option (List Bytes) := do
  let (buf, first) ← sendList buf (decimal b.pos4 ++ ascii ":") b.buf4 b.pos4
  if 0 < b.pos6 then
    let (_, second) ← sendList buf (ascii "10:peers_ipv6" ++ decimal b.pos6 ++ ascii ":") b.buf6 b.pos6
    pure [first, second]
  else pure [first]

end Traccoon
