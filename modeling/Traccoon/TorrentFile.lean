import Traccoon.Torrentinfo

/-!
# `getpeers/file.c`: the tracker and the hash of a torrent file

A pointer that may be null is an `Option`: `tracker` and `hash` point to pointers of the caller, which may be null themselves. `SHA1` is
a parameter. `malloc` and `fread` succeed. The length of the file is an `int`, although the buffer is allocated with the `long` that
`ftell` returns; a terminator in front of the buffer is a `fault`, and so is `free(tracker)`, which frees the caller's variable.
-/

namespace Traccoon

open CString

namespace Getpeers

/-- What a call of `read_torrentfile` prints, what its pointers point to afterwards, and what it returns. -/
structure TorrentFile where
  printed : Bytes
  tracker : Option (Option Bytes)
  hash : Option (Option (Vector UInt8 61))
  result : Int

/-- The buffer with the file: `last` is the byte behind it that `malloc` left, and the terminator goes where the `int` says. -/
def fileBuffer (content : Bytes) (last : UInt8) : Walk Bytes :=
  let length := int32 content.length
  if 0 ≤ length then .ok ((content ++ [last]).set length.toNat 0) else .error .fault

/-- `!(benc_entity_type(buffer)!=T_DICT||benc_entity_length(buffer,0)<0)`. -/
def isTorrent (buf : Bytes) (fuel : Nat) : Walk Bool := do
  match ← bencEntityType buf 0 with
  | .dict =>
    let length ← bencEntityLength buf fuel 0 0
    pure (0 ≤ length)
  | _ => pure false

/-- The part under `!(*tracker)`: the memory `*tracker` points to afterwards, if there is tracker information. -/
def readTracker (buf : Bytes) (fuel : Nat) : Walk (Option Bytes) := do
  let offset ← Benc.dictValueOffset buf fuel 0 (some (ascii "announce"))
  let length ← Benc.stringLength buf offset
  if offset < 0 ∨ length < 0 then pure none
  else do
    let data ← Benc.stringDataOffset buf offset
    let url ← Torrentinfo.bytesAt buf (data + offset) length
    pure (some (url ++ [0]))

/-- The part under `(**hash)==0`. -/
def readHash (sha1 : Bytes → Vector UInt8 20) (buf : Bytes) (fuel : Nat) (hash : Vector UInt8 61) : Walk (Vector UInt8 61) := do
  let offset ← Benc.dictValueOffset buf fuel 0 (some (ascii "info"))
  let length ← bencEntityLength buf fuel offset 0
  if offset < 0 ∨ length < 0 then .error .fault
  else match ← bencEntityType buf offset with
    | .dict => do
      let data ← Torrentinfo.bytesAt buf offset length
      match memcpy hash 0 (hexEncode (sha1 data).toList ++ [0]) with
      | some hash => pure hash
      | none => .error .fault
    | _ => .error .fault

/-- `read_torrentfile`, behind the terminator. -/
def readBuffer (sha1 : Bytes → Vector UInt8 20) (buf : Bytes) (fuel : Nat) (tracker : Option Bytes) (hash : Vector UInt8 61) :
    Walk TorrentFile := do
  if ← isTorrent buf fuel then do
    match ← (if tracker.isSome then pure tracker else readTracker buf fuel) with
    | some tracker => do
      let hash ← if hash[0]? = some 0 then readHash sha1 buf fuel hash else pure hash
      pure { printed := [], tracker := some (some tracker), hash := some (some hash), result := 0 }
    | none => pure { printed := ascii "Input file does not contain tracker information, aborting\n",
                     tracker := some none, hash := some (some hash), result := -1 }
  else pure { printed := ascii "Input file is not a valid torrent, aborting\n",
              tracker := some tracker, hash := some (some hash), result := -1 }

/-- `read_torrentfile(filename, tracker, hash)`; `fopen` says what is in the files that can be opened. -/
def readTorrentfile (sha1 : Bytes → Vector UInt8 20) (fopen : Bytes → Option Bytes) (last : UInt8) (fuel : Nat) (filename : Option Bytes)
    (tracker : Option (Option Bytes)) (hash : Option (Option (Vector UInt8 61))) : Walk TorrentFile :=
  let refuse := fun printed => pure { printed := printed, tracker := tracker, hash := hash, result := -1 }
  match filename, tracker, hash with
  | some filename, some tracker, some (some hash) =>
    match fopen filename with
    | some content => do
      let buf ← fileBuffer content last
      readBuffer sha1 buf fuel tracker hash
    | none => refuse (ascii "Failed to open input file\n")
  | some _, some _, some none => refuse (ascii "Hash pointer was NULL\n")
  | _, _, _ => refuse (ascii "Invalid arguments for read_torrentfile\n")

end Getpeers

end Traccoon
