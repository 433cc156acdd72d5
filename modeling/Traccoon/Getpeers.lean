import Traccoon.BencAccess
import Traccoon.Inet

/-!
# `getpeers`: the request it sends and what it makes of the reply

`getpeers.c`, with `string_merge` and the request text of `http_get`. Strings of the command line and of the tracker URL are given
without their terminators. What `main` prints about a reply is a list of `Line`s; the reply is the whole of what `http_get` has received,
with the terminator it writes and whatever lies behind.
-/

namespace Traccoon

open CString

namespace Getpeers

/-! ## The request -/

/-- `string_merge(parts)`. -/
def stringMerge (parts : List Bytes) : Bytes := (parts.map cstr).flatten

/-- The case `-h`: what the array `hash` holds afterwards, or the text that is printed before `main` gives up. -/
def hashArgument (hash arg : Bytes) : Except Bytes Bytes :=
  if maxUrlencHashLen < arg.length then .error (ascii "Hash argument too long, aborting\n")
  else if arg.all isXDigit then .ok (strncpy hash arg (arg.length + 1))
  else .error (ascii "Argument is not a valid hash, aborting\n")

/-- A string of digits; it may be empty. -/
abbrev DigitString := { s : Bytes // Digits s }

/-- The variables of `main` that the request is made from. The array `peerid` is as it is in front of `hashEncodeURL`, by which the
generated id and that of `-i` are both encoded. -/
structure Settings where
  hash : Vector UInt8 61
  peerid : Vector UInt8 61
  numwant : Option DigitString
  localPort : Option DigitString
  btEvent : Option Bytes
  requestCompact : Bool

/-- The port and the number of peers asked for. -/
def Settings.port (o : Settings) : DigitString := o.localPort.getD ⟨ascii "6969", by decide +kernel⟩

def Settings.peers (o : Settings) : DigitString := o.numwant.getD ⟨ascii "50", by decide +kernel⟩

/-- `URL_COMPONENTS`, as far as the request is made from them. -/
structure UrlComponents where
  host : Bytes
  port : Bytes
  path : Bytes

/-- The array `hash` behind "urlencode hash". The decoder's result is not looked at. -/
def encodeHash (hash : Bytes) : Option Bytes := do
  let (hash, _) ← destructiveHexDecode hash
  pure (hashEncodeURL hash maxUrlencHashLen)

/-- `path_parts`. -/
def pathParts (o : Settings) (hash path : Bytes) : List Bytes :=
  [path,
    ascii "?info_hash=", hash,
    ascii "&port=", (o.localPort.map Subtype.val).getD (ascii "6969"),
    ascii "&numwant=", (o.numwant.map Subtype.val).getD (ascii "50"),
    ascii "&peer_id=", hashEncodeURL o.peerid.toList (maxUrlencHashLen + 1),
    if o.btEvent.isSome then ascii "&event=" else [], o.btEvent.getD [],
    ascii "&compact=", if o.requestCompact then ascii "1" else ascii "0"]

/-- `request_parts` of `http_get`. -/
def requestParts (url : UrlComponents) : List Bytes :=
  [ascii "GET /", url.path, ascii " HTTP/1.1\r\n",
    ascii "Host: ", url.host, ascii ":", url.port, ascii "\r\n",
    ascii "User-Agent: ", ascii "traccoon/netlib", ascii "\r\n",
    ascii "Accept-Encoding: ", ascii "text/plain", ascii "\r\n",
    ascii "Connection: ", ascii "close", ascii "\r\n",
    ascii "\r\n"]

/-- The text that `http_get` sends for these settings to the tracker at this URL. -/
def request (o : Settings) (url : UrlComponents) : Option Bytes := do
  let hash ← encodeHash o.hash.toList
  pure (stringMerge (requestParts { url with path := stringMerge (pathParts o hash url.path) }))

/-! ## The reply -/

/-- What is printed: a text, or the line of a peer in compact format. -/
inductive Line where
  | text (s : Bytes)
  | peer (addr : Bytes) (port : Int)
  deriving DecidableEq

/-- The characters printed, `"\t\t%s:%d\n"` for a peer. -/
def Line.print : Line → Bytes
  | .text s => s
  | .peer addr port => ascii "\t\t" ++ addr ++ ascii ":" ++ decimalInt port ++ ascii "\n"

/-- `fwrite(buf + p, 1, n, stdout)`: the bytes written. A negative `int` is an enormous `size_t`. -/
def fwrite (buf : Bytes) (p n : Int) : Walk Bytes :=
  if n = 0 then .ok []
  else if 0 ≤ p ∧ 0 < n ∧ p + n ≤ buf.length then .ok ((buf.drop p.toNat).take n.toNat)
  else .error .fault

/-- The bytes of the string at `p`, as the three calls write them. -/
def writeString (buf : Bytes) (p : Int) : Walk Bytes := do
  let data ← Benc.stringDataOffset buf p
  let length ← Benc.stringLength buf p
  fwrite buf (p + data) length

/-- `inet_ntop(AF_INET, buf + p, …)`. With room for any address it does not fail. -/
def ntopAt (inet : Inet) (buf : Bytes) (p : Int) : Walk Bytes := do
  let b0 ← byteAt buf p
  let b1 ← byteAt buf (p + 1)
  let b2 ← byteAt buf (p + 2)
  let b3 ← byteAt buf (p + 3)
  pure (inet.ntop4 (ipv4 b0 b1 b2 b3))

/-- The loop over the records of six bytes, from `p` on, as many as are left. -/
def compactPeers (inet : Inet) (buf : Bytes) : Nat → Int → Walk (List Line)
  | 0, _ => pure []
  | n + 1, p => do
    let addr ← ntopAt inet buf p
    let hi ← byteAt buf (p + 4)
    let lo ← byteAt buf (p + 4 + 1)
    let lines ← compactPeers inet buf n (p + 6)
    pure (.peer addr (ntohs hi lo) :: lines)

/-- The case `T_STRING`: the string at `body + offset`. -/
def compactFormat (inet : Inet) (buf : Bytes) (body offset : Int) : Walk (List Line) := do
  let len ← Benc.stringLength buf (body + offset)
  let data ← Benc.stringDataOffset buf (body + offset)
  let offset := int32 (offset + data)
  let lines ← if len % 6 ≠ 0 then pure [.text (ascii "Compact peer data is invalid\n")]
    else compactPeers inet buf (len / 6).toNat (body + offset)
  pure (.text (ascii "\tPeers (received in compact format):\n") :: lines)

/-- The element at `p` of a list of peers. -/
def listedPeer (buf : Bytes) (fuel : Nat) (p : Int) : Walk (List Line) := do
  match ← bencEntityType buf p with
  | .dict =>
    let ip ← Benc.dictValueOffset buf fuel p (some (ascii "ip"))
    let port ← Benc.dictValueOffset buf fuel p (some (ascii "port"))
    let id ← Benc.dictValueOffset buf fuel p (some (ascii "peer id"))
    if ip < 0 ∨ port < 0 then pure [.text (ascii "Incomplete peer dictionary\n")]
    else
      let addr ← writeString buf (p + ip)
      let number ← Benc.intValue buf (p + port) (-1)
      let peerId ← if 0 < id then do
          let s ← writeString buf (p + id)
          pure [.text (ascii " "), .text s]
        else pure []
      pure ([.text (ascii "\t\t"), .text addr, .text (ascii ":" ++ decimalInt number)] ++ peerId ++ [.text (ascii "\n")])
  | _ => pure [.text (ascii "Invalid data received\n")]

/-- The loop over the list at `p`, from the element of number `item` on, which stands at `itemOffset`. -/
def listedPeers (buf : Bytes) (p : Int) : Nat → Int → Int → Walk (List Line)
  | 0, _, _ => .error .fuel
  | fuel + 1, item, itemOffset => do
    if 0 < itemOffset then
      let lines ← listedPeer buf fuel (p + itemOffset)
      let next ← Benc.listItemOffset buf fuel p (int32 (item + 1))
      let others ← listedPeers buf p fuel (int32 (item + 1)) next
      pure (lines ++ others)
    else pure []

/-- The case `T_LIST`. -/
def listFormat (buf : Bytes) (fuel : Nat) (p : Int) : Walk (List Line) := do
  let first ← Benc.listItemOffset buf fuel p 0
  let lines ← listedPeers buf p fuel 0 first
  pure (.text (ascii "\tPeers (received in non-compact format):\n") :: lines)

/-- The number under a key of the reply, between two texts, or `missing`. -/
def numberLine (buf : Bytes) (fuel : Nat) (body : Int) (key before behind : Bytes) (missing : List Line) : Walk (List Line) := do
  let offset ← Benc.dictValueOffset buf fuel body (some key)
  if 0 < offset then
    let n ← Benc.intValue buf (body + offset) (-1)
    pure [.text (before ++ decimalInt n ++ behind)]
  else pure missing

/-- The peers of the reply. A reply without the key `peers` is looked at one byte in front of its dictionary. -/
def peersSection (inet : Inet) (buf : Bytes) (fuel : Nat) (body : Int) : Walk (List Line) := do
  let offset ← Benc.dictValueOffset buf fuel body (some (ascii "peers"))
  match ← bencEntityType buf (body + offset) with
  | .list => listFormat buf fuel (body + offset)
  | .string => compactFormat inet buf body offset
  | _ => pure [.text (ascii "Failed to read peers section of reply\n")]

/-- The dictionary at `body`: the failure reason, or what the tracker tells about the torrent. -/
def readBody (inet : Inet) (buf : Bytes) (fuel : Nat) (body : Int) : Walk (List Line) := do
  let offset ← Benc.dictValueOffset buf fuel body (some (ascii "failure reason"))
  if 0 < offset then
    match ← bencEntityType buf (body + offset) with
    | .string =>
      let reason ← writeString buf (body + offset)
      pure [.text (ascii "Tracker error: "), .text reason]
    | _ => pure [.text (ascii "Tracker error: "), .text (ascii "Reason in invalid format")]
  else
    let interval ← numberLine buf fuel body (ascii "interval") (ascii "\tAnnounce interval: ") (ascii " seconds\n")
      [.text (ascii "Tracker response did not include announce interval\n")]
    let complete ← numberLine buf fuel body (ascii "complete") (ascii "\tActive Seeds: ") (ascii "\n") []
    let incomplete ← numberLine buf fuel body (ascii "incomplete") (ascii "\tActive Peers: ") (ascii "\n") []
    let peers ← peersSection inet buf fuel body
    pure (interval ++ complete ++ incomplete ++ peers)

/-- "parse response": what is printed about the reply in `response_buffer`, and the value `main` returns. -/
def parseResponse (inet : Inet) (buf : Bytes) (fuel : Nat) : Walk (List Line × Int) := do
  match strstr (cstr buf) (ascii "\r\n\r\n") with
  | none => pure ([.text (ascii "Invalid reply or non-protocol conforming server, aborting\n")], -1)
  | some t =>
    let body : Int := ((cstr buf).length - t.length + 4 : Nat)
    match ← bencEntityType buf body with
    | .dict =>
      let lines ← readBody inet buf fuel body
      pure (.text (ascii "\nTracker response:\n") :: lines, 0)
    | _ => pure ([.text (ascii "Response not a proper bencoded dictionary\n")], -1)

end Getpeers

end Traccoon
