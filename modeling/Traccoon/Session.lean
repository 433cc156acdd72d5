import Traccoon.Lemmas.Listing
import Traccoon.Lemmas.SentHash
import Traccoon.Net
import Traccoon.Replies
import Traccoon.Sending

/-!
# One run of `getpeers` against the tracker

`run` is `main` of `getpeers` behind its command line. What it asks for is an `announce`, what the tracker answers is a bencoded `reply`,
and what is printed about it are the `lines`: the three are told from the settings, the torrent and the rows, without the texts that go
over the network.
-/

namespace Traccoon

open CString Bencode

namespace Getpeers

/-- `main` from "urlencode hash" on: what it prints itself, and the value it returns. `none` says that it writes through a null pointer, or
that a length in `http_get` is no `int` any more. -/
def run (inet : Inet) (o : Settings) (tracker : Bytes) (e : Net.NetEnv) (fuel : Nat) : Option (Walk (List Line × Int)) := do
  let hash ← encodeHash o.hash.toList
  match ← Net.trackerUrl tracker with
  | .error message => pure (pure ([.text message], 1))
  | .ok url =>
    let outcome ← Net.httpGet (some url.host) (some url.port) (some (stringMerge (pathParts o hash url.path))) e
    match outcome.response with
    | some response =>
      if outcome.value < 0 then pure (pure ([.text (ascii "Error fetching peers, aborting\n")], 1))
      else pure (parseResponse inet response fuel)
    | none => pure (pure ([.text (ascii "Error fetching peers, aborting\n")], 1))

/-- The announce that the tracker takes the request for, when it comes from this address and asks for the hash `bs`. `getpeers` does not
say what it has left. -/
def Settings.announce (inet : Inet) (conn : SockAddr) (o : Settings) (bs : Bytes) : AnnounceRequest :=
  { infoHash := copyParam (urlEncode bs)
    peerId := copyParam (urlEncode (o.peerid.toList.take maxHashLen))
    ip := match conn with
      | .in4 addr => inet.ntop4 addr
      | .in6 addr => inet.ntop6 addr
    port := int32 (strtoul o.port.val)
    protover := match conn with
      | .in4 _ => 4
      | .in6 _ => 6
    event := parseEvent o.btEvent
    left := 0
    compact := o.requestCompact
    noPeerId := false
    numwant := parseNumwant (some o.peers.val) }

end Getpeers

/-- A reply that tells of a failure. -/
def failureValue (reason : String) : Value := .dict [(ascii "failure reason", .str (ascii reason))]

/-- Why an announce for this hash is refused, if it is. -/
def refusal (hash : Bytes) (e : TrackEnv) (db : Db) : Option String :=
  if getTorrentId db hash e.torrent = dbNosuchhash then some "Hash not recognized"
  else if getTorrentId db hash e.torrent = dbFailed then some "Database error (TID)"
  else if e.prepare ≠ sqliteOk ∨ e.bind ≠ sqliteOk then some "Server error"
  else none

/-- The dictionary that `track` sends, when it looks up this hash. -/
def trackerReply (inet : Inet) (interval : Int) (ar : AnnounceRequest) (hash : Bytes) (e : TrackEnv) (db : Db) : Value :=
  match refusal hash e db with
  | some reason => failureValue reason
  | none => replyValue inet interval ar (delivered ar e.steps)

namespace Getpeers

/-- What is printed for a number: one digit alone is none for `benc_int_value`. -/
def shown (n : Int) : Bytes := decimalInt (if n < 0 ∨ 9 < n then n else -1)

/-- The line of a peer in a list. -/
def peerLine (number : Int → Bytes) (r : PeerRow) : List Line :=
  [.text (ascii "\t\t"), .text r.ip, .text (ascii ":" ++ number r.port), .text (ascii " "), .text r.peerId, .text (ascii "\n")]

/-- What is printed about these rows, where numbers are printed so. In the compact form these are the IPv4 ones, with ports of 16 bits. -/
def peerLines (number : Int → Bytes) (compact : Bool) (rows : List PeerRow) : List Line :=
  if compact then
    .text (ascii "\tPeers (received in compact format):\n") :: (rows4 rows).map fun r => .peer r.ip (r.port % 65536)
  else .text (ascii "\tPeers (received in non-compact format):\n") :: rows.flatMap (peerLine number)

/-- What is printed about the answer to an announce. -/
def replyLines (number : Int → Bytes) (interval : Int) (ar : AnnounceRequest) (hash : Bytes) (e : TrackEnv) (db : Db) : List Line :=
  match refusal hash e db with
  | some reason => [.text (ascii "Tracker error: "), .text (ascii reason)]
  | none =>
    .text (ascii "\tAnnounce interval: " ++ number interval ++ ascii " seconds\n") :: peerLines number ar.compact (delivered ar e.steps)

/-- No number printed as a decimal has one digit alone. -/
def NoSingleDigits (interval : Int) (ar : AnnounceRequest) (rows : List PeerRow) : Prop :=
  (interval < 0 ∨ 9 < interval) ∧ (ar.compact = false → ∀ r ∈ rows, r.port < 0 ∨ 9 < r.port)

end Getpeers

end Traccoon
