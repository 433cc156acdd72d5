import Traccoon.Lib.CString

/-!
# `traccoon.h`, `encoding.h`: limits, error codes and the announce request
-/

namespace Traccoon

open CString

/-- `MAX_HASH_LEN`: the bytes of an info hash or a peer id. -/
def maxHashLen : Nat := 20

/-- `MAX_URLENC_HASH_LEN`: the longest percent-encoding of a hash. -/
def maxUrlencHashLen : Nat := maxHashLen * 3

/-- `MAX_HEXENC_HASH_LEN`. -/
def maxHexencHashLen : Nat := maxHashLen * 2

/-- `DB_NOSUCHHASH`. -/
def dbNosuchhash : Int := -2

/-- `DB_FAILED`. -/
def dbFailed : Int := -1

/-- `E_GENERIC`. -/
def eGeneric : Int := -3

/-- `MAXPEERS_SENT`. -/
def maxpeersSent : Int := 50

/-- `MAX_RECV_ITER`. -/
def maxRecvIter : Nat := 200

/-- `STANDARD_HEADER`. -/
def standardHeader : Bytes := ascii "X-LOLz-Had: much\r\n"

/-- `BT_EVENT`. -/
inductive BtEvent where
  | none | completed | stopped | started
  deriving DecidableEq, Repr

/-- The number an event is stored as. -/
def BtEvent.code : BtEvent → Int
  | .none => 0
  | .completed => 1
  | .stopped => 2
  | .started => 3

/-- `ANNOUNCE_REQUEST`. The two arrays of `MAX_URLENC_HASH_LEN+1` characters are kept as buffers, since they are decoded in
place; `ip` is kept as the string it holds. -/
structure AnnounceRequest where
  infoHash : Bytes
  peerId : Bytes
  ip : Bytes
  port : Int
  protover : Int
  event : BtEvent
  left : Int
  compact : Bool
  noPeerId : Bool
  numwant : Int
  deriving DecidableEq, Repr

/-- `ar->peer_id` read as a string. -/
def AnnounceRequest.peerIdText (ar : AnnounceRequest) : Bytes := cstr ar.peerId

end Traccoon
