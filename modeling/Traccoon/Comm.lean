import Traccoon.Track

/-!
# `comm.c`: what the tracker makes of the bytes a client has sent

`parseSocket` peeks at all bytes received so far, so it may be called on any first part of a request. `parseRequest` is the dispatch
and the parsing, on the text in `buf`; `parseSocket` carries out what it decides. A call that leaves the request unhandled sends
nothing until the client has been looked at `MAX_RECV_ITER` times.
-/

namespace Traccoon

open CString

/-- `sizeof(buf)-1` in `parseSocket`. -/
def recvSize : Nat := 1023

/-- What the two arrays on the stack of `parseSocket` hold when it is called: anything. -/
structure Stack where
  buf : Vector UInt8 1024
  hashbuf : Vector UInt8 61

/-- What a request text asks for. -/
inductive Request where
  /-- `track` is called. -/
  | announce (ar : AnnounceRequest)
  /-- `scrape` is called, with a hash or with NULL. -/
  | scrape (hash : Option Bytes)
  /-- Answered at once. -/
  | reply (sent : List Bytes)
  /-- Given up without an answer. -/
  | dropped
  /-- Not handled; answered with these pieces when the client has had its time. -/
  | pending (late : List Bytes)
  deriving DecidableEq

/-- "get event data". -/
def parseEvent : Option Bytes → BtEvent
  | none => .none
  | some event =>
    if (ascii "st").isPrefixOf event || (ascii "co").isPrefixOf event then
      if event[2]? = some 97 then .started
      else if event[2]? = some 111 then .stopped
      else if event[2]? = some 109 then .completed
      else .none
    else .none

/-- `ar.numwant`: from 1 to `MAXPEERS_SENT`. -/
def parseNumwant (numwant : Option Bytes) : Int :=
  let n := match numwant with
    | some numwant => int32 (strtoul numwant)
    | none => 0
  if n > maxpeersSent ∨ n ≤ 0 then maxpeersSent else n

/-- A value with its length, as the decoder will see it, of a hash or peer id. -/
def hasHashLength (value : Bytes) : Bool := decodedStrlen value (httpParamLength value) == maxHashLen

/-- A value copied into `info_hash` or `peer_id`, which `memset` has cleared. -/
def copyParam (value : Bytes) : Bytes := strncpy (List.replicate (maxUrlencHashLen + 1) 0) value (httpParamLength value)

/-- The announce branch, on the text between `GET /announce` and the blank behind the request target. -/
def parseAnnounce (inet : Inet) (buffer : Bytes) (conn : SockAddr) : Request :=
  match textAfter buffer (ascii "info_hash="), textAfter buffer (ascii "peer_id="), textAfter buffer (ascii "port=") with
  | some hash, some peerid, some port =>
    if hasHashLength hash && hasHashLength peerid then
      .announce
        { infoHash := copyParam hash
          peerId := copyParam peerid
          ip := match conn with
            | .in4 addr => inet.ntop4 addr
            | .in6 addr => inet.ntop6 addr
          port := int32 (strtoul port)
          protover := match conn with
            | .in4 _ => 4
            | .in6 _ => 6
          event := parseEvent (textAfter buffer (ascii "event="))
          left := match textAfter buffer (ascii "left=") with
            | some left => int32 (strtoul left)
            | none => 0
          compact := (strstr buffer (ascii "compact=1")).isSome
          noPeerId := (strstr buffer (ascii "no_peer_id=1")).isSome
          numwant := parseNumwant (textAfter buffer (ascii "numwant=")) }
    else .pending (sendHttpHeaders (ascii "400 Bad Syntax") (ascii "X-Failure-Reason: Failed Parameter Validation\r\n"))
  | _, _, _ => .pending (sendHttpHeaders (ascii "408 Timed out") (ascii "X-Failure-Reason: Missing parameters\r\n"))

/-- The hash of a scrape, copied into `hashbuf`, decoded and written in hex there. -/
def scrapeHash (hashbuf : Vector UInt8 61) (hash : Bytes) : Option Bytes := do
  let hashLen := httpParamLength hash
  let (hashbuf, _) ← destructiveURLDecode (hash.take hashLen ++ 0 :: hashbuf.toList.drop (hashLen + 1))
  pure (cstr (hashEncodeHex hashbuf (61 - 1)).1)

/-- The scrape branch, on the text between `GET /scrape` and the blank behind the request target. -/
def parseScrape (hashbuf : Vector UInt8 61) (buffer : Bytes) : Option Request :=
  match textAfter buffer (ascii "info_hash=") with
  | none => some (.scrape none)
  | some hash =>
    if hasHashLength hash then (scrapeHash hashbuf hash).map (fun hash => .scrape (some hash))
    else some (.pending [])

/-- The late answer to a request whose target is not followed by a blank. -/
def plainWrong : List Bytes :=
  sendHttpHeaders (ascii "400 Bad Syntax") (ascii "X-Failure-Reason: Thats just plain wrong\r\n")

/-- The answer to another HTTP request. -/
def milhouse : List Bytes :=
  sendHttpHeaders (ascii "200 OK") standardHeader ++
    (List.replicate 10 (sendString (ascii "Making Milhouse cry is not a science project\r\n"))).flatten

/-- The answer to what is not an HTTP GET request. -/
def notSupported : List Bytes := sendHttpHeaders (ascii "405 Not supported") standardHeader

/-- The case of `GET /announce`, on the text behind it. `conn` is what `getpeername` gives. -/
def announceRequest (inet : Inet) (buffer : Bytes) (conn : Option SockAddr) : Request :=
  match conn with
  | none => .dropped
  | some conn =>
    match charIndex buffer 32 with
    | some c => parseAnnounce inet (buffer.take c) conn
    | none => .pending plainWrong

/-- The case of `GET /scrape`, on the text behind it. -/
def scrapeRequest (hashbuf : Vector UInt8 61) (buffer : Bytes) : Option Request :=
  match charIndex buffer 32 with
  | some c => parseScrape hashbuf (buffer.take c)
  | none => some (.pending plainWrong)

/-- The dispatch on the string in `buf`. -/
def parseRequest (inet : Inet) (hashbuf : Vector UInt8 61) (text : Bytes) (conn : Option SockAddr) : Option Request :=
  if (ascii "GET /").isPrefixOf text then
    if (ascii "announce").isPrefixOf (text.drop 5) then some (announceRequest inet ((text.drop 5).drop 8) conn)
    else if (ascii "scrape").isPrefixOf (text.drop 5) then scrapeRequest hashbuf ((text.drop 5).drop 6)
    else some (.reply milhouse)
  else some (.reply notSupported)

/-- The string in `buf` after the peek. A failed `recv` returns -1, and the terminator is then written in front of the array. -/
def bufText (stack : Stack) : Option Bytes → Option Bytes
  | some received => some (cstr (received ++ 0 :: stack.buf.toList.drop (received.length + 1)))
  | none => if 0 ∈ stack.buf.toList then some (cstr stack.buf.toList) else none

/-- The request that the bytes peeked at make. -/
def peekRequest (inet : Inet) (stack : Stack) (peeked : Option Bytes) (conn : Option SockAddr) : Option Request := do
  let text ← bufText stack peeked
  parseRequest inet stack.hashbuf text conn

/-- How the calls made for one client are answered: `getpeername`, and the database. -/
structure ClientEnv where
  conn : Option SockAddr
  track : TrackEnv
  scrape : ScrapeEnv

/-- Carrying out a request: the effects, and whether the request has been handled. -/
def serve (inet : Inet) (recvIter : Nat) (announceInterval : Int) (e : ClientEnv) (db : Db) : Request → Option (Effects × Bool)
  | .announce ar => (track inet ar announceInterval e.track db).map (·, true)
  | .scrape hash => some (scrape hash e.scrape db, true)
  | .reply sent => some ({ sent := sent, lookups := [], db := db }, true)
  | .dropped => some ({ sent := [], lookups := [], db := db }, true)
  | .pending late =>
    if recvIter ≥ maxRecvIter then some ({ sent := late, lookups := [], db := db }, true)
    else some ({ sent := [], lookups := [], db := db }, false)

/-- `parseSocket(client, db, announceInterval)`. `received` is what the client has sent so far, `none` if `recv` fails. The value is
`none` when a read goes outside an array. -/
def parseSocket (inet : Inet) (stack : Stack) (recvIter : Nat) (received : Option Bytes) (announceInterval : Int) (e : ClientEnv)
    (db : Db) : Option (Effects × Bool) :=
  let peeked := received.map (·.take recvSize)
  if peeked.map List.length = some 0 ∨ peeked.map List.length = some recvSize then
    some ({ sent := [], lookups := [], db := db }, true)
  else do
    let request ← peekRequest inet stack peeked e.conn
    serve inet recvIter announceInterval e db request

end Traccoon
