import Traccoon.Db
import Traccoon.Inet

/-!
# `track.c`: the replies to an announce and a scrape

What a request does is a record of `Effects`: the pieces handed to `send`, in order; the hash texts looked up; the tables left. How
SQLite answers is an input. The rows that stepping `QUERY_TORRENT_PEERS` gives are a list of answers, since the statement asks for a
random order; a list that has come to its end answers `SQLITE_DONE`.
-/

namespace Traccoon

open CString

/-- What handling a request does. -/
structure Effects where
  sent : List Bytes
  lookups : List Bytes
  db : Db

/-- The columns of a row of `QUERY_TORRENT_PEERS`. -/
structure PeerRow where
  peerId : Bytes
  ip : Bytes
  port : Int
  protover : Int
  deriving DecidableEq, Repr

/-- What stepping `QUERY_TORRENT_PEERS` gives. -/
inductive PeerStep where
  | row (r : PeerRow)
  | done
  | fails (c : ErrCode)

/-- How the calls in `track` are answered: `getTorrentId`, the prepare, the bind and the steps of `QUERY_TORRENT_PEERS`, and the two
activations of `updatePeer`. -/
structure TrackEnv where
  torrent : StmtEnv
  prepare : Int
  bind : Int
  steps : List PeerStep
  first : CallEnv
  again : CallEnv

/-- What the loop over the peers has sent and gathered. `pos4` and `pos6` are the lengths of the two buffers. -/
structure Listing where
  sent : List Bytes
  buf4 : Bytes
  buf6 : Bytes
  deriving DecidableEq, Repr

/-- `sizeof(buf)-1` in `track`. -/
def trackBufSize : Nat := 1023

/-- A string behind its length, `%d:%s`. -/
def lenString (s : Bytes) : Bytes := decimal s.length ++ ascii ":" ++ s

/-- The entry of a peer in a list that is not compact. -/
def peerEntry (noPeerId : Bool) (r : PeerRow) : Bytes :=
  if noPeerId then ascii "d2:ip" ++ lenString r.ip ++ ascii "4:porti" ++ decimalInt r.port ++ ascii "ee"
  else ascii "d2:ip" ++ lenString r.ip ++ ascii "4:porti" ++ decimalInt r.port ++ ascii "e7:peer id" ++ lenString r.peerId ++
    ascii "e"

/-- "check if we're our own peer". -/
def isRequester (ar : AnnounceRequest) (r : PeerRow) : Bool := ar.ip == r.ip && ar.peerIdText == r.peerId

/-- The case `SQLITE_ROW` of the loop over the peers. An address that cannot be converted is left out. -/
def pushPeer (inet : Inet) (ar : AnnounceRequest) (r : PeerRow) (l : Listing) : Listing :=
  if isRequester ar r then l
  else if !ar.compact then { l with sent := l.sent ++ sendString (snprintf trackBufSize (peerEntry ar.noPeerId r)) }
  else if r.protover = 4 then
    match inet.pton4 r.ip with
    | none => l
    | some a => { l with buf4 := l.buf4 ++ a.toList ++ htons r.port }
  else
    match inet.pton6 r.ip with
    | none => l
    | some a => { l with buf6 := l.buf6 ++ a.toList ++ htons r.port }

/-- The loop over the peers from iteration `i` on. -/
def peerLoop (inet : Inet) (ar : AnnounceRequest) : List PeerStep → Int → Listing → Listing
  | .row r :: steps, i, l => if i < ar.numwant then peerLoop inet ar steps (i + 1) (pushPeer inet ar r l) else l
  | _, _, l => l

/-- The opening of a reply. -/
def respOpen (interval : Int) (compact : Bool) : Bytes :=
  ascii "d8:intervali" ++ decimalInt interval ++ ascii "e5:peers" ++ if compact then [] else ascii "l"

/-- The pieces of a reply that lists peers. -/
def peerReply (inet : Inet) (ar : AnnounceRequest) (interval : Int) (steps : List PeerStep) : List Bytes :=
  let l := peerLoop inet ar steps 0 { sent := [], buf4 := [], buf6 := [] }
  sendString (snprintf trackBufSize (respOpen interval ar.compact)) ++ l.sent ++
    (if ar.compact then
      [snprintf trackBufSize (decimal l.buf4.length ++ ascii ":") ++ l.buf4] ++
        if 0 < l.buf6.length then [snprintf trackBufSize (ascii "10:peers_ipv6" ++ decimal l.buf6.length ++ ascii ":") ++ l.buf6]
        else []
    else []) ++
    sendString (if ar.compact then ascii "e" else ascii "ee")

/-- The texts of the failure replies. -/
def hashNotRecognized : Bytes := ascii "d14:failure reason19:Hash not recognizede"

def databaseErrorTid : Bytes := ascii "d14:failure reason20:Database error (TID)e"

def serverError : Bytes := ascii "d14:failure reason12:Server errore"

/-- "prepare data": the requester's address in lower case, and its info hash in hex. A hash of unsupported length is reported, and
used as the decoder left it. -/
def prepareData (ar : AnnounceRequest) : Option AnnounceRequest := do
  let (infoHash, _) ← destructiveURLDecode ar.infoHash
  pure { ar with ip := strtolower ar.ip, infoHash := (hashEncodeHex infoHash maxUrlencHashLen).1 }

/-- `track(socket, db, ar, interval)`. `none` says that a read went outside a buffer, or `updatePeer` recursed twice. -/
def track (inet : Inet) (ar : AnnounceRequest) (interval : Int) (e : TrackEnv) (db : Db) : Option Effects := do
  let ar ← prepareData ar
  let hash := cstr ar.infoHash
  let headers := sendHttpHeaders (ascii "200 OK") standardHeader
  let torrentid := getTorrentId db hash e.torrent
  if torrentid = dbNosuchhash then pure { sent := headers ++ sendString hashNotRecognized, lookups := [hash], db := db }
  else if torrentid = dbFailed then pure { sent := headers ++ sendString databaseErrorTid, lookups := [hash], db := db }
  else if e.prepare ≠ sqliteOk then pure { sent := headers ++ sendString serverError, lookups := [hash], db := db }
  else if e.bind ≠ sqliteOk then pure { sent := headers ++ sendString serverError, lookups := [hash], db := db }
  else
    let (_, db') ← updatePeer torrentid ar [e.first, e.again] db
    pure { sent := headers ++ peerReply inet ar interval e.steps, lookups := [hash], db := db' }

/-- How the statements in `scrape` are answered. -/
structure ScrapeEnv where
  torrent : StmtEnv
  seeds : StmtEnv
  completed : StmtEnv
  peers : StmtEnv

/-- `sizeof(buf)-1` in `scrape`. -/
def scrapeBufSize : Nat := 511

/-- The body of a scrape reply: the hash, and the three counts in the order they are printed. -/
def scrapeBody (hash : Bytes) (complete downloaded incomplete : Int) : Bytes :=
  ascii "d5:files" ++ lenString hash ++ ascii "d8:completei" ++ decimalInt complete ++ ascii "e10:downloadedi" ++
    decimalInt downloaded ++ ascii "e10:incompletei" ++ decimalInt incomplete ++ ascii "eee"

/-- `scrape(socket, db, hash)`. -/
def scrape (hash : Option Bytes) (e : ScrapeEnv) (db : Db) : Effects :=
  match hash with
  | some hash =>
    let headers := sendHttpHeaders (ascii "200 OK") standardHeader
    let torrent := getTorrentId db hash e.torrent
    if torrent = dbNosuchhash then { sent := headers ++ sendString hashNotRecognized, lookups := [hash], db := db }
    else if torrent = dbFailed then { sent := headers ++ sendString databaseErrorTid, lookups := [hash], db := db }
    else
      let body := scrapeBody hash (queryTorrentParam db Db.getSeedCount torrent e.seeds)
        (queryTorrentParam db Db.getCompletionCount torrent e.completed)
        (queryTorrentParam db Db.getPeersCount torrent e.peers)
      { sent := headers ++ sendString (snprintf scrapeBufSize body), lookups := [hash], db := db }
  | none => { sent := sendHttpHeaders (ascii "501 Not Implemented") standardHeader, lookups := [], db := db }

end Traccoon
