import Traccoon.Encoding
import Traccoon.Getpeers

/-!
# `getpeers/net.c`: taking a URL apart, and the exchange with the tracker

`parse_url_destructive` writes terminators into the URL and points into it; a pointer is an index into the buffer, and the value is
`none` when it writes through a null pointer. The calls that `http_get` makes are answered by a `NetEnv`; what it allocates holds anything
at first. `none` says that a length is no `int` any more, or that a byte outside the response buffer is written.
-/

namespace Traccoon

open CString

namespace Net

/-! ## The URL -/

/-- `URL_COMPONENTS`: a status, and pointers into the URL. -/
structure UrlComponents where
  status : Int
  protocol : Option Nat
  credentials : Option Nat
  host : Option Nat
  port : Option Nat
  path : Option Nat
  deriving DecidableEq

/-- `strstr(buf + p, pat)`, as an index. -/
def strstrAt (buf : Bytes) (p : Nat) (pat : Bytes) : Option Nat :=
  (strstr (cstr (buf.drop p)) pat).map fun t => p + ((cstr (buf.drop p)).length - t.length)

/-- `strchr(buf + p, c)`, as an index. -/
def strchrAt (buf : Bytes) (p : Nat) (c : UInt8) : Option Nat := (charIndex (cstr (buf.drop p)) c).map (p + ·)

/-- "get host/[port]/path from url": the part from `url` on. A `:` is looked for in all of it. -/
def parseHost (buf : Bytes) (url : Nat) (rv : UrlComponents) : Option (Bytes × UrlComponents) :=
  let rv := { rv with host := some url }
  match strchrAt buf url 47 with
  | none => some (buf, { rv with status := -1 })
  | some _ =>
    let (buf, url, rv) := match strchrAt buf url 58 with
      | some colon => (buf.set colon 0, colon + 1, { rv with port := some (colon + 1) })
      | none => (buf, url, rv)
    match strchrAt buf url 47 with
    | none => none
    | some slash => some (buf.set slash 0, { rv with path := some (slash + 1) })

/-- `parse_url_destructive(url)`: the buffer it leaves and what it returns. -/
def parseUrlDestructive (buf : Bytes) : Option (Bytes × UrlComponents) :=
  let rv : UrlComponents := { status := 0, protocol := none, credentials := none, host := none, port := none, path := none }
  match strstrAt buf 0 (ascii "://") with
  | none => some (buf, { rv with status := -1 })
  | some sep =>
    let rv := { rv with protocol := some 0 }
    let buf := buf.set sep 0
    let url := sep + 3
    match strchrAt buf url 64 with
    | some mark => parseHost (buf.set mark 0) (mark + 1) { rv with credentials := some url }
    | none => parseHost buf url rv

/-- The string a pointer of the components points to. -/
def stringOf (buf : Bytes) (p : Option Nat) : Option Bytes := p.map fun p => cstr (buf.drop p)

/-- "parse tracker url" in `main`: what the request is made from, or the text that is printed before `main` gives up. -/
def trackerUrl (tracker : Bytes) : Option (Except Bytes Getpeers.UrlComponents) := do
  let (buf, url) ← parseUrlDestructive tracker
  if url.status ≠ 0 then pure (.error (ascii "Failed to parse tracker URL, aborting."))
  else if stringOf buf url.protocol ≠ some (ascii "http") then
    pure (.error (ascii "Unknown tracker protocol (" ++ (stringOf buf url.protocol).getD [] ++ ascii "), aborting\n"))
  else match stringOf buf url.host, stringOf buf url.path with
    | some host, some path => pure (.ok { host := host, port := (stringOf buf url.port).getD (ascii "80"), path := path })
    | _, _ => pure (.error (ascii "Tracker URL invalid"))

/-! ## The exchange -/

/-- `RESPONSE_BUFFER_CHUNK`. -/
def responseBufferChunk : Nat := 512

/-- `MAX_SEND_RETRY_COUNT`. -/
def maxSendRetryCount : Nat := 5

/-- What becomes of one address: no socket, no connection, or a connection. -/
inductive Attempt where
  | noSocket | refused | connected
  deriving DecidableEq

/-- How the calls of `http_get` are answered: the addresses that `getaddrinfo` gives, or its failure; what each call of `send` returns;
what the calls of `recv` deliver, `none` for a failure, and the end of the stream behind the last; and what the chunk that is allocated
for a call of `recv` holds. -/
structure NetEnv where
  addresses : Option (List Attempt)
  sends : Nat → Int
  recvs : List (Option Bytes)
  fresh : Nat → Vector UInt8 512

/-- What a call of `http_get` comes to: its value, `*response`, and the bytes `send` has taken. -/
structure Outcome where
  value : Int
  response : Option Bytes
  sent : Bytes
  deriving DecidableEq

/-- The `send` loop, `tries` calls left, in front of call number `status`: how many bytes have been taken, and the last `it_bytes`. -/
def sendLoop (sends : Nat → Int) (request : Bytes) : Nat → Nat → Nat → Int → Nat × Int
  | 0, _, bytes, itBytes => (bytes, itBytes)
  | tries + 1, status, bytes, itBytes =>
    if bytes < request.length then
      if sends status < 0 then (bytes, sends status)
      else sendLoop sends request tries (status + 1) (bytes + (sends status).toNat) (sends status)
    else (bytes, itBytes)

/-- One more chunk for the response, or `none` when `response_buffer_length` is no `int` any more. -/
def grow (response : Bytes) (chunk : Vector UInt8 512) : Option Bytes :=
  if 2147483648 ≤ response.length + responseBufferChunk then none else some (response ++ chunk.toList)

/-- The `recv` loop in front of call number `i`: the response buffer it leaves, and `bytes`. A piece that does not fill its chunk is taken
for the last. -/
def recvLoop (fresh : Nat → Vector UInt8 512) : List (Option Bytes) → Nat → Bytes → Nat → Option (Bytes × Nat)
  | [], i, response, bytes => do
    let buf ← grow response (fresh i)
    pure (buf, bytes)
  | none :: _, i, response, bytes => do
    let buf ← grow response (fresh i)
    pure (buf, bytes)
  | some piece :: recvs, i, response, bytes => do
    let buf ← grow response (fresh i)
    let buf := response ++ piece ++ buf.drop (response.length + piece.length)
    if piece.length = responseBufferChunk then recvLoop fresh recvs (i + 1) buf (bytes + piece.length)
    else pure (buf, bytes + piece.length)

/-- "get response": the part behind the `send` loop. -/
def readResponse (e : NetEnv) (sent : Bytes) : Option Outcome := do
  let (response, bytes) ← recvLoop e.fresh e.recvs 0 [] 0
  if bytes < response.length then
    let response := response.set bytes 0
    if (ascii "HTTP/").isPrefixOf response then pure { value := bytes, response := some response, sent := sent }
    else pure { value := -1, response := some response, sent := sent }
  else none

/-- The request text, and the exchange over an open connection. -/
def exchange (url : Getpeers.UrlComponents) (e : NetEnv) : Option Outcome :=
  let requestText := Getpeers.stringMerge (Getpeers.requestParts url)
  if 2147483648 ≤ requestText.length + 1 then none
  else
    let (bytes, itBytes) := sendLoop e.sends requestText maxSendRetryCount 0 0 0
    if itBytes < 0 then some { value := -1, response := none, sent := requestText.take bytes }
    else readResponse e (requestText.take bytes)

/-- `http_get(url, response, external_hints)`. -/
def httpGet (host port path : Option Bytes) (e : NetEnv) : Option Outcome :=
  match host, port, path, e.addresses with
  | some host, some port, some path, some addresses =>
    if .connected ∈ addresses then exchange { host := host, port := port, path := path } e
    else some { value := -1, response := none, sent := [] }
  | _, _, _, _ => some { value := -1, response := none, sent := [] }

end Net

end Traccoon
