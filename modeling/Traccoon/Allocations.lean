import Traccoon.Lib.Ledger
import Traccoon.Session

/-!
# `getpeers`: what it allocates, and the sockets it opens

What `main` of `getpeers` acquires and releases behind its command line, with the calls of `http_get` in it. The buffer of the response is
acquired with its first chunk. The decisions are those of `Net.httpGet` and `run`.
-/

namespace Traccoon

open CString Ledger

namespace Getpeers

/-- What is acquired. `tracker` is held from the command line on; a socket has the number of its address. -/
inductive Resource where
  /-- `tracker`, given by `-t` or read from the file. -/
  | tracker
  /-- `url.path=string_merge(path_parts)`. -/
  | path
  /-- `getaddrinfo(url.host,url.port,&hints,&conninfo)`. -/
  | conninfo
  /-- `sock=socket(…)`. -/
  | sock (i : Nat)
  /-- `request_text=string_merge(request_parts)`. -/
  | requestText
  /-- `*response=realloc(…)`. -/
  | response
  deriving DecidableEq

/-- The loop over the addresses, from number `i` on, and the number of the one that is connected to. -/
def connectUses : Nat → List Net.Attempt → List (Use Resource) × Option Nat
  | _, [] => ([], none)
  | i, .noSocket :: rest => connectUses (i + 1) rest
  | i, .refused :: rest =>
    let (uses, connected) := connectUses (i + 1) rest
    (.acquire (.sock i) :: .release (.sock i) :: uses, connected)
  | i, .connected :: _ => ([.acquire (.sock i)], some i)

/-- What is done on a connection that comes to this. Behind a failure of `send` the socket is not closed. -/
def exchangeUses (i : Nat) (outcome : Net.Outcome) : List (Use Resource) :=
  .acquire .requestText :: .release .requestText ::
    if outcome.response.isSome then [.acquire .response, .release (.sock i)] else []

/-- `http_get(url, response, external_hints)`. -/
def httpGetUses (host port path : Option Bytes) (e : Net.NetEnv) : Option (List (Use Resource)) :=
  match host, port, path, e.addresses with
  | some host, some port, some path, some (first :: rest) =>
    match connectUses 0 (first :: rest) with
    | (uses, some i) => do
      let outcome ← Net.exchange { host := host, port := port, path := path } e
      pure (.acquire .conninfo :: (uses ++ exchangeUses i outcome ++ [.release .conninfo]))
    | (uses, none) => some (.acquire .conninfo :: (uses ++ [.release .conninfo]))
  | _, _, _, _ => some []

/-- What is freed behind `http_get`. -/
def freeUses (outcome : Net.Outcome) : List (Use Resource) :=
  match outcome.response with
  | some _ => if outcome.value < 0 then [.release .tracker, .release .response] else [.release .response, .release .tracker]
  | none => [.release .tracker]

/-- `main` from "urlencode hash" on. -/
def runUses (o : Settings) (tracker : Bytes) (e : Net.NetEnv) : Option (List (Use Resource)) := do
  let hash ← encodeHash o.hash.toList
  match ← Net.trackerUrl tracker with
  | .error _ => pure [.release .tracker]
  | .ok url =>
    let path := stringMerge (pathParts o hash url.path)
    let uses ← httpGetUses (some url.host) (some url.port) (some path) e
    let outcome ← Net.httpGet (some url.host) (some url.port) (some path) e
    pure (.acquire .path :: (uses ++ .release .path :: freeUses outcome))

/-- The request cannot be sent on the connection to this address. -/
def SendFails (o : Settings) (tracker : Bytes) (e : Net.NetEnv) (i : Nat) : Prop :=
  ∃ url text addresses, Net.trackerUrl tracker = some (.ok url) ∧ request o url = some text ∧ e.addresses = some addresses ∧
    addresses.findIdx? (fun a => decide (a = .connected)) = some i ∧
    (Net.sendLoop e.sends text Net.maxSendRetryCount 0 0 0).2 < 0

end Getpeers

end Traccoon
