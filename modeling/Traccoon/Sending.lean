import Traccoon.Comm
import Traccoon.Lib.Machine

/-!
# `neth.c`: what a socket takes of the pieces it is handed

The other modules say which pieces a reply is handed to `send` in, one call each. Here a call takes as many bytes as the socket answers,
and what it takes is what the client receives. No caller looks at the number, so the pieces do not depend on it.
-/

namespace Traccoon

open CString

/-- How many bytes of what it is offered each call of `send` takes, by the number of the call. -/
abbrev SendAnswers := Nat → Nat

/-- A connection: the calls of `send` made on it, and what the client has received. -/
structure Connection where
  calls : Nat
  received : Bytes
  deriving DecidableEq

/-- A connection on which nothing has been sent. -/
def Connection.start : Connection := { calls := 0, received := [] }

/-- `reallySend(fd, msg, len)`, with the number of bytes it returns. The loop that would go on behind them is commented out. -/
def reallySend (send : SendAnswers) (msg : Bytes) (fd : Connection) : Connection × Int :=
  ({ calls := fd.calls + 1, received := fd.received ++ msg.take (send fd.calls) }, send fd.calls)

/-- The pieces of a reply, one after the other. -/
def sendPieces (send : SendAnswers) (pieces : List Bytes) (fd : Connection) : Connection :=
  Machine.run (fun fd piece => (reallySend send piece fd).1) fd pieces

/-- The replies to a client: those of `track`, of `scrape` and of `parseSocket`, in pieces. -/
inductive Reply : List Bytes → Prop where
  | track {inet : Inet} {ar : AnnounceRequest} {interval : Int} {e : TrackEnv} {db : Db} {effects : Effects}
      (h : track inet ar interval e db = some effects) : Reply effects.sent
  | scrape (hash : Option Bytes) (e : ScrapeEnv) (db : Db) : Reply (scrape hash e db).sent
  | parseSocket {inet : Inet} {stack : Stack} {recvIter : Nat} {received : Option Bytes} {announceInterval : Int} {e : ClientEnv}
      {db : Db} {effects : Effects} {handled : Bool}
      (h : parseSocket inet stack recvIter received announceInterval e db = some (effects, handled)) : Reply effects.sent

/-- `sendString(fd, msg)` is one call of `reallySend`. -/
theorem sendPieces_sendString (send : SendAnswers) (msg : Bytes) (fd : Connection) :
    sendPieces send (sendString msg) fd = (reallySend send (cstr msg) fd).1 := rfl

@[simp] theorem sendPieces_cons (send : SendAnswers) (piece : Bytes) (pieces : List Bytes) (fd : Connection) :
    sendPieces send (piece :: pieces) fd =
      sendPieces send pieces { calls := fd.calls + 1, received := fd.received ++ piece.take (send fd.calls) } := rfl

end Traccoon
