import Traccoon.Comm

/-!
# `thread.c`: one client in the loop of a worker

Each pass of the loop in `workerthread` counts an iteration for every client it holds, and calls `parseSocket` for those whose
socket `select` reports readable. What a pass meets at one client is a `Round`. What else happens to the tables between two rounds
is not part of `Client.run`; in `Client.passes` each pass brings the tables it finds.
-/

namespace Traccoon

open CString

/-- What one pass meets at a client: its socket is not readable, or it is, with these bytes to peek at (`none` if `recv` fails) and
whatever the stack of `parseSocket` holds. -/
inductive Round where
  | idle
  | readable (stack : Stack) (received : Option Bytes)

/-- A client that a worker holds: `recv_iter`, whether its socket has been closed, and what has been done for it. -/
structure Client where
  recvIter : Nat
  closed : Bool
  effects : Effects

/-- Nothing sent and nothing looked up. -/
def Effects.none (db : Db) : Effects := { sent := [], lookups := [], db := db }

/-- Effects one after the other. -/
def Effects.andThen (a b : Effects) : Effects := { sent := a.sent ++ b.sent, lookups := a.lookups ++ b.lookups, db := b.db }

/-- A client copied from the queue. -/
def Client.start (db : Db) : Client := { recvIter := 0, closed := false, effects := Effects.none db }

/-- The answer to a client that has had its time. -/
def wrongDoing : List Bytes := sendHttpHeaders (ascii "408 Timed Out") (ascii "X-Failure-Reason: Youre doing it wrong\r\n")

/-- One pass of the loop of `workerthread` for one client. -/
def Client.round (inet : Inet) (announceInterval : Int) (e : ClientEnv) (c : Client) (r : Round) : Option Client :=
  if c.closed then some c
  else do
    let recvIter := c.recvIter + 1
    let (effects, handled) ← match r with
      | .idle => some (Effects.none c.effects.db, false)
      | .readable stack received => parseSocket inet stack recvIter received announceInterval e c.effects.db
    if !handled && recvIter > maxRecvIter then
      pure
        { recvIter := recvIter, closed := true
          effects := (c.effects.andThen effects).andThen { sent := wrongDoing, lookups := [], db := effects.db } }
    else pure { recvIter := recvIter, closed := handled, effects := c.effects.andThen effects }

/-- The passes of the loop, one after the other. -/
def Client.run (inet : Inet) (announceInterval : Int) (e : ClientEnv) : List Round → Client → Option Client
  | [], c => some c
  | r :: rounds, c => (c.round inet announceInterval e r).bind (Client.run inet announceInterval e rounds)

/-- A pass among others: what it meets at the client, how the calls it makes are answered, and the tables as the other threads have
left them. -/
structure Pass where
  round : Round
  env : ClientEnv
  db : Db

/-- A pass over a client, on the tables as they are then. -/
def Client.pass (inet : Inet) (announceInterval : Int) (c : Client) (p : Pass) : Option Client :=
  Client.round inet announceInterval p.env { c with effects := { c.effects with db := p.db } } p.round

/-- Passes one after the other, with whatever happens to the tables between them. -/
def Client.passes (inet : Inet) (announceInterval : Int) : List Pass → Client → Option Client
  | [], c => some c
  | p :: ps, c => (c.pass inet announceInterval p).bind (Client.passes inet announceInterval ps)

variable {inet : Inet} {announceInterval : Int} {e : ClientEnv}

@[simp] theorem Effects.andThen_none (a : Effects) : a.andThen (Effects.none a.db) = a := by
  simp [Effects.andThen, Effects.none]

@[simp] theorem Effects.none_andThen (db : Db) (b : Effects) : (Effects.none db).andThen b = b := by
  simp [Effects.andThen, Effects.none]

theorem Client.run_cons (r : Round) (rounds : List Round) (c : Client) :
    Client.run inet announceInterval e (r :: rounds) c =
      (c.round inet announceInterval e r).bind (Client.run inet announceInterval e rounds) := rfl

/-- Nothing more is done for a client whose socket is closed. -/
theorem Client.run_closed (rounds : List Round) {c : Client} (h : c.closed = true) :
    Client.run inet announceInterval e rounds c = some c := by
  induction rounds with
  | nil => rfl
  | cons r rounds ih => rw [Client.run_cons, Client.round, if_pos h, Option.bind_some, ih]

/-- A pass over an open client that has not had its time and sends nothing. -/
theorem Client.round_idle {c : Client} (hc : c.closed = false) (hn : c.recvIter < maxRecvIter) :
    c.round inet announceInterval e .idle = some { c with recvIter := c.recvIter + 1 } := by
  have hlate : ¬maxRecvIter < c.recvIter + 1 := by omega
  simp [Client.round, hc, hlate]

/-- A pass over an open client that has not had its time, with something to peek at. -/
theorem Client.round_readable {c : Client} (hc : c.closed = false) (hn : c.recvIter < maxRecvIter) {stack : Stack}
    {received : Option Bytes} {effects : Effects} {handled : Bool}
    (h : parseSocket inet stack (c.recvIter + 1) received announceInterval e c.effects.db = some (effects, handled)) :
    c.round inet announceInterval e (.readable stack received) =
      some { recvIter := c.recvIter + 1, closed := handled, effects := c.effects.andThen effects } := by
  have hlate : ¬maxRecvIter < c.recvIter + 1 := by omega
  simp [Client.round, hc, h, hlate]

end Traccoon
