import Traccoon.Server

/-!
# `thread.c`: making room for new connections, and copying them

The part of a pass of `workerthread` between the count of the queued connections and the load balancing, as one function: the count is
given, and so are the contents of the queue slots as they are met. What memory that `realloc` adds holds at first is given too, by its
index; `realloc` succeeds. The value is `none` when a connection would be copied behind the end of the buffer.
-/

namespace Traccoon

open HandOff

/-- A slot with a client. -/
def ClientData.isActive (x : ClientData) : Bool := socketValue x.socket != 0

/-- `clients`, the length of which is `clients_size`, and `clients_active`. -/
structure ClientBuffer where
  clients : List ClientData
  clientsActive : Nat

/-- "expand buffer", by the allocation delta. Of the new segments only `socket` is set. -/
def expandBuffer (fresh : Nat → ClientData) (clientsQueued : Nat) (b : ClientBuffer) : ClientBuffer :=
  let i : Int := clientsQueued - (b.clients.length - b.clientsActive : Int)
  if 0 < i then
    { b with clients := b.clients ++ (List.range i.toNat).map fun c => { fresh (b.clients.length + c) with socket := .empty } }
  else b

/-- A connection is copied to the first free slot from `c` on, for which the buffer is grown when there is none. The buffer, and where `c`
stands then. -/
def copyConnection (fresh : Nat → ClientData) (x : ClientData) (b : ClientBuffer) (c : Nat) : Option (ClientBuffer × Nat) :=
  let c := freeIndex b.clients c
  let clients := if c = b.clients.length then b.clients ++ [fresh c] else b.clients
  if c < clients.length then
    some ({ clients := clients.set c { x with recvIter := 0 }, clientsActive := b.clientsActive + 1 }, c)
  else none

/-- "release the main queue slot". -/
def releaseSlot (x : ClientData) : ClientData := { x with thread := 0, socket := .empty }

/-- "copy new connections": the buffer, and the queue slots as they are left. -/
def copyConnections (fresh : Nat → ClientData) (tid : Int) : List ClientData → ClientBuffer → Nat → Option (ClientBuffer × List ClientData)
  | [], b, _ => some (b, [])
  | x :: queue, b, c =>
    if x.thread = tid then do
      let (b, c) ← copyConnection fresh x b c
      let (b, queue) ← copyConnections fresh tid queue b c
      pure (b, releaseSlot x :: queue)
    else do
      let (b, queue) ← copyConnections fresh tid queue b c
      pure (b, x :: queue)

/-- All of this part, with the count of the active clients in front of it. -/
def expandAndCopy (fresh : Nat → ClientData) (tid : Int) (clientsQueued : Nat) (clients : List ClientData) (queue : List ClientData) :
    Option (ClientBuffer × List ClientData) :=
  copyConnections fresh tid queue (expandBuffer fresh clientsQueued { clients := clients, clientsActive := clients.countP (·.isActive) }) 0

end Traccoon
