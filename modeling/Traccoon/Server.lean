import Traccoon.Lib.HandOff
import Traccoon.Lib.Machine
import Traccoon.Thread

/-!
# `traccoon.c` and `thread.c`: the accept queue, the workers, and the end of the server

The main thread accepts connections into the slots of a queue, and the workers copy those assigned to them into buffers of their own.
The fields `thread` and `socket` of a slot are registers that are read and written one at a time; a step of a thread touches one of
them at most, and the steps of the threads interleave in any order. Where a thread stands is its program counter. What the system calls
give, what `LAZIEST_WORKER.threadID` holds when it is read, and whether a request has been handled are inputs of a step (`Answers`).
-/

namespace Traccoon

open HandOff

/-- `workerthreads` and `queuesize`. Without a slot the accept loop divides by zero. -/
structure Config where
  workerthreads : Nat
  queuesize : Nat
  pos : 0 < queuesize

/-- A connection: which one of the calls of `accept` that succeeded gave it, and its descriptor, a number that may come again. -/
structure Conn where
  serial : Nat
  fd : { n : Int // 0 < n }
  deriving DecidableEq

/-- What a field `socket` holds: 0, -1, or the descriptor of a connection. -/
abbrev Socket := Content Conn

/-- The value of the field. -/
def socketValue : Socket → Int
  | .empty => 0
  | .failed => -1
  | .item conn => conn.fd.1

@[simp] theorem socketValue_eq_zero {x : Socket} : socketValue x = 0 ↔ x = .empty := by
  cases x with
  | empty => simp [socketValue]
  | failed => simp [socketValue]
  | item conn =>
    have := conn.fd.2
    simp only [socketValue, reduceCtorEq, iff_false]
    omega

@[simp] theorem socketValue_eq_neg_one {x : Socket} : socketValue x = -1 ↔ x = .failed := by
  cases x with
  | empty => simp [socketValue]
  | failed => simp [socketValue]
  | item conn =>
    have := conn.fd.2
    simp only [socketValue, reduceCtorEq, iff_false]
    omega

/-- `_CLIENT`: a slot of the queue, or of a worker's buffer. -/
structure ClientData where
  thread : Int
  socket : Socket
  recvIter : Nat
  deriving DecidableEq

/-- A slot that `memset` has cleared, or a new segment of a buffer. Of the latter the source sets `socket` only. -/
def ClientData.zero : ClientData := { thread := 0, socket := .empty, recvIter := 0 }

/-- What the main thread does next. -/
inductive MainPc where
  /-- `while(!GLOBALSTATE.killserver)`. -/
  | loop
  /-- `if(aqueue[i].socket==0)`. -/
  | look (i : Nat)
  /-- `aqueue[i].thread=0`. -/
  | clearThread (i : Nat)
  /-- `aqueue[i].socket=accept(servsock,NULL,NULL)`. -/
  | accept (i : Nat)
  /-- `if(aqueue[i].socket==-1)`. -/
  | test (i : Nat)
  /-- `aqueue[i].socket=0`. -/
  | reset (i : Nat)
  /-- `aqueue[i].thread=LAZIEST_WORKER.threadID`. -/
  | assign (i : Nat)
  /-- `if(gettimeofday(&timeNow,NULL))`. -/
  | clock
  /-- `threads[j].shutdown=true`. -/
  | stop (j : Nat)
  /-- `pthread_join(threads[j].thread,NULL)`. -/
  | join (j : Nat)
  /-- `if(aqueue[i].socket!=0) close(aqueue[i].socket)`. -/
  | sweep (i : Nat)
  /-- `exit(error)`. -/
  | done
  deriving DecidableEq

/-- What a worker does next. `i` is a slot of the queue, `k` one of the buffer, from which free ones are looked for. -/
inductive WorkerPc where
  /-- `while(!tp->shutdown)`. -/
  | loop
  /-- `if(tp->queue[i].thread==tp->tid) clients_queued++`. -/
  | count (i clientsQueued : Nat)
  /-- `if(tp->queue[i].thread==tp->tid)`. -/
  | scan (i k : Nat)
  /-- `memcpy(&clients[c],&(tp->queue[i]),sizeof(_CLIENT))`. -/
  | copy (i k : Nat)
  /-- `tp->queue[i].thread=0`. -/
  | freeThread (i k : Nat)
  /-- `tp->queue[i].socket=0`. -/
  | freeSocket (i k : Nat)
  /-- `clients[i].recv_iter++` for each client. -/
  | tally
  /-- `if(clients[k].socket!=0)`, and all that is done for the client. -/
  | serve (k : Nat)
  /-- "get out of load balancing". -/
  | leave
  /-- `if(clients[k].socket!=0) close(clients[k].socket)`. -/
  | closeBuffer (k : Nat)
  /-- `if(tp->queue[i].thread==tp->tid)`, "close/reassign clients waiting in the main queue". -/
  | release (i : Nat)
  /-- `close(tp->queue[i].socket)`, or `tp->queue[i].thread=LAZIEST_WORKER.threadID`. -/
  | dispose (i : Nat)
  /-- `tp->queue[i].thread=0`. -/
  | clearThread (i : Nat)
  /-- `tp->queue[i].socket=0`. -/
  | clearSocket (i : Nat)
  /-- `return tp`. -/
  | terminated
  deriving DecidableEq

/-- What a step may find: the result of `accept`, -1 as none; whether `gettimeofday` fails; `LAZIEST_WORKER.threadID`; whether the
request of a readable client is handled. -/
structure Answers where
  accept : Option { n : Int // 0 < n }
  clockFails : Bool
  laziest : Int
  handled : Bool

/-- A step: of the main thread, of a worker, or of the signal handler. -/
inductive ServerAction (c : Config) where
  | main (e : Answers)
  | worker (w : Fin c.workerthreads) (e : Answers)
  | sigint

/-- A worker thread: where it stands, and its buffer. -/
structure Worker where
  pc : WorkerPc
  clients : List ClientData

/-- The server. `accepted`, `copies` and `closed` record what has happened: the connections accepted, the sockets that workers have
copied from the queue, and those that have been closed. -/
structure Server (c : Config) where
  main : MainPc
  killserver : Bool
  shutdown : Nat → Bool
  queue : Nat → ClientData
  workers : Fin c.workerthreads → Worker
  accepted : List Conn
  copies : List (Fin c.workerthreads × Socket)
  closed : List Socket

variable {c : Config}

/-- `threads[w].tid`. -/
def tid (w : Fin c.workerthreads) : Int := w.1 + 1

namespace Server

/-- The server when the accept loop begins. -/
def start (c : Config) : Server c :=
  { main := .loop, killserver := false, shutdown := fun _ => false, queue := fun _ => .zero
    workers := fun _ => { pc := .loop, clients := [] }, accepted := [], copies := [], closed := [] }

/-! ## What the steps are made of -/

def setMain (s : Server c) (pc : MainPc) : Server c := { s with main := pc }

/-- `queue[i].thread=t`. -/
def setThread (s : Server c) (i : Nat) (t : Int) : Server c :=
  { s with queue := Function.update s.queue i { s.queue i with thread := t } }

/-- `queue[i].socket=x`. -/
def setSocket (s : Server c) (i : Nat) (x : Socket) : Server c :=
  { s with queue := Function.update s.queue i { s.queue i with socket := x } }

def setWorker (s : Server c) (w : Fin c.workerthreads) (wk : Worker) : Server c :=
  { s with workers := Function.update s.workers w wk }

/-- `close(x)`. -/
def close (s : Server c) (x : Socket) : Server c := { s with closed := s.closed ++ [x] }

/-- The connection that `accept` returns. -/
def nextConn (s : Server c) (fd : { n : Int // 0 < n }) : Conn := { serial := s.accepted.length, fd := fd }

/-- Thread `j` has returned. -/
def exited (s : Server c) (j : Nat) : Bool := decide (∀ w : Fin c.workerthreads, w.1 = j → (s.workers w).pc = .terminated)

end Server

open Server

/-- The buffer slot for a client, from `k` on: the first free one, or a new one behind the last. -/
def freeIndex (clients : List ClientData) (k : Nat) : Nat :=
  k + (clients.drop k).findIdx (fun x => socketValue x.socket == 0)

/-- The buffer with a client in that slot. -/
def insertClient (clients : List ClientData) (k : Nat) (x : ClientData) : List ClientData :=
  clients.take k ++ x :: clients.drop (k + 1)

/-- "expand buffer" by the number of clients queued less that of the free slots. -/
def expand (clients : List ClientData) (clientsQueued : Nat) : List ClientData :=
  clients ++ List.replicate (clientsQueued - clients.countP (fun x => socketValue x.socket == 0)) .zero

/-- The pass that builds the select set. -/
def tallyClients (clients : List ClientData) : List ClientData :=
  clients.map (fun x => if socketValue x.socket ≠ 0 then { x with recvIter := x.recvIter + 1 } else x)

/-- Whether the worker is done with a client: its request has been handled, or it has had its time. -/
def finished (e : Answers) (x : ClientData) : Bool := socketValue x.socket != 0 && (e.handled || decide (x.recvIter > maxRecvIter))

/-- A step of `main`, from the accept loop to its end. -/
def mainStep (e : Answers) (s : Server c) : Server c :=
  match s.main with
  | .loop => if s.killserver then s.setMain (.stop 0) else s.setMain (.look 0)
  | .look i =>
    if socketValue (s.queue i).socket = 0 then s.setMain (.clearThread i) else s.setMain (.look ((i + 1) % c.queuesize))
  | .clearThread i => (s.setThread i 0).setMain (.accept i)
  | .accept i =>
    match e.accept with
    | some fd => { (s.setSocket i (.item (s.nextConn fd))).setMain (.test i) with accepted := s.accepted ++ [s.nextConn fd] }
    | none => (s.setSocket i .failed).setMain (.test i)
  | .test i => if socketValue (s.queue i).socket = -1 then s.setMain (.reset i) else s.setMain (.assign i)
  | .reset i => (s.setSocket i .empty).setMain .clock
  | .assign i => (s.setThread i e.laziest).setMain .clock
  | .clock => { s.setMain .loop with killserver := s.killserver || e.clockFails }
  | .stop j =>
    if j < c.workerthreads then { s.setMain (.join j) with shutdown := Function.update s.shutdown j true }
    else s.setMain (.sweep 0)
  | .join j => if s.exited j then s.setMain (.stop (j + 1)) else s
  | .sweep i =>
    if i < c.queuesize then
      (if socketValue (s.queue i).socket ≠ 0 then s.close (s.queue i).socket else s).setMain (.sweep (i + 1))
    else s.setMain .done
  | .done => s

/-- A step of `workerthread`, once it has opened the database. -/
def workerStep (w : Fin c.workerthreads) (e : Answers) (s : Server c) : Server c :=
  let clients := (s.workers w).clients
  match (s.workers w).pc with
  | .loop => s.setWorker w { pc := if s.shutdown w then .leave else .count 0 0, clients := clients }
  | .count i clientsQueued =>
    if i < c.queuesize then
      s.setWorker w
        { pc := .count (i + 1) (if (s.queue i).thread = tid w then clientsQueued + 1 else clientsQueued), clients := clients }
    else s.setWorker w { pc := .scan 0 0, clients := expand clients clientsQueued }
  | .scan i k =>
    if i < c.queuesize then
      if (s.queue i).thread = tid w then s.setWorker w { pc := .copy i k, clients := clients }
      else s.setWorker w { pc := .scan (i + 1) k, clients := clients }
    else s.setWorker w { pc := .tally, clients := clients }
  | .copy i k =>
    let k' := freeIndex clients k
    { s.setWorker w { pc := .freeThread i k', clients := insertClient clients k' { s.queue i with recvIter := 0 } } with
      copies := s.copies ++ [(w, (s.queue i).socket)] }
  | .freeThread i k => (s.setThread i 0).setWorker w { pc := .freeSocket i k, clients := clients }
  | .freeSocket i k => (s.setSocket i .empty).setWorker w { pc := .scan (i + 1) k, clients := clients }
  | .tally => s.setWorker w { pc := .serve 0, clients := tallyClients clients }
  | .serve k =>
    match clients[k]? with
    | some x =>
      if finished e x then
        (s.close x.socket).setWorker w { pc := .serve (k + 1), clients := clients.set k { x with socket := .empty } }
      else s.setWorker w { pc := .serve (k + 1), clients := clients }
    | none => s.setWorker w { pc := .loop, clients := clients }
  | .leave =>
    if e.laziest = tid w ∧ s.killserver = false then s else s.setWorker w { pc := .closeBuffer 0, clients := clients }
  | .closeBuffer k =>
    match clients[k]? with
    | some x =>
      (if socketValue x.socket ≠ 0 then s.close x.socket else s).setWorker w { pc := .closeBuffer (k + 1), clients := clients }
    | none => s.setWorker w { pc := .release 0, clients := [] }
  | .release i =>
    if i < c.queuesize then
      if (s.queue i).thread = tid w then s.setWorker w { pc := .dispose i, clients := clients }
      else s.setWorker w { pc := .release (i + 1), clients := clients }
    else s.setWorker w { pc := .terminated, clients := clients }
  | .dispose i =>
    if s.killserver then (s.close (s.queue i).socket).setWorker w { pc := .clearThread i, clients := clients }
    else (s.setThread i e.laziest).setWorker w { pc := .release (i + 1), clients := clients }
  | .clearThread i => (s.setThread i 0).setWorker w { pc := .clearSocket i, clients := clients }
  | .clearSocket i => (s.setSocket i .empty).setWorker w { pc := .release (i + 1), clients := clients }
  | .terminated => s

/-- A step of the server. -/
def Server.step (s : Server c) : ServerAction c → Server c
  | .main e => mainStep e s
  | .worker w e => workerStep w e s
  | .sigint => { s with killserver := true }

/-- A client that a pass has closed was handled, or has had its time. -/
theorem closed_of_pass {client : Client} {n : Nat} {handled : Bool} {late kept : Effects}
    (h : (if (!handled && decide (n > maxRecvIter)) = true then some ⟨n, true, late⟩ else some ⟨n, handled, kept⟩) = some client) :
    client.recvIter = n ∧ client.closed = (handled || decide (n > maxRecvIter)) := by
  split at h
  · rename_i hlate
    obtain rfl := Option.some.inj h
    rw [Bool.and_eq_true] at hlate
    exact ⟨rfl, by rw [hlate.2, Bool.or_true]⟩
  · rename_i hlate
    obtain rfl := Option.some.inj h
    refine ⟨rfl, ?_⟩
    cases handled with
    | true => rfl
    | false => simpa using hlate

/-- Whether a worker is done with a client is what a pass of its loop over that client comes to. -/
theorem finished_eq_closed {inet : Inet} {announceInterval : Int} {e : ClientEnv} {client client' : Client} {r : Round}
    (ho : client.closed = false) (h : client.round inet announceInterval e r = some client') :
    ∃ handled, (r = .idle → handled = false) ∧
      (∀ stack received, r = .readable stack received →
        ∃ effects, parseSocket inet stack client'.recvIter received announceInterval e client.effects.db = some (effects, handled)) ∧
      ∀ (a : Answers) (x : ClientData), a.handled = handled → socketValue x.socket ≠ 0 → x.recvIter = client'.recvIter →
        finished a x = client'.closed := by
  have hfinished : ∀ handled, client'.closed = (handled || decide (client'.recvIter > maxRecvIter)) →
      ∀ (a : Answers) (x : ClientData), a.handled = handled → socketValue x.socket ≠ 0 → x.recvIter = client'.recvIter →
        finished a x = client'.closed := by
    intro handled hc a x ha hx hn
    rw [finished, ha, hn, hc, bne_iff_ne.2 hx, Bool.true_and]
  rw [Client.round, if_neg (by simp [ho])] at h
  cases r with
  | idle =>
    obtain ⟨hn, hc⟩ := @closed_of_pass _ _ false _ _ h
    exact ⟨false, fun _ => rfl, fun _ _ hr => (by cases hr), hfinished false (by rw [hn]; exact hc)⟩
  | readable stack received =>
    obtain ⟨⟨effects, handled⟩, hp, h⟩ := Option.bind_eq_some_iff.1 h
    obtain ⟨hn, hc⟩ := closed_of_pass h
    refine ⟨handled, fun hr => (by cases hr), ?_, hfinished handled (by rw [hn]; exact hc)⟩
    intro stack' received' hr
    obtain ⟨rfl, rfl⟩ := Round.readable.inj hr
    exact ⟨effects, by rw [hn]; exact hp⟩

end Traccoon
