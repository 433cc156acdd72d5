import Traccoon.Server

/-!
# `traccoon.c` and `thread.c`: the start of the workers, and `LAZIEST_WORKER`

The main thread creates the workers, makes the first of them the laziest and goes on to accept connections. A worker that has opened
the database is in its service loop; in each pass it may make itself the laziest, and only the way out through the cleanup gives that
up again. Two early returns of `workerthread` do not pass there. The server of `Server.lean` is a part of the state here, and what it
leaves to an input, the content of `LAZIEST_WORKER.threadID`, is a register of the state. Its two registers are read and written one
at a time.
-/

namespace Traccoon

/-- `LAZIEST_WORKER`. -/
structure LaziestWorker where
  threadID : Int
  activeSockets : Int
  deriving DecidableEq, Repr

/-- "update load balancing structures" in one step. In `Pool.workerStep` each register is read and written by itself. -/
def LaziestWorker.update (l : LaziestWorker) (tid clientsActive : Int) : LaziestWorker :=
  if l.threadID = tid ∨ l.activeSockets > clientsActive then { threadID := tid, activeSockets := clientsActive } else l

/-- `INT_MAX`. -/
def intMax : Int := 2147483647

/-- Where the main thread stands before the accept loop, from where it is told by `MainPc`. `failed` says that a worker could not be
created. -/
inductive Startup where
  /-- `pthread_create(&(threads[i].thread),NULL,workerthread,&threads[i])`. -/
  | create (i : Nat)
  /-- `LAZIEST_WORKER.threadID=1`. -/
  | setThreadID (failed : Bool)
  /-- `LAZIEST_WORKER.activeSockets=0`. -/
  | setActiveSockets (failed : Bool)
  /-- `if(error==0)`, and what leads to the accept loop: `getaddrinfo`, `socket`, `setsockopt`, `bind` and `listen`. -/
  | listen (failed : Bool)
  | running
  deriving DecidableEq

/-- Where a worker stands, in what `WorkerPc` leaves out. -/
inductive Stage where
  /-- Not created. -/
  | unborn
  /-- `sqlite3_open_v2(tp->db,&db,SQLITE_OPEN_READWRITE,NULL)`. -/
  | opening
  /-- Where its `WorkerPc` says. -/
  | running
  /-- `LAZIEST_WORKER.threadID==tp->tid`, after the scan of the queue. -/
  | compareThreadID
  /-- `LAZIEST_WORKER.activeSockets>clients_active`. -/
  | compareActiveSockets
  /-- `LAZIEST_WORKER.threadID=tp->tid`. -/
  | writeThreadID
  /-- `LAZIEST_WORKER.activeSockets=clients_active`. -/
  | writeActiveSockets
  /-- `LAZIEST_WORKER.activeSockets=INT_MAX`, in the cleanup. -/
  | retire
  /-- `while(LAZIEST_WORKER.threadID==tp->tid&&!GLOBALSTATE.killserver)`. -/
  | wait
  /-- `return NULL`. -/
  | aborted
  deriving DecidableEq

/-- The server with its start and its load balancing. -/
structure Pool (c : Config) where
  startup : Startup
  stages : Fin c.workerthreads → Stage
  clientsActive : Fin c.workerthreads → Int
  laziest : LaziestWorker
  server : Server c

/-- A step: of the main thread, of a worker, or of the signal handler. `fails` says whether the call that can fail there does. -/
inductive PoolAction (c : Config) where
  | main (fails : Bool) (e : Answers)
  | worker (w : Fin c.workerthreads) (fails : Bool) (e : Answers)
  | sigint

variable {c : Config}

/-- The worker calls `realloc` next: for the slots it lacks, or for one more when there is none for a client it copies. -/
def reallocs (c : Config) (wk : Worker) : Bool :=
  match wk.pc with
  | .count i clientsQueued =>
    decide (c.queuesize ≤ i) && decide (wk.clients.countP (fun x => socketValue x.socket == 0) < clientsQueued)
  | .copy _ k => decide (wk.clients.length ≤ freeIndex wk.clients k)
  | _ => false

/-- `clients_active` after a step of the worker that was here. -/
def clientsActiveAfter (shutdown : Bool) (e : Answers) (wk : Worker) (clientsActive : Int) : Int :=
  match wk.pc with
  | .loop => if shutdown then clientsActive else wk.clients.countP (fun x => socketValue x.socket != 0)
  | .copy _ _ => clientsActive + 1
  | .serve k =>
    match wk.clients[k]? with
    | some x => if finished e x then clientsActive - 1 else clientsActive
    | none => clientsActive
  | _ => clientsActive

namespace Pool

/-- The main thread is about to create the workers. The registers of `LAZIEST_WORKER` are zero, as all that is global. -/
def start (c : Config) : Pool c :=
  { startup := .create 0, stages := fun _ => .unborn, clientsActive := fun _ => 0
    laziest := { threadID := 0, activeSockets := 0 }, server := Server.start c }

def setStage (s : Pool c) (w : Fin c.workerthreads) (x : Stage) : Pool c := { s with stages := Function.update s.stages w x }

def setStartup (s : Pool c) (x : Startup) : Pool c := { s with startup := x }

def setThreadID (s : Pool c) (t : Int) : Pool c := { s with laziest := { s.laziest with threadID := t } }

def setActiveSockets (s : Pool c) (n : Int) : Pool c := { s with laziest := { s.laziest with activeSockets := n } }

/-- What a step finds, with what `LAZIEST_WORKER.threadID` holds. -/
def answers (s : Pool c) (e : Answers) : Answers := { e with laziest := s.laziest.threadID }

/-- A step that the worker takes within `WorkerPc`. -/
def proceed (s : Pool c) (w : Fin c.workerthreads) (e : Answers) : Pool c :=
  { s with
    clientsActive := Function.update s.clientsActive w
      (clientsActiveAfter (s.server.shutdown w) (s.answers e) (s.server.workers w) (s.clientsActive w))
    server := Traccoon.workerStep w (s.answers e) s.server }

/-- The worker returns early, without the cleanup. Its buffer is lost, and the main thread may join it. -/
def abort (s : Pool c) (w : Fin c.workerthreads) : Pool c :=
  { s.setStage w .aborted with server := s.server.setWorker w { pc := .terminated, clients := [] } }

/-- The end of the server is reached without the accept loop, at the place `pc` of the main thread. -/
def giveUp (s : Pool c) (pc : MainPc) : Pool c :=
  { s with startup := .running, server := { s.server.setMain pc with killserver := true } }

/-- A step of `main`, from the creation of the workers on. -/
def mainStep (fails : Bool) (e : Answers) (s : Pool c) : Pool c :=
  match s.startup with
  | .create i =>
    if h : i < c.workerthreads then
      if fails then s.setStartup (.setThreadID true) else (s.setStage ⟨i, h⟩ .opening).setStartup (.create (i + 1))
    else s.setStartup (.setThreadID false)
  | .setThreadID failed => (s.setThreadID 1).setStartup (.setActiveSockets failed)
  | .setActiveSockets failed => (s.setActiveSockets 0).setStartup (.listen failed)
  | .listen failed =>
    -- after `THREADCREATION_ERROR` no worker is joined
    if failed then s.giveUp (.sweep 0)
    else if fails then s.giveUp (.stop 0)
    else s.setStartup .running
  | .running => { s with server := Traccoon.mainStep (s.answers e) s.server }

/-- A step of `workerthread`. -/
def workerStep (w : Fin c.workerthreads) (fails : Bool) (e : Answers) (s : Pool c) : Pool c :=
  match s.stages w with
  | .unborn | .aborted => s
  | .opening => if fails then s.abort w else s.setStage w .running
  | .running =>
    if reallocs c (s.server.workers w) && fails then s.abort w
    else
      match (s.server.workers w).pc with
      | .scan i _ => if i < c.queuesize then s.proceed w e else s.setStage w .compareThreadID
      | .leave => if s.laziest.threadID = tid w then s.setStage w .retire else s.proceed w e
      | _ => s.proceed w e
  | .compareThreadID => s.setStage w (if s.laziest.threadID = tid w then .writeThreadID else .compareActiveSockets)
  | .compareActiveSockets =>
    if s.laziest.activeSockets > s.clientsActive w then s.setStage w .writeThreadID else (s.proceed w e).setStage w .running
  | .writeThreadID => (s.setThreadID (tid w)).setStage w .writeActiveSockets
  | .writeActiveSockets => ((s.setActiveSockets (s.clientsActive w)).proceed w e).setStage w .running
  | .retire => (s.setActiveSockets intMax).setStage w .wait
  | .wait =>
    if s.laziest.threadID = tid w ∧ s.server.killserver = false then s else (s.proceed w e).setStage w .running

/-- A step of the pool. Before the accept loop SIGINT ends the process, and the run with it. -/
def step (s : Pool c) : PoolAction c → Pool c
  | .main fails e => mainStep fails e s
  | .worker w fails e => workerStep w fails e s
  | .sigint => if s.startup = .running then { s with server := { s.server with killserver := true } } else s

/-- The states that a schedule passes through. -/
def Visits (c : Config) (schedule : List (PoolAction c)) (s : Pool c) : Prop := Machine.Visits step (start c) schedule s

end Pool

/-! ## Who is in the service loop -/

/-- The places of `workerthread` within its service loop. -/
def WorkerPc.inLoop : WorkerPc → Bool
  | .leave | .closeBuffer _ | .release _ | .dispose _ | .clearThread _ | .clearSocket _ | .terminated => false
  | _ => true

/-- The places of `main` within its accept loop. -/
def MainPc.accepts : MainPc → Bool
  | .stop _ | .join _ | .sweep _ | .done => false
  | _ => true

/-- The worker has opened the database and has not begun to leave. -/
def Stage.serving : Stage → Bool
  | .unborn | .opening | .retire | .wait | .aborted => false
  | _ => true

namespace Pool

/-- The worker is executing its service loop. -/
def Serving (s : Pool c) (w : Fin c.workerthreads) : Prop :=
  (s.stages w).serving = true ∧ (s.server.workers w).pc.inLoop = true

instance (s : Pool c) (w : Fin c.workerthreads) : Decidable (s.Serving w) := inferInstanceAs (Decidable (_ ∧ _))

/-- The accept loop is running. -/
def Accepting (s : Pool c) : Prop := s.startup = .running ∧ s.server.main.accepts = true

instance (s : Pool c) : Decidable s.Accepting := inferInstanceAs (Decidable (_ ∧ _))

/-- The worker's next step is an early return: opening the database fails, or `realloc` does. -/
def Aborts (s : Pool c) (w : Fin c.workerthreads) (fails : Bool) : Prop :=
  fails = true ∧ (s.stages w = .opening ∨ s.stages w = .running ∧ reallocs c (s.server.workers w) = true)

instance (s : Pool c) (w : Fin c.workerthreads) (fails : Bool) : Decidable (s.Aborts w fails) := inferInstanceAs (Decidable (_ ∧ _))

end Pool

end Traccoon
