import Traccoon.Lib.Ledger
import Traccoon.Db
import Traccoon.Listen

/-!
# `traccoon.c`: `main`, from its arguments to its exit

What `main` acquires and releases on its way: memory, the handle of the database, the workers, the list of addresses and the listening
socket. A worker is acquired when it is created and released when it is joined. The accept loop is in `Server.lean`; here it is a
`Shutdown`, which says how it was left. The program ends in an `exit`, and what it gives to it is the second part of a result.
-/

namespace Traccoon

open CString Ledger

/-- `DB_ERROR`. -/
def dbError : Int := 9001

/-- `MEM_ERROR`. -/
def memError : Int := 9002

/-- `THREADCREATION_ERROR`. -/
def threadcreationError : Int := 9003

/-- `SOCKET_ERROR`. -/
def socketError : Int := 9004

/-- `GENERAL_FAILURE`. -/
def generalFailure : Int := 9005

/-! ## The arguments -/

/-- The variables of `main` that the arguments set. What `-i` sets is not read. -/
structure Options where
  trackerDatabaseFile : Bytes
  workerthreads : Int
  bindhost : Option Bytes
  port : Bytes
  queuesize : Int
  announceInterval : Int
  deriving DecidableEq

/-- The values they have at first. -/
def Options.default : Options :=
  { trackerDatabaseFile := ascii "tracker.db3", workerthreads := 10, bindhost := none, port := ascii "6969", queuesize := 20
    announceInterval := 300 }

/-- What the arguments make of a run. -/
inductive Command where
  /-- `exit(usage(*argv))`. -/
  | usage
  /-- `exit(createEmptyDatabase(argv[i+1]))`. -/
  | create (filename : Bytes)
  | serve (o : Options)
  deriving DecidableEq

/-- `switch(*(argv[i]+1))`, without `-c`. -/
def setOption (o : Options) (letter : Option UInt8) (value : Bytes) : Options :=
  if letter = some 102 then { o with trackerDatabaseFile := value }
  else if letter = some 119 then { o with workerthreads := int32 (strtoul value) }
  else if letter = some 98 then { o with bindhost := some value }
  else if letter = some 112 then { o with port := value }
  else if letter = some 113 then { o with queuesize := int32 (strtoul value) }
  else if letter = some 97 then { o with announceInterval := int32 (strtoul value) }
  else o

/-- The loop over the arguments, two at a time. `none` says that one behind the last is looked at. -/
def parseOptions : List Bytes → Options → Option Command
  | [], o => some (.serve o)
  | [_], _ => none
  | flag :: value :: rest, o =>
    if flag[0]? ≠ some 45 then parseOptions rest o
    else if flag[1]? = some 99 then some (.create value)
    else parseOptions rest (setOption o flag[1]? value)

/-- The arguments, from the name of the program on. -/
def command (argv : List Bytes) : Option Command :=
  if argv.length % 2 = 0 then some .usage else parseOptions argv.tail Options.default

/-- No argument behind the last is looked at. -/
theorem command_total (argv : List Bytes) : ∃ c, command argv = some c := by
  have hpairs : ∀ (n : Nat) (args : List Bytes) (o : Options), args.length = 2 * n → ∃ c, parseOptions args o = some c := by
    intro n
    induction n with
    | zero =>
      intro args o h
      rw [List.length_eq_zero_iff.1 h]
      exact ⟨_, rfl⟩
    | succ n ih =>
      intro args o h
      obtain ⟨flag, value, rest, rfl⟩ : ∃ flag value rest, args = flag :: value :: rest := by
        cases args with
        | nil => simp at h
        | cons flag args =>
          cases args with
          | nil => simp only [List.length_cons, List.length_nil] at h; omega
          | cons value rest => exact ⟨flag, value, rest, rfl⟩
      have hrest : rest.length = 2 * n := by simp only [List.length_cons] at h; omega
      rw [parseOptions]
      split
      · exact ih rest o hrest
      split
      · exact ⟨_, rfl⟩
      · exact ih rest _ hrest
  unfold command
  split
  · exact ⟨_, rfl⟩
  · exact hpairs (argv.length / 2) argv.tail _ (by rw [List.length_tail]; omega)

/-! ## The run -/

/-- What `main` and `createEmptyDatabase` acquire. -/
inductive Resource where
  /-- `threads=malloc(sizeof(_WORKER)*workerthreads)`. -/
  | threads
  /-- `aqueue=malloc(sizeof(_CLIENT)*queuesize)`. -/
  | aqueue
  /-- `sqlite3_open_v2(trackerDatabaseFile,&databaseHandle,…)`. -/
  | databaseHandle
  /-- `pthread_create(&(threads[i].thread),NULL,workerthread,&threads[i])`. -/
  | worker (i : Nat)
  /-- `getaddrinfo(bindhost,port,&addrinfo,&servinfo)`. -/
  | servinfo
  /-- `servsock=socket(…)`. -/
  | servsock
  /-- `sqlite3_open_v2(filename,&dbHandle,…)`. -/
  | dbHandle
  deriving DecidableEq

/-- What `sqlite3_open_v2` gives. There is a handle behind a failure, too, unless there is no memory for one. -/
structure OpenedDb where
  code : Int
  handle : Bool
  given : code = sqliteOk → handle = true

/-- How the accept loop was left: how many signals came before the socket was closed behind it, how many later, and whether
`gettimeofday` failed. -/
structure Shutdown where
  signals : Nat
  late : Nat
  clockFails : Bool
  left : signals = 0 → clockFails = true

/-- How the calls are answered: whether there is memory for so many workers, and so many slots; whether there is a time; what
`sqlite3_exec` returns for the query of `main` and for the tables of `createEmptyDatabase`; what the creation of each worker returns; the
first address and the others; whether `setsockopt`, `bind` and `listen` succeed, and then return 0; and what `sqlite3_close` returns. -/
structure MainEnv where
  threads : Int → Bool
  aqueue : Int → Bool
  clock : Bool
  openDb : Bytes → OpenedDb
  count : Int
  createTorrents : Int
  createPeers : Int
  create : Nat → Int
  getaddrinfo : Option Bytes → Bytes → Option (AddrInfo × List AddrInfo)
  socket : SocketAnswers
  setsockopt : Bool
  bind : Option Bytes → Bool
  listen : Int → Bool
  shutdown : Shutdown
  close : Int

/-- The handle, if there is one. -/
def OpenedDb.uses (d : OpenedDb) (r : Resource) : List (Use Resource) := if d.handle then [.acquire r] else []

/-- `sqlite3_close`, which releases the handle when it succeeds. -/
def OpenedDb.closeUses (d : OpenedDb) (close : Int) (r : Resource) : List (Use Resource) :=
  if d.handle ∧ close = sqliteOk then [.release r] else []

/-- `createEmptyDatabase(filename)`. -/
def createEmptyDatabase (e : MainEnv) (filename : Bytes) : List (Use Resource) × Int :=
  let opened := e.openDb filename
  if opened.code ≠ sqliteOk ∨ e.createTorrents ≠ sqliteOk ∨ e.createPeers ≠ sqliteOk then (opened.uses .dbHandle, dbError)
  else (opened.uses .dbHandle ++ opened.closeUses e.close .dbHandle, if e.close = sqliteOk then 0 else dbError)

/-- "Spawning %d workers", as many as are left from number `i` on, with `error`. -/
def createWorkers (create : Nat → Int) : Nat → Nat → List (Use Resource) × Int
  | _, 0 => ([], 0)
  | i, left + 1 =>
    if create i ≠ 0 then ([], threadcreationError)
    else
      let (uses, error) := createWorkers create (i + 1) left
      (.acquire (.worker i) :: uses, error)

/-- Whether the accept loop is reached with the socket bound to this address. -/
def MainEnv.listens (e : MainEnv) (o : Options) (addr : Option Bytes) : Bool := e.setsockopt && e.bind addr && e.listen o.queuesize

/-- "got socket". The signal handler closes the socket, each time. -/
def serverSocket (o : Options) (e : MainEnv) (addr : Option Bytes) : List (Use Resource) × Int :=
  if e.listens o addr then
    (.acquire .servsock :: (List.replicate e.shutdown.signals (.release .servsock) ++
        .release .servsock :: List.replicate e.shutdown.late (.release .servsock)),
      if e.shutdown.clockFails then generalFailure else 0)
  else ([.acquire .servsock, .release .servsock], socketError)

/-- From `getaddrinfo` to `freeaddrinfo`, which is called in any case. -/
def openServer (o : Options) (e : MainEnv) (fuel : Nat) : Option (List (Use Resource) × Int) :=
  match e.getaddrinfo o.bindhost o.port with
  | none => some ([.release .servinfo], socketError)
  | some (first, rest) => do
    let s ← openSocket e.socket (first :: rest) fuel (Opening.start (first :: rest) 0)
    let (uses, error) := if s.servsock = -1 then ([], socketError) else serverSocket o e (bindAddr (first :: rest) s)
    pure (.acquire .servinfo :: (uses ++ [.release .servinfo]), error)

/-- "client handling process", with the database opened. -/
def startup (o : Options) (e : MainEnv) (fuel : Nat) : Option (List (Use Resource) × Int) :=
  if (e.openDb o.trackerDatabaseFile).code ≠ sqliteOk then some ([], dbError)
  else if e.count ≠ sqliteOk then some ([], e.count)
  else
    let (created, error) := createWorkers e.create 0 o.workerthreads.toNat
    if error ≠ 0 then some (created, error)
    else do
      let (uses, error) ← openServer o e fuel
      pure (created ++ uses, error)

/-- Whether the accept loop is reached from `getaddrinfo`. -/
def accepts (o : Options) (e : MainEnv) (fuel : Nat) : Bool :=
  match e.getaddrinfo o.bindhost o.port with
  | none => false
  | some (first, rest) =>
    match openSocket e.socket (first :: rest) fuel (Opening.start (first :: rest) 0) with
    | none => false
    | some s => decide (s.servsock ≠ -1) && e.listens o (bindAddr (first :: rest) s)

/-- "Waiting for worker threads to terminate...". -/
def joinWorkers (o : Options) (error : Int) : List (Use Resource) :=
  if error ≠ threadcreationError then (List.range o.workerthreads.toNat).map fun i => .release (.worker i) else []

/-- `main` behind its arguments. -/
def handleClients (o : Options) (e : MainEnv) (fuel : Nat) : Option (List (Use Resource) × Int) :=
  if e.threads o.workerthreads = false then some ([], memError)
  else if e.aqueue o.queuesize = false then some ([.acquire .threads, .release .threads], memError)
  else if e.clock = false then
    some ([.acquire .threads, .acquire .aqueue, .release .threads, .release .aqueue], generalFailure)
  else do
    let opened := e.openDb o.trackerDatabaseFile
    let (uses, error) ← startup o e fuel
    pure (.acquire .threads :: .acquire .aqueue :: (opened.uses .databaseHandle ++ uses ++ joinWorkers o error ++
      opened.closeUses e.close .databaseHandle ++ [.release .threads, .release .aqueue]), error)

/-- `main(argc, argv)`: what it does with its resources, and what it gives to `exit`. -/
def main (argv : List Bytes) (e : MainEnv) (fuel : Nat) : Option (List (Use Resource) × Int) := do
  match ← command argv with
  | .usage => pure ([], 1)
  | .create filename => pure (createEmptyDatabase e filename)
  | .serve o => handleClients o e fuel

/-! ## In order -/

/-- The database is opened: there are memory and a time. -/
def Begins (o : Options) (e : MainEnv) : Prop := e.threads o.workerthreads = true ∧ e.aqueue o.queuesize = true ∧ e.clock = true

/-- The workers are created: the database is open, and there is an answer to the query. -/
def OpensDb (o : Options) (e : MainEnv) : Prop := (e.openDb o.trackerDatabaseFile).code = sqliteOk ∧ e.count = sqliteOk

/-- All workers are created. -/
def CreatesAll (o : Options) (e : MainEnv) : Prop := ∀ i < o.workerthreads.toNat, e.create i = 0

instance (o : Options) (e : MainEnv) : Decidable (Begins o e) := inferInstanceAs (Decidable (_ ∧ _))

instance (o : Options) (e : MainEnv) : Decidable (OpensDb o e) := inferInstanceAs (Decidable (_ ∧ _))

instance (o : Options) (e : MainEnv) : Decidable (CreatesAll o e) := inferInstanceAs (Decidable (∀ _ < _, _))

/-- The server ends in order once it has begun: the handle is closed; workers are created when they will be joined, and all or none of
them; there are addresses to be freed; and no signal comes. -/
def InOrder (o : Options) (e : MainEnv) (fuel : Nat) : Prop :=
  ((e.openDb o.trackerDatabaseFile).handle = true → e.close = sqliteOk) ∧
  (¬OpensDb o e → o.workerthreads ≤ 0 ∨ ((e.openDb o.trackerDatabaseFile).code = sqliteOk ∧ e.count = threadcreationError)) ∧
  (OpensDb o e → ¬CreatesAll o e → e.create 0 ≠ 0) ∧
  (OpensDb o e → CreatesAll o e → (e.getaddrinfo o.bindhost o.port).isSome = true ∧
    (accepts o e fuel = true → e.shutdown.signals = 0 ∧ e.shutdown.late = 0))

end Traccoon
