import Traccoon.Track
import Traccoon.Workers

/-!
# Announces and scrapes served at the same time

`track` and `scrape` run several statements, each of which other threads see as one step, and send what they send in between. A job is a
request that a worker handles: what is left to do for it (`JobPc`) and what has been sent. The service is the shared tables and all jobs,
driven by a schedule of their statements and of prunes by the main thread. A job that nothing interrupts goes where `track` and `scrape`
go (`track_eq_run`, `scrape_eq_run`). The query for the peers is one step, since it asks for a random order and has to read its rows
before it gives the first one.
-/

namespace Traccoon

open CString

/-- What a worker does next for a request. -/
inductive JobPc where
  /-- `track(socket,db,ar,interval)` is called. -/
  | track (ar : AnnounceRequest)
  /-- `QUERY_TORRENT_PEERS` and the reply, for the prepared request. -/
  | peers (ar : AnnounceRequest) (torrentid : Int)
  /-- `updatePeer(db,torrentid,ar)`. -/
  | update (ar : AnnounceRequest) (torrentid : Int) (pc : UpdatePc)
  /-- `scrape(socket,db,hash)` is called. -/
  | scrape (hash : Option Bytes)
  /-- The arguments of the `snprintf` in `scrape`, in any order: the counts there are. -/
  | counts (hash : Bytes) (torrent : Int) (complete downloaded incomplete : Option Int)
  | returned
  deriving DecidableEq, Repr

/-- A request being handled: what is left to do, and the pieces sent. -/
structure Job where
  pc : JobPc
  sent : List Bytes

/-- The three statements that count. -/
inductive Count where
  | seeds
  | completed
  | peers

/-- How the calls of a step are answered: a statement with one outcome; the prepare, the bind and the steps of `QUERY_TORRENT_PEERS`; and
which of the counts is taken next. -/
structure JobEnv where
  stmt : StmtEnv
  prepare : Int
  bind : Int
  steps : List PeerStep
  count : Count

/-- What is sent before the database is asked. -/
def successHeaders : List Bytes := sendHttpHeaders (ascii "200 OK") standardHeader

/-- A call of `updatePeer` has returned, or goes on. -/
def JobPc.afterUpdate (ar : AnnounceRequest) (torrentid : Int) : UpdatePc → JobPc
  | .returned _ => .returned
  | pc => .update ar torrentid pc

/-- The next step of a job. `none` says that a read went outside a buffer. -/
def jobStep (inet : Inet) (interval : Int) (db : Db) (job : Job) (e : JobEnv) : Option (Db × Job) :=
  match job.pc with
  | .track ar => do
    let ar ← prepareData ar
    let torrentid := getTorrentId db (cstr ar.infoHash) e.stmt
    if torrentid = dbNosuchhash then pure (db, { pc := .returned, sent := successHeaders ++ sendString hashNotRecognized })
    else if torrentid = dbFailed then pure (db, { pc := .returned, sent := successHeaders ++ sendString databaseErrorTid })
    else pure (db, { pc := .peers ar torrentid, sent := successHeaders })
  | .peers ar torrentid =>
    if e.prepare ≠ sqliteOk then some (db, { pc := .returned, sent := job.sent ++ sendString serverError })
    else if e.bind ≠ sqliteOk then some (db, { pc := .returned, sent := job.sent ++ sendString serverError })
    else some (db, { pc := .update ar torrentid .queryPeer, sent := job.sent ++ peerReply inet ar interval e.steps })
  | .update ar torrentid pc =>
    let (db', pc') := updatePeerStep torrentid ar (db, pc) e.stmt
    some (db', { job with pc := .afterUpdate ar torrentid pc' })
  | .scrape none => some (db, { pc := .returned, sent := sendHttpHeaders (ascii "501 Not Implemented") standardHeader })
  | .scrape (some hash) =>
    let torrent := getTorrentId db hash e.stmt
    if torrent = dbNosuchhash then some (db, { pc := .returned, sent := successHeaders ++ sendString hashNotRecognized })
    else if torrent = dbFailed then some (db, { pc := .returned, sent := successHeaders ++ sendString databaseErrorTid })
    else some (db, { pc := .counts hash torrent none none none, sent := successHeaders })
  | .counts hash _ (some complete) (some downloaded) (some incomplete) =>
    some (db, { pc := .returned
                sent := job.sent ++ sendString (snprintf scrapeBufSize (scrapeBody hash complete downloaded incomplete)) })
  | .counts hash torrent complete downloaded incomplete =>
    let pc : JobPc := match e.count with
      | .seeds => .counts hash torrent (complete <|> some (queryTorrentParam db Db.getSeedCount torrent e.stmt)) downloaded incomplete
      | .completed =>
        .counts hash torrent complete (downloaded <|> some (queryTorrentParam db Db.getCompletionCount torrent e.stmt)) incomplete
      | .peers => .counts hash torrent complete downloaded (incomplete <|> some (queryTorrentParam db Db.getPeersCount torrent e.stmt))
    some (db, { job with pc := pc })
  | .returned => some (db, job)

/-- The tables and the jobs. `ι` names the jobs, any number of them. -/
structure Service (ι : Type) where
  db : Db
  jobs : ι → Job

/-- A step: the next one of a job, or a prune by the main thread. -/
inductive ServiceAction (ι : Type) where
  | job (i : ι) (e : JobEnv)
  | prune (expireInterval : Int) (e : StmtEnv)

/-- A request. -/
inductive Task where
  | announce (ar : AnnounceRequest)
  | scrape (hash : Option Bytes)

/-- The job that a request makes. -/
def Task.job : Task → Job
  | .announce ar => { pc := .track ar, sent := [] }
  | .scrape hash => { pc := .scrape hash, sent := [] }

namespace Service

variable {ι : Type}

/-- All requests are about to be handled. One that comes later is one that has not taken a step yet. -/
def start (db : Db) (tasks : ι → Task) : Service ι := { db := db, jobs := fun i => (tasks i).job }

/-- One step of the service. -/
def step [DecidableEq ι] (inet : Inet) (interval : Int) (s : Service ι) : ServiceAction ι → Option (Service ι)
  | .job i e => do
    let (db', job') ← jobStep inet interval s.db (s.jobs i) e
    pure { db := db', jobs := Function.update s.jobs i job' }
  | .prune expireInterval e => some { s with db := (prunePeers s.db expireInterval e).2 }

end Service

/-! ## A job that nothing interrupts -/

/-- The steps of one job, one after the other. -/
def runJob (inet : Inet) (interval : Int) : List JobEnv → Db × Job → Option (Db × Job)
  | [], s => some s
  | e :: es, s => (jobStep inet interval s.1 s.2 e).bind (runJob inet interval es)

variable {inet : Inet} {interval : Int}

/-- The answers to a step that runs one statement with one outcome. -/
def JobEnv.ofStmt (e : StmtEnv) : JobEnv := { stmt := e, prepare := sqliteOk, bind := sqliteOk, steps := [], count := .seeds }

theorem afterUpdate_of_ne {ar : AnnounceRequest} {torrentid : Int} {pc : UpdatePc} (h : ∀ error, pc ≠ .returned error) :
    JobPc.afterUpdate ar torrentid pc = .update ar torrentid pc := by
  cases pc with
  | returned error => exact absurd rfl (h error)
  | queryPeer => rfl
  | addPeer => rfl
  | modifyPeer peerRow => rfl
  | updateTorrent => rfl

/-- The statements of `updatePeer` are the last of the job. -/
theorem runJob_update {ar : AnnounceRequest} {torrentid error : Int} {db' : Db} {sent : List Bytes} (es : List StmtEnv) :
    ∀ {db : Db} {pc : UpdatePc}, (∀ error, pc ≠ .returned error) →
      Machine.run (updatePeerStep torrentid ar) (db, pc) es = (db', .returned error) →
      ∃ es', runJob inet interval es' (db, { pc := .update ar torrentid pc, sent := sent }) =
        some (db', { pc := .returned, sent := sent }) := by
  induction es with
  | nil =>
    intro db pc hpc h
    exact absurd (Prod.mk.inj h).2 (hpc error)
  | cons e es ih =>
    intro db pc hpc h
    rw [Machine.run_cons] at h
    generalize hnext : updatePeerStep torrentid ar (db, pc) e = next at h
    obtain ⟨db₁, pc₁⟩ := next
    by_cases hret : ∃ error', pc₁ = .returned error'
    · obtain ⟨error', rfl⟩ := hret
      have hstay : ∀ es : List StmtEnv, Machine.run (updatePeerStep torrentid ar) (db₁, .returned error') es = (db₁, .returned error') := by
        intro es
        induction es with
        | nil => rfl
        | cons e es ih => exact ih
      rw [hstay] at h
      obtain ⟨rfl, -⟩ := Prod.mk.inj h
      exact ⟨[.ofStmt e], by simp only [runJob, jobStep, JobEnv.ofStmt, hnext, JobPc.afterUpdate, Option.bind_some]⟩
    · have hgo : ∀ error, pc₁ ≠ .returned error := fun error' heq => hret ⟨error', heq⟩
      obtain ⟨es', hes'⟩ := ih hgo h
      refine ⟨.ofStmt e :: es', ?_⟩
      simp only [runJob, jobStep, JobEnv.ofStmt, hnext, afterUpdate_of_ne hgo, Option.bind_some]
      exact hes'

theorem dbFailed_ne_dbNosuchhash : dbFailed ≠ dbNosuchhash := by decide

/-- An announce that nothing interrupts sends what `track` sends, and leaves the tables that it leaves. -/
theorem track_eq_run {ar : AnnounceRequest} {e : TrackEnv} {db : Db} {effects : Effects} (h : track inet ar interval e db = some effects) :
    ∃ es, runJob inet interval es (db, (Task.announce ar).job) = some (effects.db, { pc := .returned, sent := effects.sent }) := by
  obtain ⟨ar', hp, h⟩ := Option.bind_eq_some_iff.1 h
  let first : JobEnv := { stmt := e.torrent, prepare := e.prepare, bind := e.bind, steps := e.steps, count := .seeds }
  simp only at h
  by_cases h1 : getTorrentId db (cstr ar'.infoHash) e.torrent = dbNosuchhash
  · rw [if_pos h1] at h
    obtain rfl := Option.some.inj h
    exact ⟨[first], by simp [runJob, jobStep, Task.job, first, hp, h1, successHeaders]⟩
  rw [if_neg h1] at h
  by_cases h2 : getTorrentId db (cstr ar'.infoHash) e.torrent = dbFailed
  · rw [if_pos h2] at h
    obtain rfl := Option.some.inj h
    exact ⟨[first], by simp [runJob, jobStep, Task.job, first, hp, h2, dbFailed_ne_dbNosuchhash, successHeaders]⟩
  rw [if_neg h2] at h
  by_cases h3 : e.prepare ≠ sqliteOk
  · rw [if_pos h3] at h
    obtain rfl := Option.some.inj h
    exact ⟨[first, first], by simp [runJob, jobStep, Task.job, first, hp, h1, h2, h3, successHeaders]⟩
  rw [if_neg h3] at h
  by_cases h4 : e.bind ≠ sqliteOk
  · rw [if_pos h4] at h
    obtain rfl := Option.some.inj h
    exact ⟨[first, first], by simp [runJob, jobStep, Task.job, first, hp, h1, h2, h3, h4, successHeaders]⟩
  rw [if_neg h4] at h
  obtain ⟨⟨error, db'⟩, hu, h⟩ := Option.bind_eq_some_iff.1 h
  obtain rfl := Option.some.inj h
  obtain ⟨es, hes⟩ := updatePeer_eq_run _ _ _ _ _ _ hu
  obtain ⟨es', hes'⟩ := @runJob_update inet interval _ _ _ _
    (successHeaders ++ peerReply inet ar' interval e.steps) es _ _ (fun error h => by cases h) hes
  refine ⟨first :: first :: es', ?_⟩
  simp only [not_not] at h3 h4
  simpa [runJob, jobStep, Task.job, first, hp, h1, h2, h3, h4, successHeaders] using hes'

/-- So does a scrape. -/
theorem scrape_eq_run (hash : Option Bytes) (e : ScrapeEnv) (db : Db) :
    ∃ es, runJob inet interval es (db, (Task.scrape hash).job) =
      some ((scrape hash e db).db, { pc := .returned, sent := (scrape hash e db).sent }) := by
  cases hash with
  | none => exact ⟨[.ofStmt e.torrent], by simp [runJob, jobStep, Task.job, scrape]⟩
  | some hash =>
    by_cases h1 : getTorrentId db hash e.torrent = dbNosuchhash
    · exact ⟨[.ofStmt e.torrent], by simp [runJob, jobStep, Task.job, scrape, JobEnv.ofStmt, h1, successHeaders]⟩
    by_cases h2 : getTorrentId db hash e.torrent = dbFailed
    · exact ⟨[.ofStmt e.torrent], by
        simp [runJob, jobStep, Task.job, scrape, JobEnv.ofStmt, h2, dbFailed_ne_dbNosuchhash, successHeaders]⟩
    refine ⟨[.ofStmt e.torrent, .ofStmt e.seeds, { JobEnv.ofStmt e.completed with count := .completed },
      { JobEnv.ofStmt e.peers with count := .peers }, .ofStmt e.peers], ?_⟩
    simp [runJob, jobStep, Task.job, scrape, JobEnv.ofStmt, h1, h2, successHeaders]

end Traccoon
