import Traccoon.Database

/-!
# `db.c`: torrents and peers in the database

A function of `db.c` prepares a statement, binds its parameters, steps it once and turns the result code into a return value. How
SQLite and the clock answer is an input (`StmtEnv`): any call may fail at any time, and a statement that fails leaves the tables
as they were. A failed prepare and a failed bind have the same effect in the source, so the model asks once whether the
statement got ready.
-/

namespace Traccoon

open CString

/-- `SQLITE_OK`. -/
def sqliteOk : Int := 0

/-- `SQLITE_ERROR`. -/
def sqliteError : Int := 1

/-- `SQLITE_BUSY`. -/
def sqliteBusy : Int := 5

/-- `SQLITE_ROW`. -/
def sqliteRow : Int := 100

/-- `SQLITE_DONE`. -/
def sqliteDone : Int := 101

/-- A result code of `sqlite3_step` that reports a failure. -/
def ErrCode : Type := { c : Int // c ≠ sqliteOk ∧ c ≠ sqliteRow ∧ c ≠ sqliteDone ∧ IsInt32 c }

/-- Whether `sqlite3_step` runs the statement, or fails with a code. -/
inductive Verdict where
  | runs
  | fails (c : ErrCode)

/-- How the calls around one statement are answered: `gettimeofday` (none when it fails), `sqlite3_prepare_v2`, the binds by
their number, and `sqlite3_step`. -/
structure StmtEnv where
  clock : Option Int
  prepare : Int
  bind : Nat → Int
  step : Verdict

/-- The statement was prepared and its parameters were bound. -/
def StmtEnv.ready (e : StmtEnv) (params : Nat) : Bool :=
  e.prepare == sqliteOk && (List.range params).all (fun i => e.bind (i + 1) == sqliteOk)

/-- Everything succeeds, at time `now`. -/
def StmtEnv.ok (now : Int) : StmtEnv := { clock := some now, prepare := sqliteOk, bind := fun _ => sqliteOk, step := .runs }

@[simp] theorem StmtEnv.ok_ready (now : Int) (params : Nat) : (StmtEnv.ok now).ready params = true := by
  simp [StmtEnv.ok, StmtEnv.ready]

/-- What the switches on the result of `sqlite3_step` make of a failure: `SQLITE_BUSY` and `SQLITE_ERROR` are named, any other
code is passed on. -/
def stepFailure (c : ErrCode) : Int := if c.1 = sqliteBusy ∨ c.1 = sqliteError then dbFailed else c.1

theorem stepFailure_ne_zero (c : ErrCode) : stepFailure c ≠ 0 := by
  unfold stepFailure
  split
  · decide
  · exact c.2.1

theorem isInt32_stepFailure (c : ErrCode) : IsInt32 (stepFailure c) := by
  unfold stepFailure
  split
  · exact ⟨by decide, by decide⟩
  · exact c.2.2.2.2

/-- The common body of `getTorrentId` and `queryTorrentParam`: a query with one parameter for one integer. `onDone` is what the
case `SQLITE_DONE`, no row, returns. -/
def querySingleInt (value : Option Int) (onDone : Int) (e : StmtEnv) : Int :=
  if e.ready 1 then
    match e.step with
    | .runs => match value with
      | some v => int32 v
      | none => onDone
    | .fails c => stepFailure c
  else dbFailed

theorem isInt32_querySingleInt (value : Option Int) {onDone : Int} (h : IsInt32 onDone) (e : StmtEnv) :
    IsInt32 (querySingleInt value onDone e) := by
  unfold querySingleInt
  split
  · split
    · split
      · exact isInt32_int32 _
      · exact h
    · exact isInt32_stepFailure _
  · exact ⟨by decide, by decide⟩

/-- `getTorrentId(db, hash)`. -/
def getTorrentId (db : Db) (hash : Bytes) (e : StmtEnv) : Int := querySingleInt (db.queryTorrentId hash) dbNosuchhash e

/-- `queryTorrentParam(db, query, torrent)`. -/
def queryTorrentParam (db : Db) (query : Db → Int → Option Int) (torrent : Int) (e : StmtEnv) : Int :=
  querySingleInt (query db torrent) dbFailed e

/-- The common body of the functions that write: prepare, bind `params` parameters, step; `db'` is what the statement makes of
the tables `db`. -/
def execWrite (params : Nat) (db db' : Db) (e : StmtEnv) : Int × Db :=
  if e.ready params then
    match e.step with
    | .runs => (0, db')
    | .fails c => (stepFailure c, db)
  else (dbFailed, db)

/-- The same for the functions that read the clock first and bind the seconds it gives. -/
def execTimedWrite (params : Nat) (db : Db) (write : Int → Db) (e : StmtEnv) : Int × Db :=
  match e.clock with
  | none => (eGeneric, db)
  | some now => execWrite params db (write now) e

/-- `addPeer(db, ar, torrent)`. -/
def addPeer (db : Db) (ar : AnnounceRequest) (torrent : Int) (e : StmtEnv) : Int × Db :=
  execTimedWrite 6 db (fun now => db.addTorrentPeer torrent ar.peerIdText ar.ip ar.port (int32 now) ar.protover) e

/-- `prunePeers(db, expireInterval)`. Its switch passes unnamed codes on like the others. -/
def prunePeers (db : Db) (expireInterval : Int) (e : StmtEnv) : Int × Db :=
  execTimedWrite 1 db (fun now => db.queryPrunePeers (int32 (now - expireInterval))) e

/-! ## `updatePeer`, statement by statement -/

/-- What the first statement of `updatePeer` found out. -/
inductive PeerLookup where
  | row (peerRow : Int)
  | missing
  | failed
  deriving DecidableEq, Repr

/-- `updatePeer`, up to the test of the result of `QUERY_PEER_BY_ID`. -/
def queryPeer (db : Db) (torrentid : Int) (ar : AnnounceRequest) (e : StmtEnv) : PeerLookup :=
  if e.ready 2 then
    match e.step with
    | .runs => match db.queryPeerById torrentid ar.peerIdText with
      | some id => .row (int32 id)
      | none => .missing
    | .fails _ => .failed
  else .failed

/-- `updatePeer`, "update timer / status values": `UPDATE_PEER_DATA` on the row found. -/
def modifyPeer (db : Db) (ar : AnnounceRequest) (peerRow : Int) (e : StmtEnv) : Int × Db :=
  execTimedWrite 4 db (fun now => db.updatePeerData ar.left ar.event.code (int32 now) peerRow) e

/-- `updatePeer`, the end: `INCREASE_COMPLETION_COUNT`. -/
def updateTorrent (db : Db) (torrentid : Int) (e : StmtEnv) : Int × Db :=
  execWrite 1 db (db.increaseCompletionCount torrentid) e

/-- How the statements of one activation of `updatePeer` are answered. -/
structure CallEnv where
  query : StmtEnv
  add : StmtEnv
  modify : StmtEnv
  complete : StmtEnv

/-- Everything succeeds, at time `now`. -/
def CallEnv.ok (now : Int) : CallEnv := { query := .ok now, add := .ok now, modify := .ok now, complete := .ok now }

/-- `updatePeer(db, torrentid, ar)`: the return value and the tables left. The list answers the activations, outermost first;
`none` says that the recursion went deeper than the list. -/
def updatePeer (torrentid : Int) (ar : AnnounceRequest) : List CallEnv → Db → Option (Int × Db)
  | [], _ => none
  | e :: es, db =>
    match queryPeer db torrentid ar e.query with
    | .failed => some (dbFailed, db)
    | .missing =>
      let (error, db') := addPeer db ar torrentid e.add
      if error = 0 then updatePeer torrentid ar es db' else some (dbFailed, db')
    | .row peerRow =>
      let (error, db') := modifyPeer db ar peerRow e.modify
      if error ≠ 0 ∨ ar.event ≠ .completed then some (error, db') else some (updateTorrent db' torrentid e.complete)

/-! ## What each statement does -/

/-- A write reports success and has happened, or it reports a failure and left the tables alone. -/
theorem execWrite_cases (params : Nat) (db db' : Db) (e : StmtEnv) :
    execWrite params db db' e = (0, db') ∨
    ((execWrite params db db' e).1 ≠ 0 ∧ (execWrite params db db' e).2 = db) := by
  unfold execWrite
  by_cases hr : e.ready params
  · cases hs : e.step with
    | runs => exact Or.inl (by simp only [hr, if_true])
    | fails c => exact Or.inr ⟨by simpa only [hr, if_true] using stepFailure_ne_zero c, by simp only [hr, if_true]⟩
  · exact Or.inr ⟨by simp [hr, dbFailed], by simp [hr]⟩

/-- The same for a timed write, which happens at the time the clock gave. -/
theorem execTimedWrite_cases (params : Nat) (db : Db) (write : Int → Db) (e : StmtEnv) :
    (∃ now, e.clock = some now ∧ execTimedWrite params db write e = (0, write now)) ∨
    ((execTimedWrite params db write e).1 ≠ 0 ∧ (execTimedWrite params db write e).2 = db) := by
  unfold execTimedWrite
  cases hc : e.clock with
  | none => exact Or.inr ⟨by simp [eGeneric], rfl⟩
  | some now =>
    rcases execWrite_cases params db (write now) e with h | h
    · exact Or.inl ⟨now, rfl, h⟩
    · exact Or.inr h

/-- A timed write to which every call answers with success happens. -/
theorem execTimedWrite_ok (params : Nat) (db : Db) (write : Int → Db) (now : Int) :
    execTimedWrite params db write (.ok now) = (0, write now) := by
  simp only [execTimedWrite, execWrite, StmtEnv.ok_ready, if_true]
  rfl

theorem addPeer_cases (db : Db) (ar : AnnounceRequest) (torrent : Int) (e : StmtEnv) :
    (∃ now, e.clock = some now ∧ addPeer db ar torrent e =
      (0, db.addTorrentPeer torrent ar.peerIdText ar.ip ar.port (int32 now) ar.protover)) ∨
    ((addPeer db ar torrent e).1 ≠ 0 ∧ (addPeer db ar torrent e).2 = db) :=
  execTimedWrite_cases 6 db _ e

theorem modifyPeer_cases (db : Db) (ar : AnnounceRequest) (peerRow : Int) (e : StmtEnv) :
    (∃ now, e.clock = some now ∧ modifyPeer db ar peerRow e =
      (0, db.updatePeerData ar.left ar.event.code (int32 now) peerRow)) ∨
    ((modifyPeer db ar peerRow e).1 ≠ 0 ∧ (modifyPeer db ar peerRow e).2 = db) :=
  execTimedWrite_cases 4 db _ e

theorem prunePeers_cases (db : Db) (expireInterval : Int) (e : StmtEnv) :
    (∃ now, e.clock = some now ∧ prunePeers db expireInterval e = (0, db.queryPrunePeers (int32 (now - expireInterval)))) ∨
    ((prunePeers db expireInterval e).1 ≠ 0 ∧ (prunePeers db expireInterval e).2 = db) :=
  execTimedWrite_cases 1 db _ e

theorem updateTorrent_cases (db : Db) (torrentid : Int) (e : StmtEnv) :
    updateTorrent db torrentid e = (0, db.increaseCompletionCount torrentid) ∨
    ((updateTorrent db torrentid e).1 ≠ 0 ∧ (updateTorrent db torrentid e).2 = db) :=
  execWrite_cases 1 db _ e

/-- The lookup finds the first row of the peer, or that there is none, or fails. -/
theorem queryPeer_cases (db : Db) (torrentid : Int) (ar : AnnounceRequest) (e : StmtEnv) :
    (∃ id, db.queryPeerById torrentid ar.peerIdText = some id ∧ queryPeer db torrentid ar e = .row (int32 id)) ∨
    (db.queryPeerById torrentid ar.peerIdText = none ∧ queryPeer db torrentid ar e = .missing) ∨
    queryPeer db torrentid ar e = .failed := by
  unfold queryPeer
  by_cases hr : e.ready 2
  · cases hs : e.step with
    | runs =>
      cases hq : db.queryPeerById torrentid ar.peerIdText with
      | some id => exact Or.inl ⟨id, rfl, by simp only [hr, if_true]⟩
      | none => exact Or.inr (Or.inl ⟨rfl, by simp only [hr, if_true]⟩)
    | fails c => exact Or.inr (Or.inr (by simp only [hr, if_true]))
  · exact Or.inr (Or.inr (by simp [hr]))

/-- A peer just inserted is found by the next lookup, so `updatePeer` calls itself at most once. -/
theorem updatePeer_isSome (torrentid : Int) (ar : AnnounceRequest) (e e' : CallEnv) (db : Db) :
    ∃ error db', updatePeer torrentid ar [e, e'] db = some (error, db') := by
  rcases queryPeer_cases db torrentid ar e.query with ⟨id, -, hq⟩ | ⟨-, hq⟩ | hq
  · simp only [updatePeer, hq]
    split
    · exact ⟨_, _, rfl⟩
    · exact ⟨_, _, rfl⟩
  · rw [updatePeer]
    simp only [hq]
    rcases addPeer_cases db ar torrentid e.add with ⟨now, -, ha⟩ | ⟨ha, -⟩
    · simp only [ha, if_true]
      rcases queryPeer_cases (db.addTorrentPeer torrentid ar.peerIdText ar.ip ar.port (int32 now) ar.protover) torrentid ar
        e'.query with ⟨id, -, hq'⟩ | ⟨hn, -⟩ | hq'
      · simp only [updatePeer, hq']
        split
        · exact ⟨_, _, rfl⟩
        · exact ⟨_, _, rfl⟩
      · rw [Db.queryPeerById_eq_none_iff, Db.addTorrentPeer_keys] at hn
        simp at hn
      · exact ⟨_, _, by rw [updatePeer, hq']⟩
    · rw [if_neg ha]
      exact ⟨_, _, rfl⟩
  · exact ⟨_, _, by rw [updatePeer, hq]⟩

end Traccoon
