import Traccoon.Lib.Machine
import Traccoon.Db

/-!
# Announces recorded at the same time

Every worker thread has its own connection and `updatePeer` opens no transaction, so what other threads see of a call is its
statements, one at a time. A call is where it stands between two of them (`UpdatePc`); `updatePeerStep` runs the next one. The
tracker is the shared tables and all calls in flight, driven by a schedule of their steps and of prunes by the main thread.
-/

namespace Traccoon

open CString

/-- The statement a call of `updatePeer` runs next, or the value it has returned. -/
inductive UpdatePc where
  | queryPeer
  | addPeer
  | modifyPeer (peerRow : Int)
  | updateTorrent
  | returned (error : Int)
  deriving DecidableEq, Repr

/-- The next statement of a call of `updatePeer(db, torrentid, ar)`. After an insert the source calls itself, so the call stands
before its first statement again. -/
def updatePeerStep (torrentid : Int) (ar : AnnounceRequest) (s : Db × UpdatePc) (e : StmtEnv) : Db × UpdatePc :=
  match s.2 with
  | .queryPeer =>
    match queryPeer s.1 torrentid ar e with
    | .failed => (s.1, .returned dbFailed)
    | .missing => (s.1, .addPeer)
    | .row peerRow => (s.1, .modifyPeer peerRow)
  | .addPeer =>
    let (error, db') := addPeer s.1 ar torrentid e
    (db', if error = 0 then .queryPeer else .returned dbFailed)
  | .modifyPeer peerRow =>
    let (error, db') := modifyPeer s.1 ar peerRow e
    (db', if error ≠ 0 ∨ ar.event ≠ .completed then .returned error else .updateTorrent)
  | .updateTorrent =>
    let (error, db') := updateTorrent s.1 torrentid e
    (db', .returned error)
  | .returned error => (s.1, .returned error)

/-- A call that nothing interrupts goes, statement by statement, where `updatePeer` goes. -/
theorem updatePeer_eq_run (torrentid : Int) (ar : AnnounceRequest) (envs : List CallEnv) (db db' : Db) (error : Int)
    (h : updatePeer torrentid ar envs db = some (error, db')) :
    ∃ es, Machine.run (updatePeerStep torrentid ar) (db, .queryPeer) es = (db', .returned error) := by
  induction envs generalizing db with
  | nil => simp [updatePeer] at h
  | cons e envs ih =>
    rw [updatePeer] at h
    cases hq : queryPeer db torrentid ar e.query with
    | failed =>
      simp only [hq, Option.some.injEq, Prod.mk.injEq] at h
      obtain ⟨rfl, rfl⟩ := h
      exact ⟨[e.query], by simp [updatePeerStep, hq]⟩
    | missing =>
      simp only [hq] at h
      split at h
      · rename_i h0
        obtain ⟨es, hes⟩ := ih _ h
        exact ⟨e.query :: e.add :: es, by simpa [updatePeerStep, hq, h0] using hes⟩
      · rename_i h0
        simp only [Option.some.injEq, Prod.mk.injEq] at h
        obtain ⟨rfl, rfl⟩ := h
        exact ⟨[e.query, e.add], by simp [updatePeerStep, hq, h0]⟩
    | row peerRow =>
      simp only [hq] at h
      split at h
      · rename_i h0
        simp only [Option.some.injEq, Prod.mk.injEq] at h
        obtain ⟨rfl, rfl⟩ := h
        exact ⟨[e.query, e.modify], by simp [updatePeerStep, hq, h0]⟩
      · rename_i h0
        simp only [Option.some.injEq] at h
        refine ⟨[e.query, e.modify, e.complete], ?_⟩
        simp [updatePeerStep, hq, h0, h]

/-- The tables and the calls in flight. `ι` names the calls, any number of them. -/
structure Tracker (ι : Type) where
  db : Db
  pc : ι → UpdatePc

/-- A step: the next statement of a call, or a prune by the main thread. -/
inductive Action (ι : Type) where
  | call (i : ι) (e : StmtEnv)
  | prune (expireInterval : Int) (e : StmtEnv)

/-- What a call was made with: the torrent id and the announce. -/
structure Call where
  torrentid : Int
  ar : AnnounceRequest
  deriving DecidableEq, Repr

/-- The torrent and peer id a call is about. -/
def Call.key (c : Call) : Int × Bytes := (c.torrentid, c.ar.peerIdText)

variable {ι : Type} [DecidableEq ι]

/-- One step of the tracker. -/
def Tracker.step (calls : ι → Call) (s : Tracker ι) : Action ι → Tracker ι
  | .call i e =>
    let (db', pc') := updatePeerStep (calls i).torrentid (calls i).ar (s.db, s.pc i) e
    { db := db', pc := Function.update s.pc i pc' }
  | .prune expireInterval e => { s with db := (prunePeers s.db expireInterval e).2 }

/-- All calls are about to start. A call that joins later is one that has not taken a step yet. -/
def Tracker.start (db : Db) : Tracker ι := { db := db, pc := fun _ => .queryPeer }

/-- The states a schedule passes through. -/
def Tracker.Visits (calls : ι → Call) (db : Db) (schedule : List (Action ι)) (s : Tracker ι) : Prop :=
  Machine.Visits (Tracker.step calls) (Tracker.start db) schedule s

/-! ## What a step does to the tables -/

/-- What one statement of a call does, by where the call stands. Only the insert adds a key, and only the lookup leads to it. -/
theorem updatePeerStep_cases (torrentid : Int) (ar : AnnounceRequest) (db : Db) (pc : UpdatePc) (e : StmtEnv) :
    (pc = .addPeer ∧ ∃ now, updatePeerStep torrentid ar (db, pc) e =
      (db.addTorrentPeer torrentid ar.peerIdText ar.ip ar.port (int32 now) ar.protover, .queryPeer)) ∨
    (pc = .queryPeer ∧ (torrentid, ar.peerIdText) ∉ db.peers.map Peer.key ∧
      updatePeerStep torrentid ar (db, pc) e = (db, .addPeer)) ∨
    ((updatePeerStep torrentid ar (db, pc) e).1.peers.map Peer.key = db.peers.map Peer.key ∧
      (updatePeerStep torrentid ar (db, pc) e).2 ≠ .addPeer) := by
  cases pc with
  | queryPeer =>
    rcases queryPeer_cases db torrentid ar e with ⟨id, -, h⟩ | ⟨hq, h⟩ | h
    · exact Or.inr (Or.inr (by simp [updatePeerStep, h]))
    · exact Or.inr (Or.inl ⟨rfl, Db.queryPeerById_eq_none_iff.1 hq, by simp [updatePeerStep, h]⟩)
    · exact Or.inr (Or.inr (by simp [updatePeerStep, h]))
  | addPeer =>
    rcases addPeer_cases db ar torrentid e with ⟨now, -, h⟩ | ⟨h0, h1⟩
    · exact Or.inl ⟨rfl, now, by simp only [updatePeerStep, h, if_true]⟩
    · exact Or.inr (Or.inr ⟨by simp only [updatePeerStep, h1], by simp [updatePeerStep, h0]⟩)
  | modifyPeer peerRow =>
    right; right
    rcases modifyPeer_cases db ar peerRow e with ⟨now, -, h⟩ | ⟨h0, h1⟩
    · refine ⟨by simp only [updatePeerStep, h, Db.updatePeerData_keys], ?_⟩
      simp only [updatePeerStep, h, ne_eq, not_true_eq_false, false_or]
      split <;> simp
    · exact ⟨by simp only [updatePeerStep, h1], by simp [updatePeerStep, h0]⟩
  | updateTorrent =>
    right; right
    refine ⟨?_, by simp [updatePeerStep]⟩
    rcases updateTorrent_cases db torrentid e with h | ⟨-, h1⟩
    · simp only [updatePeerStep, h, Db.increaseCompletionCount_peers]
    · simp only [updatePeerStep, h1]
  | returned error => exact Or.inr (Or.inr (by simp [updatePeerStep]))

/-- What one statement of a call does to the torrents. The counter is raised by the step that makes an announce of a completion
return 0, and no other step changes it. -/
theorem updatePeerStep_torrents (torrentid : Int) (ar : AnnounceRequest) (db : Db) (pc : UpdatePc) (e : StmtEnv) :
    (pc = .updateTorrent ∧ updatePeerStep torrentid ar (db, pc) e = (db.increaseCompletionCount torrentid, .returned 0)) ∨
    ((updatePeerStep torrentid ar (db, pc) e).1.torrents = db.torrents ∧
      (ar.event = .completed → ((updatePeerStep torrentid ar (db, pc) e).2 = .returned 0 ↔ pc = .returned 0)) ∧
      ((updatePeerStep torrentid ar (db, pc) e).2 = .updateTorrent → ar.event = .completed)) := by
  cases pc with
  | queryPeer =>
    right
    rcases queryPeer_cases db torrentid ar e with ⟨id, -, h⟩ | ⟨-, h⟩ | h
    · simp [updatePeerStep, h]
    · simp [updatePeerStep, h]
    · simp [updatePeerStep, h, dbFailed]
  | addPeer =>
    right
    rcases addPeer_cases db ar torrentid e with ⟨now, -, h⟩ | ⟨h0, h1⟩
    · simp [updatePeerStep, h, Db.addTorrentPeer]
    · simp [updatePeerStep, h0, h1, dbFailed]
  | modifyPeer peerRow =>
    right
    rcases modifyPeer_cases db ar peerRow e with ⟨now, -, h⟩ | ⟨h0, h1⟩
    · by_cases hev : ar.event = .completed
      · simp [updatePeerStep, h, hev, Db.updatePeerData]
      · simp [updatePeerStep, h, hev, Db.updatePeerData]
    · simp [updatePeerStep, h0, h1]
  | updateTorrent =>
    rcases updateTorrent_cases db torrentid e with h | ⟨h0, h1⟩
    · exact Or.inl ⟨rfl, by simp only [updatePeerStep, h]⟩
    · right
      simp [updatePeerStep, h0, h1]
  | returned error =>
    right
    simp [updatePeerStep]

/-- A prune removes rows and does nothing else to the peers. -/
theorem prunePeers_sublist (db : Db) (expireInterval : Int) (e : StmtEnv) :
    (prunePeers db expireInterval e).2.peers.Sublist db.peers := by
  rcases prunePeers_cases db expireInterval e with ⟨now, -, h⟩ | ⟨-, h⟩
  · rw [h]
    exact Db.queryPrunePeers_sublist db _
  · rw [h]

end Traccoon
