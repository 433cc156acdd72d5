import Traccoon.Theorems.Isolation

/-!
# What a failed `updatePeer` leaves behind

No statement of `db.c` opens a transaction, so each statement of `updatePeer` that has run stays when a later one fails. A call
that reports a failure has never changed a torrent, and of the peers only its own row: it may have inserted it, with `left` 0 and
no status, and it may have updated it for a completion that it then failed to count (`updatePeer_failed`). The update names its row by
an id read into an `int`; where that fits, the row is its own.
-/

namespace Traccoon

open CString

namespace FailedUpdateAux

variable {torrentid : Int} {ar : AnnounceRequest} {db base : Db} {row : Peer}

/-- Looking for a peer's row leaves the rows of the others. -/
theorem otherPeers_of_finds {e e' env : CallEnv} (hf : Finds torrentid ar e e' db base row env) :
    otherPeers (torrentid, ar.peerIdText) base = otherPeers (torrentid, ar.peerIdText) db := by
  cases hf with
  | stored _ => rfl
  | added _ _ => exact IsolationAux.otherPeers_withAdded _ _ _ _

/-- So does its update, if it hits that row. -/
theorem otherPeers_withUpdated (hrow : base.rowOf (torrentid, ar.peerIdText) = some row) (hid : IsInt32 row.id) (now : Int) :
    otherPeers (torrentid, ar.peerIdText) (withUpdated base ar row now) = otherPeers (torrentid, ar.peerIdText) base := by
  obtain ⟨hm, hk⟩ := Db.rowOf_some hrow
  refine IsolationAux.otherPeers_updatePeerData ?_ _ _ _
  intro x hx hxr
  rw [int32_of_isInt32 hid] at hxr
  rw [List.inj_on_of_nodup_map base.peerIds hx hm hxr]
  exact hk

end FailedUpdateAux

open FailedUpdateAux

/-- Whichever statements fail: a call of `updatePeer` that returns a failure leaves the torrents as they were. The peers are as they
were too, but for a row that it inserted for its own peer, which had none, and for the update of its own peer's row by an announce of
a completion. So the announce of a peer that has a row changes nothing when it fails, unless it announces a completion; and as long as
the row id it reads fits an `int`, it changes no row of another peer. -/
theorem updatePeer_failed (torrentid : Int) (ar : AnnounceRequest) (e e' : CallEnv) (db db' : Db) (error : Int)
    (h : updatePeer torrentid ar [e, e'] db = some (error, db')) (hne : error ≠ 0) :
    db'.torrents = db.torrents ∧
    (∃ base, (base = db ∨ db.rowOf (torrentid, ar.peerIdText) = none ∧ ∃ now, base = withAdded db ar torrentid now) ∧
      (db' = base ∨ ar.event = .completed ∧
        ∃ row now, base.rowOf (torrentid, ar.peerIdText) = some row ∧ db' = withUpdated base ar row now)) ∧
    ((db.rowOf (torrentid, ar.peerIdText)).isSome → ar.event ≠ .completed → db' = db) ∧
    (RowIdFits db (torrentid, ar.peerIdText) → otherPeers (torrentid, ar.peerIdText) db' = otherPeers (torrentid, ar.peerIdText) db) := by
  have hbase : ∀ {base row env}, Finds torrentid ar e e' db base row env →
      (base = db ∨ db.rowOf (torrentid, ar.peerIdText) = none ∧ ∃ now, base = withAdded db ar torrentid now) ∧
      ((db.rowOf (torrentid, ar.peerIdText)).isSome → base = db) := by
    intro base row env hf
    cases hf with
    | stored hrow => exact ⟨Or.inl rfl, fun _ => rfl⟩
    | added hrow hc =>
      refine ⟨Or.inr ⟨hrow, _, rfl⟩, fun hs => ?_⟩
      rw [hrow] at hs
      cases hs
  cases updatePeer_leaves h with
  | unread _ => exact ⟨rfl, ⟨db, Or.inl rfl, Or.inl rfl⟩, fun _ _ => rfl, fun _ => rfl⟩
  | found hf _ => exact ⟨hf.torrents, ⟨_, (hbase hf).1, Or.inl rfl⟩, fun hs _ => (hbase hf).2 hs, fun _ => otherPeers_of_finds hf⟩
  | recorded hf hc hev => exact absurd rfl hne
  | counted hf hc hev => exact absurd rfl hne
  | uncounted hf hc hev _ =>
    refine ⟨hf.torrents, ⟨_, (hbase hf).1, Or.inr ⟨hev, _, _, hf.rowOf, rfl⟩⟩, fun _ hn => absurd hev hn, ?_⟩
    intro hfit
    rw [otherPeers_withUpdated hf.rowOf (hf.idFits hfit), otherPeers_of_finds hf]

namespace FailedUpdateExample

/-- One torrent, no peers. -/
def db : Db := Db.ofTorrent ⟨1, ascii "00", 0⟩

/-- A peer that announces an event with this many bytes left. -/
def announce (event : BtEvent) (left : Int) : AnnounceRequest :=
  { infoHash := [], peerId := ascii "-TC0010-", ip := ascii "10.0.0.1", port := 6881, protover := 4, event := event, left := left,
    compact := false, noPeerId := false, numwant := 50 }

/-- The database is locked by another connection for longer than the busy timeout. -/
def locked : StmtEnv := { StmtEnv.ok 7 with step := .fails ⟨sqliteBusy, by decide, by decide, by decide, by decide, by decide⟩ }

/-- The lookup after the insert fails. -/
def stopsAfterInsert : List CallEnv := [.ok 7, { CallEnv.ok 7 with query := locked }]

/-- The counter update fails. -/
def stopsBeforeCount : List CallEnv := [.ok 7, { CallEnv.ok 7 with complete := locked }]

/-- Another peer has announced itself. -/
def shared : Db := withAdded db { announce .started 9 with peerId := ascii "-TC0011-" } 1 3

end FailedUpdateExample

open FailedUpdateExample

/-- The failed announce of a completion, by a peer without a row. -/
theorem updatePeer_failed_uncounted :
    (updatePeer 1 (announce .completed 0) stopsBeforeCount shared).map
        (fun r => (r.1, r.2.torrents, otherPeers (1, ascii "-TC0010-") r.2, r.2.peers.length)) =
      some (-1, [⟨1, ascii "00", 0⟩], shared.peers, 2) := by
  obtain ⟨error, db', h⟩ := updatePeer_isSome 1 (announce .completed 0) (.ok 7) { CallEnv.ok 7 with complete := locked } shared
  have hresult : (updatePeer 1 (announce .completed 0) stopsBeforeCount shared).map (fun r => (r.1, r.2.peers.length)) = some (-1, 2) := by
    decide
  rw [stopsBeforeCount, h, Option.map_some, Option.some.injEq, Prod.mk.injEq] at hresult
  obtain ⟨rfl, hlength⟩ := hresult
  obtain ⟨ht, -, -, hothers⟩ :=
    updatePeer_failed 1 (announce .completed 0) (.ok 7) { CallEnv.ok 7 with complete := locked } shared db' (-1) h (by decide)
  have hkept : otherPeers (1, ascii "-TC0010-") db' = otherPeers (1, ascii "-TC0010-") shared := hothers (by decide)
  have hall : otherPeers (1, ascii "-TC0010-") shared = shared.peers := by decide
  rw [stopsBeforeCount, h, Option.map_some, ht, hkept, hlength, hall]
  rfl

/-- A first announce of a leecher whose second lookup meets a lock returns a failure and leaves a row, which counts as a seed; an
announce of a completion whose counter update meets a lock returns a failure and leaves the updated row. -/
theorem updatePeer_failed_changes :
    ((updatePeer 1 (announce .started 9) stopsAfterInsert db).map fun r => (r.1, r.2.peers.length, r.2.getSeedCount 1)) =
      some (-1, 1, some 1) ∧
    ((updatePeer 1 (announce .completed 0) stopsBeforeCount db).map fun r => (r.1, r.2.peers.map (·.status))) =
      some (-1, [some 1]) ∧
    db.peers = [] := by
  refine ⟨by decide, by decide, rfl⟩

end Traccoon
