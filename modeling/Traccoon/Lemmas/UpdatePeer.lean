import Traccoon.Db

/-!
# What a call of `updatePeer` leaves in the tables

`updatePeer` runs up to four statements that no transaction holds together. `Leaves` lists the tables a call can end with, beside
the value it returns; `updatePeer_leaves` says that there are no others, whichever of its statements fail. Facts about whole runs of
announces are taken from this list.
-/

namespace Traccoon

open CString

/-- The row that `addPeer` writes at time `now`. -/
def addedRow (db : Db) (ar : AnnounceRequest) (torrentid now : Int) : Peer :=
  { id := db.peerSeq + 1, torrent := torrentid, peerId := ar.peerIdText, ip := ar.ip, port := ar.port, protover := ar.protover,
    left := 0, status := none, expires := int32 now }

/-- The tables with that row. -/
def withAdded (db : Db) (ar : AnnounceRequest) (torrentid now : Int) : Db :=
  db.addTorrentPeer torrentid ar.peerIdText ar.ip ar.port (int32 now) ar.protover

/-- The tables after the update of a row that a call found, at time `now`. The row id it updates is the one it read into an `int`. -/
def withUpdated (db : Db) (ar : AnnounceRequest) (row : Peer) (now : Int) : Db :=
  db.updatePeerData ar.left ar.event.code (int32 now) (int32 row.id)

/-- Where a call finds the row of its peer: the tables, the row, and the answers to the statements behind. A peer without a row is
inserted first, and found by the call that `updatePeer` makes to itself. -/
inductive Finds (torrentid : Int) (ar : AnnounceRequest) (e e' : CallEnv) (db : Db) : Db → Peer → CallEnv → Prop where
  | stored {row : Peer} (h : db.rowOf (torrentid, ar.peerIdText) = some row) : Finds torrentid ar e e' db db row e
  | added {now : Int} (h : db.rowOf (torrentid, ar.peerIdText) = none) (hc : e.add.clock = some now) :
      Finds torrentid ar e e' db (withAdded db ar torrentid now) (addedRow db ar torrentid now) e'

/-- What a call can return, with the tables it leaves. -/
inductive Leaves (torrentid : Int) (ar : AnnounceRequest) (e e' : CallEnv) (db : Db) : Int → Db → Prop where
  /-- Nothing was written. -/
  | unread {error : Int} (h : error ≠ 0) : Leaves torrentid ar e e' db error db
  /-- The row was found, perhaps after it was inserted, and not updated. -/
  | found {error : Int} {base : Db} {row : Peer} {env : CallEnv} (hf : Finds torrentid ar e e' db base row env) (h : error ≠ 0) :
      Leaves torrentid ar e e' db error base
  /-- The row was updated. -/
  | recorded {base : Db} {row : Peer} {env : CallEnv} {now : Int} (hf : Finds torrentid ar e e' db base row env)
      (hc : env.modify.clock = some now) (hev : ar.event ≠ .completed) : Leaves torrentid ar e e' db 0 (withUpdated base ar row now)
  /-- The row was updated, and the completion counted. -/
  | counted {base : Db} {row : Peer} {env : CallEnv} {now : Int} (hf : Finds torrentid ar e e' db base row env)
      (hc : env.modify.clock = some now) (hev : ar.event = .completed) :
      Leaves torrentid ar e e' db 0 ((withUpdated base ar row now).increaseCompletionCount torrentid)
  /-- The row was updated, and the completion not counted. -/
  | uncounted {error : Int} {base : Db} {row : Peer} {env : CallEnv} {now : Int} (hf : Finds torrentid ar e e' db base row env)
      (hc : env.modify.clock = some now) (hev : ar.event = .completed) (h : error ≠ 0) :
      Leaves torrentid ar e e' db error (withUpdated base ar row now)

variable {torrentid : Int} {ar : AnnounceRequest} {e e' : CallEnv} {db db' base : Db} {row : Peer} {env : CallEnv} {error : Int}

/-! ## Where the row is found -/

/-- The row found is the first row of the call's peer. -/
theorem Finds.rowOf (h : Finds torrentid ar e e' db base row env) : base.rowOf (torrentid, ar.peerIdText) = some row := by
  cases h with
  | stored h => exact h
  | added h hc =>
    rename_i now
    have hnew := Db.rowOf_addTorrentPeer db torrentid ar.peerIdText ar.ip ar.port (int32 now) ar.protover h
      (torrentid, ar.peerIdText)
    rwa [if_pos rfl] at hnew

/-- Looking for a row leaves the torrents alone. -/
theorem Finds.torrents (h : Finds torrentid ar e e' db base row env) : base.torrents = db.torrents := by
  cases h with
  | stored h => rfl
  | added h hc => rfl

/-- A peer with a row is not inserted. -/
theorem Finds.eq_of_some {r : Peer} (hr : db.rowOf (torrentid, ar.peerIdText) = some r)
    (h : Finds torrentid ar e e' db base row env) : base = db ∧ row = r ∧ env = e := by
  cases h with
  | stored h => exact ⟨rfl, Option.some.inj (h.symm.trans hr), rfl⟩
  | added h hc =>
    rw [h] at hr
    cases hr

/-- A peer without a row is inserted. -/
theorem Finds.eq_of_none (hr : db.rowOf (torrentid, ar.peerIdText) = none) (h : Finds torrentid ar e e' db base row env) :
    ∃ now, e.add.clock = some now ∧ base = withAdded db ar torrentid now ∧ row = addedRow db ar torrentid now ∧ env = e' := by
  cases h with
  | stored h =>
    rw [h] at hr
    cases hr
  | added h hc => exact ⟨_, hc, rfl, rfl, rfl⟩

/-! ## Every way a call can go -/

namespace UpdatePeerAux

/-- An activation that has a row to find: its lookup fails, or the row is updated or not, and a completion counted or not. -/
theorem activation {es : List CallEnv} (hrow : base.rowOf (torrentid, ar.peerIdText) = some row)
    (h : updatePeer torrentid ar (env :: es) base = some (error, db')) :
    (error ≠ 0 ∧ db' = base) ∨ ∃ now, env.modify.clock = some now ∧
      ((error = 0 ∧ ar.event ≠ .completed ∧ db' = withUpdated base ar row now) ∨
       (error = 0 ∧ ar.event = .completed ∧ db' = (withUpdated base ar row now).increaseCompletionCount torrentid) ∨
       (error ≠ 0 ∧ ar.event = .completed ∧ db' = withUpdated base ar row now)) := by
  rw [updatePeer] at h
  rcases queryPeer_cases base torrentid ar env.query with ⟨id, hid, hq⟩ | ⟨hn, hq⟩ | hq
  · simp only [Db.queryPeerById, hrow, Option.map_some, Option.some.injEq] at hid
    subst hid
    simp only [hq] at h
    rcases modifyPeer_cases base ar (int32 row.id) env.modify with ⟨now, hc, hm⟩ | ⟨hm, hm'⟩
    · refine Or.inr ⟨now, hc, ?_⟩
      simp only [hm, ne_eq, not_true_eq_false, false_or] at h
      by_cases hev : ar.event = .completed
      · simp only [hev, not_true_eq_false, if_false, Option.some.injEq] at h
        rcases updateTorrent_cases (withUpdated base ar row now) torrentid env.complete with hu | ⟨hu, hu'⟩
        · rw [withUpdated, hev] at hu
          rw [hu] at h
          obtain ⟨rfl, rfl⟩ := Prod.mk.inj h
          exact Or.inr (Or.inl ⟨rfl, hev, by rw [withUpdated, hev]⟩)
        · rw [withUpdated, hev] at hu hu'
          rw [h] at hu hu'
          exact Or.inr (Or.inr ⟨hu, hev, by rw [withUpdated, hev]; exact hu'⟩)
      · simp only [hev, not_false_eq_true, if_true, Option.some.injEq, Prod.mk.injEq] at h
        obtain ⟨rfl, rfl⟩ := h
        exact Or.inl ⟨rfl, hev, rfl⟩
    · rw [if_pos (Or.inl hm)] at h
      obtain ⟨rfl, rfl⟩ := Prod.mk.inj (Option.some.inj h)
      exact Or.inl ⟨hm, hm'⟩
  · simp [Db.queryPeerById, hrow] at hn
  · simp only [hq, Option.some.injEq, Prod.mk.injEq] at h
    obtain ⟨rfl, rfl⟩ := h
    exact Or.inl ⟨by simp [dbFailed], rfl⟩

/-- An activation that finds the row ends in one of the ways listed. -/
theorem leaves_of_activation {es : List CallEnv} (hf : Finds torrentid ar e e' db base row env)
    (h : updatePeer torrentid ar (env :: es) base = some (error, db')) : Leaves torrentid ar e e' db error db' := by
  rcases activation hf.rowOf h with ⟨h0, rfl⟩ | ⟨now, hc, ⟨rfl, hev, rfl⟩ | ⟨rfl, hev, rfl⟩ | ⟨h0, hev, rfl⟩⟩
  · exact .found hf h0
  · exact .recorded hf hc hev
  · exact .counted hf hc hev
  · exact .uncounted hf hc hev h0

end UpdatePeerAux

open UpdatePeerAux

/-- Every call ends in one of the ways listed, whichever of its statements fail. -/
theorem updatePeer_leaves (h : updatePeer torrentid ar [e, e'] db = some (error, db')) :
    Leaves torrentid ar e e' db error db' := by
  cases hrow : db.rowOf (torrentid, ar.peerIdText) with
  | some row => exact leaves_of_activation (.stored hrow) h
  | none =>
    rw [updatePeer] at h
    rcases queryPeer_cases db torrentid ar e.query with ⟨id, hid, -⟩ | ⟨-, hq⟩ | hq
    · simp [Db.queryPeerById, hrow] at hid
    · simp only [hq] at h
      rcases addPeer_cases db ar torrentid e.add with ⟨now, hc, ha⟩ | ⟨ha, ha'⟩
      · simp only [ha, if_true] at h
        exact leaves_of_activation (.added hrow hc) h
      · rw [if_neg ha, ha'] at h
        simp only [Option.some.injEq, Prod.mk.injEq] at h
        obtain ⟨rfl, rfl⟩ := h
        exact .unread (by simp [dbFailed])
    · simp only [hq, Option.some.injEq, Prod.mk.injEq] at h
      obtain ⟨rfl, rfl⟩ := h
      exact .unread (by simp [dbFailed])

/-- A call that returns 0 has updated the row it found; beside it only the counter of its torrent can have changed. -/
theorem Leaves.updated (h : Leaves torrentid ar e e' db 0 db') :
    ∃ base row env now, Finds torrentid ar e e' db base row env ∧ env.modify.clock = some now ∧
      db'.peers = (withUpdated base ar row now).peers ∧ db'.peerSeq = base.peerSeq := by
  cases h with
  | unread h => exact absurd rfl h
  | found hf h => exact absurd rfl h
  | recorded hf hc hev => exact ⟨_, _, _, _, hf, hc, rfl, rfl⟩
  | counted hf hc hev => exact ⟨_, _, _, _, hf, hc, rfl, rfl⟩
  | uncounted hf hc hev h => exact absurd rfl h

/-! ## Rows of recorded announces

A peer without two rows, whose row id survives being read into an `int`: a call that returns 0 leaves it one row, which says what
the announce said, and leaves every other row alone. -/

/-- The row id that a call for this peer reads: of the row the peer has, or of the one the call inserts. -/
def rowIdFor (db : Db) (k : Int × Bytes) : Int := ((db.rowOf k).map (·.id)).getD (db.peerSeq + 1)

/-- That row id fits the `int` it is read into. -/
def RowIdFits (db : Db) (k : Int × Bytes) : Prop := IsInt32 (rowIdFor db k)

instance (db : Db) (k : Int × Bytes) : Decidable (RowIdFits db k) := inferInstanceAs (Decidable (_ ∧ _))

theorem Finds.idFits (h : Finds torrentid ar e e' db base row env) (hfit : RowIdFits db (torrentid, ar.peerIdText)) :
    IsInt32 row.id := by
  unfold RowIdFits rowIdFor at hfit
  cases h with
  | stored h => rwa [h] at hfit
  | added h hc => rwa [h] at hfit

theorem Finds.oneRowPerPeer (h : Finds torrentid ar e e' db base row env) (h1 : OneRowPerPeer db) : OneRowPerPeer base := by
  cases h with
  | stored h => exact h1
  | added h hc =>
    have hnew : (torrentid, ar.peerIdText) ∉ db.peers.map Peer.key := by
      rw [← Db.queryPeerById_eq_none_iff, Db.queryPeerById, h]
      rfl
    rw [OneRowPerPeer, withAdded, Db.addTorrentPeer_keys, List.nodup_append]
    refine ⟨h1, by simp, fun x hx y hy hxy => ?_⟩
    rw [List.mem_singleton.1 hy] at hxy
    exact hnew (hxy ▸ hx)

/-- The rows of other peers are not touched by looking for a peer's row. -/
theorem Finds.mem_iff (h : Finds torrentid ar e e' db base row env) {r : Peer} (hr : r.key ≠ (torrentid, ar.peerIdText)) :
    r ∈ base.peers ↔ r ∈ db.peers := by
  cases h with
  | stored h => exact Iff.rfl
  | added h hc =>
    simp only [withAdded, Db.addTorrentPeer, List.mem_append, List.mem_singleton]
    refine ⟨fun hm => ?_, Or.inl⟩
    rcases hm with hm | rfl
    · exact hm
    · exact absurd rfl hr

/-- The rows after the update of the row found: that row with what the announce said, and the other rows as they were. -/
theorem mem_withUpdated (h1 : OneRowPerPeer base) (hrow : base.rowOf (torrentid, ar.peerIdText) = some row) (hid : IsInt32 row.id)
    (now : Int) (r : Peer) :
    r ∈ (withUpdated base ar row now).peers ↔
      r = { row with left := ar.left, status := some ar.event.code, expires := int32 now } ∨
      (r.key ≠ (torrentid, ar.peerIdText) ∧ r ∈ base.peers) := by
  obtain ⟨hm, hkey⟩ := Db.rowOf_some hrow
  have hunique : ∀ x ∈ base.peers, x.key = (torrentid, ar.peerIdText) → x = row :=
    fun x hx hxk => List.inj_on_of_nodup_map h1 hx hm (hxk.trans hkey.symm)
  simp only [withUpdated, Db.updatePeerData, int32_of_isInt32 hid, List.mem_map]
  constructor
  · rintro ⟨x, hx, rfl⟩
    by_cases hxi : x.id = row.id
    · left
      obtain rfl := List.inj_on_of_nodup_map base.peerIds hx hm hxi
      simp [Db.updateRow]
    · right
      simp only [Db.updateRow, hxi, if_false]
      exact ⟨fun hxk => hxi (by rw [hunique x hx hxk]), hx⟩
  · rintro (rfl | ⟨hk, hr⟩)
    · exact ⟨row, hm, by simp [Db.updateRow]⟩
    · have hri : r.id ≠ row.id := fun hri => hk (by rw [List.inj_on_of_nodup_map base.peerIds hr hm hri, hkey])
      exact ⟨r, hr, by simp [Db.updateRow, hri]⟩

/-- The rows after a call that returned 0. -/
theorem Leaves.mem_recorded (h : Leaves torrentid ar e e' db 0 db') (h1 : OneRowPerPeer db)
    (hfit : RowIdFits db (torrentid, ar.peerIdText)) :
    OneRowPerPeer db' ∧ ∃ own : Peer, own.key = (torrentid, ar.peerIdText) ∧ own.left = ar.left ∧
      own.status = some ar.event.code ∧
      ∀ r, r ∈ db'.peers ↔ r = own ∨ (r.key ≠ (torrentid, ar.peerIdText) ∧ r ∈ db.peers) := by
  obtain ⟨base, row, env, now, hf, -, hp, -⟩ := h.updated
  have hb := hf.oneRowPerPeer h1
  refine ⟨?_, { row with left := ar.left, status := some ar.event.code, expires := int32 now }, (Db.rowOf_some hf.rowOf).2, rfl, rfl,
    fun r => ?_⟩
  · rw [OneRowPerPeer, hp, withUpdated, Db.updatePeerData_keys]
    exact hb
  · rw [hp, mem_withUpdated hb hf.rowOf (hf.idFits hfit)]
    refine or_congr_right (and_congr_right fun hk => hf.mem_iff hk)

end Traccoon
