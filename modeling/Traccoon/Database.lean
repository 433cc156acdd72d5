import Mathlib.Data.List.Nodup
import Traccoon.Header

/-!
# `statements.h`: the two tables and the statements on them

`CREATE_TORRENT_TABLE` and `CREATE_PEERS_TABLE` make the row ids and the torrent hashes unique and number peer rows with
AUTOINCREMENT, which never gives an id twice: these constraints are fields of `Db`. Nothing in the schema makes a peer unique
within a torrent. Each statement is a function on the tables; SQLite runs it as one atomic step.
-/

namespace Traccoon

open CString

/-- A row of `torrents`. -/
structure Torrent where
  id : Int
  hash : Bytes
  downloaded : Int
  deriving DecidableEq, Repr

/-- A row of `peers`. `status` is NULL until it is set. -/
structure Peer where
  id : Int
  torrent : Int
  peerId : Bytes
  ip : Bytes
  port : Int
  protover : Int
  left : Int
  status : Option Int
  expires : Int
  deriving DecidableEq, Repr

/-- What a peer is looked up by. -/
def Peer.key (r : Peer) : Int × Bytes := (r.torrent, r.peerId)

/-- The database: the rows in the order of their insertion, the highest peer row id given so far, and what the schema promises. -/
structure Db where
  torrents : List Torrent
  peers : List Peer
  peerSeq : Int
  torrentIds : (torrents.map (·.id)).Nodup
  torrentHashes : (torrents.map (·.hash)).Nodup
  peerIds : (peers.map (·.id)).Nodup
  peerSeqLe : ∀ r ∈ peers, r.id ≤ peerSeq

/-- A database as `createEmptyDatabase` leaves it, with these torrents registered. -/
def Db.ofTorrents (ts : List Torrent) (hi : (ts.map (·.id)).Nodup) (hh : (ts.map (·.hash)).Nodup) : Db :=
  { torrents := ts, peers := [], peerSeq := 0, torrentIds := hi, torrentHashes := hh, peerIds := by simp,
    peerSeqLe := by simp }

/-- No torrents. -/
def Db.blank : Db := Db.ofTorrents [] (by simp) (by simp)

/-- One torrent. -/
def Db.ofTorrent (t : Torrent) : Db := Db.ofTorrents [t] (by simp) (by simp)

/-- The peers table has at most one row per torrent and peer id. -/
def OneRowPerPeer (db : Db) : Prop := (db.peers.map Peer.key).Nodup

instance (db : Db) : Decidable (OneRowPerPeer db) := inferInstanceAs (Decidable (List.Nodup _))

namespace Db

/-- `QUERY_TORRENT_ID`: `SELECT id FROM torrents WHERE hash=?`. -/
def queryTorrentId (db : Db) (hash : Bytes) : Option Int := (db.torrents.find? (fun t => t.hash == hash)).map (·.id)

/-- The rows `QUERY_TORRENT_PEERS` chooses from: `SELECT … FROM peers WHERE torrent=?`. -/
def torrentPeers (db : Db) (torrent : Int) : List Peer := db.peers.filter (fun r => r.torrent == torrent)

/-- `ADD_TORRENT_PEER`: `INSERT INTO peers (torrent, peer_id, ip, port, expires, protover) VALUES (?,?,?,?,?,?)`. The other
columns take their defaults. -/
def addTorrentPeer (db : Db) (torrent : Int) (peerId ip : Bytes) (port expires protover : Int) : Db :=
  { db with
    peers := db.peers ++ [{ id := db.peerSeq + 1, torrent := torrent, peerId := peerId, ip := ip, port := port,
                            protover := protover, left := 0, status := none, expires := expires }]
    peerSeq := db.peerSeq + 1
    peerIds := by
      rw [List.map_append, List.nodup_append]
      refine ⟨db.peerIds, by simp, ?_⟩
      intro x hx y hy hxy
      obtain ⟨r, hr, rfl⟩ := List.mem_map.1 hx
      have := db.peerSeqLe r hr
      simp only [List.map_cons, List.map_nil, List.mem_singleton] at hy
      omega
    peerSeqLe := by
      intro r hr
      rcases List.mem_append.1 hr with hr | hr
      · have := db.peerSeqLe r hr
        omega
      · obtain rfl := List.mem_singleton.1 hr
        exact Int.le_refl _ }

/-- The first row of a peer. -/
def rowOf (db : Db) (k : Int × Bytes) : Option Peer := db.peers.find? (fun r => r.key == k)

/-- `QUERY_PEER_BY_ID`: `SELECT id FROM peers WHERE torrent=? AND peer_id=?`, of which the first row is fetched. -/
def queryPeerById (db : Db) (torrent : Int) (peerId : Bytes) : Option Int := (db.rowOf (torrent, peerId)).map (·.id)

/-- What `UPDATE_PEER_DATA` does to a row. -/
def updateRow (left status expires row : Int) (r : Peer) : Peer :=
  if r.id = row then { r with left := left, status := some status, expires := expires } else r

@[simp] theorem updateRow_id (left status expires row : Int) (r : Peer) : (updateRow left status expires row r).id = r.id := by
  unfold updateRow
  split <;> rfl

@[simp] theorem updateRow_key (left status expires row : Int) (r : Peer) : (updateRow left status expires row r).key = r.key := by
  unfold updateRow
  split <;> rfl

/-- `UPDATE_PEER_DATA`: `UPDATE peers SET left=?, status=?, expires=? WHERE id=?`. -/
def updatePeerData (db : Db) (left status expires row : Int) : Db :=
  { db with
    peers := db.peers.map (updateRow left status expires row)
    peerIds := by
      have h : ∀ l : List Peer, (l.map (updateRow left status expires row)).map (·.id) = l.map (·.id) := by
        intro l
        simp
      rw [h]
      exact db.peerIds
    peerSeqLe := by
      intro r hr
      obtain ⟨r', hr', rfl⟩ := List.mem_map.1 hr
      rw [updateRow_id]
      exact db.peerSeqLe r' hr' }

/-- `QUERY_PRUNE_PEERS`: `DELETE FROM peers WHERE expires<?`. -/
def queryPrunePeers (db : Db) (cutoff : Int) : Db :=
  { db with
    peers := db.peers.filter (fun r => decide (cutoff ≤ r.expires))
    peerIds := db.peerIds.sublist ((List.filter_sublist).map _)
    peerSeqLe := fun r hr => db.peerSeqLe r (List.mem_filter.1 hr).1 }

/-- What `INCREASE_COMPLETION_COUNT` does to a row. -/
def countRow (id : Int) (t : Torrent) : Torrent := if t.id = id then { t with downloaded := t.downloaded + 1 } else t

@[simp] theorem countRow_id (id : Int) (t : Torrent) : (countRow id t).id = t.id := by
  unfold countRow
  split <;> rfl

@[simp] theorem countRow_hash (id : Int) (t : Torrent) : (countRow id t).hash = t.hash := by
  unfold countRow
  split <;> rfl

/-- `INCREASE_COMPLETION_COUNT`: `UPDATE torrents SET downloaded=downloaded+1 WHERE id=?`. -/
def increaseCompletionCount (db : Db) (id : Int) : Db :=
  { db with
    torrents := db.torrents.map (countRow id)
    torrentIds := by
      have h : ∀ l : List Torrent, (l.map (countRow id)).map (·.id) = l.map (·.id) := by
        intro l
        simp
      rw [h]
      exact db.torrentIds
    torrentHashes := by
      have h : ∀ l : List Torrent, (l.map (countRow id)).map (·.hash) = l.map (·.hash) := by
        intro l
        simp
      rw [h]
      exact db.torrentHashes }

/-- `GET_COMPLETION_COUNT`: `SELECT downloaded FROM torrents WHERE id=?`. -/
def getCompletionCount (db : Db) (torrent : Int) : Option Int := (db.torrents.find? (fun t => t.id == torrent)).map (·.downloaded)

/-- `GET_SEED_COUNT`: `SELECT count(peers.id) FROM peers WHERE torrent=? AND left=0`. -/
def getSeedCount (db : Db) (torrent : Int) : Option Int :=
  some ((db.torrentPeers torrent).filter (fun r => r.left == 0)).length

/-- `GET_PEERS_COUNT`: `SELECT count(peers.id) FROM peers WHERE torrent=? AND left!=0`. -/
def getPeersCount (db : Db) (torrent : Int) : Option Int :=
  some ((db.torrentPeers torrent).filter (fun r => r.left != 0)).length

/-! ### What the statements do to the peers -/

@[simp] theorem addTorrentPeer_keys (db : Db) (torrent : Int) (peerId ip : Bytes) (port expires protover : Int) :
    (db.addTorrentPeer torrent peerId ip port expires protover).peers.map Peer.key =
      db.peers.map Peer.key ++ [(torrent, peerId)] := by
  simp [addTorrentPeer, Peer.key]

@[simp] theorem updatePeerData_keys (db : Db) (left status expires row : Int) :
    (db.updatePeerData left status expires row).peers.map Peer.key = db.peers.map Peer.key := by
  simp [updatePeerData]

@[simp] theorem increaseCompletionCount_peers (db : Db) (id : Int) : (db.increaseCompletionCount id).peers = db.peers := rfl

theorem queryPrunePeers_sublist (db : Db) (cutoff : Int) : (db.queryPrunePeers cutoff).peers.Sublist db.peers :=
  List.filter_sublist

/-- A peer without a row is a key without a row. -/
theorem queryPeerById_eq_none_iff {db : Db} {torrent : Int} {peerId : Bytes} :
    db.queryPeerById torrent peerId = none ↔ (torrent, peerId) ∉ db.peers.map Peer.key := by
  simp only [queryPeerById, rowOf, Option.map_eq_none_iff, List.find?_eq_none, beq_iff_eq, List.mem_map, not_exists, not_and]

theorem rowOf_some {db : Db} {k : Int × Bytes} {r : Peer} (h : db.rowOf k = some r) : r ∈ db.peers ∧ r.key = k :=
  ⟨List.mem_of_find?_eq_some h, by simpa using List.find?_some h⟩

/-- An insert for a peer without a row gives it the new row, and leaves every other peer the row it has. -/
theorem rowOf_addTorrentPeer (db : Db) (torrent : Int) (peerId ip : Bytes) (port expires protover : Int)
    (h : db.rowOf (torrent, peerId) = none) (k : Int × Bytes) :
    (db.addTorrentPeer torrent peerId ip port expires protover).rowOf k =
      if k = (torrent, peerId) then
        some { id := db.peerSeq + 1, torrent := torrent, peerId := peerId, ip := ip, port := port, protover := protover,
               left := 0, status := none, expires := expires }
      else db.rowOf k := by
  unfold rowOf at h ⊢
  simp only [addTorrentPeer, List.find?_append, List.find?_singleton]
  by_cases hk : k = (torrent, peerId)
  · subst hk
    rw [h]
    simp [Peer.key]
  · have hk' : ((torrent, peerId) == k) = false := by simpa using Ne.symm hk
    rw [if_neg hk]
    simp [Peer.key, hk']

/-- An update leaves each peer the row it has, updated or not. -/
theorem rowOf_map_updateRow (db : Db) (left status expires row : Int) (k : Int × Bytes) :
    (db.updatePeerData left status expires row).rowOf k = (db.rowOf k).map (updateRow left status expires row) := by
  simp only [rowOf, updatePeerData, List.find?_map, Function.comp_def, updateRow_key]

/-- An update of a row by its id changes what that row's peer has, and leaves every other peer the row it has. -/
theorem rowOf_updatePeerData (db : Db) (left status expires : Int) {k : Int × Bytes} {r : Peer} (h : db.rowOf k = some r)
    (k' : Int × Bytes) :
    (db.updatePeerData left status expires r.id).rowOf k' =
      if k' = k then some { r with left := left, status := some status, expires := expires } else db.rowOf k' := by
  rw [rowOf_map_updateRow]
  by_cases hk : k' = k
  · subst hk
    simp [h, updateRow]
  · rw [if_neg hk]
    cases hr' : db.rowOf k' with
    | none => rfl
    | some r' =>
      obtain ⟨hm, hkey⟩ := rowOf_some h
      obtain ⟨hm', hkey'⟩ := rowOf_some hr'
      have hne : r'.id ≠ r.id := by
        intro hid
        have hrr : r' = r := List.inj_on_of_nodup_map db.peerIds hm' hm hid
        exact hk (by rw [← hkey', ← hkey, hrr])
      simp [updateRow, hne]

end Db

end Traccoon
