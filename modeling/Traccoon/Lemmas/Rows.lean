import Traccoon.Lemmas.Requests
import Traccoon.Workers

/-!
# What a statement does to the rows

A statement of a call keeps the rows there are, with their ids and what a reply lists of them; it may write a new time into one, and it may
insert one. `updatePeerStep_keeps` says it of the rows before the statement, `updatePeerStep_from` of those behind it.
-/

namespace Traccoon

open CString

/-- The row behind a statement that a row in front of it has become. -/
structure Peer.Becomes (e : StmtEnv) (r r' : Peer) : Prop where
  id : r'.id = r.id
  torrent : r'.torrent = r.torrent
  listed : r'.listed = r.listed
  expires : r'.expires = r.expires ∨ ∃ now, e.clock = some now ∧ r'.expires = int32 now

theorem Peer.Becomes.refl (e : StmtEnv) (r : Peer) : r.Becomes e r := ⟨rfl, rfl, rfl, Or.inl rfl⟩

theorem Peer.becomes_updateRow {e : StmtEnv} {now : Int} (hc : e.clock = some now) (left status row : Int) (r : Peer) :
    r.Becomes e (Db.updateRow left status (int32 now) row r) := by
  unfold Db.updateRow
  split
  · exact ⟨rfl, rfl, rfl, Or.inr ⟨now, hc, rfl⟩⟩
  · exact Peer.Becomes.refl e r

variable (torrentid : Int) (ar : AnnounceRequest) (db : Db) (pc : UpdatePc) (e : StmtEnv)

/-- The rows behind a statement of a call: those there were, perhaps with one inserted behind them, or each become what it is now. -/
theorem updatePeerStep_peers :
    (updatePeerStep torrentid ar (db, pc) e).1.peers = db.peers ∨
    (∃ now new, e.clock = some now ∧ (updatePeerStep torrentid ar (db, pc) e).1.peers = db.peers ++ [new] ∧
      new.torrent = torrentid ∧ new.listed = { peerId := ar.peerIdText, ip := ar.ip, port := ar.port, protover := ar.protover } ∧
      new.expires = int32 now) ∨
    ∃ become : Peer → Peer, (updatePeerStep torrentid ar (db, pc) e).1.peers = db.peers.map become ∧
      ∀ r : Peer, r.Becomes e (become r) := by
  cases pc with
  | queryPeer =>
    left
    rcases queryPeer_cases db torrentid ar e with ⟨id, -, h⟩ | ⟨-, h⟩ | h
    · simp [updatePeerStep, h]
    · simp [updatePeerStep, h]
    · simp [updatePeerStep, h]
  | addPeer =>
    rcases addPeer_cases db ar torrentid e with ⟨now, hc, h⟩ | ⟨-, h⟩
    · have hdb : (updatePeerStep torrentid ar (db, .addPeer) e).1 =
          db.addTorrentPeer torrentid ar.peerIdText ar.ip ar.port (int32 now) ar.protover := by simp only [updatePeerStep, h]
      exact Or.inr (Or.inl ⟨now, _, hc, congrArg Db.peers hdb, rfl, rfl, rfl⟩)
    · exact Or.inl (by simp only [updatePeerStep, h])
  | modifyPeer peerRow =>
    rcases modifyPeer_cases db ar peerRow e with ⟨now, hc, h⟩ | ⟨-, h⟩
    · refine Or.inr (Or.inr ⟨Db.updateRow ar.left ar.event.code (int32 now) peerRow, ?_, Peer.becomes_updateRow hc _ _ _⟩)
      simp only [updatePeerStep, h, Db.updatePeerData]
    · exact Or.inl (by simp only [updatePeerStep, h])
  | updateTorrent =>
    left
    rcases updateTorrent_cases db torrentid e with h | ⟨-, h⟩
    · simp only [updatePeerStep, h, Db.increaseCompletionCount_peers]
    · simp only [updatePeerStep, h]
  | returned error => exact Or.inl rfl

/-- No row is lost. -/
theorem updatePeerStep_keeps : ∀ r ∈ db.peers, ∃ r' ∈ (updatePeerStep torrentid ar (db, pc) e).1.peers, r.Becomes e r' := by
  intro r hr
  rcases updatePeerStep_peers torrentid ar db pc e with h | ⟨now, new, -, h, -⟩ | ⟨become, h, hb⟩
  · exact ⟨r, h ▸ hr, Peer.Becomes.refl e r⟩
  · exact ⟨r, by rw [h]; exact List.mem_append_left _ hr, Peer.Becomes.refl e r⟩
  · exact ⟨become r, by rw [h]; exact List.mem_map_of_mem hr, hb r⟩

/-- A row was there, or is the one that the call inserts. -/
theorem updatePeerStep_from : ∀ r' ∈ (updatePeerStep torrentid ar (db, pc) e).1.peers,
    (∃ r ∈ db.peers, r.Becomes e r') ∨
    r'.torrent = torrentid ∧ r'.listed = { peerId := ar.peerIdText, ip := ar.ip, port := ar.port, protover := ar.protover } ∧
      ∃ now, e.clock = some now ∧ r'.expires = int32 now := by
  intro r' hr'
  rcases updatePeerStep_peers torrentid ar db pc e with h | ⟨now, new, hc, h, htorrent, hlisted, hexpires⟩ | ⟨become, h, hb⟩
  · rw [h] at hr'
    exact Or.inl ⟨r', hr', Peer.Becomes.refl e r'⟩
  · rw [h] at hr'
    rcases List.mem_append.1 hr' with hold | hnew
    · exact Or.inl ⟨r', hold, Peer.Becomes.refl e r'⟩
    · obtain rfl := List.mem_singleton.1 hnew
      exact Or.inr ⟨htorrent, hlisted, now, hc, hexpires⟩
  · rw [h] at hr'
    obtain ⟨r, hr, rfl⟩ := List.mem_map.1 hr'
    exact Or.inl ⟨r, hr, hb r⟩

/-- A row has the time that one had before, or the one just read. -/
theorem updatePeerStep_expires : ∀ r' ∈ (updatePeerStep torrentid ar (db, pc) e).1.peers,
    (∃ r ∈ db.peers, r'.expires = r.expires) ∨ ∃ now, e.clock = some now ∧ r'.expires = int32 now := by
  intro r' hr'
  rcases updatePeerStep_from torrentid ar db pc e r' hr' with ⟨r, hr, hbecomes⟩ | ⟨-, -, hnow⟩
  · rcases hbecomes.expires with hsame | hnow
    · exact Or.inl ⟨r, hr, hsame⟩
    · exact Or.inr hnow
  · exact Or.inr hnow

/-- No statement of a call registers a torrent. -/
theorem updatePeerStep_registry :
    (updatePeerStep torrentid ar (db, pc) e).1.torrents.map (fun t => (t.hash, t.id)) = db.torrents.map (fun t => (t.hash, t.id)) := by
  rcases updatePeerStep_torrents torrentid ar db pc e with ⟨-, h⟩ | ⟨h, -⟩
  · rw [h]
    simp [Db.increaseCompletionCount]
  · rw [h]

end Traccoon
