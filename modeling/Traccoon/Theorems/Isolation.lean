import Traccoon.Lemmas.Aims

/-!
# A call touches its own peer only

`UPDATE_PEER_DATA` names its row by an id that an earlier statement read. Ids are never given twice, so a row with that id is the row
read, or there is none: a step of a call leaves the rows of every other peer, and the torrents other than its own, exactly as they
were (`step_isolated`).
-/

namespace Traccoon

open CString

variable {ι : Type}

/-- The rows of all other peers, in the order they were inserted. -/
def otherPeers (k : Int × Bytes) (db : Db) : List Peer := db.peers.filter (fun r => r.key != k)

/-- The rows of all other torrents. -/
def otherTorrents (torrentid : Int) (db : Db) : List Torrent := db.torrents.filter (fun t => t.id != torrentid)

namespace IsolationAux

/-- Rewriting elements that a filter drops, in place, changes nothing of what it keeps. -/
theorem filter_map_of_drops {α : Type} {p : α → Bool} {f : α → α} {l : List α} (hp : ∀ x ∈ l, p (f x) = p x)
    (hf : ∀ x ∈ l, p x = true → f x = x) : (l.map f).filter p = l.filter p := by
  have hkeep : ∀ x ∈ l.filter p, f x = id x := by
    intro x hx
    obtain ⟨hm, hpx⟩ := List.mem_filter.1 hx
    exact hf x hm hpx
  rw [List.filter_map, List.filter_congr (p := p ∘ f) (q := p) hp, List.map_congr_left hkeep, List.map_id]

/-- An insert for a peer. -/
theorem otherPeers_withAdded (db : Db) (ar : AnnounceRequest) (torrentid now : Int) :
    otherPeers (torrentid, ar.peerIdText) (withAdded db ar torrentid now) = otherPeers (torrentid, ar.peerIdText) db := by
  simp [otherPeers, withAdded, Db.addTorrentPeer, Peer.key]

/-- An update of a row that belongs to the peer, if it is there at all. -/
theorem otherPeers_updatePeerData {db : Db} {k : Int × Bytes} {row : Int} (h : ∀ x ∈ db.peers, x.id = row → x.key = k)
    (left status expires : Int) : otherPeers k (db.updatePeerData left status expires row) = otherPeers k db := by
  refine filter_map_of_drops ?_ ?_
  · intro x _
    rw [Db.updateRow_key]
  · intro x hx hk
    have hne : x.id ≠ row := by
      intro hid
      rw [h x hx hid] at hk
      simp at hk
    rw [Db.updateRow, if_neg hne]

/-- The count of a completion. -/
theorem otherTorrents_increaseCompletionCount (db : Db) (torrentid : Int) :
    otherTorrents torrentid (db.increaseCompletionCount torrentid) = otherTorrents torrentid db := by
  refine filter_map_of_drops ?_ ?_
  · intro t _
    rw [Db.countRow_id]
  · intro t _ ht
    rw [Db.countRow, if_neg (by simpa using ht)]

end IsolationAux

open IsolationAux

/-- For any tables, any calls and any interleaving of their statements with prunes, each of which may fail, as long as the stored row
ids fit an `int`: in every state visited, the next statement of a call leaves the rows of all other peers and of all other torrents
as they were. -/
theorem step_isolated [DecidableEq ι] (calls : ι → Call) (db : Db) (schedule : List (Action ι))
    (hfit : ∀ s, Tracker.Visits calls db schedule s → StoredIdsFit s.db) (s : Tracker ι) (hs : Tracker.Visits calls db schedule s)
    (i : ι) (e : StmtEnv) :
    otherPeers (calls i).key (Tracker.step calls s (.call i e)).db = otherPeers (calls i).key s.db ∧
    otherTorrents (calls i).torrentid (Tracker.step calls s (.call i e)).db = otherTorrents (calls i).torrentid s.db := by
  have haim : AimInv calls s := by
    refine Machine.invariant_of_guard (AimInv calls) (fun s a h hf => aimInv_step calls s a h (readsFit_of_stored hf a)) ?_ hfit s hs
    intro j row hj
    cases hj
  constructor
  · simp only [Tracker.step]
    rcases updatePeerStep_rows (calls i).torrentid (calls i).ar s.db (s.pc i) e with
      ⟨r, -, -, hst⟩ | ⟨now, hst⟩ | ⟨row, now, hpc, -, hst, -⟩ | ⟨hp, -, -, -⟩
    · rw [hst]
    · rw [hst]
      exact otherPeers_withAdded _ _ _ _
    · rw [hst]
      exact otherPeers_updatePeerData (haim i row hpc).2 _ _ _
    · rw [otherPeers, hp, otherPeers]
  · simp only [Tracker.step]
    rcases updatePeerStep_torrents (calls i).torrentid (calls i).ar s.db (s.pc i) e with ⟨-, hst⟩ | ⟨ht, -, -⟩
    · rw [hst]
      exact otherTorrents_increaseCompletionCount _ _
    · rw [otherTorrents, ht, otherTorrents]

namespace IsolationExample

/-- A call for the peer of this id. -/
def call (peerId : String) : Call :=
  { torrentid := 1
    ar := { infoHash := [], peerId := ascii peerId, ip := ascii "10.0.0.1", port := 6881, protover := 4, event := .completed, left := 9,
            compact := false, noPeerId := false, numwant := 50 } }

def calls : Bool → Call
  | false => call "A"
  | true => call "B"

/-- Peer A announced itself at time 100. -/
def db : Db := withAdded (Db.ofTorrent ⟨1, ascii "00", 0⟩) (call "A").ar 1 100

/-- A finds its row; the row is pruned; B is inserted. -/
def schedule : List (Action Bool) := [.call false (.ok 1001), .prune 900 (.ok 1001), .call true (.ok 1001), .call true (.ok 1001)]

def last : Tracker Bool := Machine.run (Tracker.step calls) (Tracker.start db) schedule

end IsolationExample

open IsolationExample

/-- The update of the pruned row leaves the row of the peer inserted since. -/
theorem step_isolated_pruned :
    last.pc false = .modifyPeer 1 ∧ (otherPeers (call "A").key last.db).length = 1 ∧
    otherPeers (call "A").key (Tracker.step calls last (.call false (.ok 1002))).db = otherPeers (call "A").key last.db := by
  have hfit : ∀ s, Tracker.Visits calls db schedule s → StoredIdsFit s.db := by
    intro s hs r hr
    have hids : r.id = 1 ∨ r.id = 2 := by
      obtain ⟨pre, hp, rfl⟩ := hs
      have hall : ∀ pre ∈ schedule.inits, ∀ r ∈ (Machine.run (Tracker.step calls) (Tracker.start db) pre).db.peers,
          r.id = 1 ∨ r.id = 2 := by decide
      exact hall pre ((List.mem_inits _ _).2 hp) r hr
    rcases hids with h | h
    · rw [h]
      decide
    · rw [h]
      decide
  refine ⟨by decide, by decide, ?_⟩
  exact (step_isolated calls db schedule hfit last (Machine.visits_end _ _ _) false (.ok 1002)).1

end Traccoon
