import Traccoon.Lemmas.Aims
import Traccoon.Lib.KeyedTable
import Traccoon.Swarms
import Traccoon.Theorems.PeerRows
import Traccoon.Theorems.Stopped

/-!
# The tables hold the swarms

Statement by statement, and whatever the order in which the calls of the workers and the prunes of the main thread take their turns,
the tables go where the swarms go that they hold (`tracker_refines_swarms`), as long as no two calls for one peer stand before their
insert at once. What a scrape counts is then the number of seeds and of leechers, and what a reply lists is taken from the members.
-/

namespace Traccoon

open CString

variable {ι : Type}

namespace RefinementAux

/-! ## The statements and the swarms -/

variable {db : Db}

theorem swarms_eq (db : Db) (k : Int × Bytes) : db.swarms k = (KeyedTable.lookup Peer.key db.peers k).map Peer.member := rfl

/-- An insert under a new key. -/
theorem swarms_addTorrentPeer {torrent : Int} {peerId : Bytes} (h : (torrent, peerId) ∉ db.peers.map Peer.key) (ip : Bytes)
    (port expires protover : Int) :
    (db.addTorrentPeer torrent peerId ip port expires protover).swarms =
      db.swarms.after (.joins (torrent, peerId) ip port protover expires) := by
  have hnew := @KeyedTable.lookup_append _ _ _ Peer.key db.peers _ _
    { id := db.peerSeq + 1, torrent := torrent, peerId := peerId, ip := ip, port := port, protover := protover, left := 0,
      status := none, expires := expires } h
  funext k
  rw [swarms_eq]
  simp only [Db.addTorrentPeer, hnew, Peer.key, Swarms.after, Function.update_apply]
  split
  · rfl
  · rfl

/-- An update of a row of the peer. -/
theorem swarms_updatePeerData (hn : OneRowPerPeer db) {r : Peer} (hr : r ∈ db.peers) (left status expires : Int) :
    (db.updatePeerData left status expires r.id).swarms = db.swarms.after (.refreshes r.key left status expires) := by
  have hrow : db.rowOf r.key = some r := KeyedTable.lookup_of_mem hn hr
  funext k
  rw [Db.swarms, Db.rowOf_updatePeerData db left status expires hrow, Swarms.after, Function.update_apply]
  split
  · rw [Db.swarms, hrow]
    rfl
  · rfl

/-- An update of a row that is gone. -/
theorem swarms_updatePeerData_gone {row : Int} (h : ∀ r ∈ db.peers, r.id ≠ row) (left status expires : Int) :
    (db.updatePeerData left status expires row).swarms = db.swarms := by
  funext k
  rw [Db.swarms, Db.swarms, Db.rowOf_map_updateRow]
  cases hr : db.rowOf k with
  | none => rfl
  | some r => rw [Option.map_some, Db.updateRow, if_neg (h r (Db.rowOf_some hr).1)]

/-- A prune. -/
theorem swarms_queryPrunePeers (hn : OneRowPerPeer db) (cutoff : Int) :
    (db.queryPrunePeers cutoff).swarms = db.swarms.after (.expires cutoff) := by
  funext k
  simp only [Db.queryPrunePeers, Swarms.after, swarms_eq, KeyedTable.lookup_filter hn]
  cases KeyedTable.lookup Peer.key db.peers k with
  | none => rfl
  | some r => simp [Option.filter, Peer.member, apply_ite]

theorem swarms_congr {db' : Db} (h : db'.peers = db.peers) : db'.swarms = db.swarms := by
  funext k
  rw [swarms_eq, swarms_eq, h]

variable [DecidableEq ι]

/-- A step of the tracker is the event that it is said to be. -/
theorem swarms_step (calls : ι → Call) (s : Tracker ι) (a : Action ι) (hrow : RowInv calls s) (haim : AimInv calls s) :
    (Tracker.step calls s a).db.swarms = s.db.swarms.after (Tracker.event calls s a) := by
  obtain ⟨hn, hnew⟩ := hrow
  cases a with
  | prune expireInterval e =>
    rcases prunePeers_cases s.db expireInterval e with ⟨now, hc, h⟩ | ⟨h0, h1⟩
    · simp only [Tracker.step, Tracker.event, hc, h, if_true]
      exact swarms_queryPrunePeers hn _
    · have hevent : Tracker.event calls s (.prune expireInterval e) = .nothing := by
        simp only [Tracker.event]
        split
        · exact if_neg h0
        · rfl
      rw [hevent, Tracker.step, h1]
      rfl
  | call i e =>
    cases hpc : s.pc i with
    | queryPeer =>
      have hevent : Tracker.event calls s (.call i e) = .nothing := by simp only [Tracker.event, hpc]
      rw [hevent]
      rcases queryPeer_cases s.db (calls i).torrentid (calls i).ar e with ⟨id, -, h⟩ | ⟨-, h⟩ | h
      · simp only [Tracker.step, hpc, updatePeerStep, h, Swarms.after]
      · simp only [Tracker.step, hpc, updatePeerStep, h, Swarms.after]
      · simp only [Tracker.step, hpc, updatePeerStep, h, Swarms.after]
    | addPeer =>
      rcases addPeer_cases s.db (calls i).ar (calls i).torrentid e with ⟨now, hc, h⟩ | ⟨h0, h1⟩
      · simp only [Tracker.step, Tracker.event, hpc, updatePeerStep, hc, h, if_true]
        exact swarms_addTorrentPeer (hnew i hpc) _ _ _ _
      · have hevent : Tracker.event calls s (.call i e) = .nothing := by
          cases hc : e.clock with
          | none => simp only [Tracker.event, hpc, hc]
          | some now => simp only [Tracker.event, hpc, hc, if_neg h0]
        rw [hevent]
        simp only [Tracker.step, hpc, updatePeerStep, h1, Swarms.after]
    | modifyPeer peerRow =>
      rcases modifyPeer_cases s.db (calls i).ar peerRow e with ⟨now, hc, h⟩ | ⟨h0, h1⟩
      · simp only [Tracker.step, Tracker.event, hpc, updatePeerStep, hc, h, if_true]
        by_cases hex : ∃ r ∈ s.db.peers, r.id = peerRow
        · rw [if_pos hex]
          obtain ⟨r, hr, rfl⟩ := hex
          rw [← (haim i r.id hpc).2 r hr rfl]
          exact swarms_updatePeerData hn hr _ _ _
        · rw [if_neg hex]
          exact swarms_updatePeerData_gone (fun r hr hid => hex ⟨r, hr, hid⟩) _ _ _
      · have hevent : Tracker.event calls s (.call i e) = .nothing := by
          cases hc : e.clock with
          | none => simp only [Tracker.event, hpc, hc]
          | some now => simp only [Tracker.event, hpc, hc, if_neg h0]
        rw [hevent]
        simp only [Tracker.step, hpc, updatePeerStep, h1, Swarms.after]
    | updateTorrent =>
      have hevent : Tracker.event calls s (.call i e) = .nothing := by simp only [Tracker.event, hpc]
      rw [hevent]
      rcases updateTorrent_cases s.db (calls i).torrentid e with h | ⟨-, h⟩
      · simp only [Tracker.step, hpc, updatePeerStep, h, Swarms.after]
        exact swarms_congr rfl
      · simp only [Tracker.step, hpc, updatePeerStep, h, Swarms.after]
    | returned error =>
      have hevent : Tracker.event calls s (.call i e) = .nothing := by simp only [Tracker.event, hpc]
      rw [hevent]
      simp only [Tracker.step, hpc, updatePeerStep, Swarms.after]

/-! ## What is read from the tables -/

/-- A count of rows of a torrent is a count of members. -/
theorem length_torrentPeers_filter (hn : OneRowPerPeer db) (torrent : Int) (p : Int → Bool) :
    ((db.torrentPeers torrent).filter fun r => p r.left).length =
      {k : Int × Bytes | k.1 = torrent ∧ ∃ m, db.swarms k = some m ∧ p m.left = true}.ncard := by
  rw [Db.torrentPeers, List.filter_filter, KeyedTable.length_filter_eq_ncard hn]
  congr 1
  ext k
  simp only [Set.mem_ofPred_eq, swarms_eq, Option.map_eq_some_iff, Bool.and_eq_true, beq_iff_eq]
  constructor
  · rintro ⟨r, hl, hp, ht⟩
    obtain ⟨-, rfl⟩ := KeyedTable.lookup_some hl
    exact ⟨ht, r.member, ⟨r, hl, rfl⟩, hp⟩
  · rintro ⟨ht, m, ⟨r, hl, rfl⟩, hp⟩
    obtain ⟨-, rfl⟩ := KeyedTable.lookup_some hl
    exact ⟨r, hl, hp, ht⟩

/-- The rows a reply chooses from are the members, each once. -/
theorem mem_torrentPeers_iff (hn : OneRowPerPeer db) {torrent : Int} {k : Int × Bytes} {m : Member} :
    (∃ r ∈ db.torrentPeers torrent, r.key = k ∧ r.member = m) ↔ k.1 = torrent ∧ db.swarms k = some m := by
  simp only [Db.torrentPeers, List.mem_filter, beq_iff_eq, swarms_eq, Option.map_eq_some_iff]
  constructor
  · rintro ⟨r, ⟨hr, ht⟩, rfl, rfl⟩
    exact ⟨ht, r, KeyedTable.lookup_of_mem hn hr, rfl⟩
  · rintro ⟨ht, r, hl, rfl⟩
    obtain ⟨hr, rfl⟩ := KeyedTable.lookup_some hl
    exact ⟨r, ⟨hr, ht⟩, rfl, rfl⟩

end RefinementAux

open RefinementAux

variable [DecidableEq ι]

/-- From tables with one row per peer, through any interleaving of the statements of any calls with prunes, each of which may fail, in
which no two calls for one peer stand before their insert at once and the stored row ids fit an `int`: the swarms that the tables hold
are those to which the joins, the refreshes and the expiries of the run lead. What the tracker then counts as seeds and as leechers
are the members of the torrent with nothing and with something left, and the rows a reply chooses from are its members, each once. -/
theorem tracker_refines_swarms (calls : ι → Call) (db : Db) (hone : OneRowPerPeer db) (schedule : List (Action ι))
    (hrace : ∀ s, Tracker.Visits calls db schedule s → ¬Racing calls s)
    (hfit : ∀ s, Tracker.Visits calls db schedule s → StoredIdsFit s.db) :
    let last := (Machine.run (Tracker.step calls) (Tracker.start db) schedule).db
    let σ := Machine.run Swarms.after db.swarms (Machine.trace (Tracker.step calls) (Tracker.event calls) (Tracker.start db) schedule)
    last.swarms = σ ∧
    ∀ torrent,
      last.getSeedCount torrent = some ((σ.seeds torrent).ncard : Int) ∧
      last.getPeersCount torrent = some ((σ.leechers torrent).ncard : Int) ∧
      (last.torrentPeers torrent).length = (σ.members torrent).ncard ∧
      ∀ k m, (∃ r ∈ last.torrentPeers torrent, r.key = k ∧ r.member = m) ↔ k.1 = torrent ∧ σ k = some m := by
  intro last σ
  have hinv : ∀ s, Tracker.Visits calls db schedule s → RowInv calls s ∧ AimInv calls s := by
    refine Machine.invariant_of_guard (fun s => RowInv calls s ∧ AimInv calls s) ?_ ⟨rowInv_start calls hone, ?_⟩
      (fun s hs => (⟨hrace s hs, hfit s hs⟩ : ¬Racing calls s ∧ StoredIdsFit s.db))
    · exact fun s a h hg => ⟨rowInv_step calls s a h.1 hg.1, aimInv_step calls s a h.2 (readsFit_of_stored hg.2 a)⟩
    · intro j row hj
      cases hj
  have hσ : σ = last.swarms := by
    have hstep : ∀ s a, Tracker.Visits calls db schedule s →
        (Tracker.step calls s a).db.swarms = s.db.swarms.after (Tracker.event calls s a) :=
      fun s a hs => swarms_step calls s a (hinv s hs).1 (hinv s hs).2
    exact Machine.run_trace (fun s : Tracker ι => s.db.swarms) (Tracker.event calls) hstep
  have hn : OneRowPerPeer last := (hinv _ (Machine.visits_end _ _ _)).1.1
  refine ⟨hσ.symm, fun torrent => ⟨?_, ?_, ?_, ?_⟩⟩
  · have h := length_torrentPeers_filter hn torrent (fun left => left == 0)
    simp only [beq_iff_eq] at h
    rw [hσ, Db.getSeedCount, h, Swarms.seeds]
  · have h := length_torrentPeers_filter hn torrent (fun left => left != 0)
    simp only [bne_iff_ne] at h
    rw [hσ, Db.getPeersCount, h, Swarms.leechers]
  · have h := length_torrentPeers_filter hn torrent (fun _ => true)
    simp only [List.filter_true, and_true] at h
    rw [hσ, h, Swarms.members]
  · intro k m
    rw [hσ]
    exact mem_torrentPeers_iff hn

namespace RefinementExample

/-- The announce of a peer that has so much left. -/
def call (peerId : String) (left : Int) : Call :=
  { torrentid := 1
    ar := { infoHash := [], peerId := ascii peerId, ip := ascii "10.0.0.1", port := 6881, protover := 4, event := .none, left := left,
            compact := false, noPeerId := false, numwant := 50 } }

/-- B announces itself twice. -/
def calls : Fin 3 → Call
  | 0 => call "A" 9
  | 1 => call "B" 9
  | 2 => call "B" 0

/-- Peer A announced itself at time 100. -/
def db : Db := withAdded (Db.ofTorrent ⟨1, ascii "00", 0⟩) (call "A" 9).ar 1 100

/-- The three calls take turns, and the second one of B looks when the first has inserted its row; A's row is pruned before A could tell
what it has left. -/
def schedule : List (Action (Fin 3)) :=
  [.call 0 (.ok 1001), .call 1 (.ok 1001), .call 1 (.ok 1001), .prune 900 (.ok 1001), .call 2 (.ok 1001), .call 1 (.ok 1001),
   .call 0 (.ok 1002), .call 1 (.ok 1002), .call 2 (.ok 1003)]

theorem all_visited {P : Tracker (Fin 3) → Prop}
    (h : ∀ pre ∈ schedule.inits, P (Machine.run (Tracker.step calls) (Tracker.start db) pre)) :
    ∀ s, Tracker.Visits calls db schedule s → P s := by
  rintro s ⟨pre, hp, rfl⟩
  exact h pre ((List.mem_inits _ _).2 hp)

end RefinementExample

open RefinementExample

/-- One seed is left. -/
theorem tracker_refines_swarms_pruned :
    (calls 1).key = (calls 2).key ∧
    Machine.trace (Tracker.step calls) (Tracker.event calls) (Tracker.start db) schedule =
      [.nothing, .nothing, .joins (1, ascii "B") (ascii "10.0.0.1") 6881 4 1001, .expires 101, .nothing, .nothing, .nothing,
       .refreshes (1, ascii "B") 9 0 1002, .refreshes (1, ascii "B") 0 0 1003] ∧
    (Machine.run (Tracker.step calls) (Tracker.start db) schedule).db.getSeedCount 1 = some 1 ∧
    (Machine.run (Tracker.step calls) (Tracker.start db) schedule).db.getSeedCount 1 =
      some (((Machine.run Swarms.after db.swarms
        (Machine.trace (Tracker.step calls) (Tracker.event calls) (Tracker.start db) schedule)).seeds 1).ncard : Int) := by
  have hrace : ∀ s, Tracker.Visits calls db schedule s → ¬Racing calls s := by
    refine all_visited fun pre hpre => ?_
    rintro ⟨i, j, hij, -, hi, hj⟩
    have hall : ∀ pre ∈ schedule.inits, ∀ i j, i ≠ j → (Machine.run (Tracker.step calls) (Tracker.start db) pre).pc i = .addPeer →
        (Machine.run (Tracker.step calls) (Tracker.start db) pre).pc j ≠ .addPeer := by decide +kernel
    exact hall pre hpre i j hij hi hj
  have hfit : ∀ s, Tracker.Visits calls db schedule s → StoredIdsFit s.db := by
    have hall : ∀ pre ∈ schedule.inits, ∀ r ∈ (Machine.run (Tracker.step calls) (Tracker.start db) pre).db.peers,
        r.id = 1 ∨ r.id = 2 := by decide +kernel
    refine all_visited fun pre hpre r hr => ?_
    rcases hall pre hpre r hr with h | h
    · rw [h]
      decide
    · rw [h]
      decide
  exact ⟨rfl, by decide +kernel, by decide +kernel, ((tracker_refines_swarms calls db (by decide) schedule hrace hfit).2 1).1⟩

end Traccoon
