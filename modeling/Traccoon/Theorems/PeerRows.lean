import Traccoon.Workers

/-!
# One row per peer

`updatePeer` looks a peer up, and inserts it when it is missing, in two statements. Two calls for the same peer that both look
before either inserts leave two rows (`two_rows_after_race`). As long as no two calls for the same peer stand before their insert
at the same time, the table keeps one row per peer through every interleaving, and from any state where two do, a second row is
two steps away (`oneRowPerPeer_unless_racing`).
-/

namespace Traccoon

open CString

variable {ι : Type}

/-- Two calls for the same torrent and peer id have both found no row and both stand before their insert. -/
def Racing (calls : ι → Call) (s : Tracker ι) : Prop :=
  ∃ i j, i ≠ j ∧ (calls i).key = (calls j).key ∧ s.pc i = .addPeer ∧ s.pc j = .addPeer

/-- One row per peer, and none yet for a call that stands before its insert. -/
def RowInv (calls : ι → Call) (s : Tracker ι) : Prop :=
  OneRowPerPeer s.db ∧ ∀ i, s.pc i = .addPeer → (calls i).key ∉ s.db.peers.map Peer.key

theorem rowInv_start (calls : ι → Call) {db : Db} (h : OneRowPerPeer db) : RowInv calls (Tracker.start db) :=
  ⟨h, fun _ hi => by cases hi⟩

variable [DecidableEq ι]

/-- A step from a state without a race keeps the invariant. -/
theorem rowInv_step (calls : ι → Call) (s : Tracker ι) (a : Action ι) (h : RowInv calls s) (hr : ¬Racing calls s) :
    RowInv calls (Tracker.step calls s a) := by
  obtain ⟨h1, h2⟩ := h
  cases a with
  | prune expireInterval e =>
    have hs := (prunePeers_sublist s.db expireInterval e).map Peer.key
    exact ⟨h1.sublist hs, fun i hi hm => h2 i hi (hs.subset hm)⟩
  | call i e =>
    rcases updatePeerStep_cases (calls i).torrentid (calls i).ar s.db (s.pc i) e with ⟨hpc, now, hst⟩ | ⟨hpc, hm, hst⟩ | ⟨hk, hne⟩
    · -- the insert: the key is new, and no other call waits to insert it
      have hnew := h2 i hpc
      simp only [Tracker.step, hst, RowInv, OneRowPerPeer, Db.addTorrentPeer_keys]
      refine ⟨?_, fun j hj => ?_⟩
      · rw [List.nodup_append]
        refine ⟨h1, by simp, fun x hx y hy hxy => ?_⟩
        have hxk : x = (calls i).key := hxy.trans (List.mem_singleton.1 hy)
        exact hnew (hxk ▸ hx)
      · by_cases hji : j = i
        · subst hji
          simp at hj
        · rw [Function.update_of_ne hji] at hj
          have hkey : (calls j).key ≠ (calls i).key := fun hk => hr ⟨j, i, hji, hk, hj, hpc⟩
          simp only [List.mem_append, List.mem_singleton, not_or]
          exact ⟨h2 j hj, hkey⟩
    · -- the lookup found nothing: the key has no row
      simp only [Tracker.step, hst, RowInv]
      refine ⟨h1, fun j hj => ?_⟩
      by_cases hji : j = i
      · subst hji
        exact hm
      · rw [Function.update_of_ne hji] at hj
        exact h2 j hj
    · simp only [Tracker.step, RowInv, OneRowPerPeer, hk]
      refine ⟨h1, fun j hj => ?_⟩
      by_cases hji : j = i
      · subst hji
        simp only [Function.update_self] at hj
        exact absurd hj hne
      · rw [Function.update_of_ne hji] at hj
        exact h2 j hj

/-- The two inserts of a race, both run. -/
theorem not_oneRowPerPeer_of_racing (calls : ι → Call) (s : Tracker ι) (hr : Racing calls s) :
    ∃ as, ¬OneRowPerPeer (Machine.run (Tracker.step calls) s as).db := by
  obtain ⟨i, j, hij, hkey, hi, hj⟩ := hr
  refine ⟨[.call i (.ok 0), .call j (.ok 0)], ?_⟩
  have hki : (calls i).torrentid = (calls j).torrentid ∧ (calls i).ar.peerIdText = (calls j).ar.peerIdText := by
    simpa [Call.key] using hkey
  have hj' : Function.update s.pc i UpdatePc.queryPeer j = .addPeer := by
    rw [Function.update_of_ne (Ne.symm hij), hj]
  simp only [Machine.run_cons, Machine.run_nil, Tracker.step, updatePeerStep, hi, addPeer, execTimedWrite_ok, if_true, hj',
    OneRowPerPeer, Db.addTorrentPeer_keys, hki.1, hki.2]
  intro h
  rw [List.append_assoc, List.nodup_append] at h
  simp at h

/-- From tables with one row per peer, any number of `updatePeer` calls and prunes, in any interleaving of their statements and
with any of them failing, keep one row per peer in every state, if in no state two calls for one peer both stand before their
insert. That condition cannot be dropped at any state: where it fails, two more steps can leave two rows. -/
theorem oneRowPerPeer_unless_racing (calls : ι → Call) (db : Db) (h : OneRowPerPeer db) (schedule : List (Action ι)) :
    ((∀ s, Tracker.Visits calls db schedule s → ¬Racing calls s) →
      ∀ s, Tracker.Visits calls db schedule s → OneRowPerPeer s.db) ∧
    (∀ s, Tracker.Visits calls db schedule s → Racing calls s →
      ∃ as, ¬OneRowPerPeer (Machine.run (Tracker.step calls) s as).db) :=
  ⟨fun hr s hs => (Machine.invariant_of_guard (RowInv calls) (rowInv_step calls) (rowInv_start calls h) hr s hs).1,
    fun s _ hs => not_oneRowPerPeer_of_racing calls s hs⟩

/-- An announce without a word about anything. -/
def blankAnnounce : AnnounceRequest :=
  { infoHash := [], peerId := ascii "-TC0010-", ip := ascii "10.0.0.1", port := 6881, protover := 4, event := .none, left := 0,
    compact := false, noPeerId := false, numwant := 50 }

namespace PeerRowsExample

/-- Two calls for the same peer. -/
def calls : Bool → Call := fun _ => ⟨1, blankAnnounce⟩

/-- One of them inserts the peer before the other looks; then both update the row. -/
def schedule : List (Action Bool) :=
  [.call false (.ok 7), .call false (.ok 7), .call true (.ok 8), .call false (.ok 8), .call true (.ok 8), .call false (.ok 8)]

theorem not_racing : ∀ s, Tracker.Visits calls Db.blank schedule s → ¬Racing calls s := by
  rintro s ⟨pre, hp, rfl⟩ ⟨i, j, hij, -, hi, hj⟩
  have hall : ∀ pre ∈ schedule.inits, ∀ i j, i ≠ j → (Machine.run (Tracker.step calls) (Tracker.start Db.blank) pre).pc i = .addPeer →
      (Machine.run (Tracker.step calls) (Tracker.start Db.blank) pre).pc j ≠ .addPeer := by decide
  exact hall pre ((List.mem_inits _ _).2 hp) i j hij hi hj

end PeerRowsExample

/-- Two calls for one peer that do not race leave it one row. -/
theorem oneRowPerPeer_unless_racing_turns :
    (PeerRowsExample.calls false).key = (PeerRowsExample.calls true).key ∧
    ((Machine.run (Tracker.step PeerRowsExample.calls) (Tracker.start Db.blank) PeerRowsExample.schedule).pc false = .returned 0 ∧
      (Machine.run (Tracker.step PeerRowsExample.calls) (Tracker.start Db.blank) PeerRowsExample.schedule).pc true = .returned 0) ∧
    OneRowPerPeer (Machine.run (Tracker.step PeerRowsExample.calls) (Tracker.start Db.blank) PeerRowsExample.schedule).db :=
  ⟨rfl, by decide,
    (oneRowPerPeer_unless_racing PeerRowsExample.calls Db.blank (by decide) PeerRowsExample.schedule).1 PeerRowsExample.not_racing _
      (Machine.visits_end _ _ _)⟩

/-- Two workers record the first announce of the same peer: both look, then both insert. -/
theorem two_rows_after_race :
    OneRowPerPeer (Db.ofTorrents [] (by simp) (by simp)) ∧
    ¬OneRowPerPeer (Machine.run (Tracker.step fun _ : Bool => ⟨1, blankAnnounce⟩)
      (Tracker.start (Db.ofTorrents [] (by simp) (by simp)))
      [.call false (.ok 7), .call true (.ok 7), .call false (.ok 7), .call true (.ok 7)]).db := by
  constructor
  · decide
  · decide

end Traccoon
