import Traccoon.Workers
import Traccoon.Lemmas.UpdatePeer

/-!
# The row a call is about to update

Between its lookup and its update a call remembers a row id and nothing else. Ids are never given twice and no statement rewrites
`torrent` or `peer_id`, so as long as the ids that lookups read fit the `int` they are read into, the row of that id belongs to the
call's peer or is gone for good (`aimInv_step`).
-/

namespace Traccoon

open CString

variable {ι : Type}

/-- What a prune binds as its cutoff, if its statement runs. -/
def pruneCutoff (expireInterval : Int) (e : StmtEnv) : Option Int :=
  match e.clock, e.step with
  | some now, .runs => if e.ready 1 then some (int32 (now - expireInterval)) else none
  | _, _ => none

/-- The ids of the stored rows fit the `int` they are read into. -/
def StoredIdsFit (db : Db) : Prop := ∀ r ∈ db.peers, IsInt32 r.id

instance (db : Db) : Decidable (StoredIdsFit db) := inferInstanceAs (Decidable (∀ r ∈ db.peers, _))

/-- If this step is a lookup that reads a row id, the id fits the `int` it is read into. -/
def ReadsFit (calls : ι → Call) (s : Tracker ι) (a : Action ι) : Prop :=
  ∀ j e r, a = .call j e → s.pc j = .queryPeer → queryPeer s.db (calls j).torrentid (calls j).ar e ≠ .failed →
    s.db.rowOf (calls j).key = some r → IsInt32 r.id

theorem readsFit_of_stored {calls : ι → Call} {s : Tracker ι} (h : StoredIdsFit s.db) (a : Action ι) : ReadsFit calls s a :=
  fun _ _ r _ _ _ hr => h r (Db.rowOf_some hr).1

/-- The call has updated its peer's row: it has returned 0, or will when the completion is counted. -/
def UpdatePc.Updated (pc : UpdatePc) : Prop := pc = .returned 0 ∨ pc = .updateTorrent

/-- Calls before their update aim at a row of their peer, or at one that is gone for good. -/
def AimInv (calls : ι → Call) (s : Tracker ι) : Prop :=
  ∀ j peerRow, s.pc j = .modifyPeer peerRow → peerRow ≤ s.db.peerSeq ∧ ∀ x ∈ s.db.peers, x.id = peerRow → x.key = (calls j).key

theorem prunePeers_eq (db : Db) (expireInterval : Int) (e : StmtEnv) :
    (prunePeers db expireInterval e).2 =
      match pruneCutoff expireInterval e with
      | some cutoff => db.queryPrunePeers cutoff
      | none => db := by
  unfold pruneCutoff prunePeers execTimedWrite execWrite
  cases hc : e.clock with
  | none => rfl
  | some now =>
    cases hs : e.step with
    | fails c =>
      simp only
      split
      · rfl
      · rfl
    | runs =>
      simp only
      split
      · rfl
      · rfl

/-- What one statement of a call does to the peers: a lookup that finds a row; an insert; an update; or nothing. -/
theorem updatePeerStep_rows (torrentid : Int) (ar : AnnounceRequest) (db : Db) (pc : UpdatePc) (e : StmtEnv) :
    (∃ r, db.rowOf (torrentid, ar.peerIdText) = some r ∧ pc = .queryPeer ∧
      updatePeerStep torrentid ar (db, pc) e = (db, .modifyPeer (int32 r.id))) ∨
    (∃ now, updatePeerStep torrentid ar (db, pc) e = (withAdded db ar torrentid now, .queryPeer)) ∨
    (∃ peerRow now, pc = .modifyPeer peerRow ∧ e.clock = some now ∧
      (updatePeerStep torrentid ar (db, pc) e).1 = db.updatePeerData ar.left ar.event.code (int32 now) peerRow ∧
      (updatePeerStep torrentid ar (db, pc) e).2.Updated) ∨
    ((updatePeerStep torrentid ar (db, pc) e).1.peers = db.peers ∧ (updatePeerStep torrentid ar (db, pc) e).1.peerSeq = db.peerSeq ∧
      (∀ peerRow, (updatePeerStep torrentid ar (db, pc) e).2 ≠ .modifyPeer peerRow) ∧
      (∀ peerRow, pc = .modifyPeer peerRow → ¬(updatePeerStep torrentid ar (db, pc) e).2.Updated)) := by
  cases pc with
  | queryPeer =>
    rcases queryPeer_cases db torrentid ar e with ⟨id, hid, h⟩ | ⟨-, h⟩ | h
    · obtain ⟨r, hr, rfl⟩ := Option.map_eq_some_iff.1 hid
      exact Or.inl ⟨r, hr, rfl, by simp only [updatePeerStep, h]⟩
    · exact Or.inr (Or.inr (Or.inr (by simp [updatePeerStep, h])))
    · exact Or.inr (Or.inr (Or.inr (by simp [updatePeerStep, h])))
  | addPeer =>
    rcases addPeer_cases db ar torrentid e with ⟨now, -, h⟩ | ⟨h0, h1⟩
    · exact Or.inr (Or.inl ⟨now, by simp only [updatePeerStep, h, if_true, withAdded]⟩)
    · exact Or.inr (Or.inr (Or.inr (by simp [updatePeerStep, h0, h1])))
  | modifyPeer peerRow =>
    rcases modifyPeer_cases db ar peerRow e with ⟨now, hc, h⟩ | ⟨h0, h1⟩
    · refine Or.inr (Or.inr (Or.inl ⟨peerRow, now, rfl, hc, by simp only [updatePeerStep, h], ?_⟩))
      by_cases hev : ar.event = .completed
      · simp [updatePeerStep, h, hev, UpdatePc.Updated]
      · simp [updatePeerStep, h, hev, UpdatePc.Updated]
    · exact Or.inr (Or.inr (Or.inr (by simp [updatePeerStep, h0, h1, UpdatePc.Updated])))
  | updateTorrent =>
    right; right; right
    rcases updateTorrent_cases db torrentid e with h | ⟨-, h1⟩
    · simp [updatePeerStep, h, Db.increaseCompletionCount]
    · simp [updatePeerStep, h1]
  | returned error => exact Or.inr (Or.inr (Or.inr (by simp [updatePeerStep])))

/-- A lookup that goes on to an update has not failed. -/
theorem queryPeer_ne_failed {torrentid : Int} {ar : AnnounceRequest} {db : Db} {e : StmtEnv} {peerRow : Int}
    (h : updatePeerStep torrentid ar (db, .queryPeer) e = (db, .modifyPeer peerRow)) : queryPeer db torrentid ar e ≠ .failed := by
  intro hf
  rw [updatePeerStep, hf] at h
  cases h

variable [DecidableEq ι]

/-- A step keeps the aims of all calls. -/
theorem aimInv_step (calls : ι → Call) (s : Tracker ι) (a : Action ι) (h : AimInv calls s) (hfit : ReadsFit calls s a) :
    AimInv calls (Tracker.step calls s a) := by
  obtain ⟨db, pc⟩ := s
  simp only [AimInv] at h ⊢
  cases a with
  | prune expireInterval e =>
    intro j peerRow hj
    obtain ⟨hle, hkey⟩ := h j peerRow hj
    refine ⟨?_, fun x hx => hkey x ((prunePeers_sublist db expireInterval e).subset hx)⟩
    simp only [Tracker.step, prunePeers_eq]
    split
    · exact hle
    · exact hle
  | call k e =>
    simp only [Tracker.step]
    rcases updatePeerStep_rows (calls k).torrentid (calls k).ar db (pc k) e with
      ⟨r, hr, hask, hst⟩ | ⟨now, hst⟩ | ⟨row, now, hpc, -, hst, hu⟩ | ⟨hp, hs, hne, -⟩
    · -- the lookup aims at the row it found
      obtain ⟨hm, hk⟩ := Db.rowOf_some hr
      have hid := hfit k e r rfl hask (queryPeer_ne_failed (by rw [hask] at hst; exact hst)) hr
      rw [hst]
      intro j peerRow hj
      by_cases hjk : j = k
      · subst hjk
        simp only [Function.update_self, UpdatePc.modifyPeer.injEq] at hj
        rw [int32_of_isInt32 hid] at hj
        subst hj
        refine ⟨db.peerSeqLe r hm, fun x hx hxr => ?_⟩
        rw [List.inj_on_of_nodup_map db.peerIds hx hm hxr]
        exact hk
      · rw [Function.update_of_ne hjk] at hj
        exact h j peerRow hj
    · -- an insert gives an id that no call aims at
      rw [hst]
      intro j peerRow hj
      by_cases hjk : j = k
      · subst hjk
        simp at hj
      · rw [Function.update_of_ne hjk] at hj
        obtain ⟨hle, hkey⟩ := h j peerRow hj
        refine ⟨?_, fun x hx hxr => ?_⟩
        · simp only [withAdded, Db.addTorrentPeer]
          omega
        · rcases List.mem_append.1 hx with hx | hx
          · exact hkey x hx hxr
          · rw [List.mem_singleton.1 hx] at hxr
            simp only at hxr
            omega
    · rw [hst]
      intro j peerRow hj
      by_cases hjk : j = k
      · subst hjk
        simp only [Function.update_self] at hj
        rcases hu with hu | hu
        · rw [hu] at hj
          cases hj
        · rw [hu] at hj
          cases hj
      · rw [Function.update_of_ne hjk] at hj
        obtain ⟨hle, hkey⟩ := h j peerRow hj
        refine ⟨hle, fun x hx hxr => ?_⟩
        obtain ⟨y, hy, rfl⟩ := List.mem_map.1 hx
        rw [Db.updateRow_id] at hxr
        rw [Db.updateRow_key]
        exact hkey y hy hxr
    · intro j peerRow hj
      by_cases hjk : j = k
      · subst hjk
        simp only [Function.update_self] at hj
        exact absurd hj (hne peerRow)
      · rw [Function.update_of_ne hjk] at hj
        simp only [hp, hs]
        exact h j peerRow hj

end Traccoon
