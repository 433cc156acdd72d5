import Mathlib.Data.Fintype.Basic
import Mathlib.Data.Finset.Card
import Traccoon.Workers

/-!
# Completed downloads are counted once

The counter of a torrent is raised by the last statement of `updatePeer`, behind which a call returns 0, and an announce of a
completion returns 0 nowhere else. So whatever else runs, and however often a call had to insert its peer and look again, the
counters are at every moment the initial ones plus the completions that have been reported as recorded (`downloaded_eq`).
-/

namespace Traccoon

variable {ι : Type}

/-- The call announced a completion for this torrent, and has returned 0. -/
def Completed (calls : ι → Call) (s : Tracker ι) (torrent : Int) (i : ι) : Prop :=
  (calls i).torrentid = torrent ∧ (calls i).ar.event = .completed ∧ s.pc i = .returned 0

instance (calls : ι → Call) (s : Tracker ι) (torrent : Int) : DecidablePred (Completed calls s torrent) :=
  fun _ => inferInstanceAs (Decidable (_ ∧ _))

/-- How many calls have. -/
def completions [Fintype ι] (calls : ι → Call) (s : Tracker ι) (torrent : Int) : Nat :=
  (Finset.univ.filter (Completed calls s torrent)).card

/-- The torrents with the completions counted. -/
def withCompletions [Fintype ι] (calls : ι → Call) (s : Tracker ι) (ts : List Torrent) : List Torrent :=
  ts.map (fun t => { t with downloaded := t.downloaded + completions calls s t.id })

/-- The counters are right, and only announces of completions are about to count. -/
def DownloadInv [Fintype ι] (calls : ι → Call) (ts : List Torrent) (s : Tracker ι) : Prop :=
  s.db.torrents = withCompletions calls s ts ∧ ∀ i, s.pc i = .updateTorrent → (calls i).ar.event = .completed

namespace DownloadsAux

variable [DecidableEq ι]

/-- A step of one call leaves the other calls where they are. -/
theorem completed_update (calls : ι → Call) (db db' : Db) (pc : ι → UpdatePc) (i : ι) (pc' : UpdatePc) (torrent : Int) {j : ι}
    (hj : j ≠ i) :
    Completed calls ⟨db', Function.update pc i pc'⟩ torrent j ↔ Completed calls ⟨db, pc⟩ torrent j := by
  unfold Completed
  rw [show (Tracker.mk db' (Function.update pc i pc')).pc j = pc j from Function.update_of_ne hj _ _]

variable [Fintype ι]

/-- A step that does not change whether the call has completed counts nothing. -/
theorem completions_same (calls : ι → Call) (db db' : Db) (pc : ι → UpdatePc) (i : ι) (pc' : UpdatePc) (torrent : Int)
    (h : (calls i).ar.event = .completed → (pc' = .returned 0 ↔ pc i = .returned 0)) :
    completions calls ⟨db', Function.update pc i pc'⟩ torrent = completions calls ⟨db, pc⟩ torrent := by
  unfold completions
  refine congrArg Finset.card (Finset.filter_congr fun j _ => ?_)
  by_cases hj : j = i
  · subst hj
    simp only [Completed, Function.update_self]
    exact and_congr_right fun _ => and_congr_right fun hev => h hev
  · exact completed_update calls db db' pc i pc' torrent hj

/-- The step that completes a call counts it for its torrent. -/
theorem completions_returned (calls : ι → Call) (db db' : Db) (pc : ι → UpdatePc) (i : ι) (torrent : Int)
    (hpc : pc i = .updateTorrent) (hev : (calls i).ar.event = .completed) :
    completions calls ⟨db', Function.update pc i (.returned 0)⟩ torrent =
      completions calls ⟨db, pc⟩ torrent + if torrent = (calls i).torrentid then 1 else 0 := by
  have hi : ¬Completed calls ⟨db, pc⟩ torrent i := by
    rintro ⟨-, -, hr⟩
    rw [show (Tracker.mk db pc).pc i = .updateTorrent from hpc] at hr
    cases hr
  unfold completions
  by_cases ht : torrent = (calls i).torrentid
  · rw [if_pos ht]
    have hins : Finset.univ.filter (Completed calls ⟨db', Function.update pc i (.returned 0)⟩ torrent) =
        insert i (Finset.univ.filter (Completed calls ⟨db, pc⟩ torrent)) := by
      ext j
      simp only [Finset.mem_filter, Finset.mem_univ, true_and, Finset.mem_insert]
      by_cases hj : j = i
      · subst hj
        simp [Completed, ht, hev]
      · simp only [hj, false_or]
        exact completed_update calls db db' pc i _ torrent hj
    rw [hins, Finset.card_insert_of_notMem (by simpa using hi)]
  · rw [if_neg ht, Nat.add_zero]
    refine congrArg Finset.card (Finset.filter_congr fun j _ => ?_)
    by_cases hj : j = i
    · subst hj
      simp [Completed, Ne.symm ht]
    · exact completed_update calls db db' pc i _ torrent hj

/-- One step keeps the counters right. -/
theorem downloadInv_step (calls : ι → Call) (ts : List Torrent) (s : Tracker ι) (a : Action ι) (h : DownloadInv calls ts s) :
    DownloadInv calls ts (Tracker.step calls s a) := by
  obtain ⟨htorrents, hcount⟩ := h
  obtain ⟨db, pc⟩ := s
  cases a with
  | prune expireInterval e =>
    refine ⟨?_, hcount⟩
    rcases prunePeers_cases db expireInterval e with ⟨now, -, h⟩ | ⟨-, h⟩
    · simp only [Tracker.step, h]
      exact htorrents
    · simp only [Tracker.step, h]
      exact htorrents
  | call i e =>
    simp only [DownloadInv, Tracker.step] at htorrents hcount ⊢
    rcases updatePeerStep_torrents (calls i).torrentid (calls i).ar db (pc i) e with ⟨hpc, hst⟩ | ⟨hsame, hret, hnext⟩
    · have hev := hcount i hpc
      rw [hst]
      refine ⟨?_, fun j hj => ?_⟩
      · simp only [Db.increaseCompletionCount, htorrents, withCompletions, List.map_map]
        refine List.map_congr_left fun t _ => ?_
        rw [completions_returned calls db _ pc i t.id hpc hev]
        simp only [Function.comp_apply, Db.countRow]
        split
        · simp [Int.add_assoc]
        · simp
      · by_cases hji : j = i
        · subst hji
          simp at hj
        · rw [Function.update_of_ne hji] at hj
          exact hcount j hj
    · refine ⟨?_, fun j hj => ?_⟩
      · rw [hsame, htorrents]
        refine List.map_congr_left fun t _ => ?_
        rw [completions_same calls db _ pc i _ t.id hret]
      · by_cases hji : j = i
        · subst hji
          exact hnext (by simpa using hj)
        · rw [Function.update_of_ne hji] at hj
          exact hcount j hj

end DownloadsAux

open DownloadsAux

/-- For any tables, any set of concurrent calls of `updatePeer` and any interleaving of their statements with prunes, each of which may
fail: wherever the schedule ends, each torrent has its initial count plus the number of the calls for it that announced a completion
and have returned 0. -/
theorem downloaded_eq [DecidableEq ι] [Fintype ι] (calls : ι → Call) (db : Db) (schedule : List (Action ι)) :
    (Machine.run (Tracker.step calls) (Tracker.start db) schedule).db.torrents =
      withCompletions calls (Machine.run (Tracker.step calls) (Tracker.start db) schedule) db.torrents := by
  have h0 : DownloadInv calls db.torrents (Tracker.start db) := by
    refine ⟨?_, fun i hi => by cases hi⟩
    have hnone : ∀ t, completions calls (Tracker.start db) t = 0 := by
      intro t
      rw [completions, Finset.card_eq_zero, Finset.filter_eq_empty_iff]
      rintro i - ⟨-, -, hr⟩
      cases hr
    simp only [withCompletions, hnone, Nat.cast_zero, Int.add_zero]
    exact (List.map_id' _).symm
  exact (Machine.invariant (DownloadInv calls db.torrents) (downloadInv_step calls db.torrents) h0 _ (Machine.visits_end _ _ _)).1

end Traccoon
