import Traccoon.Lemmas.Aims

/-!
# An announce and a prune at the same time

`updatePeer` reads the id of its peer's row in one statement and updates the row of that id in a later one. A prune in between can
delete the row; the update then hits nothing, and reports success like any other. So a call that returns 0 has left its peer a row
with the time of its update exactly when no prune between its last lookup and its update took the row it found
(`announce_stored_iff`).
-/

namespace Traccoon

open CString

variable {ι : Type}

/-- No prune among these steps takes a row with this `expires` column. -/
def Spares (steps : List (Action ι)) (expires : Int) : Prop :=
  ∀ expireInterval e cutoff, .prune expireInterval e ∈ steps → pruneCutoff expireInterval e = some cutoff → cutoff ≤ expires

/-- The peer of this key has a row with this `expires` column. -/
def HasRowAt (db : Db) (k : Int × Bytes) (expires : Int) : Prop := ∃ r ∈ db.peers, r.key = k ∧ r.expires = expires

instance (db : Db) (k : Int × Bytes) (expires : Int) : Decidable (HasRowAt db k expires) :=
  inferInstanceAs (Decidable (∃ r ∈ db.peers, _))

/-- The call `i` is about to update the row `r` that it found; it is still there unchanged, or gone for good. -/
structure Aims (calls : ι → Call) (i : ι) (r : Peer) (s : Tracker ι) : Prop where
  pc : s.pc i = .modifyPeer r.id
  le : r.id ≤ s.db.peerSeq
  same : ∀ x ∈ s.db.peers, x.id = r.id → x = r
  aim : AimInv calls s

/-- The last step of the call `i` in the schedule is the lookup `e`, which finds the row `r`. -/
structure LastLookup [DecidableEq ι] (calls : ι → Call) (db : Db) (i : ι) (schedule pre : List (Action ι)) (e : StmtEnv)
    (mid : List (Action ι)) (r : Peer) : Prop where
  split : schedule = pre ++ .call i e :: mid
  others : ∀ a ∈ mid, ∀ e', a ≠ .call i e'
  asks : (Machine.run (Tracker.step calls) (Tracker.start db) pre).pc i = .queryPeer
  row : (Machine.run (Tracker.step calls) (Tracker.start db) pre).db.rowOf (calls i).key = some r
  db_eq : (Machine.run (Tracker.step calls) (Tracker.start db) (pre ++ [.call i e])).db =
    (Machine.run (Tracker.step calls) (Tracker.start db) pre).db
  found : (Machine.run (Tracker.step calls) (Tracker.start db) (pre ++ [.call i e])).pc i = .modifyPeer (int32 r.id)

namespace PruneRaceAux

variable [DecidableEq ι] {calls : ι → Call} {i : ι}

/-- A step of another peer's call or of the main thread keeps the aim of the call, and takes the row only by a prune. -/
theorem aims_step (hother : ∀ j, j ≠ i → (calls j).key ≠ (calls i).key) {r : Peer} (hr : r.key = (calls i).key) {s : Tracker ι}
    {a : Action ι} (ha : ∀ e, a ≠ .call i e) (h : Aims calls i r s) (hfit : ReadsFit calls s a) :
    Aims calls i r (Tracker.step calls s a) ∧
      (r ∈ (Tracker.step calls s a).db.peers ↔ r ∈ s.db.peers ∧ Spares [a] r.expires) := by
  have haim := aimInv_step calls s a h.aim hfit
  obtain ⟨db, pc⟩ := s
  obtain ⟨hpc, hle, hsame, haim0⟩ := h
  simp only at hpc hle hsame
  cases a with
  | prune expireInterval e =>
    have hspares : Spares [Action.prune (ι := ι) expireInterval e] r.expires ↔
        ∀ cutoff, pruneCutoff expireInterval e = some cutoff → cutoff ≤ r.expires := by
      simp only [Spares, List.mem_singleton, Action.prune.injEq, and_imp]
      exact ⟨fun h cutoff => h _ _ cutoff rfl rfl, fun h x e cutoff hx he => by subst hx he; exact h cutoff⟩
    have hsub := (prunePeers_sublist db expireInterval e).subset
    refine ⟨⟨hpc, ?_, fun x hx => hsame x (hsub hx), haim⟩, ?_⟩
    · simp only [Tracker.step, prunePeers_eq]
      split
      · exact hle
      · exact hle
    · rw [hspares]
      simp only [Tracker.step, prunePeers_eq]
      cases pruneCutoff expireInterval e with
      | none => simp
      | some cutoff => simp [Db.queryPrunePeers]
  | call j e =>
    have hji : j ≠ i := fun hji => ha e (by rw [hji])
    have hspares : Spares [Action.call j e] r.expires := fun x e' cutoff hx => by simp at hx
    have hpc' : Function.update pc j (updatePeerStep (calls j).torrentid (calls j).ar (db, pc j) e).2 i = .modifyPeer r.id := by
      rw [Function.update_of_ne (Ne.symm hji), hpc]
    simp only [hspares, and_true]
    rcases updatePeerStep_rows (calls j).torrentid (calls j).ar db (pc j) e with
      ⟨x, hx, -, hst⟩ | ⟨now, hst⟩ | ⟨row, now, hpcj, -, hst, -⟩ | ⟨hp, hs, -, -⟩
    · refine ⟨⟨hpc', ?_, ?_, haim⟩, ?_⟩
      · simpa only [Tracker.step, hst] using hle
      · simpa only [Tracker.step, hst] using hsame
      · simp only [Tracker.step, hst]
    · have hnew : ∀ y : Peer, y = addedRow db (calls j).ar (calls j).torrentid now → y.id ≠ r.id := by
        rintro y rfl
        simp only [addedRow]
        omega
      refine ⟨⟨hpc', ?_, ?_, haim⟩, ?_⟩
      · simp only [Tracker.step, hst, withAdded, Db.addTorrentPeer]
        omega
      · simp only [Tracker.step, hst]
        intro x hx hxr
        rcases List.mem_append.1 hx with hx | hx
        · exact hsame x hx hxr
        · exact absurd hxr (hnew x (List.mem_singleton.1 hx))
      · simp only [Tracker.step, hst]
        refine ⟨fun hm => ?_, fun hm => List.mem_append_left _ hm⟩
        rcases List.mem_append.1 hm with hm | hm
        · exact hm
        · exact absurd rfl (hnew r (List.mem_singleton.1 hm))
    · -- another peer's update does not hit the row
      have hmiss : ∀ x ∈ db.peers, x.id = r.id → x.id ≠ row := by
        intro x hx hxr hxrow
        have hk := (haim0 j row hpcj).2 x hx hxrow
        rw [hsame x hx hxr, hr] at hk
        exact hother j hji hk.symm
      have hfix : ∀ x ∈ db.peers, x.id = r.id →
          Db.updateRow (calls j).ar.left (calls j).ar.event.code (int32 now) row x = r := by
        intro x hx hxr
        rw [Db.updateRow, if_neg (hmiss x hx hxr), hsame x hx hxr]
      refine ⟨⟨hpc', ?_, ?_, haim⟩, ?_⟩
      · simp only [Tracker.step, hst]
        exact hle
      · simp only [Tracker.step, hst]
        intro x hx hxr
        obtain ⟨y, hy, rfl⟩ := List.mem_map.1 hx
        rw [Db.updateRow_id] at hxr
        exact hfix y hy hxr
      · simp only [Tracker.step, hst]
        refine ⟨fun hm => ?_, fun hm => List.mem_map.2 ⟨r, hm, hfix r hm rfl⟩⟩
        obtain ⟨y, hy, hyr⟩ := List.mem_map.1 hm
        have hid : y.id = r.id := by rw [← hyr, Db.updateRow_id]
        exact hsame y hy hid ▸ hy
    · refine ⟨⟨hpc', ?_, ?_, haim⟩, ?_⟩
      · simp only [Tracker.step, hs]
        exact hle
      · simp only [Tracker.step, hp]
        exact hsame
      · simp only [Tracker.step, hp]

omit [DecidableEq ι] in
theorem spares_cons (a : Action ι) (as : List (Action ι)) (expires : Int) :
    Spares (a :: as) expires ↔ Spares [a] expires ∧ Spares as expires := by
  simp only [Spares, List.mem_cons, List.not_mem_nil, or_false]
  constructor
  · intro h
    exact ⟨fun x e c hx => h x e c (Or.inl hx), fun x e c hx => h x e c (Or.inr hx)⟩
  · rintro ⟨h1, h2⟩ x e c (hx | hx)
    · exact h1 x e c hx
    · exact h2 x e c hx

/-- The run lemma: between its lookup and its update the call keeps its aim, and its row is there as long as every prune spares it. -/
theorem aims_run (hother : ∀ j, j ≠ i → (calls j).key ≠ (calls i).key) {r : Peer} (hr : r.key = (calls i).key) :
    ∀ (mid : List (Action ι)) (s : Tracker ι), (∀ a ∈ mid, ∀ e, a ≠ .call i e) → Aims calls i r s →
      Machine.Each (Tracker.step calls) (ReadsFit calls) s mid →
      Aims calls i r (Machine.run (Tracker.step calls) s mid) ∧
        (r ∈ (Machine.run (Tracker.step calls) s mid).db.peers ↔ r ∈ s.db.peers ∧ Spares mid r.expires) := by
  intro mid
  induction mid with
  | nil =>
    intro s _ h _
    exact ⟨h, by simp [Spares]⟩
  | cons a mid ih =>
    intro s hmid h hfit
    obtain ⟨h1, h2⟩ := aims_step hother hr (hmid a (by simp)) h hfit.1
    obtain ⟨h3, h4⟩ := ih (Tracker.step calls s a) (fun b hb => hmid b (List.mem_cons_of_mem _ hb)) h1 hfit.2
    rw [Machine.run_cons, spares_cons]
    refine ⟨h3, ?_⟩
    rw [h4, h2, and_assoc]

/-- A call that stands before its update has looked its peer up, found a row, and taken no step since. -/
theorem exists_lookup (calls : ι → Call) (db : Db) (i : ι) (schedule : List (Action ι)) {peerRow : Int}
    (h : (Machine.run (Tracker.step calls) (Tracker.start db) schedule).pc i = .modifyPeer peerRow) :
    ∃ pre e mid r, LastLookup calls db i schedule pre e mid r ∧ peerRow = int32 r.id := by
  induction schedule using List.reverseRecOn with
  | nil => cases h
  | append_singleton schedule a ih =>
    have hrun : Machine.run (Tracker.step calls) (Tracker.start db) (schedule ++ [a]) =
        Tracker.step calls (Machine.run (Tracker.step calls) (Tracker.start db) schedule) a := Machine.run_append _ _ _ _
    have hstay : (∀ e', a ≠ .call i e') →
        (Machine.run (Tracker.step calls) (Tracker.start db) schedule).pc i = .modifyPeer peerRow →
        ∃ pre e mid r, LastLookup calls db i (schedule ++ [a]) pre e mid r ∧ peerRow = int32 r.id := by
      intro hne hpc
      obtain ⟨pre, e, mid, r, hl, hid⟩ := ih hpc
      refine ⟨pre, e, mid ++ [a], r, ⟨by rw [hl.split]; simp, fun b hb => ?_, hl.asks, hl.row, hl.db_eq, hl.found⟩, hid⟩
      rcases List.mem_append.1 hb with hb | hb
      · exact hl.others b hb
      · rw [List.mem_singleton.1 hb]
        exact hne
    cases a with
    | prune expireInterval e =>
      rw [hrun] at h
      exact hstay (fun e' => by simp) h
    | call j e =>
      by_cases hji : j = i
      · subst hji
        have h' := h
        rw [hrun] at h'
        simp only [Tracker.step, Function.update_self] at h'
        rcases updatePeerStep_rows (calls j).torrentid (calls j).ar _ _ e with
          ⟨r, hr, hask, hst⟩ | ⟨now, hst⟩ | ⟨row, now, -, -, -, hu | hu⟩ | ⟨-, -, hne, -⟩
        · rw [hst] at h'
          obtain rfl := UpdatePc.modifyPeer.inj h'
          refine ⟨schedule, e, [], r, ⟨rfl, by simp, hask, hr, ?_, h⟩, rfl⟩
          rw [hrun]
          simp only [Tracker.step, hst]
        · rw [hst] at h'
          cases h'
        · rw [hu] at h'
          cases h'
        · rw [hu] at h'
          cases h'
        · exact absurd h' (hne peerRow)
      · rw [hrun] at h
        simp only [Tracker.step, Function.update_of_ne (Ne.symm hji)] at h
        exact hstay (fun e' => by simp [hji]) h

/-- After its last lookup the call aims at the row it found. -/
theorem lastLookup_aims {db : Db} {schedule pre : List (Action ι)} {e : StmtEnv} {mid : List (Action ι)} {r : Peer}
    (hl : LastLookup calls db i schedule pre e mid r)
    (hfit : Machine.Each (Tracker.step calls) (ReadsFit calls) (Tracker.start db) (pre ++ [.call i e])) :
    Aims calls i r (Machine.run (Tracker.step calls) (Tracker.start db) (pre ++ [.call i e])) := by
  have hinv : AimInv calls (Machine.run (Tracker.step calls) (Tracker.start db) (pre ++ [.call i e])) :=
    Machine.invariant_of_each (AimInv calls) (fun s a => aimInv_step calls s a) (fun j row hj => by cases hj) hfit
  obtain ⟨hm, -⟩ := Db.rowOf_some hl.row
  have hread : queryPeer (Machine.run (Tracker.step calls) (Tracker.start db) pre).db (calls i).torrentid (calls i).ar e ≠ .failed := by
    intro hf
    have hpc := hl.found
    rw [Machine.run_append, Machine.run_cons, Machine.run_nil] at hpc
    simp only [Tracker.step, Function.update_self, hl.asks, updatePeerStep, hf] at hpc
    cases hpc
  have hid : int32 r.id = r.id := int32_of_isInt32 ((Machine.each_append.1 hfit).2.1 i e r rfl hl.asks hread hl.row)
  refine ⟨by rw [hl.found, hid], ?_, ?_, hinv⟩
  · rw [hl.db_eq]
    exact Db.peerSeqLe _ r hm
  · rw [hl.db_eq]
    exact fun x hx hxr => List.inj_on_of_nodup_map (Db.peerIds _) hx hm hxr

/-- An update that reports success has written its time to the row the call aims at. -/
theorem aims_updated {r : Peer} {s : Tracker ι} (h : Aims calls i r s) {e : StmtEnv} {t : Int} (hclock : e.clock = some t)
    (hok : ((Tracker.step calls s (.call i e)).pc i).Updated) :
    (Tracker.step calls s (.call i e)).db =
      s.db.updatePeerData (calls i).ar.left (calls i).ar.event.code (int32 t) r.id := by
  simp only [Tracker.step, Function.update_self] at hok ⊢
  rcases updatePeerStep_rows (calls i).torrentid (calls i).ar s.db (s.pc i) e with
    ⟨x, -, hq, -⟩ | ⟨now, hst⟩ | ⟨row, now, hrow, hc, hst, -⟩ | ⟨-, -, -, hno⟩
  · rw [h.pc] at hq
    cases hq
  · rw [hst] at hok
    rcases hok with hok | hok
    · cases hok
    · cases hok
  · rw [h.pc] at hrow
    obtain rfl := UpdatePc.modifyPeer.inj hrow
    obtain rfl := Option.some.inj (hc.symm.trans hclock)
    exact hst
  · exact absurd hok (hno _ h.pc)

/-- What the update leaves the peer of the row it aims at. -/
theorem hasRowAt_updatePeerData (db : Db) (left status : Int) {t : Int} {r : Peer} {k : Int × Bytes} (hk : r.key = k)
    (hsame : ∀ x ∈ db.peers, x.id = r.id → x = r) :
    HasRowAt (db.updatePeerData left status (int32 t) r.id) k t ↔
      (r ∈ db.peers ∧ IsInt32 t) ∨ ∃ x ∈ db.peers, x.id ≠ r.id ∧ x.key = k ∧ x.expires = t := by
  simp only [HasRowAt, Db.updatePeerData, List.mem_map]
  constructor
  · rintro ⟨-, ⟨x, hx, rfl⟩, hxk, hxt⟩
    by_cases hid : x.id = r.id
    · left
      simp only [Db.updateRow, hid, if_true] at hxt
      exact ⟨hsame x hx hid ▸ hx, hxt ▸ isInt32_int32 t⟩
    · right
      simp only [Db.updateRow, hid, if_false] at hxk hxt
      exact ⟨x, hx, hid, hxk, hxt⟩
  · rintro (⟨hr, ht⟩ | ⟨x, hx, hid, hxk, hxt⟩)
    · exact ⟨_, ⟨r, hr, rfl⟩, by rw [Db.updateRow_key, hk], by simp [Db.updateRow, int32_of_isInt32 ht]⟩
    · exact ⟨x, ⟨x, hx, by simp [Db.updateRow, hid]⟩, hxk, hxt⟩

end PruneRaceAux

open PruneRaceAux

/-- For any tables, and any interleaving of the statements of a call with prunes and with calls for other peers, any of which may
fail, as long as the row ids that lookups read fit an `int`: when the call's update reports success at time `t`, the call had found a row
by its last lookup, and its peer now has a row with `expires = t` exactly when every prune since then spared the row found and `t` fits an
`int`, or another row of the peer holds `t` already. -/
theorem announce_stored_iff [DecidableEq ι] (calls : ι → Call) (i : ι) (hother : ∀ j, j ≠ i → (calls j).key ≠ (calls i).key)
    (db : Db) (schedule : List (Action ι))
    (hfit : Machine.Each (Tracker.step calls) (ReadsFit calls) (Tracker.start db) schedule) (peerRow t : Int)
    (hpc : (Machine.run (Tracker.step calls) (Tracker.start db) schedule).pc i = .modifyPeer peerRow) (e : StmtEnv)
    (hclock : e.clock = some t)
    (hok : ((Machine.run (Tracker.step calls) (Tracker.start db) (schedule ++ [.call i e])).pc i).Updated) :
    ∃ pre e' mid r, LastLookup calls db i schedule pre e' mid r ∧
      (HasRowAt (Machine.run (Tracker.step calls) (Tracker.start db) (schedule ++ [.call i e])).db (calls i).key t ↔
        (Spares mid r.expires ∧ IsInt32 t) ∨
          ∃ x ∈ (Machine.run (Tracker.step calls) (Tracker.start db) schedule).db.peers,
            x.id ≠ r.id ∧ x.key = (calls i).key ∧ x.expires = t) := by
  obtain ⟨pre, e', mid, r, hl, rfl⟩ := exists_lookup calls db i schedule hpc
  refine ⟨pre, e', mid, r, hl, ?_⟩
  obtain ⟨hm, hk⟩ := Db.rowOf_some hl.row
  have hsplit : schedule = (pre ++ [.call i e']) ++ mid := by rw [hl.split]; simp
  have hrun : Machine.run (Tracker.step calls) (Machine.run (Tracker.step calls) (Tracker.start db) (pre ++ [.call i e'])) mid =
      Machine.run (Tracker.step calls) (Tracker.start db) schedule := by
    rw [hsplit]
    exact (Machine.run_append _ _ _ _).symm
  rw [hsplit] at hfit
  obtain ⟨hbefore, hbehind⟩ := Machine.each_append.1 hfit
  obtain ⟨haims, hmem⟩ := aims_run hother hk mid _ hl.others (lastLookup_aims hl hbefore) hbehind
  rw [hrun, hl.db_eq] at hmem
  rw [hrun] at haims
  have hlast : Machine.run (Tracker.step calls) (Tracker.start db) (schedule ++ [.call i e]) =
      Tracker.step calls (Machine.run (Tracker.step calls) (Tracker.start db) schedule) (.call i e) := Machine.run_append _ _ _ _
  rw [hlast] at hok ⊢
  rw [aims_updated haims hclock hok, hasRowAt_updatePeerData _ _ _ hk haims.same, hmem]
  simp only [hm, true_and]

namespace PruneRaceExample

/-- An announce of the peer of this id. -/
def call (peerId : String) : Call :=
  { torrentid := 1
    ar := { infoHash := [], peerId := ascii peerId, ip := ascii "10.0.0.1", port := 6881, protover := 4, event := .none, left := 9,
            compact := false, noPeerId := false, numwant := 50 } }

/-- The call, and one for another peer. -/
def calls : Bool → Call
  | false => call "-TC0010-"
  | true => call "-TC0011-"

/-- The first peer announced itself at time 100. -/
def db : Db := withAdded (Db.ofTorrent ⟨1, ascii "00", 0⟩) (calls false).ar 1 100

/-- The state a schedule of the calls and of prunes leads to. -/
def after (schedule : List (Action Bool)) : Tracker Bool := Machine.run (Tracker.step calls) (Tracker.start db) schedule

/-- Between the lookup and the update comes the lookup for the other peer, and a prune of what is older than the row. -/
def schedule : List (Action Bool) := [.call false (.ok 1000), .call true (.ok 1000), .prune 900 (.ok 1000)]

theorem readsFit : Machine.Each (Tracker.step calls) (ReadsFit calls) (Tracker.start db) schedule :=
  ⟨readsFit_of_stored (by decide) _, readsFit_of_stored (by decide) _, readsFit_of_stored (by decide) _, trivial⟩

/-- The prune spares the row that the lookup found. -/
theorem spares {pre mid : List (Action Bool)} {e : StmtEnv} {r : Peer} (hl : LastLookup calls db false schedule pre e mid r) :
    Spares mid r.expires := by
  cases pre with
  | nil =>
    obtain ⟨-, rfl⟩ := List.cons.inj hl.split
    have hrow : db.rowOf (calls false).key = some r := hl.row
    have hexp : r.expires = 100 := by
      have hfirst : db.rowOf (calls false).key = some (addedRow (Db.ofTorrent ⟨1, ascii "00", 0⟩) (calls false).ar 1 100) := by decide
      rw [Option.some.inj (hrow.symm.trans hfirst)]
      rfl
    intro expireInterval e' cutoff hm hc
    simp only [List.mem_cons, reduceCtorEq, Action.prune.injEq, List.not_mem_nil, or_false, false_or] at hm
    obtain ⟨rfl, rfl⟩ := hm
    obtain rfl : (100 : Int) = cutoff := Option.some.inj hc
    exact Int.le_of_eq hexp.symm
  | cons a pre =>
    exfalso
    have hm : Action.call false e ∈ [Action.call true (.ok 1000), .prune 900 (.ok 1000)] := by
      rw [(List.cons.inj hl.split).2]
      simp
    simp at hm

end PruneRaceExample

open PruneRaceExample

/-- A call that another peer's call and a prune come in between of. -/
theorem announce_stored_iff_spared : HasRowAt (after (schedule ++ [.call false (.ok 1001)])).db (calls false).key 1001 := by
  obtain ⟨pre, e', mid, r, hl, hiff⟩ := announce_stored_iff calls false (by decide) db schedule readsFit 1 1001 (by decide) (.ok 1001) rfl
    (Or.inl (by decide))
  exact hiff.2 (Or.inl ⟨spares hl, by decide⟩)

/-- The peer announces itself again 901 seconds after its first announce, and a prune comes between the lookup and the update: the
call returns 0, and the peer has no row. -/
theorem announce_lost :
    (after [.call false (.ok 1001), .prune 900 (.ok 1001), .call false (.ok 1001)]).pc false = .returned 0 ∧
    ¬HasRowAt (after [.call false (.ok 1001), .prune 900 (.ok 1001), .call false (.ok 1001)]).db (calls false).key 1001 := by
  constructor
  · decide
  · decide

end Traccoon
