import Traccoon.Lib.Machine
import Traccoon.Theorems.Reannounce
import Traccoon.Workers

/-!
# Which peers a prune removes

`addPeer` and `updatePeer` store the time of an announce, and `prunePeers` compares it with the time `expireInterval` seconds ago.
All three are seconds of a `time_t`, and all three pass through the `int` of `sqlite3_bind_int`. So what is compared is the low 32
bits of each. A prune removes exactly the rows it should when, for every row, narrowing keeps the order of the recorded time and the
cutoff (`prune_exact_iff`); that ends when the two lie on different sides of a multiple of 2^32, the first time in January 2038.
-/

namespace Traccoon

open CString

/-- The tables, and the time that was last recorded in each row, by its id. The tables hold only the low 32 bits of it. -/
structure Clocked where
  db : Db
  time : Int → Int

/-- What `UPDATE_PEER_DATA` makes of the recorded times. -/
def modifyTimes (db : Db) (ar : AnnounceRequest) (peerRow : Int) (e : StmtEnv) (time : Int → Int) : Int → Int :=
  match e.clock with
  | some now => if (modifyPeer db ar peerRow e).1 = 0 then Function.update time peerRow now else time
  | none => time

/-- What the rest of an activation makes of the recorded times. -/
def activationTimes (db : Db) (torrentid : Int) (ar : AnnounceRequest) (e : CallEnv) (time : Int → Int) : Int → Int :=
  match queryPeer db torrentid ar e.query with
  | .row peerRow => modifyTimes db ar peerRow e.modify time
  | _ => time

/-- What an announce makes of the recorded times: those of its insert and of its update. -/
def Announce.times (a : Announce) (db : Db) (time : Int → Int) : Int → Int :=
  match queryPeer db a.torrentid a.ar a.first.query, a.first.add.clock with
  | .missing, some now =>
    let (error, db') := addPeer db a.ar a.torrentid a.first.add
    if error = 0 then activationTimes db' a.torrentid a.ar a.again (Function.update time (db.peerSeq + 1) now) else time
  | _, _ => activationTimes db a.torrentid a.ar a.first time

/-- A step of a run in which calls are made one at a time: an announce, or a prune by the main thread. Either may fail. -/
inductive Op where
  | announce (a : Announce)
  | prune (expireInterval : Int) (e : StmtEnv)

/-- What a step does. -/
def Clocked.step (s : Clocked) : Op → Clocked
  | .announce a => { db := ((a.record s.db).map (·.2)).getD s.db, time := a.times s.db s.time }
  | .prune expireInterval e => { s with db := (prunePeers s.db expireInterval e).2 }

/-- The columns hold the recorded times, narrowed. -/
def Clocked.Inv (s : Clocked) : Prop := ∀ r ∈ s.db.peers, r.expires = int32 (s.time r.id)

/-- The time last recorded for a peer that has a row. -/
def Clocked.lastTime (s : Clocked) (k : Int × Bytes) : Option Int := (s.db.rowOf k).map (fun r => s.time r.id)

/-- The 2^32 seconds, centred at a multiple of 2^32, that a time lies in. Within one of them narrowing keeps the order. -/
def window (z : Int) : Int := (z + 2147483648) / 4294967296

/-- A recorded time and a cutoff in the same window, or in windows that are in the order of what is left of the two. -/
def SameOrder (u cutoff : Int) : Prop :=
  window u = window cutoff ∨ (window u < window cutoff ∧ int32 u < int32 cutoff) ∨
    (window cutoff < window u ∧ int32 cutoff ≤ int32 u)

instance (u cutoff : Int) : Decidable (SameOrder u cutoff) := inferInstanceAs (Decidable (_ ∨ _))

namespace ExpiryAux

theorem sameOrder_iff (u cutoff : Int) : SameOrder u cutoff ↔ (int32 cutoff ≤ int32 u ↔ cutoff ≤ u) := by
  unfold SameOrder window int32
  omega

/-- An update keeps the columns in step with the recorded times. -/
theorem modifyTimes_inv {db : Db} {time : Int → Int} (h : Clocked.Inv ⟨db, time⟩) (ar : AnnounceRequest) (peerRow : Int) (e : StmtEnv) :
    Clocked.Inv ⟨(modifyPeer db ar peerRow e).2, modifyTimes db ar peerRow e time⟩ := by
  unfold modifyTimes
  rcases modifyPeer_cases db ar peerRow e with ⟨now, hc, hm⟩ | ⟨hm, hm'⟩
  · rw [hc, hm]
    simp only [if_true]
    intro r hr
    obtain ⟨x, hx, rfl⟩ := List.mem_map.1 hr
    rw [Db.updateRow_id]
    by_cases hid : x.id = peerRow
    · simp [Db.updateRow, hid]
    · simp only [Db.updateRow, hid, if_false, Function.update_of_ne hid]
      exact h x hx
  · rw [hm']
    simp only [hm, if_false]
    split
    · exact h
    · exact h

/-- So does an insert. -/
theorem addTimes_inv {db : Db} {time : Int → Int} (h : Clocked.Inv ⟨db, time⟩) (ar : AnnounceRequest) (torrentid now : Int) :
    Clocked.Inv ⟨withAdded db ar torrentid now, Function.update time (db.peerSeq + 1) now⟩ := by
  intro r hr
  rcases List.mem_append.1 hr with hr | hr
  · have hle := db.peerSeqLe r hr
    have hne : r.id ≠ db.peerSeq + 1 := by omega
    simp only [Function.update_of_ne hne]
    exact h r hr
  · rw [List.mem_singleton.1 hr]
    simp

/-- An activation that does not insert keeps the columns in step. -/
theorem activation_inv {db db' : Db} {time : Int → Int} {torrentid error : Int} {ar : AnnounceRequest} {e : CallEnv} {es : List CallEnv}
    (h : Clocked.Inv ⟨db, time⟩) (hq : queryPeer db torrentid ar e.query ≠ .missing)
    (hu : updatePeer torrentid ar (e :: es) db = some (error, db')) : Clocked.Inv ⟨db', activationTimes db torrentid ar e time⟩ := by
  unfold activationTimes
  rw [updatePeer] at hu
  cases hq' : queryPeer db torrentid ar e.query with
  | missing => exact absurd hq' hq
  | failed =>
    simp only [hq', Option.some.injEq, Prod.mk.injEq] at hu
    rw [← hu.2]
    exact h
  | row peerRow =>
    simp only [hq'] at hu
    have hm := modifyTimes_inv h ar peerRow e.modify
    split at hu
    · obtain ⟨-, rfl⟩ := Prod.mk.inj (Option.some.inj hu)
      exact hm
    · have hu' := Option.some.inj hu
      rcases updateTorrent_cases (modifyPeer db ar peerRow e.modify).2 torrentid e.complete with hc | ⟨-, hc⟩
      · obtain ⟨-, rfl⟩ := Prod.mk.inj (hc.symm.trans hu')
        exact hm
      · rw [hu'] at hc
        rw [show db' = _ from hc]
        exact hm

/-- A whole announce keeps the columns in step. -/
theorem record_inv {db db' : Db} {time : Int → Int} {error : Int} {a : Announce} (h : Clocked.Inv ⟨db, time⟩)
    (hr : a.record db = some (error, db')) : Clocked.Inv ⟨db', a.times db time⟩ := by
  unfold Announce.record at hr
  cases hq : queryPeer db a.torrentid a.ar a.first.query with
  | failed =>
    have := activation_inv h (by simp [hq]) hr
    simpa only [Announce.times, hq] using this
  | row peerRow =>
    have := activation_inv h (by simp [hq]) hr
    simpa only [Announce.times, hq] using this
  | missing =>
    rw [updatePeer] at hr
    simp only [hq] at hr
    rcases addPeer_cases db a.ar a.torrentid a.first.add with ⟨now, hc, ha⟩ | ⟨ha, ha'⟩
    · simp only [ha, if_true] at hr
      simp only [Announce.times, hq, hc, ha, if_true]
      refine activation_inv (addTimes_inv h a.ar a.torrentid now) (fun hq' => ?_) hr
      -- the row just inserted is there to be found
      rcases queryPeer_cases (withAdded db a.ar a.torrentid now) a.torrentid a.ar a.again.query with ⟨id, -, hq2⟩ | ⟨hn, -⟩ | hq2
      · rw [withAdded, hq'] at hq2
        cases hq2
      · rw [Db.queryPeerById_eq_none_iff, withAdded, Db.addTorrentPeer_keys] at hn
        simp at hn
      · rw [withAdded, hq'] at hq2
        cases hq2
    · rw [if_neg ha, ha'] at hr
      simp only [Option.some.injEq, Prod.mk.injEq] at hr
      obtain ⟨-, rfl⟩ := hr
      cases hc : a.first.add.clock with
      | none => simpa only [Announce.times, hq, hc, activationTimes] using h
      | some now => simpa only [Announce.times, hq, hc, ha, if_false] using h

/-- An activation that finds a row and returns 0 records the time of its update for the peer. -/
theorem activation_lastTime {db db' : Db} (time : Int → Int) {torrentid : Int} {ar : AnnounceRequest} {e : CallEnv} {es : List CallEnv}
    {row : Peer} (hrow : db.rowOf (torrentid, ar.peerIdText) = some row) (hid : IsInt32 row.id)
    (hu : updatePeer torrentid ar (e :: es) db = some (0, db')) :
    Clocked.lastTime ⟨db', activationTimes db torrentid ar e time⟩ (torrentid, ar.peerIdText) = e.modify.clock := by
  have hq : queryPeer db torrentid ar e.query = .row row.id := by
    rcases queryPeer_cases db torrentid ar e.query with ⟨id, hid', hq⟩ | ⟨hn, -⟩ | hq
    · simp only [Db.queryPeerById, hrow, Option.map_some, Option.some.injEq] at hid'
      rw [hq, ← hid', int32_of_isInt32 hid]
    · simp [Db.queryPeerById, hrow] at hn
    · simp [updatePeer, hq, dbFailed] at hu
  rcases UpdatePeerAux.activation hrow hu with ⟨h0, -⟩ | ⟨now, hc, hd⟩
  · exact absurd rfl h0
  · have hpeers : db'.peers = (withUpdated db ar row now).peers := by
      rcases hd with ⟨-, -, rfl⟩ | ⟨-, -, rfl⟩ | ⟨h0, -⟩
      · rfl
      · rfl
      · exact absurd rfl h0
    have hm : (modifyPeer db ar row.id e.modify).1 = 0 := by
      simp only [updatePeer, hq] at hu
      by_contra hne
      rw [if_pos (Or.inl hne)] at hu
      exact hne (congrArg Prod.fst (Option.some.inj hu))
    have hupd := Db.rowOf_updatePeerData db ar.left ar.event.code (int32 now) hrow (torrentid, ar.peerIdText)
    rw [if_pos rfl] at hupd
    rw [withUpdated, int32_of_isInt32 hid] at hpeers
    rw [Clocked.lastTime, ReannounceAux.rowOf_congr hpeers, hupd, hc]
    simp [activationTimes, hq, modifyTimes, hc, hm]

/-- So does a whole announce. -/
theorem record_lastTime {db db' : Db} (time : Int → Int) {a : Announce} (hfit : RowIdFits db a.key)
    (hr : a.record db = some (0, db')) : Clocked.lastTime ⟨db', a.times db time⟩ a.key = a.updateTime db := by
  unfold RowIdFits rowIdFor at hfit
  unfold Announce.record at hr
  unfold Announce.updateTime
  cases hrow : db.rowOf a.key with
  | some row =>
    rw [hrow] at hfit
    have hlast := activation_lastTime time hrow hfit hr
    have htimes : a.times db time = activationTimes db a.torrentid a.ar a.first time := by
      unfold Announce.times
      split
      · rename_i hq _
        rcases queryPeer_cases db a.torrentid a.ar a.first.query with ⟨id, -, hq'⟩ | ⟨hn, -⟩ | hq'
        · rw [hq'] at hq
          cases hq
        · simp [Db.queryPeerById, show db.rowOf (a.torrentid, a.ar.peerIdText) = some row from hrow] at hn
        · rw [hq'] at hq
          cases hq
      · rfl
    rw [htimes]
    exact hlast
  | none =>
    rw [hrow] at hfit
    rw [updatePeer] at hr
    rcases queryPeer_cases db a.torrentid a.ar a.first.query with ⟨id, hid, -⟩ | ⟨-, hq⟩ | hq
    · simp [Db.queryPeerById, show db.rowOf (a.torrentid, a.ar.peerIdText) = none from hrow] at hid
    · simp only [hq] at hr
      rcases addPeer_cases db a.ar a.torrentid a.first.add with ⟨now, hc, ha⟩ | ⟨ha, -⟩
      · simp only [ha, if_true] at hr
        simp only [Announce.times, hq, hc, ha, if_true]
        have hf : Finds a.torrentid a.ar a.first a.again db (withAdded db a.ar a.torrentid now) (addedRow db a.ar a.torrentid now)
            a.again := .added hrow hc
        exact activation_lastTime _ hf.rowOf hfit hr
      · rw [if_neg ha] at hr
        exact absurd (congrArg Prod.fst (Option.some.inj hr)) (by simp [dbFailed])
    · simp only [hq] at hr
      exact absurd (congrArg Prod.fst (Option.some.inj hr)) (by simp [dbFailed])

theorem inv_step (s : Clocked) (op : Op) (h : s.Inv) : (s.step op).Inv := by
  cases op with
  | announce a =>
    obtain ⟨error, db', hr⟩ := updatePeer_isSome a.torrentid a.ar a.first a.again s.db
    have hr' : a.record s.db = some (error, db') := hr
    simp only [Clocked.step, hr', Option.map_some, Option.getD_some]
    exact record_inv h hr'
  | prune expireInterval e => exact fun r hr => h r ((prunePeers_sublist s.db expireInterval e).subset hr)

end ExpiryAux

open ExpiryAux

/-- What a prune that succeeds leaves. -/
theorem prunePeers_rows {db : Db} {expireInterval now : Int} {e : StmtEnv} (hc : e.clock = some now)
    (h0 : (prunePeers db expireInterval e).1 = 0) :
    (prunePeers db expireInterval e).2.peers = db.peers.filter (fun r => decide (int32 (now - expireInterval) ≤ r.expires)) := by
  rcases prunePeers_cases db expireInterval e with ⟨now', hc', h⟩ | ⟨h, -⟩
  · obtain rfl := Option.some.inj (hc'.symm.trans hc)
    rw [h]
    rfl
  · exact absurd h0 h

/-- What a search finds is found among what a filter leaves, if the filter leaves it. -/
theorem find?_filter_of_find? {α : Type} {p q : α → Bool} {l : List α} {x : α} (h : l.find? p = some x) (hq : q x = true) :
    (l.filter q).find? p = some x := by
  obtain ⟨hp, before, after, rfl, hbefore⟩ := List.find?_eq_some_iff_append.1 h
  have hnone : (before.filter q).find? p = none :=
    List.find?_eq_none.2 fun y hy => by simpa using hbefore y (List.mem_filter.1 hy).1
  rw [List.filter_append, List.find?_append, hnone, Option.none_or, List.filter_cons_of_pos hq, List.find?_cons_of_pos hp]

/-- A prune that spares the first row of a peer leaves it the peer's first row. -/
theorem rowOf_prune {db : Db} {expireInterval : Int} {e : StmtEnv} {k : Int × Bytes} {r : Peer} (h : db.rowOf k = some r)
    (hr : r ∈ (prunePeers db expireInterval e).2.peers) : (prunePeers db expireInterval e).2.rowOf k = some r := by
  rcases prunePeers_cases db expireInterval e with ⟨now, -, hp⟩ | ⟨-, hp⟩
  · rw [hp] at hr ⊢
    exact find?_filter_of_find? h (List.mem_filter.1 hr).2
  · rw [hp]
    exact h

/-- A peer whose one row is pruned has no row. -/
theorem rowOf_pruned {db : Db} {expireInterval : Int} {e : StmtEnv} {k : Int × Bytes} {r : Peer} (h1 : OneRowPerPeer db)
    (h : db.rowOf k = some r) (hr : r ∉ (prunePeers db expireInterval e).2.peers) :
    (prunePeers db expireInterval e).2.rowOf k = none := by
  obtain ⟨hm, hk⟩ := Db.rowOf_some h
  refine List.find?_eq_none.2 fun x hx hxk => hr ?_
  have hxr : x = r :=
    List.inj_on_of_nodup_map h1 ((prunePeers_sublist db expireInterval e).subset hx) hm ((by simpa using hxk : x.key = k).trans hk.symm)
  exact hxr ▸ hx

/-- In every state of every run of announces and prunes, whatever fails, a prune that succeeds at time `t` removes exactly the rows
whose last recorded time is earlier than `t - 3a`, if and only if every row's recorded time and `t - 3a` are in the same order
narrowed as they are whole. Then the time last recorded for a peer says whether the peer stays; and that is the time of its latest
announce, once that returns 0. -/
theorem prune_exact_iff (s₀ : Clocked) (h0 : s₀.Inv) (ops : List Op) (s : Clocked) (hs : Machine.Visits Clocked.step s₀ ops s) :
    (∀ a t e, e.clock = some t → (prunePeers s.db (3 * a) e).1 = 0 →
      ((∀ r ∈ s.db.peers, r ∉ (prunePeers s.db (3 * a) e).2.peers ↔ s.time r.id < t - 3 * a) ↔
        ∀ r ∈ s.db.peers, SameOrder (s.time r.id) (t - 3 * a)) ∧
      ((∀ r ∈ s.db.peers, SameOrder (s.time r.id) (t - 3 * a)) → ∀ k u, s.lastTime k = some u →
        (t ≤ u + 3 * a → (s.step (.prune (3 * a) e)).lastTime k = some u) ∧
        (u + 3 * a < t → OneRowPerPeer s.db → (s.step (.prune (3 * a) e)).lastTime k = none))) ∧
    ∀ a db', a.record s.db = some (0, db') → RowIdFits s.db a.key →
      (s.step (.announce a)).lastTime a.key = a.updateTime s.db := by
  have hinv : s.Inv := Machine.invariant Clocked.Inv inv_step h0 s hs
  refine ⟨fun a t e hc hok => ?_, fun a db' hr hfit => ?_⟩
  · have hmem : ∀ r ∈ s.db.peers, (r ∈ (prunePeers s.db (3 * a) e).2.peers ↔ int32 (t - 3 * a) ≤ int32 (s.time r.id)) := by
      intro r hr
      simp [prunePeers_rows hc hok, hr, hinv r hr]
    refine ⟨forall₂_congr fun r hr => ?_, fun hord k u hu => ?_⟩
    · rw [hmem r hr, sameOrder_iff]
      omega
    · obtain ⟨r, hr, rfl⟩ := Option.map_eq_some_iff.1 hu
      obtain ⟨hm, hk⟩ := Db.rowOf_some hr
      have hkeep := (hmem r hm).trans ((sameOrder_iff _ _).1 (hord r hm))
      refine ⟨fun ht => ?_, fun ht h1 => ?_⟩
      · have hrow := rowOf_prune hr (hkeep.2 (by omega))
        simp only [Clocked.lastTime, Clocked.step, hrow, Option.map_some]
      · have hrow := rowOf_pruned h1 hr (fun hin => by have := hkeep.1 hin; omega)
        simp only [Clocked.lastTime, Clocked.step, hrow, Option.map_none]
  · have hlast := record_lastTime s.time hfit hr
    rwa [show s.step (.announce a) = ⟨db', a.times s.db s.time⟩ by simp [Clocked.step, hr]]

namespace ExpiryExample

/-- An announce at time `now`. -/
def announce (now : Int) : Announce :=
  { torrentid := 1
    ar := { infoHash := [], peerId := ascii "-TC0010-", ip := ascii "10.0.0.1", port := 6881, protover := 4, event := .started,
            left := 9, compact := false, noPeerId := false, numwant := 50 }
    first := .ok now
    again := .ok now }

/-- One torrent, no peers. -/
def start : Clocked := { db := Db.ofTorrent ⟨1, ascii "00", 0⟩, time := fun _ => 0 }

end ExpiryExample

open ExpiryExample

/-- A peer that announced itself at 1000 is removed by a prune at 2000, with an interval of 300 seconds. -/
theorem prune_exact_iff_old : (prunePeers (start.step (.announce (announce 1000))).db (3 * 300) (.ok 2000)).2.peers = [] := by
  have h := ((prune_exact_iff start (fun r hr => by cases hr) [.announce (announce 1000)] _ (Machine.visits_end _ _ _)).1 300 2000
    (.ok 2000) rfl (by decide)).1.2 (by decide)
  simp only [Machine.run_cons, Machine.run_nil] at h
  have hall : ∀ r ∈ (start.step (.announce (announce 1000))).db.peers,
      (start.step (.announce (announce 1000))).time r.id < 2000 - 3 * 300 := by decide
  refine List.eq_nil_iff_forall_not_mem.2 fun r hr => ?_
  have hr' := (prunePeers_sublist _ _ _).subset hr
  exact (h r hr').2 (hall r hr') hr

/-- A peer announces itself in the first second that a signed 32-bit number cannot hold, and is removed 52 seconds later. -/
theorem not_prune_exact_2038 :
    start.Inv ∧
    (start.step (.announce (announce 2147483648))).lastTime (announce 2147483648).key = some 2147483648 ∧
    (prunePeers (start.step (.announce (announce 2147483648))).db (3 * 300) (.ok 2147483700)).1 = 0 ∧
    ¬(2147483648 < (2147483700 : Int) - 3 * 300) ∧
    (prunePeers (start.step (.announce (announce 2147483648))).db (3 * 300) (.ok 2147483700)).2.peers = [] := by
  refine ⟨fun r hr => (by cases hr), by decide, by decide, by decide, by decide⟩

end Traccoon
