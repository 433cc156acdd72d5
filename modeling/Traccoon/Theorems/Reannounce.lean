import Traccoon.Lemmas.UpdatePeer

/-!
# What a peer's row holds after it announces again

The insert writes `torrent`, `peer_id`, `ip`, `port`, `protover` and `expires`; the update writes `left`, `status` and
`expires`. So a row follows the latest announce in the second group and keeps the first announce's address: it holds the latest
announce exactly when that announce comes from the address the row was inserted with, at a time that an `int` holds
(`holdsAnnounce_iff`).
-/

namespace Traccoon

open CString

/-- An announce that is recorded: what `updatePeer` is called with, and how the statements of its two activations are answered
(`again` is the one after an insert). -/
structure Announce where
  torrentid : Int
  ar : AnnounceRequest
  first : CallEnv
  again : CallEnv

/-- The torrent and peer id of an announce. -/
def Announce.key (a : Announce) : Int × Bytes := (a.torrentid, a.ar.peerIdText)

/-- `updatePeer` on the announce. -/
def Announce.record (a : Announce) (db : Db) : Option (Int × Db) := updatePeer a.torrentid a.ar [a.first, a.again] db

/-- What the clock gives when the announce updates the peer's row. -/
def Announce.updateTime (a : Announce) (db : Db) : Option Int :=
  if (db.rowOf a.key).isSome then a.first.modify.clock else a.again.modify.clock

/-- A run of announces, one at a time, each of which `updatePeer` completes with 0. The history lists them latest first, each
with the time of its update. -/
inductive Recorded (db₀ : Db) : List (Announce × Int) → Db → Prop where
  | nil : Recorded db₀ [] db₀
  | cons {history : List (Announce × Int)} {db db' : Db} {a : Announce} {now : Int} (h : Recorded db₀ history db)
      (hr : a.record db = some (0, db')) (ht : a.updateTime db = some now) : Recorded db₀ ((a, now) :: history) db'

/-- The most recent announce of a peer, with its time. -/
def latest (history : List (Announce × Int)) (k : Int × Bytes) : Option (Announce × Int) :=
  history.find? (fun h => h.1.key == k)

/-- Where a peer is reached. -/
structure Address where
  ip : Bytes
  port : Int
  protover : Int
  deriving DecidableEq, Repr

/-- The columns of a row besides its id and the peer's key. -/
structure Contents where
  address : Address
  left : Int
  status : Option Int
  expires : Int
  deriving DecidableEq, Repr

def Peer.address (r : Peer) : Address := ⟨r.ip, r.port, r.protover⟩

def Peer.contents (r : Peer) : Contents := ⟨r.address, r.left, r.status, r.expires⟩

def Announce.address (a : Announce) : Address := ⟨a.ar.ip, a.ar.port, a.ar.protover⟩

/-- What an announce asks to be stored, at the time of its update. -/
def Announce.contents (a : Announce) (now : Int) : Contents := ⟨a.address, a.ar.left, some a.ar.event.code, now⟩

/-- The peer's row holds what its announce `a`, updated at `now`, said. -/
def HoldsAnnounce (db : Db) (a : Announce) (now : Int) : Prop := (db.rowOf a.key).map Peer.contents = some (a.contents now)

instance (db : Db) (a : Announce) (now : Int) : Decidable (HoldsAnnounce db a now) := inferInstanceAs (Decidable (_ = _))

/-- The address a peer is registered with: that of the row it has before the run, or else that of its first announce. -/
def registered (db₀ : Db) (k : Int × Bytes) : List (Announce × Int) → Option Address
  | [] => (db₀.rowOf k).map Peer.address
  | (a, _) :: history => (registered db₀ k history).or (if a.key = k then some a.address else none)

/-- Before each announce of the run, the row id that it reads fits the `int` it is read into. -/
def RowIdsRead (db₀ : Db) (history : List (Announce × Int)) : Prop :=
  ∀ a now earlier db, (a, now) :: earlier <:+ history → Recorded db₀ earlier db → RowIdFits db a.key

theorem RowIdsRead.earlier {db₀ : Db} {h : Announce × Int} {history : List (Announce × Int)} (hfit : RowIdsRead db₀ (h :: history)) :
    RowIdsRead db₀ history := fun a now earlier db hs => hfit a now earlier db (hs.trans (List.suffix_cons _ _))

namespace ReannounceAux

/-- An announce of a peer with a row: the row is updated in its second group of columns. -/
theorem updatePeer_row {db db' : Db} {torrentid : Int} {ar : AnnounceRequest} {e e' : CallEnv} {r : Peer}
    (hrow : db.rowOf (torrentid, ar.peerIdText) = some r) (hid : IsInt32 r.id)
    (h : updatePeer torrentid ar [e, e'] db = some (0, db')) :
    ∃ now, e.modify.clock = some now ∧
      db'.peers = (db.updatePeerData ar.left ar.event.code (int32 now) r.id).peers ∧ db'.peerSeq = db.peerSeq := by
  obtain ⟨base, row, env, now, hf, hc, hp, hs⟩ := (updatePeer_leaves h).updated
  obtain ⟨rfl, rfl, rfl⟩ := hf.eq_of_some hrow
  rw [withUpdated, int32_of_isInt32 hid] at hp
  exact ⟨now, hc, hp, hs⟩

/-- An announce of a peer without a row: a row is inserted, and updated by the call that `updatePeer` makes to itself. -/
theorem updatePeer_missing {db db' : Db} {torrentid : Int} {ar : AnnounceRequest} {e e' : CallEnv}
    (hrow : db.rowOf (torrentid, ar.peerIdText) = none) (hid : IsInt32 (db.peerSeq + 1))
    (h : updatePeer torrentid ar [e, e'] db = some (0, db')) :
    ∃ added now, e'.modify.clock = some now ∧
      db'.peers = ((db.addTorrentPeer torrentid ar.peerIdText ar.ip ar.port added ar.protover).updatePeerData ar.left
        ar.event.code (int32 now) (db.peerSeq + 1)).peers ∧
      db'.peerSeq = db.peerSeq + 1 := by
  obtain ⟨base, row, env, now, hf, hc, hp, hs⟩ := (updatePeer_leaves h).updated
  obtain ⟨added, -, rfl, rfl, rfl⟩ := hf.eq_of_none hrow
  rw [withUpdated, addedRow, int32_of_isInt32 hid] at hp
  exact ⟨int32 added, now, hc, hp, hs⟩

theorem rowOf_congr {db db' : Db} (h : db'.peers = db.peers) (k : Int × Bytes) : db'.rowOf k = db.rowOf k := by
  rw [Db.rowOf, Db.rowOf, h]

/-- What one recorded announce does to the row of each peer. -/
theorem record_rowOf {db db' : Db} {a : Announce} {now : Int} (hfit : RowIdFits db a.key) (hr : a.record db = some (0, db'))
    (ht : a.updateTime db = some now) (k : Int × Bytes) :
    if k = a.key then
      (db'.rowOf k).map Peer.contents =
        some ⟨((db.rowOf k).map Peer.address).getD a.address, a.ar.left, some a.ar.event.code, int32 now⟩
    else db'.rowOf k = db.rowOf k := by
  unfold Announce.updateTime at ht
  unfold RowIdFits rowIdFor at hfit
  cases hrow : db.rowOf a.key with
  | some r =>
    simp only [hrow, Option.isSome_some, if_true] at ht
    simp only [hrow, Option.map_some, Option.getD_some] at hfit
    obtain ⟨now', hc, hp, -⟩ := updatePeer_row hrow hfit hr
    obtain rfl := Option.some.inj (hc.symm.trans ht)
    rw [rowOf_congr hp, Db.rowOf_updatePeerData db _ _ _ hrow k]
    split
    · rename_i hk
      subst hk
      simp [hrow, Peer.contents, Peer.address]
    · rfl
  | none =>
    simp only [hrow, Option.isSome_none, Bool.false_eq_true, if_false] at ht
    simp only [hrow, Option.map_none, Option.getD_none] at hfit
    obtain ⟨added, now', hc, hp, -⟩ := updatePeer_missing hrow hfit hr
    obtain rfl := Option.some.inj (hc.symm.trans ht)
    have hadd := Db.rowOf_addTorrentPeer db a.torrentid a.ar.peerIdText a.ar.ip a.ar.port added a.ar.protover hrow
    have hnew := hadd a.key
    rw [if_pos (show a.key = (a.torrentid, a.ar.peerIdText) from rfl)] at hnew
    have hupd := Db.rowOf_updatePeerData _ a.ar.left a.ar.event.code (int32 now') hnew k
    rw [rowOf_congr hp, hupd]
    split
    · rename_i hk
      subst hk
      simp [hrow, Peer.contents, Peer.address, Announce.address]
    · rename_i hk
      rw [hadd k, if_neg (show ¬k = (a.torrentid, a.ar.peerIdText) from hk)]

/-- The run lemma: after any run a peer without an announce in it has the row it had, and a peer with one has a row with its
registered address and with the `left`, `status` and `expires` of its latest announce. -/
theorem recorded_rowOf {db₀ db : Db} {history : List (Announce × Int)} (h : Recorded db₀ history db)
    (hfit : RowIdsRead db₀ history) (k : Int × Bytes) :
    match latest history k with
    | none => db.rowOf k = db₀.rowOf k ∧ registered db₀ k history = (db₀.rowOf k).map Peer.address
    | some (a, now) => ∃ ad, registered db₀ k history = some ad ∧
        (db.rowOf k).map Peer.contents = some ⟨ad, a.ar.left, some a.ar.event.code, int32 now⟩ := by
  induction h with
  | nil => exact ⟨rfl, rfl⟩
  | @cons history db db' a now hrec hr ht ih =>
    have hstep := record_rowOf (hfit a now history db (List.suffix_refl _) hrec) hr ht k
    have ih := ih hfit.earlier
    by_cases hk : a.key = k
    · subst hk
      rw [if_pos rfl] at hstep
      simp only [latest, List.find?_cons, beq_self_eq_true, registered, if_true]
      cases hl : latest history a.key with
      | none =>
        rw [hl] at ih
        rw [ih.2, hstep, ih.1]
        cases db₀.rowOf a.key <;> simp
      | some l =>
        obtain ⟨b, u⟩ := l
        rw [hl] at ih
        obtain ⟨ad, had, hrow⟩ := ih
        refine ⟨ad, by simp [had], ?_⟩
        rw [hstep]
        obtain ⟨r, hr', hrc⟩ := Option.map_eq_some_iff.1 hrow
        have : r.address = ad := congrArg Contents.address hrc
        simp [hr', this]
    · have hbeq : (a.key == k) = false := by simpa using hk
      rw [if_neg (fun h => hk h.symm)] at hstep
      simp only [latest, List.find?_cons, hbeq, registered, hk, if_false, Option.or_none, hstep]
      exact ih

end ReannounceAux

open ReannounceAux

/-- After every run of recorded announces, a peer that announced in it has a row with the `left`, the event and the narrowed update time
of its most recent announce; the row holds that announce whole exactly when the announce came from the address the peer was registered
with, by the row it had before the run or else by its first announce, and its time is an `int`. -/
theorem holdsAnnounce_iff (db₀ db : Db) (history : List (Announce × Int)) (h : Recorded db₀ history db)
    (hfit : RowIdsRead db₀ history) (a : Announce) (now : Int) (hl : latest history a.key = some (a, now)) :
    (∃ r, db.rowOf a.key = some r ∧ r.left = a.ar.left ∧ r.status = some a.ar.event.code ∧ r.expires = int32 now) ∧
    (HoldsAnnounce db a now ↔ registered db₀ a.key history = some a.address ∧ IsInt32 now) := by
  have hrun := recorded_rowOf h hfit a.key
  rw [hl] at hrun
  obtain ⟨ad, had, hrow⟩ := hrun
  refine ⟨?_, ?_⟩
  · obtain ⟨r, hr, hrc⟩ := Option.map_eq_some_iff.1 hrow
    refine ⟨r, hr, congrArg Contents.left hrc, congrArg Contents.status hrc, congrArg Contents.expires hrc⟩
  · have htime : int32 now = now ↔ IsInt32 now := ⟨fun h => h ▸ isInt32_int32 now, int32_of_isInt32⟩
    rw [HoldsAnnounce, hrow, had, ← htime]
    simp [Announce.contents]

namespace ReannounceExample

/-- A peer that announces itself, with this port and bytes left, at time `now`. -/
def announce (port left now : Int) : Announce :=
  { torrentid := 1
    ar := { infoHash := [], peerId := ascii "-TC0010-", ip := ascii "10.0.0.1", port := port, protover := 4, event := .started,
            left := left, compact := false, noPeerId := false, numwant := 50 }
    first := .ok now
    again := .ok now }

/-- The tables before the run. -/
def db₀ : Db := Db.ofTorrent ⟨1, ascii "00", 0⟩

/-- The tables after a first announce from port 6881. -/
def db₁ : Db := (((announce 6881 9 100).record db₀).map (·.2)).getD db₀

/-- The tables after a second announce, from the given port. -/
def db₂ (port : Int) : Db := (((announce port 0 400).record db₁).map (·.2)).getD db₀

theorem recorded₁ : Recorded db₀ [(announce 6881 9 100, 100)] db₁ := Recorded.cons Recorded.nil (by rfl) (by rfl)

theorem rowIdsRead₂ : RowIdsRead db₀ [(announce 6881 0 400, 400), (announce 6881 9 100, 100)] := by
  intro a now earlier db hs hrec
  rcases List.suffix_cons_iff.1 hs with hs | hs
  · obtain ⟨ha, rfl⟩ := List.cons.inj hs
    obtain ⟨rfl, rfl⟩ := Prod.mk.inj ha
    cases hrec with
    | cons hrec hr _ =>
      cases hrec
      have hdb : db = db₁ := by rw [db₁, hr]; rfl
      rw [hdb]
      decide
  · rcases List.suffix_cons_iff.1 hs with hs | hs
    · obtain ⟨ha, rfl⟩ := List.cons.inj hs
      obtain ⟨rfl, rfl⟩ := Prod.mk.inj ha
      cases hrec
      decide
    · exact absurd (List.suffix_nil.1 hs) (by simp)

end ReannounceExample

open ReannounceExample

/-- A second announce from the same port is stored whole. -/
theorem holdsAnnounce_iff_same_port : HoldsAnnounce (db₂ 6881) (announce 6881 0 400) 400 := by
  have h : Recorded db₀ [(announce 6881 0 400, 400), (announce 6881 9 100, 100)] (db₂ 6881) :=
    Recorded.cons recorded₁ (by rfl) (by rfl)
  exact (holdsAnnounce_iff db₀ (db₂ 6881) _ h rowIdsRead₂ (announce 6881 0 400) 400 (by rfl)).2.2 (by decide)

/-- A second announce from another port is recorded with return value 0, and the row keeps the old port. -/
theorem not_holdsAnnounce_new_port :
    Recorded db₀ [(announce 51413 0 400, 400), (announce 6881 9 100, 100)] (db₂ 51413) ∧
    ¬HoldsAnnounce (db₂ 51413) (announce 51413 0 400) 400 := by
  refine ⟨Recorded.cons recorded₁ (by rfl) (by rfl), by decide⟩

end Traccoon
