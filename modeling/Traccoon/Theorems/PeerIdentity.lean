import Traccoon.Lemmas.UpdatePeer
import Traccoon.Lemmas.PercentEncoding

/-!
# One peer, two texts

`track` decodes the info hash before it looks it up. The peer id is checked to encode twenty bytes, and then stored and compared as it
was written. So a second announce updates the row of the first exactly when both write the peer id with the same text, and the row's id and
the time fit an `int` (`updatesSameRow_iff`).
-/

namespace Traccoon

open CString

/-- An announce with this request target, its peer id written as `u`, is accepted, and `updatePeer` is called with `ar`. -/
structure AnnouncesAs (inet : Inet) (buffer : Bytes) (conn : SockAddr) (u : Bytes) (ar : AnnounceRequest) : Prop where
  noNul : NoNul buffer
  peerId : ∃ t, textAfter buffer (ascii "peer_id=") = some (u ++ t) ∧ (t = [] ∨ ∃ t', t = 38 :: t')
  accepted : ∃ built, parseAnnounce inet buffer conn = .announce built ∧ prepareData built = some ar

/-- The second of two announces recorded for a torrent, `db` being the tables between them, `db'` those after both, and `e` how its
statements are answered: the row of the first is the row it finds, and that row, with what the second says, is what has changed. -/
def UpdatesSameRow (torrentid : Int) (ar ar' : AnnounceRequest) (e : CallEnv) (db db' : Db) : Prop :=
  ∃ r now, db.rowOf (torrentid, ar.peerIdText) = some r ∧ db.rowOf (torrentid, ar'.peerIdText) = some r ∧
    queryPeer db torrentid ar' e.query = .row r.id ∧ e.modify.clock = some now ∧
    db'.peers = db.peers.map fun x => if x = r then { r with left := ar'.left, status := some ar'.event.code, expires := now } else x

namespace PeerIdentityAux

variable {torrentid : Int} {ar ar' : AnnounceRequest} {e e' : CallEnv} {db db' : Db}

/-- The peer id is stored as it was written. -/
theorem peerIdText_eq {inet : Inet} {buffer : Bytes} {conn : SockAddr} {ps : List EncodedByte}
    (h : AnnouncesAs inet buffer conn (encodedText ps) ar) (hlen : ps.length = maxHashLen) : ar.peerIdText = encodedText ps := by
  obtain ⟨t, ht, htt⟩ := h.peerId
  obtain ⟨built, hb, hp⟩ := h.accepted
  obtain ⟨-, s, hs, hl, hcopy⟩ := parseAnnounce_values hb
  obtain rfl := Option.some.inj (hs.symm.trans ht)
  have hn : NoNul (encodedText ps ++ t) := h.noNul.of_suffix (textAfter_suffix hs)
  obtain ⟨post, hpost, -⟩ := copyParam_eq hl
  obtain ⟨x, -, hx⟩ := Option.bind_eq_some_iff.1 hp
  obtain rfl := Option.some.inj hx
  obtain ⟨-, hv⟩ := value_text hlen htt
  rw [paramValue] at hv
  rw [hv] at hpost
  have h0 : NoNul (encodedText ps) := hn.of_sublist (List.sublist_append_left _ _)
  rw [AnnounceRequest.peerIdText, hcopy, hpost, cstr_append_nul h0]

/-- A recorded announce leaves its peer a row. -/
theorem exists_rowOf (h : updatePeer torrentid ar [e, e'] db = some (0, db')) :
    ∃ r, db'.rowOf (torrentid, ar.peerIdText) = some r := by
  obtain ⟨base, row, env, now, hf, -, hp, -⟩ := (updatePeer_leaves h).updated
  have hrow : (withUpdated base ar row now).rowOf (torrentid, ar.peerIdText) =
      some (Db.updateRow ar.left ar.event.code (int32 now) (int32 row.id) row) := by
    rw [withUpdated, Db.rowOf_map_updateRow, hf.rowOf, Option.map_some]
  refine ⟨Db.updateRow ar.left ar.event.code (int32 now) (int32 row.id) row, ?_⟩
  rw [Db.rowOf, hp, ← Db.rowOf, hrow]

/-- The update of a row by its id, as a change of that row alone. -/
theorem updatePeerData_peers {r : Peer} (hr : r ∈ db.peers) (left status expires : Int) :
    (db.updatePeerData left status expires r.id).peers =
      db.peers.map fun x => if x = r then { r with left := left, status := some status, expires := expires } else x := by
  refine List.map_congr_left fun x hx => ?_
  by_cases hid : x.id = r.id
  · obtain rfl := List.inj_on_of_nodup_map db.peerIds hx hr hid
    simp [Db.updateRow]
  · rw [Db.updateRow, if_neg hid, if_neg fun hxr : x = r => hid (congrArg Peer.id hxr)]

/-- A recorded announce has looked its peer up. -/
theorem queryPeer_of_recorded {r : Peer} (hr : db.rowOf (torrentid, ar.peerIdText) = some r)
    (h : updatePeer torrentid ar [e, e'] db = some (0, db')) : queryPeer db torrentid ar e.query = .row (int32 r.id) := by
  rcases queryPeer_cases db torrentid ar e.query with ⟨id, hid, hq⟩ | ⟨hn, -⟩ | hq
  · rw [Db.queryPeerById, hr, Option.map_some, Option.some.injEq] at hid
    rw [hq, hid]
  · rw [Db.queryPeerById, hr] at hn
    cases hn
  · rw [updatePeer, hq] at h
    cases h

/-- A second announce that writes its peer id as the first does: it updates the row of the first exactly if the numbers fit. -/
theorem updatesSameRow_iff_fits {r : Peer} (hr : db.rowOf (torrentid, ar'.peerIdText) = some r)
    (h : updatePeer torrentid ar' [e, e'] db = some (0, db')) (htext : ar.peerIdText = ar'.peerIdText) :
    UpdatesSameRow torrentid ar ar' e db db' ↔ RowIdFits db (torrentid, ar'.peerIdText) ∧ ∀ now ∈ e.modify.clock, IsInt32 now := by
  have hq := queryPeer_of_recorded hr h
  obtain ⟨hm, -⟩ := Db.rowOf_some hr
  obtain ⟨base, row, env, now, hf, hc, hp, -⟩ := (updatePeer_leaves h).updated
  obtain ⟨rfl, rfl, rfl⟩ := hf.eq_of_some hr
  have hfits : RowIdFits base (torrentid, ar'.peerIdText) ↔ IsInt32 row.id := by
    rw [RowIdFits, rowIdFor, hr, Option.map_some, Option.getD_some]
  rw [UpdatesSameRow, htext, hfits]
  constructor
  · rintro ⟨r, now', hr', -, hq', hc', hp'⟩
    obtain rfl := Option.some.inj (hr.symm.trans hr')
    obtain rfl := Option.some.inj (hc.symm.trans hc')
    have hid : int32 row.id = row.id := PeerLookup.row.inj (hq.symm.trans hq')
    refine ⟨hid ▸ isInt32_int32 _, ?_⟩
    intro now' hnow
    obtain rfl := Option.some.inj (hc.symm.trans hnow)
    -- the row's time is the narrowed one
    have hmap := hp.symm.trans hp'
    rw [withUpdated, hid, updatePeerData_peers hm] at hmap
    have htime := congrArg Peer.expires (List.map_inj_left.1 hmap row hm)
    simp only [if_true] at htime
    exact htime ▸ isInt32_int32 _
  · rintro ⟨hid, hnow⟩
    refine ⟨row, now, hr, hr, ?_, hc, ?_⟩
    · rw [hq, int32_of_isInt32 hid]
    · rw [hp, withUpdated, int32_of_isInt32 hid, int32_of_isInt32 (hnow now hc), updatePeerData_peers hm]

end PeerIdentityAux

open PeerIdentityAux

/-- For any tables and torrent, and any two accepted announces whose peer ids are percent-encodings of twenty bytes: when the first is
recorded and then the second, the second updates the row of the first and adds none exactly when the two encodings are one text, the
id of the row fits the `int` it is read into, and so does the time. -/
theorem updatesSameRow_iff (inet : Inet) {buffer buffer' : Bytes} {conn conn' : SockAddr} {ps qs : List EncodedByte}
    {ar ar' : AnnounceRequest} (h : AnnouncesAs inet buffer conn (encodedText ps) ar) (hlen : ps.length = maxHashLen)
    (h' : AnnouncesAs inet buffer' conn' (encodedText qs) ar') (hlen' : qs.length = maxHashLen) (torrentid : Int) {db₀ db db' : Db}
    {e₁ e₂ e₃ e₄ : CallEnv} (hfirst : updatePeer torrentid ar [e₁, e₂] db₀ = some (0, db))
    (hsecond : updatePeer torrentid ar' [e₃, e₄] db = some (0, db')) :
    UpdatesSameRow torrentid ar ar' e₃ db db' ↔
      encodedText ps = encodedText qs ∧ RowIdFits db (torrentid, ar'.peerIdText) ∧ ∀ now ∈ e₃.modify.clock, IsInt32 now := by
  rw [← peerIdText_eq h hlen, ← peerIdText_eq h' hlen']
  by_cases htext : ar.peerIdText = ar'.peerIdText
  · obtain ⟨r, hr⟩ := exists_rowOf hfirst
    rw [updatesSameRow_iff_fits (htext ▸ hr) hsecond htext, and_iff_right htext]
  · refine iff_of_false ?_ fun hc => htext hc.1
    rintro ⟨r, -, hr, hr', -⟩
    have hkey := (Db.rowOf_some hr).2.symm.trans (Db.rowOf_some hr').2
    exact htext (Prod.mk.inj hkey).2

namespace PeerIdentityExample

theorem literal_a : 97 ∉ ([37, 38, 32, 0] : Bytes) := by decide

/-- Twenty letters a, as they stand. -/
def plain : List EncodedByte := List.replicate 20 (.literal 97 literal_a)

/-- The same bytes, the first one escaped. -/
def escaped : List EncodedByte := .escape 54 49 (by decide) (by decide) :: List.replicate 19 (.literal 97 literal_a)

/-- A request target with this peer id. -/
def buffer (peerId : Bytes) : Bytes := ascii "?info_hash=bbbbbbbbbbbbbbbbbbbb&port=6881&left=7&peer_id=" ++ peerId

def conn : SockAddr := .in4 (ipv4 10 0 0 1)

/-- The announce request that `parseSocket` builds for it. -/
def built (peerId : Bytes) : AnnounceRequest :=
  { infoHash := copyParam (ascii "bbbbbbbbbbbbbbbbbbbb"), peerId := copyParam peerId, ip := ascii "10.0.0.1", port := 6881,
    protover := 4, event := .none, left := 7, compact := false, noPeerId := false, numwant := 50 }

/-- What `track` records it with. -/
def prepared (peerId : Bytes) : AnnounceRequest :=
  { built peerId with infoHash := hexEncode (ascii "bbbbbbbbbbbbbbbbbbbb") ++ List.replicate 21 0 }

/-- One torrent and no peers. -/
def emptyDb : Db := Db.ofTorrent ⟨1, ascii "00", 0⟩

/-- The tables after an announce that every call answers with success. -/
def announced (peerId : Bytes) (db : Db) : Db := ((updatePeer 1 (prepared peerId) [.ok 100, .ok 100] db).map (·.2)).getD emptyDb

theorem announcesAs_plain :
    AnnouncesAs PlainInet.inet (buffer (encodedText plain)) conn (encodedText plain) (prepared (encodedText plain)) where
  noNul := by decide +kernel
  peerId := ⟨[], by decide, Or.inl rfl⟩
  accepted := ⟨built (encodedText plain), by decide +kernel, by decide +kernel⟩

theorem announcesAs_escaped :
    AnnouncesAs PlainInet.inet (buffer (encodedText escaped)) conn (encodedText escaped) (prepared (encodedText escaped)) where
  noNul := by decide +kernel
  peerId := ⟨[], by decide +kernel, Or.inl rfl⟩
  accepted := ⟨built (encodedText escaped), by decide +kernel, by decide +kernel⟩

theorem recorded {peerId : Bytes} {db : Db} (h : (updatePeer 1 (prepared peerId) [.ok 100, .ok 100] db).map (·.1) = some 0) :
    updatePeer 1 (prepared peerId) [.ok 100, .ok 100] db = some (0, announced peerId db) := by
  obtain ⟨r, hr, h0⟩ := Option.map_eq_some_iff.1 h
  rw [announced, hr, ← h0]
  rfl

theorem recorded_plain : updatePeer 1 (prepared (encodedText plain)) [.ok 100, .ok 100] emptyDb =
    some (0, announced (encodedText plain) emptyDb) := recorded (by decide)

theorem recorded_escaped :
    updatePeer 1 (prepared (encodedText escaped)) [.ok 100, .ok 100] (announced (encodedText plain) emptyDb) =
      some (0, announced (encodedText escaped) (announced (encodedText plain) emptyDb)) := recorded (by decide +kernel)

end PeerIdentityExample

open PeerIdentityExample

/-- A peer that writes its id as before keeps its row. -/
theorem updatesSameRow_iff_plain : UpdatesSameRow 1 (prepared (encodedText plain)) (prepared (encodedText plain)) (.ok 100)
    (announced (encodedText plain) emptyDb) (announced (encodedText plain) (announced (encodedText plain) emptyDb)) := by
  refine (updatesSameRow_iff PlainInet.inet announcesAs_plain (by decide) announcesAs_plain (by decide) 1 recorded_plain
    (recorded (by decide +kernel))).2 ⟨rfl, by decide +kernel, ?_⟩
  intro now hnow
  obtain rfl := Option.some.inj hnow
  decide

/-- A peer that escapes one byte of its id gets a second row. -/
theorem not_updatesSameRow_escaped :
    AnnouncesAs PlainInet.inet (buffer (encodedText plain)) conn (encodedText plain) (prepared (encodedText plain)) ∧
    AnnouncesAs PlainInet.inet (buffer (encodedText escaped)) conn (encodedText escaped) (prepared (encodedText escaped)) ∧
    encodedHash plain = encodedHash escaped ∧ (encodedHash plain).length = maxHashLen ∧
    ∃ db db', updatePeer 1 (prepared (encodedText plain)) [.ok 100, .ok 100] emptyDb = some (0, db) ∧
      updatePeer 1 (prepared (encodedText escaped)) [.ok 100, .ok 100] db = some (0, db') ∧
      db'.peers.length = 2 ∧ ¬UpdatesSameRow 1 (prepared (encodedText plain)) (prepared (encodedText escaped)) (.ok 100) db db' := by
  refine ⟨announcesAs_plain, announcesAs_escaped, by decide, by decide, _, _, recorded_plain, recorded_escaped, by decide +kernel, ?_⟩
  rintro ⟨r, now, -, -, -, -, hp⟩
  have hlength := congrArg List.length hp
  rw [List.length_map] at hlength
  revert hlength
  decide +kernel

end Traccoon
