import Traccoon.Lemmas.Listing
import Traccoon.Lib.Sample

/-!
# As many peers as are wanted

The loop of `track` counts every row it fetches, also one that it skips. So a reply lists as many peers as are wanted, or all there are,
in whatever order the rows come, exactly when no row is skipped or every row is fetched (`lists_wanted_iff`).
-/

namespace Traccoon

open CString

/-- What stepping the peers query gives when it orders the rows of the torrent like this. -/
def inOrder (order : List Peer) : List PeerStep := (order.take 50).map fun row => .row row.listed

/-- What the loop over the peers has sent and gathered then. -/
def listing (inet : Inet) (ar : AnnounceRequest) (order : List Peer) : Listing :=
  peerLoop inet ar (inOrder order) 0 { sent := [], buf4 := [], buf6 := [] }

/-- The rows that are not the requester's own. -/
def otherRows (ar : AnnounceRequest) (rows : List Peer) : List Peer := rows.filter fun row => !isRequester ar row.listed

/-- There are no other rows; or each of them can be listed, and the requester has no row or all rows are fetched. -/
def NoneMissed (inet : Inet) (ar : AnnounceRequest) (rows : List Peer) : Prop :=
  otherRows ar rows = [] ∨
    (∀ row ∈ otherRows ar rows, listable inet ar row.listed = true) ∧ (otherRows ar rows = rows ∨ rows.length ≤ ar.numwant.toNat)

instance (inet : Inet) (ar : AnnounceRequest) (rows : List Peer) : Decidable (NoneMissed inet ar rows) :=
  inferInstanceAs (Decidable (_ ∨ _))

namespace WantedAux

variable {inet : Inet} {ar : AnnounceRequest} {order : List Peer}

/-- Of an answer that is only rows, as many are fetched as are wanted. -/
theorem fetched_rows (rows : List PeerRow) (n : Nat) : fetched (rows.map .row) n = rows.take n := by
  induction rows generalizing n with
  | nil => cases n <;> rfl
  | cons r rows ih =>
    cases n with
    | zero => rfl
    | succ n => rw [List.map_cons, fetched, ih, List.take_succ_cons]

/-- What the loop gathers comes from the rows listed, of those fetched. -/
theorem listing_eq (hn : 1 ≤ ar.numwant ∧ ar.numwant ≤ maxpeersSent) (order : List Peer) :
    listing inet ar order =
      (((order.take ar.numwant.toNat).filter fun row => listable inet ar row.listed).map Peer.listed).foldl
        (fun l r => pushPeer inet ar r l) { sent := [], buf4 := [], buf6 := [] } := by
  obtain ⟨h1, h50⟩ := hn
  have hmax : min ar.numwant.toNat 50 = ar.numwant.toNat := by
    unfold maxpeersSent at h50
    omega
  have hrows : inOrder order = ((order.take 50).map Peer.listed).map .row := by rw [inOrder, List.map_map]; rfl
  rw [listing, peerLoop_filter (by omega), hrows, fetched_rows, ← List.map_take, List.take_take, hmax, List.filter_map]
  rfl

theorem peers_listing (hn : 1 ≤ ar.numwant ∧ ar.numwant ≤ maxpeersSent) (order : List Peer) :
    (listing inet ar order).peers = ((order.take ar.numwant.toNat).filter fun row => listable inet ar row.listed).length := by
  rw [listing_eq hn, peers_foldl_pushPeer, List.length_map]
  · exact Nat.zero_add _
  · intro r hr
    obtain ⟨row, hrow, rfl⟩ := List.mem_map.1 hr
    exact (List.mem_filter.1 hrow).2

/-- A row that is listed is not the requester's own. -/
theorem not_isRequester_of_listable {r : PeerRow} (h : listable inet ar r = true) : isRequester ar r = false := by
  unfold listable at h
  simpa using (Bool.and_eq_true_iff.1 h).1

/-- The rows of a torrent are distinct. -/
theorem nodup_torrentPeers (db : Db) (torrent : Int) : (db.torrentPeers torrent).Nodup :=
  (List.Nodup.of_map _ db.peerIds).filter _

/-- The reply of `track` is made of what its loop gathers. -/
theorem track_sent {ar' : AnnounceRequest} {e : TrackEnv} {db : Db} {torrent : Int} (hask : peersAsked ar e db = some (ar', torrent))
    {interval : Int} {eff : Effects} (h : track inet ar interval e db = some eff) :
    eff.sent = sendHttpHeaders (ascii "200 OK") standardHeader ++ peerReply inet ar' interval e.steps := by
  obtain ⟨hp, ht, h1, h2, h3, h4⟩ := peersAsked_some hask
  subst ht
  simp only [track, hp, h1, h2, h3, h4, Option.bind_eq_bind, Option.bind_some, ne_eq, not_true_eq_false, if_false] at h
  obtain ⟨⟨error, db'⟩, -, h⟩ := Option.bind_eq_some_iff.1 h
  obtain rfl := Option.some.inj h
  rfl

end WantedAux

open WantedAux

/-- For every peers table, torrent and request that wants between 1 and 50 peers, and that gets an answer to the peers query: the reply
lists as many peers as are wanted, or all other peers if they are fewer, for every order of the rows, exactly when `NoneMissed`. In every
order no row is listed twice, and none is the requester's own. -/
theorem lists_wanted_iff {inet : Inet} {ar ar' : AnnounceRequest} {e : TrackEnv} {db : Db} {torrent : Int}
    (hask : peersAsked ar e db = some (ar', torrent)) (hn : 1 ≤ ar.numwant ∧ ar.numwant ≤ maxpeersSent) :
    ((∀ order : List Peer, order.Perm (db.torrentPeers torrent) →
        (listing inet ar' order).peers = min ar.numwant.toNat (otherRows ar' (db.torrentPeers torrent)).length) ↔
      NoneMissed inet ar' (db.torrentPeers torrent)) ∧
    ∀ order : List Peer, order.Perm (db.torrentPeers torrent) →
      (∀ interval eff, track inet ar interval { e with steps := inOrder order } db = some eff →
        eff.sent = sendHttpHeaders (ascii "200 OK") standardHeader ++ peerReply inet ar' interval (inOrder order)) ∧
      ∃ rows : List Peer, rows.Sublist order ∧ rows.Nodup ∧ (∀ row ∈ rows, isRequester ar' row.listed = false) ∧
        listing inet ar' order =
          (rows.map Peer.listed).foldl (fun l r => pushPeer inet ar' r l) { sent := [], buf4 := [], buf6 := [] } ∧
        (listing inet ar' order).peers = rows.length := by
  have hwant : ar'.numwant = ar.numwant := (prepareData_fields (peersAsked_some hask).1).2.2
  rw [← hwant] at hn ⊢
  refine ⟨?_, fun order hperm => ⟨fun interval eff h => ?_, ?_⟩⟩
  · have hother : ∀ row ∈ db.torrentPeers torrent, listable inet ar' row.listed = true → (!isRequester ar' row.listed) = true := by
      intro row _ h
      rw [not_isRequester_of_listable h]
      rfl
    simp only [peers_listing hn]
    exact Sample.count_eq_min_iff (by omega) hother
  · exact track_sent (e := { e with steps := inOrder order }) hask h
  · refine ⟨(order.take ar'.numwant.toNat).filter fun row => listable inet ar' row.listed, ?_, ?_, ?_, listing_eq hn order,
      peers_listing hn order⟩
    · exact List.filter_sublist.trans (List.take_sublist _ _)
    · exact ((hperm.nodup_iff.2 (nodup_torrentPeers db torrent)).sublist (List.take_sublist _ _)).filter _
    · intro row hrow
      exact not_isRequester_of_listable (List.mem_filter.1 hrow).2

namespace WantedExample

/-- A torrent with that hash, and the rows of two peers. -/
def table : Db :=
  let db := Db.ofTorrent ⟨1, hexEncode (ascii "aaaaaaaaaaaaaaaaaaaa"), 0⟩
  let db := db.addTorrentPeer 1 (ascii "-TC0010-000000000001") (ascii "10.0.0.1") 6881 400 4
  db.addTorrentPeer 1 (ascii "-TC0010-000000000002") (ascii "10.0.0.2") 6881 400 4

/-- The first of the two peers asks for this many peers. -/
def request (numwant : Int) : AnnounceRequest :=
  { infoHash := copyParam (ascii "aaaaaaaaaaaaaaaaaaaa"), peerId := copyParam (ascii "-TC0010-000000000001"),
    ip := ascii "10.0.0.1", port := 6881, protover := 4, event := .started, left := 0, compact := false, noPeerId := false,
    numwant := numwant }

/-- Everything succeeds. -/
def env : TrackEnv :=
  { torrent := .ok 0, prepare := sqliteOk, bind := sqliteOk, steps := [], first := .ok 100, again := .ok 100 }

/-- The rows that are not the requester's own, whether none is missed, and the peers listed when the rows come as they are stored. -/
def answer (numwant : Int) : Option (Int × Nat × Bool × Nat) :=
  (peersAsked (request numwant) env table).map fun r =>
    (r.2, (otherRows r.1 (table.torrentPeers 1)).length, decide (NoneMissed PlainInet.inet r.1 (table.torrentPeers 1)),
      (listing PlainInet.inet r.1 (table.torrentPeers 1)).peers)

end WantedExample

open WantedExample

/-- With both rows fetched, the other peer is listed whichever comes first. -/
theorem lists_wanted_iff_both : ∃ ar', peersAsked (request 2) env table = some (ar', 1) ∧
    ∀ order : List Peer, order.Perm (table.torrentPeers 1) → (listing PlainInet.inet ar' order).peers = 1 := by
  have hanswer : answer 2 = some (1, 1, true, 1) := by decide
  obtain ⟨⟨ar', torrent⟩, hask, h⟩ := Option.map_eq_some_iff.1 hanswer
  obtain ⟨rfl, hlen, hnone, -⟩ : torrent = 1 ∧ (otherRows ar' (table.torrentPeers 1)).length = 1 ∧
      decide (NoneMissed PlainInet.inet ar' (table.torrentPeers 1)) = true ∧ _ := by simpa using h
  refine ⟨ar', hask, fun order hperm => ?_⟩
  have hmin := (@lists_wanted_iff PlainInet.inet _ _ _ _ _ hask (by decide)).1.2 (of_decide_eq_true hnone) order hperm
  rw [hmin, hlen]
  rfl

/-- With one peer wanted and the requester's own row first, the other peer is not listed. -/
theorem not_lists_wanted : ∃ ar', peersAsked (request 1) env table = some (ar', 1) ∧ (otherRows ar' (table.torrentPeers 1)).length = 1 ∧
    ∃ order : List Peer, order.Perm (table.torrentPeers 1) ∧ (listing PlainInet.inet ar' order).peers = 0 := by
  have hanswer : answer 1 = some (1, 1, false, 0) := by decide
  obtain ⟨⟨ar', torrent⟩, hask, h⟩ := Option.map_eq_some_iff.1 hanswer
  obtain ⟨rfl, hlen, -, hpeers⟩ : torrent = 1 ∧ (otherRows ar' (table.torrentPeers 1)).length = 1 ∧ _ ∧
      (listing PlainInet.inet ar' (table.torrentPeers 1)).peers = 0 := by simpa using h
  exact ⟨ar', hask, hlen, _, List.Perm.refl _, hpeers⟩

end Traccoon
