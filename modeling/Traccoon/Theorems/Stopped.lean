import Traccoon.Lib.Machine
import Traccoon.Lib.Query
import Traccoon.Lemmas.Listing
import Traccoon.Lemmas.UpdatePeer

/-!
# Peers that have stopped

An announce with `event=stopped` is recorded like any other: it sets the `status` column, and inserts the row of a peer that has
none. `QUERY_TORRENT_PEERS` does not look at that column, and nothing but a prune deletes a row. So a reply lists no peer that has
left exactly when the rows of the peers that have left are gone by then (`stopped_unlisted_iff`).
-/

namespace Traccoon

open CString Query

/-- The answers that the peers query of a torrent can be stepped to: at most 50 of its rows in some order, or the first ones of them
and a failure. -/
def PeerAnswers (db : Db) (torrent : Int) (steps : List PeerStep) : Prop :=
  ∃ rows : List PeerRow, rows.Perm ((db.torrentPeers torrent).map Peer.listed) ∧
    (steps = (rows.take 50).map .row ∨ ∃ n c, steps = ((rows.take 50).take n).map .row ++ [.fails c])

/-- The rows that the reply lists. -/
def listedRows (inet : Inet) (ar : AnnounceRequest) (e : TrackEnv) (db : Db) : List PeerRow :=
  match peersAsked ar e db with
  | some (ar, _) => (fetched e.steps ar.numwant.toNat).filter (listable inet ar)
  | none => []

/-- The tables, and the parameter `event` of the latest recorded announce of each peer. -/
structure Swarm where
  db : Db
  last : Int × Bytes → Option Bytes

/-- A step of a run in which requests are handled one at a time: an announce with its request target, or a prune by the main thread. -/
inductive SwarmOp where
  | announce (target : Bytes) (ar : AnnounceRequest) (interval : Int) (e : TrackEnv)
  | prune (expireInterval : Int) (e : StmtEnv)

/-- The peer whose announce is recorded, if it is: `updatePeer` is reached and returns 0. -/
def recordedPeer (ar : AnnounceRequest) (e : TrackEnv) (db : Db) : Option (Int × Bytes) := do
  let (ar, torrentid) ← peersAsked ar e db
  let (error, _) ← updatePeer torrentid ar [e.first, e.again] db
  if error = 0 then pure (torrentid, ar.peerIdText) else none

/-- What a step does. -/
def Swarm.step (inet : Inet) (s : Swarm) : SwarmOp → Swarm
  | .announce target ar interval e =>
    { db := ((track inet ar interval e s.db).map (·.db)).getD s.db
      last := match recordedPeer ar e s.db with
        | some k => Function.update s.last k (lookup (ascii "event") target)
        | none => s.last }
  | .prune expireInterval e => { s with db := (prunePeers s.db expireInterval e).2 }

/-- The announce request that `parseSocket` builds for a client that asks for this target. -/
def BuildsFrom (inet : Inet) (target : Bytes) (ar : AnnounceRequest) : Prop :=
  ∃ stack peeked conn rest, bufText stack peeked = some (ascii "GET /announce" ++ (target ++ 32 :: rest)) ∧ 32 ∉ target ∧
    peekRequest inet stack peeked conn = some (.announce ar)

theorem BuildsFrom.builds {inet : Inet} {target : Bytes} {ar : AnnounceRequest} (h : BuildsFrom inet target ar) : Builds inet ar := by
  obtain ⟨stack, peeked, conn, -, -, -, hr⟩ := h
  exact ⟨stack, peeked, conn, hr⟩

/-- A request that `parseSocket` builds, with the peers query answered as SQLite answers it. -/
def SwarmOp.Valid (inet : Inet) (s : Swarm) : SwarmOp → Prop
  | .announce target ar _ e =>
    BuildsFrom inet target ar ∧ ∀ ar' torrentid, peersAsked ar e s.db = some (ar', torrentid) → PeerAnswers s.db torrentid e.steps
  | .prune _ _ => True

/-- The reply to the announce lists a peer whose latest recorded announce for the torrent carried `event=stopped`. -/
def ListsStopped (inet : Inet) (s : Swarm) (ar : AnnounceRequest) (e : TrackEnv) : Prop :=
  ∃ ar' torrentid, peersAsked ar e s.db = some (ar', torrentid) ∧
    ∃ r ∈ listedRows inet ar e s.db, s.last (torrentid, r.peerId) = some (ascii "stopped")

/-- A peer of the torrent that has left still has a row, which the requester can be given. -/
def StoppedStored (inet : Inet) (s : Swarm) (ar : AnnounceRequest) (e : TrackEnv) : Prop :=
  ∃ ar' torrentid, peersAsked ar e s.db = some (ar', torrentid) ∧
    ∃ row ∈ s.db.torrentPeers torrentid, listable inet ar' row.listed = true ∧ s.last row.key = some (ascii "stopped")

namespace StoppedAux

variable {inet : Inet} {ar : AnnounceRequest} {e : TrackEnv} {db : Db}

/-- Behind the peers query `track` leaves what `updatePeer` leaves. -/
theorem track_db {ar' : AnnounceRequest} {torrentid error : Int} {db' : Db} (h : peersAsked ar e db = some (ar', torrentid))
    (hu : updatePeer torrentid ar' [e.first, e.again] db = some (error, db')) (interval : Int) :
    (track inet ar interval e db).map (·.db) = some db' := by
  obtain ⟨hp, ht, h1, h2, h3, h4⟩ := peersAsked_some h
  subst ht
  simp [track, hp, h1, h2, h3, h4, hu]

/-- A row of an answer is a row of the torrent. -/
theorem mem_answers {torrent : Int} {steps : List PeerStep} (h : PeerAnswers db torrent steps) {r : PeerRow}
    (hr : PeerStep.row r ∈ steps) : ∃ row ∈ db.torrentPeers torrent, row.listed = r := by
  obtain ⟨rows, hperm, hsteps⟩ := h
  have hmem : r ∈ rows := by
    rcases hsteps with rfl | ⟨n, c, rfl⟩
    · obtain ⟨x, hx, hxr⟩ := List.mem_map.1 hr
      obtain rfl := PeerStep.row.inj hxr
      exact List.mem_of_mem_take hx
    · rcases List.mem_append.1 hr with hr | hr
      · obtain ⟨x, hx, hxr⟩ := List.mem_map.1 hr
        obtain rfl := PeerStep.row.inj hxr
        exact List.mem_of_mem_take (List.mem_of_mem_take hx)
      · cases List.mem_singleton.1 hr
  exact List.mem_map.1 (hperm.subset hmem)

/-- A row of the torrent can be the first answer. -/
theorem exists_answers {torrent : Int} {row : Peer} (h : row ∈ db.torrentPeers torrent) :
    ∃ steps, PeerAnswers db torrent (.row row.listed :: steps) := by
  obtain ⟨before, after, hl⟩ := List.append_of_mem h
  refine ⟨(((before ++ after).map Peer.listed).take 49).map .row, row.listed :: (before ++ after).map Peer.listed, ?_, Or.inl rfl⟩
  rw [hl, ← List.map_cons]
  exact (List.perm_middle.symm).map _

/-- What a valid answer lists of peers that have left is stored. -/
theorem stoppedStored_of_lists {s : Swarm} (hv : ∀ ar' torrentid, peersAsked ar e s.db = some (ar', torrentid) →
    PeerAnswers s.db torrentid e.steps) (h : ListsStopped inet s ar e) : StoppedStored inet s ar e := by
  obtain ⟨ar', torrentid, hask, r, hr, hlast⟩ := h
  simp only [listedRows, hask, List.mem_filter] at hr
  obtain ⟨row, hrow, rfl⟩ := mem_answers (hv ar' torrentid hask) (mem_fetched hr.1)
  have htorrent : row.torrent = torrentid := by simpa using (List.mem_filter.1 hrow).2
  exact ⟨ar', torrentid, hask, row, hrow, hr.2, by rw [Peer.key, htorrent]; exact hlast⟩

/-- What is stored of peers that have left can be listed. -/
theorem lists_of_stoppedStored {s : Swarm} (har : Builds inet ar) (h : StoppedStored inet s ar e) :
    ∃ steps, (∀ ar' torrentid, peersAsked ar e s.db = some (ar', torrentid) → PeerAnswers s.db torrentid steps) ∧
      ListsStopped inet s ar { e with steps := steps } := by
  obtain ⟨ar', torrentid, hask, row, hrow, hlist, hlast⟩ := h
  obtain ⟨steps, hsteps⟩ := exists_answers hrow
  have htorrent : row.torrent = torrentid := by simpa using (List.mem_filter.1 hrow).2
  have hask' : peersAsked ar { e with steps := .row row.listed :: steps } s.db = some (ar', torrentid) := hask
  have hn : 1 ≤ ar'.numwant := by
    rw [(prepareData_fields (peersAsked_some hask).1).2.2]
    exact har.built.numwant.1
  refine ⟨.row row.listed :: steps, fun ar2 t2 h2 => ?_, ar', torrentid, hask', row.listed, ?_, ?_⟩
  · obtain ⟨-, rfl⟩ := Prod.mk.inj (Option.some.inj (hask.symm.trans h2))
    exact hsteps
  · rw [listedRows, hask']
    obtain ⟨n, hn⟩ : ∃ n, ar'.numwant.toNat = n + 1 := ⟨ar'.numwant.toNat - 1, by omega⟩
    simp only [hn, fetched, List.mem_filter, List.mem_cons, true_or, true_and]
    exact hlist
  · rw [← htorrent]
    exact hlast

/-- A recorded announce leaves the peer a row, and its event as the peer's latest. -/
theorem recorded_stored {s : Swarm} {k : Int × Bytes} (h : recordedPeer ar e s.db = some k) (target : Bytes) (interval : Int) :
    ∃ row ∈ (s.step inet (.announce target ar interval e)).db.torrentPeers k.1, row.key = k ∧
      (s.step inet (.announce target ar interval e)).last row.key = lookup (ascii "event") target := by
  have hrec := h
  obtain ⟨⟨ar', torrentid⟩, hask, h⟩ := Option.bind_eq_some_iff.1 h
  obtain ⟨⟨error, db'⟩, hu, h⟩ := Option.bind_eq_some_iff.1 h
  simp only at h
  split at h
  · rename_i h0
    subst h0
    obtain rfl := Option.some.inj h
    obtain ⟨base, row, env, now, hf, -, hp, -⟩ := (updatePeer_leaves hu).updated
    obtain ⟨hm, hk⟩ := Db.rowOf_some hf.rowOf
    have hkeys : (torrentid, ar'.peerIdText) ∈ db'.peers.map Peer.key := by
      rw [hp, withUpdated, Db.updatePeerData_keys]
      exact hk ▸ List.mem_map_of_mem hm
    obtain ⟨row', hm', hk'⟩ := List.mem_map.1 hkeys
    have htorrent : row'.torrent = torrentid := congrArg Prod.fst hk'
    refine ⟨row', ?_, hk', ?_⟩
    · simp only [Swarm.step, track_db hask hu interval, Option.getD_some]
      exact List.mem_filter.2 ⟨hm', by simpa using htorrent⟩
    · simp only [Swarm.step, hrec, hk', Function.update_self]
  · cases h

end StoppedAux

open StoppedAux

/-- The rows listed are those that the loop of `track` makes its reply of: it gathers what they add one after another, and each adds
something. -/
theorem listedRows_gathered {inet : Inet} {ar ar' : AnnounceRequest} {e : TrackEnv} {db : Db} {torrentid : Int} (har : Builds inet ar)
    (h : peersAsked ar e db = some (ar', torrentid)) (l : Listing) :
    peerLoop inet ar' e.steps 0 l = (listedRows inet ar e db).foldl (fun l r => pushPeer inet ar' r l) l ∧
    ∀ r ∈ listedRows inet ar e db, ∀ l, pushPeer inet ar' r l ≠ l := by
  have hn : 1 ≤ ar'.numwant := by
    rw [(prepareData_fields (peersAsked_some h).1).2.2]
    exact har.built.numwant.1
  rw [listedRows, h]
  exact ⟨peerLoop_filter (by omega) e.steps l, fun r hr l => pushPeer_of_listable (List.mem_filter.1 hr).2 l⟩

/-- For every run of announces and prunes, one at a time and with any of their statements failing: if whenever an announce is
answered no peer of the torrent that has left still has a row that the requester can be given, then no reply lists a peer whose
latest recorded announce carried `event=stopped`. In every state the condition is exact: where such a row is stored, some answer of
SQLite to the peers query makes the reply list it. And the announce that says that a peer leaves is what leaves such a row. -/
theorem stopped_unlisted_iff (inet : Inet) (s₀ : Swarm) (ops : List SwarmOp)
    (hv : Machine.Each (Swarm.step inet) (fun s op => op.Valid inet s) s₀ ops) :
    (Machine.Each (Swarm.step inet)
        (fun s op => ∀ target ar interval e, op = .announce target ar interval e → ¬StoppedStored inet s ar e) s₀ ops →
      Machine.Each (Swarm.step inet)
        (fun s op => ∀ target ar interval e, op = .announce target ar interval e → ¬ListsStopped inet s ar e) s₀ ops) ∧
    ∀ s, Machine.Visits (Swarm.step inet) s₀ ops s → ∀ target ar interval e,
      (BuildsFrom inet target ar →
        ((∀ steps, (SwarmOp.announce target ar interval { e with steps := steps }).Valid inet s →
          ¬ListsStopped inet s ar { e with steps := steps }) ↔ ¬StoppedStored inet s ar e)) ∧
      (∀ k, recordedPeer ar e s.db = some k → lookup (ascii "event") target = some (ascii "stopped") →
        ∃ row ∈ (s.step inet (.announce target ar interval e)).db.torrentPeers k.1, row.key = k ∧
          (s.step inet (.announce target ar interval e)).last row.key = some (ascii "stopped")) := by
  refine ⟨fun hc => (hv.and hc).imp ?_, fun s _ target ar interval e => ⟨fun har => ⟨fun h hs => ?_, fun hs steps hsteps hl => ?_⟩, ?_⟩⟩
  · rintro s op - ⟨hvalid, hcond⟩ target ar interval e rfl hl
    exact hcond target ar interval e rfl (stoppedStored_of_lists hvalid.2 hl)
  · obtain ⟨steps, hsteps, hl⟩ := lists_of_stoppedStored har.builds hs
    exact h steps ⟨har, hsteps⟩ hl
  · exact hs (stoppedStored_of_lists (e := { e with steps := steps }) hsteps.2 hl)
  · intro k hrec hev
    rw [← hev]
    exact recorded_stored hrec target interval

namespace StoppedExample

/-- The stack before a call: nothing but zeros. -/
def stack : Stack := { buf := Vector.replicate 1024 0, hashbuf := Vector.replicate 61 0 }

/-- The target of an announce with this last byte of the peer id and this event. -/
def eventTarget (peer event : String) : Bytes :=
  ascii ("?info_hash=aaaaaaaaaaaaaaaaaaaa&peer_id=-TC0010-00000000000" ++ peer ++ "&port=6881&event=" ++ event)

/-- The request. -/
def request (peer event : String) : Bytes := ascii "GET /announce" ++ (eventTarget peer event ++ 32 :: ascii "HTTP/1.1")

/-- The announce request it makes when it comes from this address. -/
def announce (peer ip : String) (event : BtEvent) : AnnounceRequest :=
  { infoHash := copyParam (ascii "aaaaaaaaaaaaaaaaaaaa"), peerId := copyParam (ascii ("-TC0010-00000000000" ++ peer)),
    ip := ascii ip, port := 6881, protover := 4, event := event, left := 0, compact := false, noPeerId := false, numwant := 50 }

theorem builds_started : BuildsFrom PlainInet.inet (eventTarget "1" "started") (announce "1" "10.0.0.1" .started) :=
  ⟨stack, some (request "1" "started"), some (.in4 #v[10, 0, 0, 1]), ascii "HTTP/1.1", by decide +kernel, by decide +kernel,
    by decide +kernel⟩

theorem builds_stopped : BuildsFrom PlainInet.inet (eventTarget "1" "stopped") (announce "1" "10.0.0.1" .stopped) :=
  ⟨stack, some (request "1" "stopped"), some (.in4 #v[10, 0, 0, 1]), ascii "HTTP/1.1", by decide +kernel, by decide +kernel,
    by decide +kernel⟩

theorem builds_other : BuildsFrom PlainInet.inet (eventTarget "2" "started") (announce "2" "10.0.0.2" .started) :=
  ⟨stack, some (request "2" "started"), some (.in4 #v[10, 0, 0, 2]), ascii "HTTP/1.1", by decide +kernel, by decide +kernel,
    by decide +kernel⟩

/-- Everything succeeds, and the peers query gives these rows. -/
def env (steps : List PeerStep) : TrackEnv :=
  { torrent := .ok 0, prepare := sqliteOk, bind := sqliteOk, steps := steps, first := .ok 100, again := .ok 100 }

/-- One torrent with that hash, and no peers. -/
def start : Swarm :=
  { db := Db.ofTorrent ⟨1, hexEncode (ascii "aaaaaaaaaaaaaaaaaaaa"), 0⟩, last := fun _ => none }

/-- The row of the first peer. -/
def row : PeerRow := { peerId := ascii "-TC0010-000000000001", ip := ascii "10.0.0.1", port := 6881, protover := 4 }

/-- The first peer announces that it leaves. -/
def leaves : SwarmOp := .announce (eventTarget "1" "stopped") (announce "1" "10.0.0.1" .stopped) 300 (env [])

/-- It comes back, and is given its own row, which `track` leaves out. -/
def returns : SwarmOp := .announce (eventTarget "1" "started") (announce "1" "10.0.0.1" .started) 300 (env [.row row])

/-- Another peer announces itself, and is given the row of the first. -/
def joins : SwarmOp := .announce (eventTarget "2" "started") (announce "2" "10.0.0.2" .started) 300 (env [.row row])

/-- The first peer has left. -/
def left : Swarm := start.step PlainInet.inet leaves

/-- It is back. -/
def back : Swarm := left.step PlainInet.inet returns

/-- In a state with that row alone SQLite answers with it. -/
theorem answers {s : Swarm} (hrows : (s.db.torrentPeers 1).map Peer.listed = [row]) {ar : AnnounceRequest}
    (hask : (peersAsked ar (env [.row row]) s.db).map (·.2) = some 1) :
    ∀ ar' torrentid, peersAsked ar (env [.row row]) s.db = some (ar', torrentid) → PeerAnswers s.db torrentid (env [.row row]).steps := by
  intro ar' torrentid h
  rw [h] at hask
  obtain rfl : torrentid = 1 := Option.some.inj hask
  exact ⟨[row], by rw [hrows], Or.inl rfl⟩

theorem not_stored {s : Swarm} {ar : AnnounceRequest} {e : TrackEnv} (h : ∀ x ∈ peersAsked ar e s.db, ∀ row ∈ s.db.torrentPeers x.2,
    listable PlainInet.inet x.1 row.listed = true → s.last row.key ≠ some (ascii "stopped")) : ¬StoppedStored PlainInet.inet s ar e := by
  rintro ⟨ar', torrentid, hask, row, hrow, hlist, hlast⟩
  exact h _ hask row hrow hlist hlast

theorem valid_leaves : leaves.Valid PlainInet.inet start := ⟨builds_stopped, fun _ _ _ => ⟨[], List.Perm.refl _, Or.inl rfl⟩⟩

theorem valid_returns : returns.Valid PlainInet.inet left := ⟨builds_started, answers (by decide) (by decide)⟩

end StoppedExample

open StoppedExample

/-- A peer leaves and comes back; the next one's reply lists it. -/
theorem stopped_unlisted_iff_returned :
    listedRows PlainInet.inet (announce "2" "10.0.0.2" .started) (env [.row row]) back.db = [row] ∧
    ¬ListsStopped PlainInet.inet back (announce "2" "10.0.0.2" .started) (env [.row row]) := by
  refine ⟨by decide, ?_⟩
  have hv : Machine.Each (Swarm.step PlainInet.inet) (fun s op => op.Valid PlainInet.inet s) start [leaves, returns, joins] :=
    ⟨valid_leaves, valid_returns, ⟨builds_other, answers (s := back) (by decide) (by decide)⟩, trivial⟩
  refine ((stopped_unlisted_iff PlainInet.inet start _ hv).1 ⟨?_, ?_, ?_, trivial⟩).2.2.1 (eventTarget "2" "started") _ 300 _ rfl
  · rintro target ar interval e hop
    cases hop
    exact not_stored (by decide)
  · rintro target ar interval e hop
    cases hop
    exact not_stored (by decide)
  · rintro target ar interval e hop
    cases hop
    exact not_stored (by decide)

/-- A peer announces that it leaves, which is recorded; the reply to the next peer's announce lists it. -/
theorem stopped_listed :
    Machine.Each (Swarm.step PlainInet.inet) (fun s op => op.Valid PlainInet.inet s) start [leaves, joins] ∧
    ListsStopped PlainInet.inet left (announce "2" "10.0.0.2" .started) (env [.row row]) := by
  have hask : (peersAsked (announce "2" "10.0.0.2" .started) (env [.row row]) left.db).map (·.2) = some 1 := by decide
  refine ⟨⟨valid_leaves, ⟨builds_other, answers (s := left) (by decide) hask⟩, trivial⟩, ?_⟩
  obtain ⟨⟨ar', torrentid⟩, hask', ht⟩ := Option.map_eq_some_iff.1 hask
  obtain rfl : torrentid = 1 := ht
  have hlisted : listedRows PlainInet.inet (announce "2" "10.0.0.2" .started) (env [.row row]) left.db = [row] := by decide
  refine ⟨ar', 1, hask', row, ?_, by decide⟩
  rw [hlisted]
  exact List.mem_singleton.2 rfl

end Traccoon
