import Traccoon.Lemmas.Listing

/-!
# The reply to an announce

Whatever rows the peer query gives, and wherever it stops, the body that `track` sends is one complete dictionary with the rows
delivered (`track_sends_dictionary`).
-/

namespace Traccoon

open CString Bencode

/-- The announce is for a known torrent, and its peer query gets under way. -/
def QueryRuns (ar : AnnounceRequest) (e : TrackEnv) (db : Db) : Prop :=
  ∃ ar', prepareData ar = some ar' ∧ getTorrentId db (cstr ar'.infoHash) e.torrent ≠ dbNosuchhash ∧
    getTorrentId db (cstr ar'.infoHash) e.torrent ≠ dbFailed ∧ e.prepare = sqliteOk ∧ e.bind = sqliteOk

/-- The body that `track` sends behind its headers. -/
def SendsBody (inet : Inet) (ar : AnnounceRequest) (interval : Int) (e : TrackEnv) (db : Db) (body : Bytes) : Prop :=
  ∃ effects pieces, track inet ar interval e db = some effects ∧
    effects.sent = sendHttpHeaders (ascii "200 OK") standardHeader ++ pieces ∧ pieces.flatten = body

/-- A body that lists these rows: one complete dictionary, with the interval, and with the rows in order under `peers`; in the
compact form the six-byte records of the IPv4 rows stand there, and the eighteen-byte records of the others, if there are any,
under `peers_ipv6`. -/
structure ListsPeers (inet : Inet) (interval : Int) (ar : AnnounceRequest) (rows : List PeerRow) (body : Bytes) : Prop where
  measured : ∀ (post : Bytes) (initialOffset : Int), BencReturns (body ++ post) initialOffset body.length
  dictionary : ∃ es, body = (Value.dict es).encode ∧
    (Value.dict es).get? (ascii "interval") = some (.int (Numeral.ofInt interval)) ∧
    (Value.dict es).get? (ascii "peers") = some
      (if ar.compact then .str ((rows4 rows).flatMap (record4 inet)) else .list (rows.map (entryValue ar.noPeerId))) ∧
    (Value.dict es).get? (ascii "peers_ipv6") =
      if ar.compact ∧ rows6 rows ≠ [] then some (.str ((rows6 rows).flatMap (record6 inet))) else none
  records4 : ∀ r ∈ rows4 rows, ∃ a, r.ip = inet.ntop4 a ∧ record4 inet r = a.toList ++ htons r.port
  records6 : ∀ r ∈ rows6 rows, ∃ a, r.ip = inet.ntop6 a ∧ record6 inet r = a.toList ++ htons r.port

namespace PeerReplyAux

variable {inet : Inet} {ar : AnnounceRequest}

theorem built_setCompact (h : BuiltRequest inet ar) (compact : Bool) : BuiltRequest inet { ar with compact := compact } :=
  { infoHash := h.infoHash, peerId := h.peerId, address := h.address, port := h.port, numwant := h.numwant }

theorem queryRuns_setCompact {e : TrackEnv} {db : Db} (h : QueryRuns ar e db) (compact : Bool) :
    QueryRuns { ar with compact := compact } e db := by
  obtain ⟨ar', hp, h1, h2, h3⟩ := h
  obtain ⟨d, hd, hx⟩ := Option.bind_eq_some_iff.1 hp
  obtain rfl := Option.some.inj hx
  refine ⟨{ ar with
    compact := compact, ip := strtolower ar.ip, infoHash := (hashEncodeHex d.1 maxUrlencHashLen).1 }, ?_, h1, h2, h3⟩
  simp only [prepareData, hd]
  rfl

/-- For a known torrent `track` sends the headers and the pieces of the reply. -/
theorem track_pieces (hi : inet.Lawful) (hb : BuiltRequest inet ar) {e : TrackEnv} {db : Db} (hq : QueryRuns ar e db)
    (interval : Int) :
    ∃ effects, track inet ar interval e db = some effects ∧
      effects.sent = sendHttpHeaders (ascii "200 OK") standardHeader ++ peerReply inet ar interval e.steps := by
  obtain ⟨ar', hp, h1, h2, h3, h4⟩ := hq
  obtain ⟨infoHash, hp'⟩ := prepareData_built hb
  obtain ⟨hl, -, -⟩ := hb.address.text hi
  rw [hl] at hp'
  obtain rfl := Option.some.inj (hp'.symm.trans hp)
  obtain ⟨error, db', hu⟩ := updatePeer_isSome (getTorrentId db (cstr infoHash) e.torrent) { ar with infoHash := infoHash }
    e.first e.again db
  refine ⟨{ sent := sendHttpHeaders (ascii "200 OK") standardHeader ++ peerReply inet ar interval e.steps,
            lookups := [cstr infoHash], db := db' }, ?_, rfl⟩
  simp only [track, hp', Option.bind_eq_bind, Option.bind_some, h1, h2, h3, h4, if_false, ne_eq, not_true_eq_false, hu,
    peerReply, peerLoop_infoHash]
  rfl

/-- The body is the encoding of the reply value. -/
theorem sendsBody_iff (hi : inet.Lawful) (hb : BuiltRequest inet ar) {interval : Int} (h32 : IsInt32 interval) {e : TrackEnv}
    {db : Db} (hq : QueryRuns ar e db) (hrows : ∀ r ∈ delivered ar e.steps, StoredColumns inet r) (body : Bytes) :
    SendsBody inet ar interval e db body ↔ body = (replyValue inet interval ar (delivered ar e.steps)).encode := by
  obtain ⟨hn1, hn2⟩ := hb.numwant
  have hpieces : (peerReply inet ar interval e.steps).flatten = (replyValue inet interval ar (delivered ar e.steps)).encode := by
    cases hc : ar.compact with
    | true => exact peerReply_compact hi hc h32 e.steps (by omega) hn2 fun r hr => (hrows r hr).address
    | false => exact peerReply_plain hc h32 e.steps (by omega) hrows
  obtain ⟨effects, ht, hs⟩ := track_pieces hi hb hq interval
  constructor
  · intro h
    obtain ⟨effects', pieces, ht', hs', rfl⟩ := h
    obtain rfl := Option.some.inj (ht'.symm.trans ht)
    rw [← hpieces, List.append_cancel_left (hs'.symm.trans hs)]
  · intro h
    exact ⟨effects, _, ht, hs, by rw [hpieces, h]⟩

theorem delivered_columns (ar : AnnounceRequest) (hi : inet.Lawful) {steps : List PeerStep}
    (h : ∀ r, PeerStep.row r ∈ steps → StoredRow inet r) : ∀ r ∈ delivered ar steps, StoredColumns inet r := by
  intro r hr
  exact (h r (mem_delivered hr)).columns hi

end PeerReplyAux

open PeerReplyAux

/-- For every announce that `parseSocket` can build, for a known torrent, and every sequence of answers to the peer query made of
stored rows, the body sent is one complete dictionary that lists the rows delivered. -/
theorem track_sends_dictionary (inet : Inet) (hi : inet.Lawful) (interval : Int) (h32 : IsInt32 interval) (ar : AnnounceRequest)
    (har : Builds inet ar) (e : TrackEnv) (hrows : ∀ r, PeerStep.row r ∈ e.steps → StoredRow inet r) (db : Db)
    (hq : QueryRuns ar e db) :
    ∃ body, SendsBody inet ar interval e db body ∧ ListsPeers inet interval ar (delivered ar e.steps) body := by
  have hcols := delivered_columns ar hi hrows
  have hb := har.built
  have hlen := length_delivered_le ar e.steps
  have hn := hb.numwant.2
  simp only [maxpeersSent] at hn
  refine ⟨_, (sendsBody_iff hi hb h32 hq hcols _).2 rfl, ?_⟩
  have hsize : (replyValue inet interval ar (delivered ar e.steps)).encode.length < 2147483648 := by
    cases hc : ar.compact with
    | true => exact length_replyValue_compact hi hc h32 (by omega) fun r hr => (hcols r hr).address
    | false => exact length_replyValue_plain hc h32 (by omega) hcols
  generalize delivered ar e.steps = rows at hcols hsize
  have hkeys : (ascii "interval" == ascii "peers") = false ∧ (ascii "interval" == ascii "peers_ipv6") = false ∧
      (ascii "peers" == ascii "peers_ipv6") = false := by decide
  obtain ⟨hk1, hk2, hk3⟩ := hkeys
  exact
    { measured := fun post io => bencReturns_entity (complete_encode _) io hsize
      dictionary := by
        refine ⟨_, rfl, ?_, ?_, ?_⟩
        · simp [Value.get?]
        · simp [Value.get?, hk1, peersValue]
        · by_cases hc : ar.compact = true ∧ rows6 rows ≠ []
          · simp [Value.get?, hk2, hk3, hc]
          · rw [if_neg hc]
            have hc' : (ar.compact && rows6 rows != []) = false := by
              simpa using hc
            simp [Value.get?, hk2, hk3, hc']
      records4 := fun r hr => by
        obtain ⟨hm, h4⟩ := List.mem_filter.1 hr
        exact record4_stored hi (hcols r hm).address (by simpa using h4)
      records6 := fun r hr => by
        obtain ⟨hm, h4⟩ := List.mem_filter.1 hr
        exact record6_stored hi (hcols r hm).address (by simpa using h4) }

namespace PeerReplyExample

/-- The stack before a call: nothing but zeros. -/
def stack : Stack := { buf := Vector.replicate 1024 0, hashbuf := Vector.replicate 61 0 }

/-- An announce from a client that listens on the given port. -/
def request (port : String) : Bytes :=
  ascii ("GET /announce?info_hash=aaaaaaaaaaaaaaaaaaaa&peer_id=-TC0010-000000000001&port=" ++ port ++ " HTTP/1.1")

/-- The announce request it makes when it comes from this address. -/
def announce (ip : String) (port : Int) : AnnounceRequest :=
  { infoHash := copyParam (ascii "aaaaaaaaaaaaaaaaaaaa"), peerId := copyParam (ascii "-TC0010-000000000001"), ip := ascii ip,
    port := port, protover := 4, event := .none, left := 0, compact := false, noPeerId := false, numwant := 50 }

/-- A torrent with that hash. -/
def db : Db := Db.ofTorrent ⟨1, hexEncode (ascii "aaaaaaaaaaaaaaaaaaaa"), 0⟩

/-- The peer query gives the row of the client at 10.0.0.2, and everything succeeds. -/
def env (port : Int) : TrackEnv :=
  { torrent := .ok 0, prepare := sqliteOk, bind := sqliteOk, steps := [.row (announce "10.0.0.2" port).stored, .done],
    first := .ok 0, again := .ok 0 }

theorem builds_first : Builds PlainInet.inet (announce "10.0.0.1" 6881) :=
  ⟨stack, some (request "6881"), some (.in4 #v[10, 0, 0, 1]), by decide +kernel⟩

theorem builds_second : Builds PlainInet.inet (announce "10.0.0.2" 6882) :=
  ⟨stack, some (request "6882"), some (.in4 #v[10, 0, 0, 2]), by decide⟩

theorem builds_overlong_port : Builds PlainInet.inet (announce "10.0.0.2" 70000) :=
  ⟨stack, some (request "70000"), some (.in4 #v[10, 0, 0, 2]), by decide⟩

theorem queryRuns (port : Int) : QueryRuns (announce "10.0.0.1" 6881) (env port) db := by
  refine ⟨{ announce "10.0.0.1" 6881 with
    infoHash := (hashEncodeHex (announce "10.0.0.1" 6881).infoHash maxUrlencHashLen).1 }, ?_, ?_, ?_, rfl, rfl⟩
  · decide
  · show getTorrentId db _ (.ok 0) ≠ _
    decide
  · show getTorrentId db _ (.ok 0) ≠ _
    decide

theorem rows_stored {port : Int} (h : Builds PlainInet.inet (announce "10.0.0.2" port)) :
    ∀ r, PeerStep.row r ∈ (env port).steps → StoredRow PlainInet.inet r := by
  intro r hr
  simp only [env, List.mem_cons, PeerStep.row.injEq, reduceCtorEq, List.not_mem_nil, or_false] at hr
  exact ⟨_, h, hr⟩

end PeerReplyExample

open PeerReplyExample

/-- The reply to the client at 10.0.0.1 lists the one at 10.0.0.2. -/
theorem track_sends_dictionary_one :
    ∃ body, SendsBody PlainInet.inet (announce "10.0.0.1" 6881) 300 (env 6882) db body ∧
      ListsPeers PlainInet.inet 300 (announce "10.0.0.1" 6881) (delivered (announce "10.0.0.1" 6881) (env 6882).steps) body :=
  track_sends_dictionary PlainInet.inet PlainInet.lawful 300 ⟨by decide, by decide⟩ _ builds_first (env 6882)
    (rows_stored builds_second) db (queryRuns 6882)

end Traccoon
