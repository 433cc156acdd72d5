import Mathlib.Algebra.BigOperators.Group.List.Basic
import Traccoon.Session
import Traccoon.Theorems.CompactPeers
import Traccoon.Theorems.GetpeersHash
import Traccoon.Theorems.HttpGet
import Traccoon.Theorems.Parameters
import Traccoon.Theorems.ReadReplies
import Traccoon.Theorems.ShortWrites

/-!
# From the settings of `getpeers` to what it prints

Both programs at once: the request of `getpeers` reaches `parseSocket` of the tracker, and the answer of `track` reaches what `getpeers`
prints. Whatever the settings and whatever SQLite answers, what is printed is the interval and the peers delivered, or why the torrent is
refused (`session_prints`); there is no request, encoding or buffer left in it.
-/

namespace Traccoon

open CString Bencode Getpeers

/-- The network carries a request and the pieces of a reply: there is a connection, five calls of `send` are enough for the request, the
calls of the tracker take all they are offered, and `recv` delivers what has been sent in full chunks but for the last. -/
structure Carried (net : Net.NetEnv) (send : SendAnswers) (request : Bytes) (sent : List Bytes) : Prop where
  connected : ∃ addresses, net.addresses = some addresses ∧ .connected ∈ addresses
  taken : ∃ n ≤ Net.maxSendRetryCount, handed net.sends n = request.length
  offered : ∀ (k : Nat) piece, sent[k]? = some piece → send k = piece.length
  stream : ∃ pieces, Segmented net request pieces ∧ pieces.flatten = (sendPieces send sent Connection.start).received ∧
    ∀ p ∈ pieces.dropLast, p.length = Net.responseBufferChunk

namespace SessionAux

variable {inet : Inet} {conn : SockAddr} {o : Settings} {bs : Bytes}

/-! ## The request -/

/-- The parameter of an event. -/
def eventParam (s : Bytes) (h : ∀ b ∈ s, b ∉ Query.separators) : Query.Param :=
  { name := ascii "event", value := s, name_text := by decide +kernel, value_text := h }

theorem compact_text : ∀ b ∈ ascii "compact", b ∉ Query.separators := by decide +kernel

theorem flag_text (c : Bool) : ∀ b ∈ (if c then ascii "1" else ascii "0"), b ∉ Query.separators := by
  cases c with
  | false => decide +kernel
  | true => decide +kernel

/-- The last parameter. -/
def compactParam (c : Bool) : Query.Param :=
  { name := ascii "compact", value := if c then ascii "1" else ascii "0", name_text := compact_text, value_text := flag_text c }

/-- The parameters of the request, in their order. -/
def queryParams (o : Settings) (bs : Bytes) (hevent : ∀ s ∈ o.btEvent, ∀ b ∈ s, b ∉ Query.separators) : List Query.Param :=
  GetpeersHashAux.sentParams bs (o.peerid.toList.take maxHashLen) o.port o.peers ++
    (Option.pmap eventParam o.btEvent hevent).toList ++ [compactParam o.requestCompact]

/-- What is sent behind the peer id is the other two parameters. -/
theorem endText_eq (o : Settings) (hevent : ∀ s ∈ o.btEvent, ∀ b ∈ s, b ∉ Query.separators) : GetpeersHashAux.endText o =
    Query.renderTail ((Option.pmap eventParam o.btEvent hevent).toList ++ [compactParam o.requestCompact]) := by
  have e1 : ascii "&compact=" = 38 :: (ascii "compact" ++ [61]) := by decide
  have e2 : cstr (ascii "&event=") = 38 :: (ascii "event" ++ [61]) := by decide
  rw [GetpeersHashAux.endText, e1]
  revert hevent
  cases o.btEvent with
  | none =>
    intro hevent
    simp [cstr, Query.renderTail, compactParam]
  | some s =>
    intro hevent
    have hs : cstr s = s := cstr_of_noNul fun h0 => hevent s rfl 0 h0 (by decide)
    simp only [Option.isSome_some, if_true, e2, Option.getD_some, hs, Option.pmap_some, Option.toList_some, List.cons_append,
      List.nil_append, List.append_assoc, Query.renderTail, eventParam, compactParam, List.append_nil]

/-- The request is an announce with these parameters. -/
theorem request_eq {url : UrlComponents} (hpath : url.path = ascii "announce") {hash : Bytes}
    (he : encodeHash o.hash.toList = some hash) (hh : cstr hash = urlEncode bs)
    (hevent : ∀ s ∈ o.btEvent, ∀ b ∈ s, b ∉ Query.separators) :
    ∃ rest, request o url = some (announceText (target (queryParams o bs hevent)) rest) := by
  obtain ⟨rest, hrest⟩ := GetpeersHashAux.request_path hpath he
  refine ⟨rest, ?_⟩
  rw [hrest, GetpeersHashAux.path_eq hh, endText_eq o hevent, announceText, GetpeersHashAux.announce_slash]
  simp only [target, queryParams, GetpeersHashAux.sentParams, Query.render, Query.renderTail, List.cons_append, List.nil_append,
    List.append_assoc]

/-! ## What the tracker takes it for -/

section

variable (hevent : ∀ s ∈ o.btEvent, ∀ b ∈ s, b ∉ Query.separators)

/-- The names of the parameters, with an event or without. -/
def queryNames (event : Bool) : List Bytes :=
  [ascii "info_hash", ascii "port", ascii "numwant", ascii "peer_id"] ++ (if event then [ascii "event"] else []) ++ [ascii "compact"]

theorem queryParams_names : (queryParams o bs hevent).map Query.Param.name = queryNames o.btEvent.isSome := by
  obtain ⟨hash, peerid, numwant, localPort, btEvent, c⟩ := o
  cases btEvent with
  | none => rfl
  | some s => rfl

theorem queryParams_nodup : ((queryParams o bs hevent).map Query.Param.name).Nodup := by
  have hall : ∀ event, (queryNames event).Nodup := by decide
  rw [queryParams_names]
  exact hall _

/-- The values of the parameters. -/
theorem queryParams_values :
    Query.valueOf (ascii "info_hash") (queryParams o bs hevent) = some (urlEncode bs) ∧
    Query.valueOf (ascii "peer_id") (queryParams o bs hevent) = some (urlEncode (o.peerid.toList.take maxHashLen)) ∧
    Query.valueOf (ascii "port") (queryParams o bs hevent) = some o.port.val ∧
    Query.valueOf (ascii "numwant") (queryParams o bs hevent) = some o.peers.val ∧
    Query.valueOf (ascii "event") (queryParams o bs hevent) = o.btEvent ∧
    Query.valueOf (ascii "left") (queryParams o bs hevent) = none ∧
    Query.valueOf (ascii "no_peer_id") (queryParams o bs hevent) = none ∧
    Query.valueOf (ascii "compact") (queryParams o bs hevent) = some (compactParam o.requestCompact).value := by
  obtain ⟨hash, peerid, numwant, localPort, btEvent, c⟩ := o
  cases btEvent with
  | none => exact ⟨rfl, rfl, rfl, rfl, rfl, rfl, rfl, rfl⟩
  | some s => exact ⟨rfl, rfl, rfl, rfl, rfl, rfl, rfl, rfl⟩

/-- No name in front of a field's key ends in it, and the compact flag is set by its own parameter. -/
theorem keysLead_queryParams : KeysLead (queryParams o bs hevent) := by
  have hnames := @queryParams_names o bs hevent
  obtain ⟨-, -, -, -, -, -, -, hcompact⟩ := @queryParams_values o bs hevent
  constructor
  · have hall : ∀ event, ∀ key ∈ fieldKeys, ∀ n ∈ (queryNames event).find? (fun n => key.isSuffixOf n), n = key := by decide
    intro key hkey p hp
    refine hall o.btEvent.isSome key hkey p.name ?_
    rw [← hnames, List.find?_map]
    exact Option.mem_map_of_mem Query.Param.name hp
  · have hall : ∀ event, ∀ n ∈ queryNames event, ¬ascii "no_peer_id" <:+ n ∧ (ascii "compact" <:+ n → n = ascii "compact") := by decide
    rintro - key hkey ⟨p, hp, hsuffix, hvalue⟩
    obtain ⟨hno, hyes⟩ := hall o.btEvent.isSome p.name (hnames ▸ List.mem_map_of_mem hp)
    simp only [flagKeys, List.mem_cons, List.not_mem_nil, or_false] at hkey
    rcases hkey with rfl | rfl
    · have hv := (Query.valueOf_eq_some_iff (queryParams_nodup hevent)).2 ⟨p, hp, hyes hsuffix, rfl⟩
      rw [hcompact, Option.some.injEq] at hv
      rw [← hv] at hvalue
      rw [hcompact]
      cases hc : o.requestCompact with
      | true => rfl
      | false =>
        rw [hc] at hvalue
        exact absurd hvalue (by decide)
    · exact absurd hsuffix hno

/-- The encoding of twenty bytes passes the length check, wherever it stands. -/
theorem lengthCheck_urlEncode (last : Bool) {bs : Bytes} (hbs : bs.length = maxHashLen) : lengthCheck last (urlEncode bs) = true := by
  have hlen : (bs.map urlPart).length = maxHashLen := by rw [List.length_map, hbs]
  have hshort := (value_text hlen (Or.inl rfl)).1
  have hlong := (value_text hlen (Or.inr ⟨[61], rfl⟩)).1
  rw [lengthCheck, urlEncode_eq]
  cases last with
  | true => simpa using hshort
  | false => exact hlong

/-- The request that is built. -/
theorem builtFrom_queryParams (hbs : bs.length = maxHashLen) :
    builtFrom inet conn (queryParams o bs hevent) = some (o.announce inet conn bs) := by
  have hnd := @queryParams_nodup o bs hevent
  obtain ⟨h1, h2, h3, h4, h5, h6, h7, h8⟩ := @queryParams_values o bs hevent
  have hpeer : (o.peerid.toList.take maxHashLen).length = maxHashLen := by
    rw [List.length_take, Vector.length_toList]
    rfl
  have hflag : decide (some (compactParam o.requestCompact).value = some (ascii "1")) = o.requestCompact := by
    cases o.requestCompact
    · decide
    · decide
  rw [ParametersAux.builtFrom_eq hnd ((ParametersAux.readsByName_iff hnd).2 (keysLead_queryParams hevent))]
  simp only [askedFor, h1, h2, h3, h4, h5, h6, h7, h8, lengthCheck_urlEncode _ hbs, lengthCheck_urlEncode _ hpeer, Bool.and_self,
    if_true, hflag, Settings.announce]
  rfl

end

/-! ## What the tracker answers -/

variable {ar : AnnounceRequest} {hash : Bytes} {e : TrackEnv} {db : Db}

theorem announce_of_built {r : Request} (h : r.built = some ar) : r = .announce ar := by
  cases r with
  | announce ar' => rw [Option.some.inj h]
  | scrape hash => cases h
  | reply sent => cases h
  | dropped => cases h
  | pending late => cases h

/-- Some call of `parseSocket` builds what a target parses to. -/
theorem builds_target {buffer rest : Bytes} (hb : NoNul buffer) (h32 : 32 ∉ buffer)
    (h : parseAnnounce inet buffer conn = .announce ar) : Builds inet ar := by
  refine ⟨{ buf := Vector.replicate 1024 0, hashbuf := Vector.replicate 61 0 }, some (announceText buffer rest), some conn, ?_⟩
  simp only [peekRequest, bufText, cstr_append_nul_any, Option.bind_eq_bind, Option.bind_some]
  rw [announceText, cstr_request (by decide) hb, parseRequest_announce, announceRequest_target h32, h]

/-- The hash that the announce of the settings looks up. -/
theorem prepareData_announce (inet : Inet) (conn : SockAddr) (o : Settings) (hbs : bs.length = maxHashLen) :
    ∃ ar', prepareData (o.announce inet conn bs) = some ar' ∧ cstr ar'.infoHash = hexEncode bs := by
  obtain ⟨hl, hv⟩ := value_text (show (bs.map urlPart).length = maxHashLen by rw [List.length_map, hbs]) (Or.inl rfl)
  rw [List.append_nil, ← urlEncode_eq] at hl hv
  obtain ⟨ar', hprep, hhash⟩ := prepareData_hash (noNul_urlEncode bs) hl (show (o.announce inet conn bs).infoHash = _ from rfl)
  refine ⟨ar', hprep, ?_⟩
  rw [hhash, hv, urlEncode_eq, valueHash_urlEncode hbs]

/-- The headers in front of every answer of `track`. -/
def trackHeaders : Bytes := (sendHttpHeaders (ascii "200 OK") standardHeader).flatten

/-- The texts of the failure replies are dictionaries. -/
theorem encode_failureValue : (failureValue "Hash not recognized").encode = hashNotRecognized ∧
    (failureValue "Database error (TID)").encode = databaseErrorTid ∧ (failureValue "Server error").encode = serverError := by
  simp only [failureValue, encode_dict, encodeEntries, encode_str]
  decide

theorem length_failureValue {reason : String} (h : refusal hash e db = some reason) : (failureValue reason).encode.length ≤ 100 := by
  obtain ⟨h1, h2, h3⟩ := encode_failureValue
  simp only [refusal] at h
  split at h
  · obtain rfl := Option.some.inj h
    rw [h1]
    decide
  · split at h
    · obtain rfl := Option.some.inj h
      rw [h2]
      decide
    · split at h
      · obtain rfl := Option.some.inj h
        rw [h3]
        decide
      · cases h

/-- Whatever SQLite answers, the reply is the headers and one dictionary. -/
theorem track_reply (hi : inet.Lawful) (hb : BuiltRequest inet ar) {ar' : AnnounceRequest} (hp : prepareData ar = some ar')
    (hhash : cstr ar'.infoHash = hash) {interval : Int} (h32 : IsInt32 interval)
    (hrows : ∀ r ∈ delivered ar e.steps, StoredColumns inet r) :
    ∃ effects, track inet ar interval e db = some effects ∧
      effects.sent.flatten = trackHeaders ++ (trackerReply inet interval ar hash e db).encode := by
  obtain ⟨h1, h2, h3⟩ := encode_failureValue
  subst hhash
  have hrefused : ∀ text : Bytes, NoNul text → (trackerReply inet interval ar (cstr ar'.infoHash) e db).encode = text →
      track inet ar interval e db = some { sent := sendHttpHeaders (ascii "200 OK") standardHeader ++ sendString text,
                                           lookups := [cstr ar'.infoHash], db := db } →
      ∃ effects, track inet ar interval e db = some effects ∧
        effects.sent.flatten = trackHeaders ++ (trackerReply inet interval ar (cstr ar'.infoHash) e db).encode := by
    intro text htext hreply ht
    refine ⟨_, ht, ?_⟩
    rw [List.flatten_append, sendString, cstr_of_noNul htext, List.flatten_singleton, hreply]
    rfl
  -- the failures, in the order in which the source looks for them
  by_cases n1 : getTorrentId db (cstr ar'.infoHash) e.torrent = dbNosuchhash
  · refine hrefused hashNotRecognized (by decide) ?_ ?_
    · simp only [trackerReply, refusal, n1, if_true, h1]
    · simp only [track, hp, Option.bind_eq_bind, Option.bind_some, n1, if_true]
      rfl
  by_cases n2 : getTorrentId db (cstr ar'.infoHash) e.torrent = dbFailed
  · refine hrefused databaseErrorTid (by decide) ?_ ?_
    · rw [trackerReply, refusal, if_neg n1, if_pos n2]
      exact h2
    · have hne : dbFailed ≠ dbNosuchhash := by decide
      simp only [track, hp, Option.bind_eq_bind, Option.bind_some, n2, hne, if_true, if_false]
      rfl
  by_cases n3 : e.prepare = sqliteOk
  · by_cases n4 : e.bind = sqliteOk
    · have hq : QueryRuns ar e db := ⟨ar', hp, n1, n2, n3, n4⟩
      obtain ⟨hn1, hn2⟩ := hb.numwant
      obtain ⟨effects, ht, hs⟩ := PeerReplyAux.track_pieces hi hb hq interval
      refine ⟨effects, ht, ?_⟩
      simp only [trackerReply, refusal, n1, n2, n3, n4, if_false, ne_eq, not_true_eq_false, or_self]
      rw [hs, List.flatten_append]
      cases hc : ar.compact with
      | true =>
        rw [peerReply_compact hi hc h32 e.steps (by omega) hn2 fun r hr => (hrows r hr).address]
        rfl
      | false =>
        rw [peerReply_plain hc h32 e.steps (by omega) hrows]
        rfl
    · refine hrefused serverError (by decide) ?_ ?_
      · simp only [trackerReply, refusal, n1, n2, n3, n4, ne_eq, not_true_eq_false, not_false_eq_true, false_or, if_true, if_false, h3]
      · simp only [track, hp, Option.bind_eq_bind, Option.bind_some, n1, n2, n3, n4, ne_eq, not_true_eq_false, not_false_eq_true,
          if_true, if_false]
        rfl
  · refine hrefused serverError (by decide) ?_ ?_
    · simp only [trackerReply, refusal, n1, n2, n3, ne_eq, not_false_eq_true, true_or, if_true, if_false, h3]
    · simp only [track, hp, Option.bind_eq_bind, Option.bind_some, n1, n2, n3, ne_eq, not_false_eq_true, if_true, if_false]
      rfl

/-! ## What `getpeers` prints about the answer -/

/-- A number of the tracker, as `getpeers` prints it. -/
theorem decimalInt_numberOf {n : Int} (h : IsInt32 n) : decimalInt (numberOf (-1) (.int (Numeral.ofInt n))) = shown n := by
  rw [ReadRepliesAux.numberOf_ofInt h, shown]

/-- A peer of a list. -/
theorem describePeer_entry {r : PeerRow} (h : IsInt32 r.port) :
    describePeer (numberOf (-1)) (entryValue false r) = .ok (peerLine shown r) := by
  have hip : (entryValue false r).get? (ascii "ip") = some (.str r.ip) := rfl
  have hport : (entryValue false r).get? (ascii "port") = some (.int (Numeral.ofInt r.port)) := rfl
  have hid : (entryValue false r).get? (ascii "peer id") = some (.str r.peerId) := rfl
  have hkind : (entryValue false r).kind = .dict := rfl
  simp only [describePeer, hkind, hip, hport, hid, describePeerId, bytesOf, walk_ok_bind, decimalInt_numberOf h]
  rfl

/-- The peers of a reply that lists rows. -/
theorem describePeers_peersValue (hi : inet.Lawful) (hplain : ar.noPeerId = false) {rows : List PeerRow}
    (hrows : ∀ r ∈ rows, StoredColumns inet r) :
    describePeers (numberOf (-1)) inet (some (peersValue inet ar rows)) = .ok (peerLines shown ar.compact rows) := by
  rw [peersValue, peerLines]
  cases ar.compact with
  | true =>
    have hrows4 : ∀ r ∈ rows4 rows, FromSockAddr inet r.ip r.protover ∧ r.protover = 4 := by
      intro r hr
      obtain ⟨hm, h4⟩ := List.mem_filter.1 hr
      exact ⟨(hrows r hm).address, by simpa using h4⟩
    have hlen := length_records4 hi fun r hr => (hrows r hr).address
    simp only [if_true, describePeers, CompactPeersAux.describeRecords_records hi _ hrows4, hlen]
    rw [if_neg (by omega)]
    rfl
  | false =>
    have hmap : (rows.map (entryValue false)).mapM (describePeer (numberOf (-1))) =
        (.ok (rows.map (peerLine shown)) : Walk (List (List Line))) := by
      induction rows with
      | nil => rfl
      | cons r rows ih =>
        rw [List.map_cons, List.mapM_cons, describePeer_entry (hrows r (by simp)).port, ih fun x hx => hrows x (by simp [hx])]
        rfl
    simp only [Bool.false_eq_true, if_false, describePeers, hplain, hmap, walk_ok_bind, List.flatMap_def]
    rfl

/-- What `getpeers` prints about the dictionary that `track` sends. -/
theorem describe_trackerReply (hi : inet.Lawful) {interval : Int} (h32 : IsInt32 interval) (hplain : ar.noPeerId = false)
    (hrows : ∀ r ∈ delivered ar e.steps, StoredColumns inet r) :
    describe (numberOf (-1)) inet (trackerReply inet interval ar hash e db) = .ok (replyLines shown interval ar hash e db) := by
  rw [trackerReply, replyLines]
  cases refusal hash e db with
  | some reason => rfl
  | none =>
    obtain ⟨h1, h2, h3, h4, h5⟩ := @CompactPeersAux.replyValue_get inet interval ar (delivered ar e.steps)
    simp only [describe, h1, h2, h3, h4, h5, describePeers_peersValue hi hplain hrows, walk_ok_bind, describeNumber,
      decimalInt_numberOf h32]
    rfl

/-- Other numbers than those of one digit are printed as they are. -/
theorem replyLines_decimalInt {interval : Int} (h : NoSingleDigits interval ar (delivered ar e.steps)) :
    replyLines shown interval ar hash e db = replyLines decimalInt interval ar hash e db := by
  have hshown : ∀ n : Int, n < 0 ∨ 9 < n → shown n = decimalInt n := fun n hn => by rw [shown, if_pos hn]
  obtain ⟨hinterval, hports⟩ := h
  rw [replyLines, replyLines]
  split
  · rfl
  · rw [hshown interval hinterval]
    congr 1
    cases hc : ar.compact with
    | true => rfl
    | false =>
      simp only [peerLines, Bool.false_eq_true, if_false, List.flatMap_def]
      rw [List.map_congr_left fun r hr => show peerLine shown r = peerLine decimalInt r by
        rw [peerLine, peerLine, hshown r.port (hports hc r hr)]]

/-! ## The exchange -/

/-- The chunks for a short stream are allocated. -/
theorem recvLoop_isSome {fresh : Nat → Vector UInt8 512} : ∀ (pieces : List Bytes) (i : Nat) (response : Bytes) (bytes : Nat),
    (∀ p ∈ pieces, p.length ≤ Net.responseBufferChunk) → response.length + 512 * (pieces.length + 1) < 2147483648 →
    ∃ r, Net.recvLoop fresh (pieces.map some) i response bytes = some r := by
  intro pieces
  induction pieces with
  | nil =>
    intro i response bytes _ hlen
    simp only [List.length_nil] at hlen
    have hgrow : Net.grow response (fresh i) = some (response ++ (fresh i).toList) := by
      rw [Net.grow, Net.responseBufferChunk, if_neg (by omega)]
    simp only [List.map_nil, Net.recvLoop, hgrow, Option.bind_eq_bind, Option.bind_some]
    exact ⟨_, rfl⟩
  | cons p pieces ih =>
    intro i response bytes hsizes hlen
    simp only [List.length_cons] at hlen
    have hgrow : Net.grow response (fresh i) = some (response ++ (fresh i).toList) := by
      rw [Net.grow, Net.responseBufferChunk, if_neg (by omega)]
    simp only [List.map_cons, Net.recvLoop, hgrow, Option.bind_eq_bind, Option.bind_some]
    split
    · rename_i hpiece
      have hnext : response.length + 512 + 512 * (pieces.length + 1) = response.length + 512 * (pieces.length + 1 + 1) := by omega
      refine ih _ _ _ (fun q hq => hsizes q (by simp [hq])) ?_
      unfold Net.responseBufferChunk at hpiece
      simp only [List.length_append, List.length_drop, Vector.length_toList, hpiece, Nat.sub_self, Nat.add_zero]
      rwa [hnext]
    · exact ⟨_, rfl⟩

/-- A request that five calls take, and a stream of full pieces but the last that is a reply: `http_get` sends all of the one and returns
all of the other. -/
theorem httpGet_delivers {host port path : Bytes} {e : Net.NetEnv} {pieces : List Bytes}
    (hs : Segmented e (requestText host port path) pieces) {addresses : List Net.Attempt} (haddr : e.addresses = some addresses)
    (hconn : .connected ∈ addresses) (hrequest : (requestText host port path).length + 1 < 2147483648)
    (hsend : ∃ n ≤ Net.maxSendRetryCount, handed e.sends n = (requestText host port path).length)
    (hfull : ∀ p ∈ pieces.dropLast, p.length = Net.responseBufferChunk) (hshort : pieces.flatten.length < 1000000)
    (hhttp : ascii "HTTP/" <+: pieces.flatten) :
    ∃ outcome tail, Net.httpGet (some host) (some port) (some path) e = some outcome ∧ 0 ≤ outcome.value ∧
      outcome.sent = requestText host port path ∧ outcome.response = some (pieces.flatten ++ 0 :: tail) := by
  obtain ⟨k, it, hloop, hit, hk, -, hend⟩ :=
    HttpGetAux.sendLoop_stops hs.sends Net.maxSendRetryCount 0 (Nat.zero_le _) (Int.le_refl 0)
  have hall : handed e.sends k = (requestText host port path).length := by
    rcases hend with hend | rfl
    · exact hend
    · obtain ⟨n, hn, hlen⟩ := hsend
      have := HttpGetAux.handed_mono e.sends (show n ≤ 0 + Net.maxSendRetryCount by omega)
      omega
  have hsizes : ∀ p ∈ pieces, p.length ≤ Net.responseBufferChunk := fun p hp => (hs.sizes p hp).2
  have hcount : pieces.length ≤ pieces.flatten.length := by
    rw [List.length_flatten]
    refine (List.length_map List.length).symm.trans_le (List.length_le_sum_of_one_le _ ?_)
    intro n hn
    obtain ⟨p, hp, rfl⟩ := List.mem_map.1 hn
    exact (hs.sizes p hp).1
  obtain ⟨⟨response, bytes⟩, hrecv⟩ := @recvLoop_isSome e.fresh pieces 0 [] 0 hsizes (by simp only [List.length_nil]; omega)
  obtain ⟨x, tail, hresponse, hbytes⟩ := HttpGetAux.recvLoop_received hsizes (by rfl) hrecv
  have hwhole : HttpGetAux.received pieces = pieces.flatten := by
    have hlen := (HttpGetAux.length_received_iff fun p hp => (hs.sizes p hp).1).2 hfull
    exact (HttpGetAux.received_beginning pieces).eq_of_length hlen
  rw [hwhole, List.nil_append] at hresponse hbytes
  simp only at hresponse hbytes
  subst hresponse hbytes
  have hset : (pieces.flatten ++ x :: tail).set pieces.flatten.length 0 = pieces.flatten ++ 0 :: tail := by
    rw [List.set_append_right _ _ (Nat.le_refl _), Nat.sub_self, List.set_cons_zero]
  have hprefix : (ascii "HTTP/").isPrefixOf (pieces.flatten ++ 0 :: tail) = true :=
    List.isPrefixOf_iff_prefix.2 (hhttp.trans (List.prefix_append _ _))
  refine ⟨{ value := pieces.flatten.length, response := some (pieces.flatten ++ 0 :: tail), sent := requestText host port path }, tail, ?_,
    Int.natCast_nonneg _, rfl, rfl⟩
  simp only [Net.httpGet, haddr, hconn, if_true, Net.exchange]
  rw [← requestText, if_neg (by omega)]
  have hloop' : Net.sendLoop e.sends (requestText host port path) Net.maxSendRetryCount 0 0 0 =
      ((requestText host port path).length, it) := by
    rw [← hall]
    exact hloop
  simp only [hloop', List.take_length]
  rw [if_neg (by omega)]
  simp only [Net.readResponse, hs.recvs, hrecv, Option.bind_eq_bind, Option.bind_some, hset, hprefix, if_true]
  rw [if_pos (by simp)]
  rfl

theorem requestText_of_request {url : UrlComponents} {text hash : Bytes} (h : request o url = some text)
    (he : encodeHash o.hash.toList = some hash) :
    text = requestText url.host url.port (stringMerge (pathParts o hash url.path)) := by
  rw [request, he, Option.bind_eq_bind, Option.bind_some] at h
  exact (Option.some.inj h).symm

/-- What is sent behind the headers of `track` comes back whole. -/
theorem httpGet_carried {net : Net.NetEnv} {send : SendAnswers} {text host port path body : Bytes} {sent : List Bytes}
    (h : Carried net send text sent) (htext : text = requestText host port path) (hsize : text.length < recvSize)
    (hsent : sent.flatten = trackHeaders ++ body) (hbody : body.length ≤ 20000) :
    ∃ outcome tail, Net.httpGet (some host) (some port) (some path) net = some outcome ∧ 0 ≤ outcome.value ∧
      outcome.response = some (sent.flatten ++ 0 :: tail) := by
  obtain ⟨addresses, haddr, hconn⟩ := h.connected
  obtain ⟨pieces, hseg, hstream, hfull⟩ := h.stream
  have hwhole : (sendPieces send sent Connection.start).received = sent.flatten := by
    refine (@ShortWritesAux.received_eq_iff send sent Connection.start ?_).2 ?_
    · intro k piece hk
      rw [Connection.start, Nat.zero_add, h.offered k piece hk]
    · intro k piece hk
      rw [Connection.start, Nat.zero_add, h.offered k piece hk]
  rw [hwhole] at hstream
  subst htext
  have hheaders : trackHeaders.length ≤ 1000 := by decide
  have hhttp : ascii "HTTP/" <+: trackHeaders := by decide
  rw [recvSize] at hsize
  obtain ⟨outcome, tail, hget, hvalue, -, hresponse⟩ := httpGet_delivers hseg haddr hconn (by omega) h.taken hfull
    (by rw [hstream, hsent, List.length_append]; omega) (by rw [hstream, hsent]; exact hhttp.trans (List.prefix_append _ _))
  exact ⟨outcome, tail, hget, hvalue, by rw [hresponse, hstream]⟩

/-- The answers of `track` are short. -/
theorem length_trackerReply_le (hi : inet.Lawful) (hb : BuiltRequest inet ar) {interval : Int} (h32 : IsInt32 interval)
    (hrows : ∀ r ∈ delivered ar e.steps, StoredColumns inet r) :
    (trackerReply inet interval ar hash e db).encode.length ≤ 20000 := by
  rw [trackerReply]
  cases hr : refusal hash e db with
  | some reason =>
    have := length_failureValue hr
    simp only
    omega
  | none =>
    have hn := hb.numwant
    have hcount := length_delivered_le ar e.steps
    have hmax : maxpeersSent = 50 := rfl
    cases hc : ar.compact with
    | true => exact length_replyValue_compact_le hi hc h32 (by omega) fun r hr => (hrows r hr).address
    | false => exact length_replyValue_plain_le hc h32 (by omega) hrows

/-- They are dictionaries. -/
theorem trackerReply_dict (inet : Inet) (interval : Int) (ar : AnnounceRequest) (hash : Bytes) (e : TrackEnv) (db : Db) :
    ∃ es, trackerReply inet interval ar hash e db = .dict es := by
  rw [trackerReply]
  cases refusal hash e db with
  | some reason => exact ⟨_, rfl⟩
  | none => exact ⟨_, rfl⟩

theorem trackHeaders_headers : Headers trackHeaders := CompactPeersAux.headers_ok

/-- What `getpeers` makes of an answer of `track` that it has received whole. -/
theorem parseResponse_trackerReply (hi : inet.Lawful) (hb : BuiltRequest inet ar) {interval : Int} (h32 : IsInt32 interval)
    (hplain : ar.noPeerId = false) (hrows : ∀ r ∈ delivered ar e.steps, StoredColumns inet r) (s : Bytes) {fuel : Nat}
    (hf : 2 * (trackerReply inet interval ar hash e db).encode.length ≤ fuel) :
    parseResponse inet (trackHeaders ++ ((trackerReply inet interval ar hash e db).encode ++ s)) fuel =
      .ok (.text (ascii "\nTracker response:\n") :: replyLines shown interval ar hash e db, 0) := by
  have hlen := @length_trackerReply_le inet ar hash e db hi hb interval h32 hrows
  have hdescribe := @describe_trackerReply inet ar hash e db hi interval h32 hplain hrows
  obtain ⟨es, hes⟩ := trackerReply_dict inet interval ar hash e db
  rw [hes] at hlen hf hdescribe ⊢
  rw [ReadRepliesAux.parseResponse_encode inet trackHeaders_headers es (by omega) s (by omega) fun _ _ => hf, hdescribe]
  rfl

end SessionAux

open SessionAux

/-- For forty hexadecimal digits and any other settings of `getpeers`, where an event has no separator of the query in it, for any tracker
whose path is `announce`, and whatever SQLite answers with rows that were stored: a request that fits what the tracker peeks at is taken
for the announce of the settings, the hash looked up is the one sent, and when the network carries request and reply, `getpeers` prints
the interval and the peers delivered, in the compact form those with an IPv4 address, and their ports modulo 65536; or the reason for a
refusal. It prints the numbers from 0 to 9 of the interval and of listed ports as -1, and all others as they are. -/
theorem session_prints (inet : Inet) (hi : inet.Lawful) (x : Bytes) (hlen : x.length = maxHexencHashLen)
    (hx : ∀ b ∈ x, isXDigit b = true) (o : Settings) (ho : hashArgument (List.replicate 61 0) x = .ok o.hash.toList)
    (hevent : ∀ s ∈ o.btEvent, ∀ b ∈ s, b ∉ Query.separators) (tracker : Bytes) (url : UrlComponents)
    (hurl : Net.trackerUrl tracker = some (.ok url)) (hpath : url.path = ascii "announce") (interval : Int) (h32 : IsInt32 interval)
    (conn : SockAddr) (e : ClientEnv) (hconn : e.conn = some conn) (hrows : ∀ r, PeerStep.row r ∈ e.track.steps → StoredRow inet r)
    (db : Db) :
    ∃ text, request o url = some text ∧ (text.length < recvSize →
      Builds inet (o.announce inet conn (sentHash x)) ∧
      (NoSingleDigits interval (o.announce inet conn (sentHash x)) (delivered (o.announce inet conn (sentHash x)) e.track.steps) →
        replyLines shown interval (o.announce inet conn (sentHash x)) (hexEncode (sentHash x)) e.track db =
          replyLines decimalInt interval (o.announce inet conn (sentHash x)) (hexEncode (sentHash x)) e.track db) ∧
      ∀ stack recvIter, ∃ effects, parseSocket inet stack recvIter (some text) interval e db = some (effects, true) ∧
        effects.lookups = [hexEncode (sentHash x)] ∧
        ∀ net send fuel, Carried net send text effects.sent → 2 * effects.sent.flatten.length ≤ fuel →
          run inet o tracker net fuel = some (.ok (.text (ascii "\nTracker response:\n") ::
            replyLines shown interval (o.announce inet conn (sentHash x)) (hexEncode (sentHash x)) e.track db, 0))) := by
  obtain ⟨hash, he, hh⟩ := encodeHash_digits hlen fun b hb => mem_hexDigits (hx b hb)
  rw [hashArgument_digits hlen hx, Except.ok.injEq] at ho
  rw [ho] at he
  obtain ⟨rest, hreq⟩ := request_eq hpath he hh hevent
  refine ⟨_, hreq, ?_⟩
  intro hsize
  have hsent := length_sentHash hlen
  obtain ⟨h0, hblank⟩ := ParametersAux.noNul_target (queryParams o (sentHash x) hevent)
  -- what the tracker builds from the request
  have hparse : parseAnnounce inet (target (queryParams o (sentHash x) hevent)) conn = .announce (o.announce inet conn (sentHash x)) :=
    announce_of_built (@builtFrom_queryParams inet conn o (sentHash x) hevent hsent)
  have hbuilt := parseAnnounce_built h0 hparse
  refine ⟨@builds_target inet conn _ _ rest h0 hblank hparse, replyLines_decimalInt, ?_⟩
  intro stack recvIter
  -- what it looks up and sends
  have hplain : (o.announce inet conn (sentHash x)).noPeerId = false := rfl
  have hcols := PeerReplyAux.delivered_columns (o.announce inet conn (sentHash x)) hi hrows
  obtain ⟨ar', hprep, hhash⟩ := prepareData_announce inet conn o hsent
  obtain ⟨effects, ht, hreply⟩ := @track_reply inet _ _ e.track db hi hbuilt ar' hprep hhash interval h32 hcols
  obtain ⟨effects', ht', hlookups⟩ := track_lookups inet hprep interval e.track db
  obtain rfl := Option.some.inj (ht.symm.trans ht')
  refine ⟨effects, ?_, by rw [hlookups, hhash], ?_⟩
  · rw [parseSocket_announce h0 hblank hsize stack recvIter interval hconn, hparse]
    simp only [serve, ht]
    rfl
  · -- what comes back
    intro net send fuel hnet hfuel
    have htext := requestText_of_request hreq he
    obtain ⟨outcome, tail, hget, hvalue, hresponse⟩ := httpGet_carried hnet htext hsize hreply
      (@length_trackerReply_le inet _ _ e.track db hi hbuilt interval h32 hcols)
    rw [hreply, List.length_append] at hfuel
    have hparsed := @parseResponse_trackerReply inet _ (hexEncode (sentHash x)) e.track db hi hbuilt interval h32 hplain hcols (0 :: tail)
      fuel (by omega)
    simp only [run, he, hurl, Option.bind_eq_bind, Option.bind_some, hget, hresponse]
    rw [if_neg (by omega), hreply, List.append_assoc, hparsed]
    rfl

namespace SessionExample

def tracker : Bytes := ascii "http://10.0.0.1:6969/announce"

def conn : SockAddr := .in4 #v[10, 0, 0, 1]

/-- The torrent asked for. -/
def db : Db := Db.ofTorrent ⟨1, GetpeersHashExample.lower, 0⟩

/-- The peer query gives one row. -/
def env : ClientEnv :=
  { conn := some conn
    track := PeerReplyExample.env 6882
    scrape := { torrent := .ok 0, seeds := .ok 0, completed := .ok 0, peers := .ok 0 } }

/-- The second address answers; the request is taken at once and the reply comes in one piece. -/
def net (text reply : Bytes) : Net.NetEnv :=
  { addresses := some [.refused, .connected]
    sends := fun n => if n = 0 then text.length else 0
    recvs := [some reply]
    fresh := fun _ => Vector.replicate 512 0 }

theorem carried_net {text : Bytes} {sent : List Bytes} (hsize : 1 ≤ sent.flatten.length ∧ sent.flatten.length ≤ 512) :
    Carried (net text sent.flatten) (ShortWritesAux.takesAll sent) text sent := by
  have hoffered : ∀ (k : Nat) piece, sent[k]? = some piece → ShortWritesAux.takesAll sent k = piece.length :=
    fun _ _ hk => ShortWritesAux.takesAll_eq hk
  have hone : handed (net text sent.flatten).sends 1 = text.length := by simp [handed, net]
  have hwhole : (sendPieces (ShortWritesAux.takesAll sent) sent Connection.start).received = sent.flatten := by
    have h := @ShortWritesAux.received_eq_iff (ShortWritesAux.takesAll sent) sent Connection.start
    simp only [Connection.start, Nat.zero_add, List.nil_append] at h
    exact (h fun k piece hk => (hoffered k piece hk).le).2 hoffered
  refine ⟨⟨_, rfl, by decide⟩, ⟨1, by decide, hone⟩, hoffered, [sent.flatten], ⟨?_, rfl, ?_⟩, ?_, ?_⟩
  · intro n hn
    cases n with
    | zero => simp only [handed, net, if_true] at hn ⊢; omega
    | succ n =>
      have := HttpGetAux.handed_mono (net text sent.flatten).sends (show 1 ≤ n + 1 by omega)
      omega
  · simpa [Net.responseBufferChunk] using hsize
  · simp [hwhole]
  · simp

end SessionExample

open SessionExample

/-- A tracker that knows another peer tells of it. -/
theorem session_prints_one :
    ∃ net, run PlainInet.inet (GetpeersHashExample.settings GetpeersHashExample.lower (by decide)) tracker net 2000 =
      some (.ok ([.text (ascii "\nTracker response:\n"), .text (ascii "\tAnnounce interval: 1800 seconds\n"),
        .text (ascii "\tPeers (received in non-compact format):\n"), .text (ascii "\t\t"), .text (ascii "10.0.0.2"),
        .text (ascii ":6882"), .text (ascii " "), .text (ascii "-TC0010-000000000001"), .text (ascii "\n")], 0)) := by
  obtain ⟨text, hreq, h⟩ := session_prints PlainInet.inet PlainInet.lawful GetpeersHashExample.lower (by decide) (by decide +kernel)
    (GetpeersHashExample.settings GetpeersHashExample.lower (by decide)) (by decide) (fun s hs => by cases hs) tracker
    GetpeersHashExample.url rfl rfl 1800 ⟨by decide, by decide⟩ conn env rfl
    (PeerReplyExample.rows_stored PeerReplyExample.builds_second) db
  have hsize : (request (GetpeersHashExample.settings GetpeersHashExample.lower (by decide)) GetpeersHashExample.url).map
      (fun t => decide (t.length < recvSize)) = some true := by decide +kernel
  rw [hreq, Option.map_some, Option.some.injEq, decide_eq_true_eq] at hsize
  obtain ⟨effects, hs, -, hrun⟩ := (h hsize).2.2 PeerReplyExample.stack 0
  have hlen : 1 ≤ effects.sent.flatten.length ∧ effects.sent.flatten.length ≤ 512 := by
    have hlengths : (parseSocket PlainInet.inet PeerReplyExample.stack 0 (request (GetpeersHashExample.settings
        GetpeersHashExample.lower (by decide)) GetpeersHashExample.url) 1800 env db).map
          (fun p => decide (1 ≤ p.1.sent.flatten.length ∧ p.1.sent.flatten.length ≤ 512)) = some true := by decide +kernel
    rwa [hreq, hs, Option.map_some, Option.some.injEq, decide_eq_true_eq] at hlengths
  refine ⟨_, (hrun _ _ 2000 (carried_net hlen) (by omega)).trans ?_⟩
  decide +kernel

end Traccoon
