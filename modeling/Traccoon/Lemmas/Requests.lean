import Traccoon.Comm

/-!
# What an accepted request guarantees

The announce requests that `parseSocket` builds, whatever was received: their buffers are strings, their numbers fit, and their
address text comes from `inet_ntop`. `prepareData` reads no byte outside them.
-/

namespace Traccoon

open CString

/-- An announce request that `parseSocket` can build. -/
def Builds (inet : Inet) (ar : AnnounceRequest) : Prop :=
  ∃ stack peeked conn, peekRequest inet stack peeked conn = some (.announce ar)

/-- The address text and version of a request or a row come from a socket address. -/
def FromSockAddr (inet : Inet) (ip : Bytes) (protover : Int) : Prop :=
  (∃ a, ip = inet.ntop4 a ∧ protover = 4) ∨ (∃ a, ip = inet.ntop6 a ∧ protover = 6)

/-- What the fields of a built request are known to hold. -/
structure BuiltRequest (inet : Inet) (ar : AnnounceRequest) : Prop where
  infoHash : ∃ u post, NoNul u ∧ ar.infoHash = u ++ 0 :: post
  peerId : ar.peerIdText.length ≤ maxUrlencHashLen
  address : FromSockAddr inet ar.ip ar.protover
  port : IsInt32 ar.port
  numwant : 1 ≤ ar.numwant ∧ ar.numwant ≤ maxpeersSent

theorem noNul_bufText {stack : Stack} {peeked : Option Bytes} {text : Bytes} (h : bufText stack peeked = some text) :
    NoNul text := by
  unfold bufText at h
  split at h
  · obtain rfl := Option.some.inj h
    exact noNul_cstr _
  · split at h
    · obtain rfl := Option.some.inj h
      exact noNul_cstr _
    · cases h

theorem textAfter_suffix {buf param t : Bytes} (h : textAfter buf param = some t) : t <:+ buf := by
  obtain ⟨s, hs, rfl⟩ := Option.map_eq_some_iff.1 h
  exact (List.drop_suffix _ _).trans (strstr_some hs).2

/-- A value that decodes to a hash or peer id is copied whole, and stays a string. -/
theorem copyParam_eq {value : Bytes} (h : hasHashLength value = true) :
    ∃ post, copyParam value = value.take (httpParamLength value) ++ 0 :: post ∧
      (value.take (httpParamLength value)).length ≤ maxUrlencHashLen := by
  have hle : httpParamLength value ≤ maxUrlencHashLen := httpParamLength_le (by simpa [hasHashLength] using h)
  have hlen : httpParamLength value ≤ value.length := (List.takeWhile_prefix _).length_le
  refine ⟨List.replicate (maxUrlencHashLen - httpParamLength value) 0, ?_, ?_⟩
  · rw [copyParam, strncpy, Nat.sub_eq_zero_of_le hlen, List.drop_replicate, List.replicate_zero, List.append_nil,
      show maxUrlencHashLen + 1 - httpParamLength value = (maxUrlencHashLen - httpParamLength value) + 1 by omega,
      List.replicate_succ]
  · rw [List.length_take]
    omega

theorem parseNumwant_range (numwant : Option Bytes) : 1 ≤ parseNumwant numwant ∧ parseNumwant numwant ≤ maxpeersSent := by
  unfold parseNumwant
  extract_lets n
  have hmax : (maxpeersSent : Int) = 50 := rfl
  split
  · omega
  · omega

/-- The fields of a request that the announce branch builds. -/
theorem parseAnnounce_built {inet : Inet} {buffer : Bytes} {conn : SockAddr} {ar : AnnounceRequest} (hb : NoNul buffer)
    (h : parseAnnounce inet buffer conn = .announce ar) : BuiltRequest inet ar := by
  unfold parseAnnounce at h
  split at h
  · rename_i hash peerid port hhash hpeerid _
    split at h
    · rename_i hlen
      simp only [Bool.and_eq_true] at hlen
      obtain rfl := Request.announce.inj h
      obtain ⟨post, hcopy, -⟩ := copyParam_eq hlen.1
      obtain ⟨post', hcopy', hle⟩ := copyParam_eq hlen.2
      have hn : NoNul (hash.take (httpParamLength hash)) :=
        (hb.of_suffix (textAfter_suffix hhash)).of_sublist (List.take_sublist _ _)
      have hn' : NoNul (peerid.take (httpParamLength peerid)) :=
        (hb.of_suffix (textAfter_suffix hpeerid)).of_sublist (List.take_sublist _ _)
      exact
        { infoHash := ⟨_, post, hn, hcopy⟩
          peerId := by
            rw [AnnounceRequest.peerIdText, hcopy', cstr_append_nul hn']
            exact hle
          address := by
            cases conn with
            | in4 a => exact Or.inl ⟨a, rfl, rfl⟩
            | in6 a => exact Or.inr ⟨a, rfl, rfl⟩
          port := isInt32_int32 _
          numwant := parseNumwant_range _ }
    · cases h
  · cases h

/-- The hash and the peer id of a request that the announce branch builds are copies of values that pass the length check. -/
theorem parseAnnounce_values {inet : Inet} {buffer : Bytes} {conn : SockAddr} {ar : AnnounceRequest}
    (h : parseAnnounce inet buffer conn = .announce ar) :
    (∃ s, textAfter buffer (ascii "info_hash=") = some s ∧ hasHashLength s = true ∧ ar.infoHash = copyParam s) ∧
    ∃ s, textAfter buffer (ascii "peer_id=") = some s ∧ hasHashLength s = true ∧ ar.peerId = copyParam s := by
  unfold parseAnnounce at h
  split at h
  · rename_i hash peerid port hhash hpeerid _
    split at h
    · rename_i hlen
      rw [Bool.and_eq_true] at hlen
      obtain rfl := Request.announce.inj h
      exact ⟨⟨hash, hhash, hlen.1, rfl⟩, peerid, hpeerid, hlen.2, rfl⟩
    · cases h
  · cases h

theorem parseAnnounce_buffer {inet : Inet} {buffer : Bytes} {conn : Option SockAddr} {ar : AnnounceRequest} (hb : NoNul buffer)
    (h : announceRequest inet buffer conn = .announce ar) : BuiltRequest inet ar := by
  unfold announceRequest at h
  split at h
  · cases h
  · split at h
    · exact parseAnnounce_built (hb.of_sublist (List.take_sublist _ _)) h
    · cases h

/-- What a `GET /announce` can come to. -/
theorem announceRequest_cases (inet : Inet) (buffer : Bytes) (conn : Option SockAddr) :
    announceRequest inet buffer conn = .dropped ∨ (∃ late, announceRequest inet buffer conn = .pending late) ∨
    ∃ ar, announceRequest inet buffer conn = .announce ar := by
  unfold announceRequest
  split
  · exact Or.inl rfl
  · split
    · unfold parseAnnounce
      split
      · split
        · exact Or.inr (Or.inr ⟨_, rfl⟩)
        · exact Or.inr (Or.inl ⟨_, rfl⟩)
      · exact Or.inr (Or.inl ⟨_, rfl⟩)
    · exact Or.inr (Or.inl ⟨_, rfl⟩)

/-- What a `GET /scrape` can come to. -/
theorem scrapeRequest_cases (hashbuf : Vector UInt8 61) (buffer : Bytes) :
    (∃ late, scrapeRequest hashbuf buffer = some (.pending late)) ∨ scrapeRequest hashbuf buffer = some (.scrape none) ∨
    ∃ value, scrapeRequest hashbuf buffer = (scrapeHash hashbuf value).map (fun hash => .scrape (some hash)) := by
  unfold scrapeRequest
  split
  · unfold parseScrape
    split
    · exact Or.inr (Or.inl rfl)
    · split
      · exact Or.inr (Or.inr ⟨_, rfl⟩)
      · exact Or.inl ⟨_, rfl⟩
  · exact Or.inl ⟨_, rfl⟩

/-- The scrape branch gives scrapes, and requests that wait. -/
theorem scrapeRequest_some {hashbuf : Vector UInt8 61} {buffer : Bytes} {request : Request}
    (h : scrapeRequest hashbuf buffer = some request) : (∃ late, request = .pending late) ∨ ∃ hash, request = .scrape hash := by
  rcases scrapeRequest_cases hashbuf buffer with ⟨late, hr⟩ | hr | ⟨value, hr⟩
  · exact Or.inl ⟨late, Option.some.inj (h.symm.trans hr)⟩
  · exact Or.inr ⟨none, Option.some.inj (h.symm.trans hr)⟩
  · obtain ⟨hash, -, hh⟩ := Option.map_eq_some_iff.1 (hr.symm.trans h)
    exact Or.inr ⟨some hash, hh.symm⟩

theorem parseRequest_announce (inet : Inet) (hashbuf : Vector UInt8 61) (t : Bytes) (conn : Option SockAddr) :
    parseRequest inet hashbuf (ascii "GET /announce" ++ t) conn = some (announceRequest inet t conn) := by
  rfl

theorem parseRequest_scrape (inet : Inet) (hashbuf : Vector UInt8 61) (t : Bytes) (conn : Option SockAddr) :
    parseRequest inet hashbuf (ascii "GET /scrape" ++ t) conn = scrapeRequest hashbuf t := by
  rfl

/-- The four ways the dispatch can go. -/
theorem parseRequest_cases (inet : Inet) (hashbuf : Vector UInt8 61) (text : Bytes) (conn : Option SockAddr) :
    (∃ t, text = ascii "GET /announce" ++ t) ∨ (∃ t, text = ascii "GET /scrape" ++ t) ∨
    parseRequest inet hashbuf text conn = some (.reply milhouse) ∨
    parseRequest inet hashbuf text conn = some (.reply notSupported) := by
  unfold parseRequest
  split
  · rename_i h
    obtain ⟨s, rfl⟩ := isPrefixOf_iff.1 h
    have hd : (ascii "GET /" ++ s).drop 5 = s := rfl
    rw [hd]
    split
    · rename_i h
      obtain ⟨t, rfl⟩ := isPrefixOf_iff.1 h
      exact Or.inl ⟨t, rfl⟩
    · split
      · rename_i h
        obtain ⟨t, rfl⟩ := isPrefixOf_iff.1 h
        exact Or.inr (Or.inl ⟨t, rfl⟩)
      · exact Or.inr (Or.inr (Or.inl rfl))
  · exact Or.inr (Or.inr (Or.inr rfl))

/-- Every announce request that `parseSocket` builds. -/
theorem Builds.built {inet : Inet} {ar : AnnounceRequest} (h : Builds inet ar) : BuiltRequest inet ar := by
  obtain ⟨stack, peeked, conn, h⟩ := h
  obtain ⟨text, ht, h⟩ := Option.bind_eq_some_iff.1 h
  have hn := noNul_bufText ht
  rcases parseRequest_cases inet stack.hashbuf text conn with ⟨t, rfl⟩ | ⟨t, rfl⟩ | hr | hr
  · rw [parseRequest_announce] at h
    exact parseAnnounce_buffer (hn.of_suffix (List.suffix_append _ _)) (Option.some.inj h)
  · rw [parseRequest_scrape] at h
    rcases scrapeRequest_some h with ⟨late, hr⟩ | ⟨hash, hr⟩
    · cases hr
    · cases hr
  · rw [hr] at h
    cases h
  · rw [hr] at h
    cases h

/-! ## Prepared requests and stored rows -/

/-- The columns that `addPeer` writes for a request once `track` has prepared it, as a reply reads them. -/
def AnnounceRequest.stored (ar : AnnounceRequest) : PeerRow :=
  { peerId := ar.peerIdText, ip := strtolower ar.ip, port := ar.port, protover := ar.protover }

/-- A row as `addPeer` stores it for some announce that `parseSocket` accepted. -/
def StoredRow (inet : Inet) (r : PeerRow) : Prop := ∃ ar, Builds inet ar ∧ r = ar.stored

/-- The columns of a row that a reply reads. -/
def Peer.listed (r : Peer) : PeerRow := { peerId := r.peerId, ip := r.ip, port := r.port, protover := r.protover }

/-- Preparing a built request reads within its buffers; it changes the case of the address and the hash. -/
theorem prepareData_built {inet : Inet} {ar : AnnounceRequest} (h : BuiltRequest inet ar) :
    ∃ infoHash, prepareData ar = some { ar with ip := strtolower ar.ip, infoHash := infoHash } := by
  obtain ⟨u, post, hu, hi⟩ := h.infoHash
  obtain ⟨d, hd⟩ : ∃ d, destructiveURLDecode ar.infoHash = some d := by
    rw [hi]
    exact ⟨_, destructiveURLDecode_eq hu post⟩
  refine ⟨(hashEncodeHex d.1 maxUrlencHashLen).1, ?_⟩
  rw [prepareData, hd]
  rfl

/-- The address of a built request is in lower case as it stands, short, and without NULs. -/
theorem FromSockAddr.text {inet : Inet} (hi : inet.Lawful) {ip : Bytes} {protover : Int} (h : FromSockAddr inet ip protover) :
    strtolower ip = ip ∧ NoNul ip ∧ ip.length < inet6Addrstrlen := by
  rcases h with ⟨a, rfl, -⟩ | ⟨a, rfl, -⟩
  · obtain ⟨h0, hl⟩ := addressChars_text (hi.chars4 a)
    exact ⟨hl, h0, hi.length4 a⟩
  · obtain ⟨h0, hl⟩ := addressChars_text (hi.chars6 a)
    exact ⟨hl, h0, hi.length6 a⟩

/-- What the columns of a stored row are known to hold. -/
structure StoredColumns (inet : Inet) (r : PeerRow) : Prop where
  peerId : NoNul r.peerId ∧ r.peerId.length ≤ maxUrlencHashLen
  ip : NoNul r.ip ∧ r.ip.length < inet6Addrstrlen
  address : FromSockAddr inet r.ip r.protover
  port : IsInt32 r.port

theorem StoredRow.columns {inet : Inet} (hi : inet.Lawful) {r : PeerRow} (h : StoredRow inet r) : StoredColumns inet r := by
  obtain ⟨ar, har, rfl⟩ := h
  have hb := har.built
  obtain ⟨hl, h0, hlen⟩ := hb.address.text hi
  exact
    { peerId := ⟨noNul_cstr _, hb.peerId⟩
      ip := by
        rw [AnnounceRequest.stored, hl]
        exact ⟨h0, hlen⟩
      address := by
        rw [AnnounceRequest.stored, hl]
        exact hb.address
      port := hb.port }

end Traccoon
