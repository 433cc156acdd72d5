import Traccoon.Lemmas.Requests

/-!
# The hash that a value names

A value that passes the length check is long enough for the twenty bytes that are written in hex to come from the value alone, even
where the decoder gave up half way. So the hash looked up is a function of the value (`valueHash`), for an announce and for a scrape,
whatever the buffers held before.
-/

namespace Traccoon

open CString

/-- The twenty bytes in front of a buffer in which this text has been decoded. -/
def valueHash (u : Bytes) : Bytes :=
  ((urlDecode u).1 ++ if (urlDecode u).2 then [] else 37 :: u.drop ((urlDecode u).1.length + 1)).take maxHashLen

/-- A parameter value: the text up to the `&` or the end. -/
def paramValue (s : Bytes) : Bytes := s.take (httpParamLength s)

/-- What is decoded to its end has at least as many bytes as were counted: the count may take more than the value's own bytes for an
escape, and never fewer. -/
theorem decodedStrlenFrom_le_urlDecode (str : Bytes) (mlen i : Nat) (h : (urlDecode (str.take (mlen - i))).2 = true) :
    decodedStrlenFrom mlen str i ≤ (urlDecode (str.take (mlen - i))).1.length := by
  fun_induction decodedStrlenFrom mlen str i with
  | case1 => omega
  | case2 x y str i hw ih =>
    have hi : i < mlen := by simpa [withinMlen] using hw
    obtain ⟨n, hn⟩ := Nat.exists_eq_add_of_lt hi
    rcases n with _ | _ | n
    · have hrest := decodedStrlenFrom_le str mlen (i + 3)
      have hidx : mlen - i = 1 := by omega
      rw [hidx]
      simp only [List.take_succ_cons, List.take_zero, urlDecode, List.length_cons, List.length_nil]
      omega
    · have hrest := decodedStrlenFrom_le str mlen (i + 3)
      have hidx : mlen - i = 2 := by omega
      rw [hidx]
      simp only [List.take_succ_cons, List.take_zero, urlDecode, List.length_cons, List.length_nil]
      omega
    · have hidx : mlen - i = n + 3 := by omega
      rw [hidx, List.take_succ_cons, List.take_succ_cons, List.take_succ_cons, urlDecode] at h ⊢
      have hidx : mlen - (i + 3) = n := by omega
      rw [hidx] at ih
      split at h
      · have := ih h
        simp only [List.length_cons]
        omega
      · cases h
  | case3 x y str i hw => omega
  | case4 b str i hne hw ih =>
    have hi : i < mlen := by simpa [withinMlen] using hw
    have hidx : mlen - i = mlen - (i + 1) + 1 := by omega
    rw [hidx, List.take_succ_cons] at h ⊢
    have hdec : urlDecode (b :: str.take (mlen - (i + 1))) =
        (b :: (urlDecode (str.take (mlen - (i + 1)))).1, (urlDecode (str.take (mlen - (i + 1)))).2) := by
      rw [urlDecode]
      intro x y s hb hs
      rcases str with _ | ⟨c, _ | ⟨d, t⟩⟩
      · simp at hs
      · have := congrArg List.length hs
        simp only [List.length_take, List.length_cons, List.length_nil] at this
        omega
      · exact hne c d t hb rfl
    rw [hdec] at h ⊢
    have := ih h
    simp only [List.length_cons]
    omega
  | case5 b str i hne hw => omega

/-- Decoding never lengthens a text, and where it stops at an escape that escape is still ahead. -/
theorem length_urlDecode_le (u : Bytes) :
    (urlDecode u).1.length ≤ u.length ∧ ((urlDecode u).2 = false → (urlDecode u).1.length + 3 ≤ u.length) := by
  induction u using urlDecode.induct with
  | case1 => simp [urlDecode]
  | case2 x y s first second hx hy ih =>
    simp only [urlDecode, hx, hy, List.length_cons]
    refine ⟨by omega, fun h => ?_⟩
    have := ih.2 h
    omega
  | case3 x y s hn =>
    rw [urlDecode]
    split
    · rename_i hx hy
      exact absurd hy (hn _ _ hx)
    · simp
  | case4 b s hne ih =>
    rw [urlDecode]
    · simp only [List.length_cons]
      refine ⟨by omega, fun h => ?_⟩
      have := ih.2 h
      omega
    · exact hne

/-- What the decoder makes of a copy of a value that passes the length check starts with `valueHash`, whatever lies behind. -/
theorem destructiveURLDecode_value {s : Bytes} (hn : NoNul s) (h : hasHashLength s = true) (post : Bytes) :
    ∃ d, destructiveURLDecode (paramValue s ++ 0 :: post) = some d ∧ d.1.take maxHashLen = valueHash (paramValue s) := by
  have hlen : decodedStrlen s (httpParamLength s) = maxHashLen := by simpa [hasHashLength] using h
  have hle : httpParamLength s ≤ s.length := (List.takeWhile_prefix _).length_le
  have hu : NoNul (paramValue s) := hn.of_sublist (List.take_sublist _ _)
  have hcount := decodedStrlenFrom_le s (httpParamLength s) 0
  have hdec := decodedStrlenFrom_le_urlDecode s (httpParamLength s) 0
  rw [← decodedStrlen, hlen] at hcount hdec
  have hul : (paramValue s).length = httpParamLength s := by
    rw [paramValue, List.length_take]
    omega
  have hval : s.take (httpParamLength s - 0) = paramValue s := rfl
  rw [hval] at hdec
  refine ⟨_, destructiveURLDecode_eq hu post, ?_⟩
  simp only [valueHash]
  generalize paramValue s = u at hu hul hdec
  cases hok : (urlDecode u).2 with
  | true =>
    simp only [if_true, List.append_nil]
    rw [List.take_append_of_le_length (hdec hok)]
  | false =>
    have hshort := (length_urlDecode_le u).2 hok
    simp only [Bool.false_eq_true, if_false]
    rw [List.drop_append_of_le_length (by omega), ← List.cons_append, ← List.append_assoc, List.take_append_of_le_length]
    simp only [List.length_append, List.length_cons, List.length_drop]
    omega

/-- The hash that a scrape looks up is named by the value alone. -/
theorem scrapeHash_eq {s : Bytes} (hn : NoNul s) (h : hasHashLength s = true) (hashbuf : Vector UInt8 61) :
    scrapeHash hashbuf s = some (hexEncode (valueHash (paramValue s))) := by
  obtain ⟨d, hd, ht⟩ := destructiveURLDecode_value hn h (hashbuf.toList.drop (httpParamLength s + 1))
  rw [paramValue] at hd
  simp only [scrapeHash, hd, Option.bind_eq_bind, Option.bind_some, Option.pure_def, Option.some.injEq]
  rw [cstr_hashEncodeHex d.1 (by decide), ht]

/-- So is the hash that an announce looks up. -/
theorem prepareData_hash {s : Bytes} (hn : NoNul s) (h : hasHashLength s = true) {ar : AnnounceRequest}
    (hi : ar.infoHash = copyParam s) :
    ∃ ar', prepareData ar = some ar' ∧ cstr ar'.infoHash = hexEncode (valueHash (paramValue s)) := by
  obtain ⟨post, hcopy, -⟩ := copyParam_eq h
  obtain ⟨d, hd, ht⟩ := destructiveURLDecode_value hn h post
  rw [paramValue, ← hcopy, ← hi] at hd
  refine ⟨{ ar with ip := strtolower ar.ip, infoHash := (hashEncodeHex d.1 maxUrlencHashLen).1 }, ?_, ?_⟩
  · rw [prepareData, hd]
    rfl
  · rw [← ht]
    exact cstr_hashEncodeHex d.1 (by decide)

/-! ## What a request looks up -/

/-- Once its request is prepared, `track` runs to its end and looks up the hash of the prepared request. -/
theorem track_lookups (inet : Inet) {ar ar' : AnnounceRequest} (hp : prepareData ar = some ar') (interval : Int) (e : TrackEnv)
    (db : Db) : ∃ effects, track inet ar interval e db = some effects ∧ effects.lookups = [cstr ar'.infoHash] := by
  obtain ⟨error, db', hu⟩ := updatePeer_isSome (getTorrentId db (cstr ar'.infoHash) e.torrent) ar' e.first e.again db
  simp only [track, hp, Option.bind_eq_bind, Option.bind_some, hu]
  split
  · exact ⟨_, rfl, rfl⟩
  · split
    · exact ⟨_, rfl, rfl⟩
    · split
      · exact ⟨_, rfl, rfl⟩
      · split
        · exact ⟨_, rfl, rfl⟩
        · exact ⟨_, rfl, rfl⟩

theorem scrape_lookups (hash : Bytes) (e : ScrapeEnv) (db : Db) : (scrape (some hash) e db).lookups = [hash] := by
  unfold scrape
  split
  · rename_i x hx
    obtain rfl := Option.some.inj hx
    simp only
    split
    · rfl
    · split
      · rfl
      · rfl
  · rename_i hx
    cases hx

/-- A call that has some bytes to look at, and not too many, parses them. -/
theorem parseSocket_received {received : Bytes} (h0 : received ≠ []) (hlen : received.length < recvSize) (inet : Inet)
    (stack : Stack) (recvIter : Nat) (announceInterval : Int) (e : ClientEnv) (db : Db) :
    parseSocket inet stack recvIter (some received) announceInterval e db =
      (parseRequest inet stack.hashbuf (cstr received) e.conn).bind (serve inet recvIter announceInterval e db) := by
  have htake : received.take recvSize = received := List.take_of_length_le (by omega)
  have hpos : received.length ≠ 0 := by simpa using h0
  have hne : received.length ≠ recvSize := by omega
  simp only [parseSocket, Option.map_some, htake, Option.some.injEq, hpos, hne, or_self, if_false, peekRequest, bufText,
    cstr_append_nul_any, Option.bind_eq_bind, Option.bind_some]

/-- An announce with this text between the path and the blank behind the request target. -/
def announceText (buffer rest : Bytes) : Bytes := ascii "GET /announce" ++ (buffer ++ 32 :: rest)

/-- A scrape with this text between the path and the blank behind the request target. -/
def scrapeText (buffer rest : Bytes) : Bytes := ascii "GET /scrape" ++ (buffer ++ 32 :: rest)

/-- An announce whose target is followed by a blank. -/
theorem announceRequest_target {inet : Inet} {buffer : Bytes} (h : 32 ∉ buffer) (rest : Bytes) (conn : SockAddr) :
    announceRequest inet (buffer ++ 32 :: rest) (some conn) = parseAnnounce inet buffer conn := by
  simp only [announceRequest, charIndex_append h, List.take_left]

theorem scrapeRequest_target {hashbuf : Vector UInt8 61} {buffer : Bytes} (h : 32 ∉ buffer) (rest : Bytes) :
    scrapeRequest hashbuf (buffer ++ 32 :: rest) = parseScrape hashbuf buffer := by
  simp only [scrapeRequest, charIndex_append h, List.take_left]

/-- The text of a request whose target `buffer` has no NUL. -/
theorem cstr_request {command buffer : Bytes} (hc : NoNul command) (hb : NoNul buffer) (rest : Bytes) :
    cstr (command ++ (buffer ++ 32 :: rest)) = command ++ (buffer ++ 32 :: cstr rest) := by
  rw [cstr_append hc, cstr_append hb]
  rfl

/-- A call that finds a whole announce serves what its target asks for. -/
theorem parseSocket_announce {inet : Inet} {buffer rest : Bytes} (hb : NoNul buffer) (h32 : 32 ∉ buffer)
    (hsize : (announceText buffer rest).length < recvSize) (stack : Stack) (recvIter : Nat) (announceInterval : Int)
    {e : ClientEnv} {conn : SockAddr} (hconn : e.conn = some conn) (db : Db) :
    parseSocket inet stack recvIter (some (announceText buffer rest)) announceInterval e db =
      serve inet recvIter announceInterval e db (parseAnnounce inet buffer conn) := by
  rw [parseSocket_received (by simp [announceText, ascii]) hsize, announceText, cstr_request (by decide) hb,
    parseRequest_announce, hconn, announceRequest_target h32, Option.bind_some]

/-- So does one that finds a whole scrape. -/
theorem parseSocket_scrape {inet : Inet} {buffer rest : Bytes} (hb : NoNul buffer) (h32 : 32 ∉ buffer)
    (hsize : (scrapeText buffer rest).length < recvSize) (stack : Stack) (recvIter : Nat) (announceInterval : Int)
    (e : ClientEnv) (db : Db) :
    parseSocket inet stack recvIter (some (scrapeText buffer rest)) announceInterval e db =
      (parseScrape stack.hashbuf buffer).bind (serve inet recvIter announceInterval e db) := by
  rw [parseSocket_received (by simp [scrapeText, ascii]) hsize, scrapeText, cstr_request (by decide) hb,
    parseRequest_scrape, scrapeRequest_target h32]

end Traccoon
