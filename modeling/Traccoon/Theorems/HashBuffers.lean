import Traccoon.Lemmas.FirstParts

/-!
# The arrays of sixty-one bytes

A value that passes the length check takes three bytes at most for each of the twenty counted, so `info_hash`, `peer_id` and `hashbuf`
have room for its copy and a terminator, and what is then decoded and written in hex stays inside (`hash_buffers`). In the model a write
past the end of an array shows as an array that has grown, and a read outside as `none`.
-/

namespace Traccoon

open CString

/-- The array holds this value as a string; it can be decoded in place and the hash be written over it in hex, as `track` and the scrape
branch do. -/
structure HoldsValue (value array : Bytes) : Prop where
  length : array.length = maxUrlencHashLen + 1
  string : ∃ post, array = value ++ 0 :: post
  decoded : ∃ left k, destructiveURLDecode array = some (left, k) ∧ left.length = maxUrlencHashLen + 1 ∧
    (hashEncodeHex left maxUrlencHashLen).2 = 0 ∧ (hashEncodeHex left maxUrlencHashLen).1.length = maxUrlencHashLen + 1

namespace HashBuffersAux

/-- Decoding in place writes no further than it reads. -/
theorem length_destructiveURLDecode {u post : Bytes} (hu : NoNul u) :
    ∃ left k, destructiveURLDecode (u ++ 0 :: post) = some (left, k) ∧ left.length = (u ++ 0 :: post).length := by
  refine ⟨_, _, destructiveURLDecode_eq hu post, ?_⟩
  have := (length_urlDecode_le u).1
  simp only [List.length_append, List.length_cons, List.length_drop]
  omega

/-- The hex text of a hash takes forty-one bytes of an array. -/
theorem length_hashEncodeHex {hash : Bytes} {bufferLength : Nat} (hb : maxHexencHashLen < bufferLength)
    (hl : maxHexencHashLen < hash.length) :
    (hashEncodeHex hash bufferLength).2 = 0 ∧ (hashEncodeHex hash bufferLength).1.length = hash.length := by
  simp only [maxHexencHashLen, maxHashLen] at hb hl
  rw [hashEncodeHex, if_neg (by simp only [maxHexencHashLen, maxHashLen]; omega)]
  refine ⟨rfl, ?_⟩
  simp only [List.length_append, length_hexEncode, List.length_take, List.length_cons, List.length_drop, maxHexencHashLen, maxHashLen]
  omega

theorem holdsValue {value post : Bytes} (hn : NoNul value) (hlen : (value ++ 0 :: post).length = maxUrlencHashLen + 1) :
    HoldsValue value (value ++ 0 :: post) := by
  obtain ⟨left, k, hd, hl⟩ := @length_destructiveURLDecode value post hn
  rw [hlen] at hl
  have hroom : maxHexencHashLen < left.length := by rw [hl]; decide
  obtain ⟨hret, hhex⟩ := @length_hashEncodeHex left maxUrlencHashLen (by decide) hroom
  exact ⟨hlen, ⟨post, rfl⟩, left, k, hd, hl, hret, by rw [hhex, hl]⟩

variable {s : Bytes}

theorem length_paramValue (s : Bytes) : (paramValue s).length = httpParamLength s := by
  have := (List.takeWhile_prefix isParamByte (l := s)).length_le
  rw [paramValue, List.length_take, httpParamLength]
  omega

/-- The copy into `info_hash` or `peer_id`. -/
theorem holdsValue_copyParam (hn : NoNul s) (h : hasHashLength s = true) : HoldsValue (paramValue s) (copyParam s) := by
  obtain ⟨post, hcopy, hle⟩ := copyParam_eq h
  have hlen : (copyParam s).length = maxUrlencHashLen + 1 := by
    rw [← paramValue, length_paramValue] at hle
    have := (List.takeWhile_prefix isParamByte (l := s)).length_le
    rw [← httpParamLength] at this
    simp only [copyParam, strncpy, List.length_append, List.length_take, List.length_replicate, List.length_drop]
    omega
  rw [← paramValue] at hcopy
  rw [hcopy] at hlen ⊢
  exact holdsValue (hn.of_sublist (List.take_sublist _ _)) hlen

/-- The copy into `hashbuf`, whatever the array held. -/
theorem holdsValue_hashbuf (hn : NoNul s) (h : hasHashLength s = true) (hashbuf : Vector UInt8 61) :
    HoldsValue (paramValue s) (paramValue s ++ 0 :: hashbuf.toList.drop (httpParamLength s + 1)) := by
  have hle : httpParamLength s ≤ maxUrlencHashLen := httpParamLength_le (by simpa [hasHashLength] using h)
  refine holdsValue (hn.of_sublist (List.take_sublist _ _)) ?_
  simp only [maxUrlencHashLen, maxHashLen] at hle ⊢
  rw [List.length_append, length_paramValue, List.length_cons, List.length_drop, Vector.length_toList]
  omega

/-- A request with a built announce has passed both length checks. -/
theorem holdsValue_announce {inet : Inet} {buffer : Bytes} {conn : Option SockAddr} {ar : AnnounceRequest} (hb : NoNul buffer)
    (h : announceRequest inet buffer conn = .announce ar) :
    (∃ value, HoldsValue value ar.infoHash) ∧ ∃ value, HoldsValue value ar.peerId := by
  unfold announceRequest at h
  split at h
  · cases h
  · split at h
    · rename_i c _
      have hb' : NoNul (buffer.take c) := hb.of_sublist (List.take_sublist _ _)
      obtain ⟨⟨hash, hhash, hlen, heq⟩, peerid, hpeerid, hlen', heq'⟩ := parseAnnounce_values h
      refine ⟨⟨paramValue hash, ?_⟩, paramValue peerid, ?_⟩
      · rw [heq]
        exact holdsValue_copyParam (hb'.of_suffix (textAfter_suffix hhash)) hlen
      · rw [heq']
        exact holdsValue_copyParam (hb'.of_suffix (textAfter_suffix hpeerid)) hlen'
    · cases h

/-- A scrape request is parsed to its end, whatever `hashbuf` held. -/
theorem exists_scrapeRequest {buffer : Bytes} (hb : NoNul buffer) (hashbuf : Vector UInt8 61) :
    ∃ request, scrapeRequest hashbuf buffer = some request ∧ ∀ ar, request ≠ .announce ar := by
  have hsome : ∃ request, scrapeRequest hashbuf buffer = some request := by
    unfold scrapeRequest
    split
    · obtain ⟨request, hr⟩ := parseScrape_some (hb.of_sublist (List.take_sublist _ buffer))
      exact ⟨request, hr hashbuf⟩
    · exact ⟨_, rfl⟩
  obtain ⟨request, hr⟩ := hsome
  refine ⟨request, hr, ?_⟩
  rintro ar rfl
  rcases scrapeRequest_some hr with ⟨late, h⟩ | ⟨hash, h⟩
  · cases h
  · cases h

end HashBuffersAux

open HashBuffersAux

/-- For every request text, a string. At every position in it where the length check passes, the value has sixty bytes at most; its copy
into `info_hash` or `peer_id`, and into `hashbuf` whatever that held, is a string inside the array, and decoding it and writing the hash
in hex stay inside. So every request is parsed without a read or write outside these arrays, and the announces built hold two such
copies. -/
theorem hash_buffers (text : Bytes) (hn : NoNul text) :
    (∀ pos, decodedStrlen (text.drop pos) (httpParamLength (text.drop pos)) = maxHashLen →
      httpParamLength (text.drop pos) ≤ maxUrlencHashLen ∧
      HoldsValue (paramValue (text.drop pos)) (copyParam (text.drop pos)) ∧
      ∀ hashbuf : Vector UInt8 61, HoldsValue (paramValue (text.drop pos))
        (paramValue (text.drop pos) ++ 0 :: hashbuf.toList.drop (httpParamLength (text.drop pos) + 1))) ∧
    ∀ inet hashbuf conn, ∃ request, parseRequest inet hashbuf text conn = some request ∧
      ∀ ar, request = .announce ar → (∃ value, HoldsValue value ar.infoHash) ∧ ∃ value, HoldsValue value ar.peerId := by
  refine ⟨?_, ?_⟩
  · intro pos h
    have hs : NoNul (text.drop pos) := hn.of_suffix (List.drop_suffix _ _)
    have hlen : hasHashLength (text.drop pos) = true := by simpa [hasHashLength] using h
    exact ⟨httpParamLength_le h, holdsValue_copyParam hs hlen, fun hashbuf => holdsValue_hashbuf hs hlen hashbuf⟩
  · intro inet hashbuf conn
    rcases parseRequest_cases inet hashbuf text conn with ⟨t, rfl⟩ | ⟨t, rfl⟩ | hr | hr
    · rw [parseRequest_announce]
      exact ⟨_, rfl, fun ar har => holdsValue_announce (hn.of_suffix (List.suffix_append _ _)) har⟩
    · rw [parseRequest_scrape]
      obtain ⟨request, hr, hno⟩ := exists_scrapeRequest (hn.of_suffix (List.suffix_append _ _)) hashbuf
      exact ⟨request, hr, fun ar har => absurd har (hno ar)⟩
    · exact ⟨_, hr, fun ar har => by cases har⟩
    · exact ⟨_, hr, fun ar har => by cases har⟩

/-- Twenty escapes fill the array up to its terminator. -/
theorem hash_buffers_full :
    httpParamLength ((List.replicate 20 (ascii "%00")).flatten ++ ascii " HTTP") ≤ maxUrlencHashLen ∧
    (copyParam ((List.replicate 20 (ascii "%00")).flatten ++ ascii " HTTP")).length = 61 := by
  have h := (hash_buffers ((List.replicate 20 (ascii "%00")).flatten ++ ascii " HTTP") (by decide)).1 0 (by decide)
  exact ⟨h.1, h.2.1.length⟩

end Traccoon
