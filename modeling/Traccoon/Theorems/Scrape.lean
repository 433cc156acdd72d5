import Traccoon.Lemmas.BencScan
import Traccoon.Lemmas.Listing

/-!
# The reply to a scrape

The format string of `scrape` puts the hash where the dictionary of files should open: `files` gets the hash for its value, and the
dictionary of counts stands where the next key should be. So no reply to a scrape of a known torrent is one complete dictionary, and
`benc_entity_length` returns -1 on every one of them (`scrape_never_wellFormed`).
-/

namespace Traccoon

open CString Bencode

/-- What a scrape reply should be: one complete dictionary that maps the hash, under `files`, to a dictionary with these counts. -/
structure ScrapeReply (hash : Bytes) (complete downloaded incomplete : Int) (body : Bytes) : Prop where
  measured : BencReturns (body ++ [0]) 0 body.length
  files : ∃ reply files counts : Value, body = reply.encode ∧ reply.get? (ascii "files") = some files ∧
    files.get? hash = some counts ∧ counts.get? (ascii "complete") = some (.int (Numeral.ofInt complete)) ∧
    counts.get? (ascii "downloaded") = some (.int (Numeral.ofInt downloaded)) ∧
    counts.get? (ascii "incomplete") = some (.int (Numeral.ofInt incomplete))

/-- The effects of a scrape are the headers and a body as it should be, with the counts that the three queries give. -/
def AnswersScrape (hash : Bytes) (e : ScrapeEnv) (db : Db) (effects : Effects) : Prop :=
  ∃ pieces, effects.sent = sendHttpHeaders (ascii "200 OK") standardHeader ++ pieces ∧
    ScrapeReply hash (queryTorrentParam db Db.getSeedCount (getTorrentId db hash e.torrent) e.seeds)
      (queryTorrentParam db Db.getCompletionCount (getTorrentId db hash e.torrent) e.completed)
      (queryTorrentParam db Db.getPeersCount (getTorrentId db hash e.torrent) e.peers) pieces.flatten

/-- The torrent is known. -/
def Tracked (hash : Bytes) (e : ScrapeEnv) (db : Db) : Prop :=
  getTorrentId db hash e.torrent ≠ dbNosuchhash ∧ getTorrentId db hash e.torrent ≠ dbFailed

namespace ScrapeAux

/-- A dictionary with a key and a value, and a dictionary where the next key should stand, is given up. -/
theorem bencReturns_dict_as_key {k v : Bytes} (hk : IsStr k) (hv : Accepted v) (hlen : k.length + v.length < 2147483648)
    (post : Bytes) : BencReturns (100 :: (k ++ v ++ 100 :: post)) 0 (-1) := by
  have hrun : AcceptedItems true 0 2 (k ++ v) := by
    have h : AcceptedItems true 0 2 (k ++ (v ++ [])) :=
      Items.cons (fun _ _ => hk) (Entity.str hk) (Items.cons (fun _ h => absurd h (by decide)) hv Items.nil)
    rwa [List.append_nil] at h
  have htext : TextAt (100 :: (k ++ v ++ 100 :: post)) (0 + 0 + 1) (k ++ v ++ 100 :: post) := ⟨[100], rfl, rfl⟩
  obtain ⟨n, hn⟩ := bencElements_run hrun 0 (k ++ v).length.succ htext (by decide) (by simp only [List.length_append]; omega)
    (by omega)
  refine ⟨(k ++ v).length.succ + n + 1, ?_⟩
  have hnext := htext.move
  have htype := bencEntityType_dict hnext
  have hidx : (0 : Int) + 0 + 1 + (k ++ v).length = 0 + (0 + (k ++ v).length) + 1 := by omega
  rw [hidx] at hnext htype
  simp only [bencEntityLength, bencEntityType_dict (textAt_zero _), walk_ok_bind, hn]
  simp only [bencElements, hnext.byteAt, badKey, htype, walk_ok_bind]
  rfl

/-- The hash that a scrape request names is hex text of at most twenty bytes. -/
theorem scrape_hash_text {inet : Inet} {stack : Stack} {peeked : Option Bytes} {conn : Option SockAddr} {hash : Bytes}
    (h : peekRequest inet stack peeked conn = some (.scrape (some hash))) : NoNul hash ∧ hash.length ≤ maxHexencHashLen := by
  obtain ⟨text, -, h⟩ := Option.bind_eq_some_iff.1 h
  rcases parseRequest_cases inet stack.hashbuf text conn with ⟨t, rfl⟩ | ⟨t, rfl⟩ | hr | hr
  · rw [parseRequest_announce] at h
    rw [Option.some.injEq] at h
    rcases announceRequest_cases inet t conn with hr | ⟨late, hr⟩ | ⟨ar, hr⟩
    · cases hr.symm.trans h
    · cases hr.symm.trans h
    · cases hr.symm.trans h
  · rw [parseRequest_scrape] at h
    rcases scrapeRequest_cases stack.hashbuf t with ⟨late, hr⟩ | hr | ⟨value, hr⟩
    · cases hr.symm.trans h
    · cases hr.symm.trans h
    · obtain ⟨x, hx, hxh⟩ := Option.map_eq_some_iff.1 (hr.symm.trans h)
      obtain rfl : x = hash := by simpa using hxh
      obtain ⟨d, -, hd⟩ := Option.bind_eq_some_iff.1 hx
      have hd := Option.some.inj hd
      rw [cstr_hashEncodeHex d.1 (by decide)] at hd
      rw [← hd]
      refine ⟨noNul_hexEncode _, ?_⟩
      rw [length_hexEncode, List.length_take, maxHexencHashLen]
      omega
  · rw [hr] at h
    cases h
  · rw [hr] at h
    cases h

/-- The body with its hash fits the buffer it is formatted in, and has no NUL inside. -/
theorem scrapeBody_text {hash : Bytes} (h : NoNul hash ∧ hash.length ≤ maxHexencHashLen) {a b c : Int} (ha : IsInt32 a)
    (hb : IsInt32 b) (hc : IsInt32 c) :
    cstr (snprintf scrapeBufSize (scrapeBody hash a b c)) = scrapeBody hash a b c := by
  obtain ⟨h0, hl⟩ := h
  simp only [maxHexencHashLen, maxHashLen] at hl
  have hd := @length_lenString_le hash (by omega)
  have hla := length_decimalInt_le ha
  have hlb := length_decimalInt_le hb
  have hlc := length_decimalInt_le hc
  rw [snprintf_of_lt, cstr_of_noNul]
  · have hlit : NoNul (ascii "d5:files") ∧ NoNul (ascii "d8:completei") ∧ NoNul (ascii "e10:downloadedi") ∧
        NoNul (ascii "e10:incompletei") ∧ NoNul (ascii "eee") := by decide
    obtain ⟨h1, h2, h3, h4, h5⟩ := hlit
    simp only [scrapeBody, noNul_append, noNul_decimalInt, noNul_lenString h0, h1, h2, h3, h4, h5, and_self]
  · have hlit : (ascii "d5:files").length = 8 ∧ (ascii "d8:completei").length = 12 ∧ (ascii "e10:downloadedi").length = 15 ∧
        (ascii "e10:incompletei").length = 15 ∧ (ascii "eee").length = 3 := by decide
    obtain ⟨h1, h2, h3, h4, h5⟩ := hlit
    simp only [scrapeBody, List.length_append, h1, h2, h3, h4, h5, scrapeBufSize]
    omega

/-- The body as the parser meets it: a key, a string, and a dictionary. -/
theorem bencReturns_scrapeBody {hash : Bytes} (hl : hash.length ≤ maxHexencHashLen) (a b c : Int) :
    BencReturns (scrapeBody hash a b c ++ [0]) 0 (-1) := by
  simp only [maxHexencHashLen, maxHashLen] at hl
  have hlen := @length_encodeStr_le hash (by omega)
  have hkey : (encodeStr (ascii "files")).length = 7 := by decide
  have h := bencReturns_dict_as_key (isStr_encodeStr (ascii "files")) (Entity.str (isStr_encodeStr hash)) (by omega)
    (ascii "8:completei" ++ decimalInt a ++ ascii "e10:downloadedi" ++ decimalInt b ++ ascii "e10:incompletei" ++
      decimalInt c ++ ascii "eee" ++ [0])
  convert h using 1
  simp only [scrapeBody, lenString_eq, List.append_assoc]
  rfl

/-- A scrape of a tracked torrent is answered with the headers and one piece, which the parser rejects. -/
theorem scrape_sent {hash : Bytes} (h : NoNul hash ∧ hash.length ≤ maxHexencHashLen) {e : ScrapeEnv} {db : Db}
    (ht : Tracked hash e db) :
    ∃ body, (scrape (some hash) e db).sent = sendHttpHeaders (ascii "200 OK") standardHeader ++ [body] ∧
      BencReturns (body ++ [0]) 0 (-1) := by
  have h32 : ∀ query env, IsInt32 (queryTorrentParam db query (getTorrentId db hash e.torrent) env) :=
    fun _ env => isInt32_querySingleInt _ ⟨by decide, by decide⟩ env
  refine ⟨scrapeBody hash (queryTorrentParam db Db.getSeedCount (getTorrentId db hash e.torrent) e.seeds)
    (queryTorrentParam db Db.getCompletionCount (getTorrentId db hash e.torrent) e.completed)
    (queryTorrentParam db Db.getPeersCount (getTorrentId db hash e.torrent) e.peers), ?_, bencReturns_scrapeBody h.2 _ _ _⟩
  simp only [scrape, ht.1, ht.2, if_false, sendString, scrapeBody_text h (h32 _ _) (h32 _ _) (h32 _ _)]

/-- A body that the parser rejects is not the dictionary it should be. -/
theorem not_answersScrape {hash body : Bytes} {e : ScrapeEnv} {db : Db} {effects : Effects}
    (hs : effects.sent = sendHttpHeaders (ascii "200 OK") standardHeader ++ [body]) (hr : BencReturns (body ++ [0]) 0 (-1)) :
    ¬AnswersScrape hash e db effects := by
  intro hw
  obtain ⟨pieces, hp, hreply⟩ := hw
  rw [hs] at hp
  obtain rfl := List.append_cancel_left hp
  obtain ⟨fuel, hf⟩ := hr
  obtain ⟨fuel', hf'⟩ := hreply.measured
  rw [List.flatten_cons, List.flatten_nil, List.append_nil] at hf'
  have := Except.ok.inj (bencEntityLength_unique hf hf' (by simp) (by simp))
  omega

end ScrapeAux

open ScrapeAux

/-- No reply to a scrape of a tracked torrent is the dictionary it should be: `benc_entity_length` rejects every one of them. -/
theorem scrape_never_wellFormed (inet : Inet) (stack : Stack) (peeked : Option Bytes) (conn : Option SockAddr) (hash : Bytes)
    (h : peekRequest inet stack peeked conn = some (.scrape (some hash))) (e : ScrapeEnv) (db : Db) (ht : Tracked hash e db) :
    (∃ body, (scrape (some hash) e db).sent = sendHttpHeaders (ascii "200 OK") standardHeader ++ [body] ∧
      BencReturns (body ++ [0]) 0 (-1)) ∧
    ¬AnswersScrape hash e db (scrape (some hash) e db) := by
  obtain ⟨body, hs, hr⟩ := scrape_sent (scrape_hash_text h) ht
  exact ⟨⟨body, hs, hr⟩, not_answersScrape hs hr⟩

namespace ScrapeExample

/-- A scrape of the torrent whose hash is twenty times the letter a. -/
def request : Bytes := ascii "GET /scrape?info_hash=aaaaaaaaaaaaaaaaaaaa HTTP/1.1"

def hash : Bytes := hexEncode (ascii "aaaaaaaaaaaaaaaaaaaa")

def stack : Stack := { buf := Vector.replicate 1024 0, hashbuf := Vector.replicate 61 0 }

/-- The torrent is tracked, and was downloaded twice. -/
def db : Db := Db.ofTorrent ⟨1, hash, 2⟩

/-- Every statement succeeds. -/
def env : ScrapeEnv := { torrent := .ok 0, seeds := .ok 0, completed := .ok 0, peers := .ok 0 }

theorem peek_request : peekRequest PlainInet.inet stack (some request) none = some (.scrape (some hash)) := by
  decide

theorem tracked : Tracked hash env db := by
  refine ⟨?_, ?_⟩
  · show getTorrentId db hash (.ok 0) ≠ _
    decide
  · show getTorrentId db hash (.ok 0) ≠ _
    decide

end ScrapeExample

open ScrapeExample

/-- The reply to one scrape, rejected. -/
theorem scrape_never_wellFormed_one : ¬AnswersScrape hash env db (scrape (some hash) env db) :=
  (scrape_never_wellFormed PlainInet.inet stack (some request) none hash peek_request env db tracked).2

/-- The scrape of a tracked torrent, every statement of it succeeding, is answered with a hash where the dictionary of files should
stand. -/
theorem not_answersScrape_tracked :
    peekRequest PlainInet.inet stack (some request) none = some (.scrape (some hash)) ∧ Tracked hash env db ∧
    (scrape (some hash) env db).sent = sendHttpHeaders (ascii "200 OK") standardHeader ++
      [ascii "d5:files40:6161616161616161616161616161616161616161d8:completei0e10:downloadedi2e10:incompletei0eee"] ∧
    ¬AnswersScrape hash env db (scrape (some hash) env db) := by
  obtain ⟨body, hs, hr⟩ := scrape_sent (scrape_hash_text peek_request) tracked
  refine ⟨peek_request, tracked, ?_, not_answersScrape hs hr⟩
  show (scrape (some hash) { torrent := .ok 0, seeds := .ok 0, completed := .ok 0, peers := .ok 0 } db).sent = _
  decide

end Traccoon
