import Traccoon.Lemmas.Refusals

/-!
# Hashes that cannot be decoded

`track` reports a hash that does not decode to twenty bytes and goes on ("FIXME handle error"); for a scrape `parseSocket` does not
look at the decoder's result. What the decoder left in the buffer is written in hex and looked up. So such a request is refused
exactly where that text, which its sender chooses, is not the hash of a torrent, or a statement fails in a way that ends the request
(`undecoded_refused_iff`).
-/

namespace Traccoon

open CString

/-- The decoder does not make twenty bytes of the value, and leaves this in the buffer. -/
def Undecoded (s left : Bytes) : Prop :=
  ∃ n, destructiveURLDecode (paramValue s ++ [0]) = some (left, n) ∧ n ≠ maxHashLen

namespace HalfDecodedAux

variable {inet : Inet} {stack : Stack} {peeked : Option Bytes} {conn : Option SockAddr} {buffer rest s left : Bytes}

/-- The twenty bytes that are written in hex are the first ones that the decoder left. -/
theorem valueHash_undecoded (hn : NoNul s) (h : hasHashLength s = true) (hl : Undecoded s left) :
    valueHash (paramValue s) = left.take maxHashLen := by
  obtain ⟨n, hd, -⟩ := hl
  obtain ⟨d, hd', ht⟩ := destructiveURLDecode_value hn h []
  obtain rfl := Option.some.inj (hd'.symm.trans hd)
  exact ht.symm

/-- A target in the text of a request has no NUL. -/
theorem noNul_target {command : Bytes} (ht : bufText stack peeked = some (command ++ (buffer ++ 32 :: rest))) : NoNul buffer :=
  ((noNul_bufText ht).of_suffix (List.suffix_append _ _)).of_sublist (List.sublist_append_left _ _)

/-- An announce that reaches `track` carries a hash of the counted length. -/
theorem announce_infoHash (h32 : 32 ∉ buffer) (hs : textAfter buffer (ascii "info_hash=") = some s)
    (ht : bufText stack peeked = some (announceText buffer rest)) {ar : AnnounceRequest}
    (hr : peekRequest inet stack peeked conn = some (.announce ar)) : hasHashLength s = true ∧ ar.infoHash = copyParam s := by
  simp only [peekRequest, ht, Option.bind_eq_bind, Option.bind_some, announceText, parseRequest_announce, Option.some.injEq] at hr
  cases conn with
  | none => cases hr
  | some conn =>
    rw [announceRequest_target h32] at hr
    obtain ⟨⟨s', hs', hlen, hi⟩, -⟩ := parseAnnounce_values hr
    obtain rfl := Option.some.inj (hs.symm.trans hs')
    exact ⟨hlen, hi⟩

/-- So does a scrape that reaches `scrape` with a hash. -/
theorem scrape_hash (h32 : 32 ∉ buffer) (hs : textAfter buffer (ascii "info_hash=") = some s)
    (ht : bufText stack peeked = some (scrapeText buffer rest)) {hash : Bytes}
    (hr : peekRequest inet stack peeked conn = some (.scrape (some hash))) :
    hasHashLength s = true ∧ scrapeHash stack.hashbuf s = some hash := by
  simp only [peekRequest, ht, Option.bind_eq_bind, Option.bind_some, scrapeText, parseRequest_scrape, scrapeRequest_target h32,
    parseScrape, hs] at hr
  split at hr
  · rename_i hlen
    obtain ⟨hash', hh, heq⟩ := Option.map_eq_some_iff.1 hr
    obtain rfl := Option.some.inj (Request.scrape.inj heq)
    exact ⟨hlen, hh⟩
  · cases hr

end HalfDecodedAux

open HalfDecodedAux

/-- For every announce and every scrape with a hash that the decoder does not make twenty bytes of: the request is refused exactly
where the lookup of the first twenty bytes that the decoder left ends it, or the peers query of an announce cannot be prepared or
bound. -/
theorem undecoded_refused_iff (inet : Inet) {stack : Stack} {peeked : Option Bytes} {conn : Option SockAddr}
    {buffer rest s left : Bytes} (h32 : 32 ∉ buffer) (hs : textAfter buffer (ascii "info_hash=") = some s) (hl : Undecoded s left)
    (db : Db) :
    (∀ ar, bufText stack peeked = some (announceText buffer rest) → peekRequest inet stack peeked conn = some (.announce ar) →
      ∀ interval e, ∃ effects, track inet ar interval e db = some effects ∧
        (Refuses db effects ↔
          LookupEnds db (hexEncode (left.take maxHashLen)) e.torrent ∨ e.prepare ≠ sqliteOk ∨ e.bind ≠ sqliteOk)) ∧
    (∀ hash, bufText stack peeked = some (scrapeText buffer rest) →
      peekRequest inet stack peeked conn = some (.scrape (some hash)) →
      ∀ e, Refuses db (scrape (some hash) e db) ↔ LookupEnds db (hexEncode (left.take maxHashLen)) e.torrent) := by
  refine ⟨?_, ?_⟩
  · intro ar ht hr interval e
    obtain ⟨hlen, hi⟩ := announce_infoHash h32 hs ht hr
    have hn : NoNul s := (noNul_target ht).of_suffix (textAfter_suffix hs)
    obtain ⟨ar', hp, hhash⟩ := prepareData_hash hn hlen hi
    rw [valueHash_undecoded hn hlen hl] at hhash
    rw [← hhash]
    exact track_refuses_iff inet hp interval e db
  · intro hash ht hr e
    obtain ⟨hlen, hh⟩ := scrape_hash h32 hs ht hr
    have hn : NoNul s := (noNul_target ht).of_suffix (textAfter_suffix hs)
    rw [scrapeHash_eq hn hlen, valueHash_undecoded hn hlen hl] at hh
    obtain rfl := Option.some.inj hh
    exact scrape_refuses_iff _ e db

namespace HalfDecodedExample

def stack : Stack := { buf := Vector.replicate 1024 0, hashbuf := Vector.replicate 61 0 }

/-- The value of `info_hash`: an escape that is none, and nineteen letters a. -/
def hash : Bytes := ascii "%zzaaaaaaaaaaaaaaaaaaa"

/-- The other parameters of the announce. -/
def others : Bytes := ascii "&peer_id=-TC0010-000000000001&port=6881"

/-- The request target behind the path. -/
def buffer : Bytes := ascii "?info_hash=" ++ (hash ++ others)

/-- What is received: the announce. -/
def received : Bytes := announceText buffer (ascii "HTTP/1.1")

def conn : SockAddr := .in4 (ipv4 10 0 0 1)

/-- The announce request it makes. -/
def announce : AnnounceRequest :=
  { infoHash := copyParam (hash ++ others), peerId := copyParam (ascii "-TC0010-000000000001"), ip := ascii "10.0.0.1", port := 6881,
    protover := 4, event := .none, left := 0, compact := false, noPeerId := false, numwant := 50 }

/-- One torrent, with this hash, and no peers. -/
def tracking (hash : Bytes) : Db := Db.ofTorrent ⟨1, hash, 0⟩

/-- The hash whose twenty bytes are those the decoder leaves. -/
def leftHash : Bytes := hexEncode (ascii "%zzaaaaaaaaaaaaaaaaa")

/-- The hash of another torrent. -/
def otherHash : Bytes := hexEncode (ascii "aaaaaaaaaaaaaaaaaaaa")

/-- Every statement succeeds, and the peers query gives no row. -/
def env : TrackEnv :=
  { torrent := .ok 0, prepare := sqliteOk, bind := sqliteOk, steps := [], first := .ok 100, again := .ok 100 }

theorem bufText_received : bufText stack (some received) = some received := by decide

theorem textAfter_buffer : textAfter buffer (ascii "info_hash=") = some (hash ++ others) := by decide

theorem undecoded_hash : Undecoded (hash ++ others) (hash ++ [0]) := ⟨-1, by decide, by decide⟩

theorem peek_received : peekRequest PlainInet.inet stack (some received) (some conn) = some (.announce announce) := by
  decide

end HalfDecodedExample

open HalfDecodedExample

/-- Where another torrent is tracked, the announce is refused. -/
theorem undecoded_refused_iff_unknown :
    ∃ effects, track PlainInet.inet announce 300 env (tracking otherHash) = some effects ∧
      Refuses (tracking otherHash) effects := by
  obtain ⟨effects, ht, hr⟩ := (undecoded_refused_iff PlainInet.inet (by decide) textAfter_buffer
    undecoded_hash (tracking otherHash)).1 announce bufText_received peek_received 300 env
  refine ⟨effects, ht, hr.2 (Or.inl (Or.inr ?_))⟩
  intro id hid
  have hnone : (tracking otherHash).queryTorrentId
      (hexEncode ((hash ++ [0]).take maxHashLen)) = none := by decide
  rw [hnone] at hid
  cases hid

/-- Where the torrent is tracked whose hash the decoder left, the announce is answered with its peers, and recorded. -/
theorem undecoded_recorded :
    textAfter buffer (ascii "info_hash=") = some (hash ++ others) ∧ Undecoded (hash ++ others) (hash ++ [0]) ∧
    peekRequest PlainInet.inet stack (some received) (some conn) = some (.announce announce) ∧
    ∃ effects, track PlainInet.inet announce 300 env (tracking leftHash) = some effects ∧ ¬Refuses (tracking leftHash) effects ∧
      effects.db.peers.length = 1 := by
  have hpeers : (track PlainInet.inet announce 300 env (tracking leftHash)).map (·.db.peers.length) = some 1 := by decide
  obtain ⟨effects, ht, hlen⟩ := Option.map_eq_some_iff.1 hpeers
  refine ⟨textAfter_buffer, undecoded_hash, peek_received, effects, ht, ?_, hlen⟩
  rintro ⟨hdb, -⟩
  rw [hdb] at hlen
  cases hlen

end Traccoon
