import Traccoon.Lemmas.PercentEncoding

/-!
# What a request with a percent-encoded hash looks up

Every announce and every scrape whose `info_hash` is a percent-encoding of twenty bytes is handled with one lookup, of the hash that
the value names.
-/

namespace Traccoon

open CString

/-- The first `info_hash=` of a request target has the value `u`. -/
def Carries (buffer u : Bytes) : Prop :=
  ∃ t, textAfter buffer (ascii "info_hash=") = some (u ++ t) ∧ (t = [] ∨ ∃ t', t = 38 :: t')

/-- The other parameters that an announce needs are there, the peer id with the right length. -/
def HasPeer (buffer : Bytes) : Prop :=
  ∃ peerid port, textAfter buffer (ascii "peer_id=") = some peerid ∧ hasHashLength peerid = true ∧
    textAfter buffer (ascii "port=") = some port

/-- The request is handled, and the one hash it looks up is this text, whatever the stack, the iteration, the database and its
answers. -/
def LooksUp (inet : Inet) (received : Bytes) (conn : SockAddr) (hash : Bytes) : Prop :=
  ∀ stack recvIter announceInterval e db, e.conn = some conn →
    ∃ effects, parseSocket inet stack recvIter (some received) announceInterval e db = some (effects, true) ∧
      effects.lookups = [hash]

/-- There are calls with any address. -/
theorem exists_call (conn : SockAddr) : ∃ (_ : Stack) (e : ClientEnv) (_ : Db), e.conn = some conn := by
  let call : CallEnv := .ok 0
  exact ⟨{ buf := Vector.replicate 1024 0, hashbuf := Vector.replicate 61 0 },
    { conn := some conn
      track := { torrent := .ok 0, prepare := sqliteOk, bind := sqliteOk, steps := [], first := call, again := call }
      scrape := { torrent := .ok 0, seeds := .ok 0, completed := .ok 0, peers := .ok 0 } },
    Db.ofTorrents [] (by simp) (by simp), rfl⟩

/-- A request whose one lookup is known looks up that text only. -/
theorem looksUp_unique {inet : Inet} {received : Bytes} {conn : SockAddr} {hash hash' : Bytes}
    (h : LooksUp inet received conn hash) (h' : LooksUp inet received conn hash') : hash = hash' := by
  obtain ⟨stack, e, db, he⟩ := exists_call conn
  obtain ⟨effects, hs, hl⟩ := h stack 0 0 e db he
  obtain ⟨effects', hs', hl'⟩ := h' stack 0 0 e db he
  obtain rfl := (Prod.mk.inj (Option.some.inj (hs.symm.trans hs'))).1
  exact (List.cons.inj (hl.symm.trans hl')).1

/-- A request that fills what the tracker peeks at is given up. -/
theorem not_looksUp_long {inet : Inet} {received : Bytes} (hlen : recvSize ≤ received.length) (conn : SockAddr) (hash : Bytes) :
    ¬LooksUp inet received conn hash := by
  intro h
  obtain ⟨stack, e, db, he⟩ := exists_call conn
  obtain ⟨effects, hs, hl⟩ := h stack 0 0 e db he
  have htake : (received.take recvSize).length = recvSize := List.length_take_of_le hlen
  simp only [parseSocket, Option.map_some, htake, or_true, if_true] at hs
  obtain rfl := (Prod.mk.inj (Option.some.inj hs)).1
  cases hl

theorem carries_value {buffer : Bytes} (hb : NoNul buffer) {ps : List EncodedByte} (hlen : ps.length = maxHashLen)
    (hc : Carries buffer (encodedText ps)) :
    ∃ value, textAfter buffer (ascii "info_hash=") = some value ∧ NoNul value ∧ hasHashLength value = true ∧
      paramValue value = encodedText ps := by
  obtain ⟨t, ht, htt⟩ := hc
  obtain ⟨hl, hv⟩ := value_text hlen htt
  exact ⟨_, ht, hb.of_suffix (textAfter_suffix ht), hl, hv⟩

/-- An announce with a percent-encoding of twenty bytes is accepted, and looks up the hash that the value names. -/
theorem announce_looksUp (inet : Inet) (conn : SockAddr) {buffer rest : Bytes} (hb : NoNul buffer) (h32 : 32 ∉ buffer)
    (hsize : (announceText buffer rest).length < recvSize) {ps : List EncodedByte} (hlen : ps.length = maxHashLen)
    (hc : Carries buffer (encodedText ps)) (hp : HasPeer buffer) :
    LooksUp inet (announceText buffer rest) conn (hexEncode (valueHash (encodedText ps))) := by
  intro stack recvIter announceInterval e db hconn
  obtain ⟨value, hv, hv0, hvl, hvp⟩ := carries_value hb hlen hc
  obtain ⟨peerid, port, hpe, hpl, hpo⟩ := hp
  have hparse : ∃ ar, parseAnnounce inet buffer conn = .announce ar ∧ ar.infoHash = copyParam value := by
    simp only [parseAnnounce, hv, hpe, hpo, hvl, hpl, Bool.and_self, if_true]
    exact ⟨_, rfl, rfl⟩
  obtain ⟨ar, har, hi⟩ := hparse
  obtain ⟨ar', hprep, hhash⟩ := prepareData_hash hv0 hvl hi
  obtain ⟨effects, ht, hl⟩ := track_lookups inet hprep announceInterval e.track db
  refine ⟨effects, ?_, by rw [hl, hhash, hvp]⟩
  rw [parseSocket_announce hb h32 hsize stack recvIter announceInterval hconn, har]
  simp only [serve, ht]
  rfl

/-- So is a scrape. -/
theorem scrape_looksUp (inet : Inet) (conn : SockAddr) {buffer rest : Bytes} (hb : NoNul buffer) (h32 : 32 ∉ buffer)
    (hsize : (scrapeText buffer rest).length < recvSize) {ps : List EncodedByte} (hlen : ps.length = maxHashLen)
    (hc : Carries buffer (encodedText ps)) :
    LooksUp inet (scrapeText buffer rest) conn (hexEncode (valueHash (encodedText ps))) := by
  intro stack recvIter announceInterval e db _
  obtain ⟨value, hv, hv0, hvl, hvp⟩ := carries_value hb hlen hc
  refine ⟨_, ?_, scrape_lookups (hexEncode (valueHash (encodedText ps))) e.scrape db⟩
  rw [parseSocket_scrape hb h32 hsize]
  simp only [parseScrape, hv, hvl, if_true, scrapeHash_eq hv0 hvl, hvp, Option.map_some, Option.bind_some, serve]

end Traccoon
