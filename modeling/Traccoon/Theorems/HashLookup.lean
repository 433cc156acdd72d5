import Traccoon.Lemmas.LooksUp

/-!
# Which torrent a percent-encoded hash addresses

Every percent-encoding of twenty bytes passes the length check of `parseSocket`. The decoder knows the lower-case hex digits only and
its failure is ignored, so the hash looked up is the one encoded exactly when no escape uses a capital digit (`looksUp_iff`).
-/

namespace Traccoon

open CString

namespace HashLookupAux

/-- A request that looks up what its value names looks up the hash encoded exactly when no escape has a capital digit. -/
theorem looksUp_hash_iff {inet : Inet} {received : Bytes} {conn : SockAddr} {ps : List EncodedByte}
    (hlen : ps.length = maxHashLen) (h : LooksUp inet received conn (hexEncode (valueHash (encodedText ps)))) :
    LooksUp inet received conn (hexEncode (encodedHash ps)) ↔ ∀ p ∈ ps, p.Lower := by
  rw [← valueHash_text_iff hlen]
  constructor
  · intro h'
    exact hexEncode_injective (looksUp_unique h h')
  · intro heq
    rwa [heq] at h

end HashLookupAux

open HashLookupAux

/-- Every announce and every scrape whose `info_hash` is a percent-encoding of twenty bytes is handled with one lookup, and that is
of the bytes encoded exactly when no escape is written with a capital hex digit. -/
theorem looksUp_iff (inet : Inet) (conn : SockAddr) (ps : List EncodedByte) (hlen : ps.length = maxHashLen) (buffer rest : Bytes)
    (hb : NoNul buffer) (h32 : 32 ∉ buffer) (hc : Carries buffer (encodedText ps)) :
    ((announceText buffer rest).length < recvSize → HasPeer buffer →
      (∃ hash, LooksUp inet (announceText buffer rest) conn hash) ∧
      (LooksUp inet (announceText buffer rest) conn (hexEncode (encodedHash ps)) ↔ ∀ p ∈ ps, p.Lower)) ∧
    ((scrapeText buffer rest).length < recvSize →
      (∃ hash, LooksUp inet (scrapeText buffer rest) conn hash) ∧
      (LooksUp inet (scrapeText buffer rest) conn (hexEncode (encodedHash ps)) ↔ ∀ p ∈ ps, p.Lower)) := by
  refine ⟨fun hsize hp => ?_, fun hsize => ?_⟩
  · have h := announce_looksUp inet conn hb h32 hsize hlen hc hp
    exact ⟨⟨_, h⟩, looksUp_hash_iff hlen h⟩
  · have h := scrape_looksUp inet conn hb h32 hsize hlen hc
    exact ⟨⟨_, h⟩, looksUp_hash_iff hlen h⟩

namespace HashLookupExample

/-- The byte 171, as an escape in lower case, and nineteen letters a. -/
def lower : List EncodedByte :=
  .escape 97 98 (by decide) (by decide) :: List.replicate 19 (.literal 97 (by decide))

/-- The same, with the escape in capitals. -/
def capital : List EncodedByte :=
  .escape 65 66 (by decide) (by decide) :: List.replicate 19 (.literal 97 (by decide))

/-- The request target behind the path. -/
def buffer (hash : String) : Bytes := ascii ("?info_hash=" ++ hash)

def conn : SockAddr := .in4 (ipv4 10 0 0 1)

end HashLookupExample

open HashLookupExample

/-- A scrape with a hash escaped in lower case. -/
theorem looksUp_iff_lower :
    LooksUp PlainInet.inet (scrapeText (buffer "%abaaaaaaaaaaaaaaaaaaa") (ascii "HTTP/1.1")) conn
      (ascii "ab61616161616161616161616161616161616161") := by
  have h := (looksUp_iff PlainInet.inet conn lower (by decide) (buffer "%abaaaaaaaaaaaaaaaaaaa") (ascii "HTTP/1.1") (by decide)
    (by decide) ⟨[], by decide, Or.inl rfl⟩).2 (by decide)
  have hl : ∀ p ∈ lower, p.Lower := by
    intro p hp
    rcases List.mem_cons.1 hp with rfl | hp
    · exact ⟨by decide, by decide⟩
    · rw [List.eq_of_mem_replicate hp]
      trivial
  have hex : hexEncode (encodedHash lower) = ascii "ab61616161616161616161616161616161616161" := by decide
  exact hex ▸ h.2.2 hl

/-- With its escape in capitals the same hash is not looked up: the tracker asks for the hex text of `%ABaaaaaaaaaaaaaaaaa`. -/
theorem not_looksUp_capital :
    encodedText capital = ascii "%ABaaaaaaaaaaaaaaaaaaa" ∧
    hexEncode (encodedHash capital) = ascii "ab61616161616161616161616161616161616161" ∧
    ¬LooksUp PlainInet.inet (scrapeText (buffer "%ABaaaaaaaaaaaaaaaaaaa") (ascii "HTTP/1.1")) conn
      (ascii "ab61616161616161616161616161616161616161") := by
  have hc : Carries (buffer "%ABaaaaaaaaaaaaaaaaaaa") (encodedText capital) := ⟨[], by decide, Or.inl rfl⟩
  have hsize : (scrapeText (buffer "%ABaaaaaaaaaaaaaaaaaaa") (ascii "HTTP/1.1")).length < recvSize := by decide
  have h := scrape_looksUp PlainInet.inet conn (by decide) (by decide) hsize (by decide) hc
  refine ⟨by decide, by decide, fun h' => ?_⟩
  have := looksUp_unique h h'
  revert this
  decide

end Traccoon
