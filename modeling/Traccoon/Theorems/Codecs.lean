import Traccoon.Lemmas.SentHash

/-!
# The codecs of a hash

Each encoder writes over the twenty bytes it reads, and the decoder that belongs to it writes them back (`codecs_round_trip`). A zero
byte ends no string, since the encoders write it as digits.
-/

namespace Traccoon

open CString

namespace CodecsAux

/-- Each byte encoded is counted once when the whole string is measured. -/
theorem decodedStrlenFrom_whole (ps : List EncodedByte) : ∀ i : Nat, decodedStrlenFrom (-1) (encodedText ps) i = ps.length := by
  have hw : ∀ i : Nat, withinMlen (-1) i = true := fun i => rfl
  induction ps with
  | nil =>
    intro i
    rfl
  | cons p ps ih =>
    intro i
    cases p with
    | literal b hb =>
      rw [encodedText_cons, EncodedByte.text, List.cons_append, List.nil_append, decodedStrlenFrom]
      · rw [if_pos (hw i), ih, List.length_cons]
      · intro x y s h
        exact absurd h (literal_ne hb)
    | escape x y hx hy =>
      simp only [encodedText_cons, EncodedByte.text, List.cons_append, List.nil_append, decodedStrlenFrom, hw, if_true, ih,
        List.length_cons]

/-- The percent-encoding of some bytes is decoded to them. -/
theorem urlDecode_urlEncode (bs : Bytes) : urlDecode (urlEncode bs) = (bs, true) := by
  rw [urlEncode_eq]
  rcases urlDecode_text (bs.map urlPart) with ⟨-, hd⟩ | ⟨qs, p, rs, hps, hp, -⟩
  · rw [hd, encodedHash_urlPart]
  · obtain ⟨b, -, rfl⟩ := List.mem_map.1 (show p ∈ bs.map urlPart by rw [hps]; simp)
    exact absurd (urlPart_spec b).2.2 hp

theorem hexDigits_of_hexdict : ∀ d ∈ hexdict, d ∈ hexDigits := by
  have hall : hexdict.all (fun d => hexDigits.contains d) = true := by decide
  intro d hd
  exact List.contains_iff_mem.1 (List.all_eq_true.1 hall d hd)

/-- The hex text of some bytes is decoded to them. -/
theorem hexDecode_hexEncode (bs : Bytes) : hexDecode (hexEncode bs) = (bs, true) := by
  rcases hexDecode_digits (hexEncode bs) bs.length (length_hexEncode bs) (fun b hb => hexDigits_of_hexdict b (mem_hexEncode hb)) with
    ⟨-, cs, hd, he⟩ | ⟨cs, x, y, t, he, hno, -⟩
  · rw [hd, hexEncode_injective he]
  · have hx : x ∈ hexEncode bs := by simp [he]
    have hy : y ∈ hexEncode bs := by simp [he]
    exact absurd ⟨mem_hexEncode hx, mem_hexEncode hy⟩ hno

theorem destructiveURLDecode_urlEncode {h : Bytes} (hlen : h.length = maxHashLen) (post : Bytes) :
    ∃ left : Bytes, destructiveURLDecode (urlEncode h ++ 0 :: post) = some (left, (maxHashLen : Int)) ∧ left.take maxHashLen = h := by
  have hd := destructiveURLDecode_eq (noNul_urlEncode h) post
  simp only [urlDecode_urlEncode, if_true, hlen] at hd
  exact ⟨_, hd, by rw [← hlen, List.take_left]⟩

theorem destructiveHexDecode_hexEncode {h : Bytes} (hlen : h.length = maxHashLen) (post : Bytes) :
    ∃ post', destructiveHexDecode (hexEncode h ++ 0 :: post) = some (h ++ post', (maxHashLen : Int)) := by
  have hd := destructiveHexDecode_eq (noNul_hexEncode h) post
  simp only [hexDecode_hexEncode, if_true, hlen] at hd
  exact ⟨_, hd⟩

variable {h rest : Bytes}

/-- What `hashEncodeURL` leaves in a buffer with room. -/
theorem hashEncodeURL_eq (hlen : h.length = maxHashLen) {maxlen : Nat} (hmax : maxUrlencHashLen < maxlen) :
    hashEncodeURL (h ++ rest) maxlen =
      urlEncode h ++ 0 :: (List.replicate (maxlen - (urlEncode h).length - 1) 0 ++ (h ++ rest).drop maxlen) := by
  have hle := length_urlEncode_le h
  rw [hlen] at hle
  simp only [maxUrlencHashLen, maxHashLen] at hmax hle
  rw [hashEncodeURL, ← hlen, List.take_left, strncpy, List.take_of_length_le (by omega), List.append_assoc]
  obtain ⟨n, hn⟩ : ∃ n, maxlen - (urlEncode h).length = n + 1 := ⟨maxlen - (urlEncode h).length - 1, by omega⟩
  rw [hn, Nat.add_sub_cancel, List.replicate_succ, List.cons_append]

theorem hashEncodeHex_eq (hlen : h.length = maxHashLen) {len : Nat} (hl : maxHexencHashLen < len) :
    hashEncodeHex (h ++ rest) len = (hexEncode h ++ 0 :: (h ++ rest).drop (maxHexencHashLen + 1), 0) := by
  rw [hashEncodeHex, if_neg (by omega), ← hlen, List.take_left]

end CodecsAux

open CodecsAux

/-- For twenty bytes at the start of a buffer of sixty-one at least. With room for sixty characters and a terminator `hashEncodeURL`
leaves a string of those characters at most, none of which separates parameters, that counts as twenty bytes and is decoded to the twenty
bytes in place. With room for forty digits and a terminator `hashEncodeHex` leaves the digits, which are decoded to the twenty bytes in
place. And forty lower-case digits that are decoded in place are written back. -/
theorem codecs_round_trip (h rest : Bytes) (hlen : h.length = maxHashLen) (hroom : maxUrlencHashLen < (h ++ rest).length) :
    (∀ maxlen, maxUrlencHashLen < maxlen → maxlen ≤ (h ++ rest).length →
      ∃ t post : Bytes, hashEncodeURL (h ++ rest) maxlen = t ++ 0 :: post ∧
      (t ++ 0 :: post).length = (h ++ rest).length ∧ t.length ≤ maxUrlencHashLen ∧ (∀ b ∈ t, b ∉ ([38, 61, 32, 0] : Bytes)) ∧
      decodedStrlen t (-1) = maxHashLen ∧ decodedStrlen t t.length = maxHashLen ∧
      ∃ left : Bytes, destructiveURLDecode (t ++ 0 :: post) = some (left, (maxHashLen : Int)) ∧ left.take maxHashLen = h) ∧
    (∀ len, maxHexencHashLen < len → ∃ t post : Bytes, hashEncodeHex (h ++ rest) len = (t ++ 0 :: post, 0) ∧
      (t ++ 0 :: post).length = (h ++ rest).length ∧ t.length = maxHexencHashLen ∧ (∀ b ∈ t, b ∈ hexdict) ∧
      ∃ left : Bytes, destructiveHexDecode (t ++ 0 :: post) = some (left, (maxHashLen : Int)) ∧ left.take maxHashLen = h) ∧
    ∀ x post len, x.length = maxHexencHashLen → (∀ b ∈ x, b ∈ hexdict) → maxHexencHashLen < len →
      ∃ left post' : Bytes, destructiveHexDecode (x ++ 0 :: post) = some (left, (maxHashLen : Int)) ∧
        hashEncodeHex left len = (x ++ 0 :: post', 0) := by
  refine ⟨?_, ?_, ?_⟩
  · intro maxlen hmax hle
    have hcount := length_urlEncode_le h
    rw [hlen] at hcount
    have hparts : (h.map urlPart).length = maxHashLen := by rw [List.length_map, hlen]
    refine ⟨urlEncode h, _, hashEncodeURL_eq hlen hmax, ?_, ?_, ?_, ?_, ?_, ?_⟩
    · simp only [maxUrlencHashLen, maxHashLen] at hmax hcount
      simp only [List.length_append, List.length_cons, List.length_replicate, List.length_drop] at hle ⊢
      omega
    · simp only [maxUrlencHashLen]
      omega
    · exact urlEncode_text h
    · rw [urlEncode_eq, decodedStrlen, decodedStrlenFrom_whole, hparts]
    · have htext := decodedStrlenFrom_text [] (h.map urlPart) (urlEncode h).length 0 (by rw [urlEncode_eq, Nat.zero_add])
      rwa [List.append_nil, ← urlEncode_eq, hparts] at htext
    · exact destructiveURLDecode_urlEncode hlen _
  · intro len hl
    refine ⟨hexEncode h, _, hashEncodeHex_eq hlen hl, ?_, ?_, ?_, ?_⟩
    · simp only [maxUrlencHashLen, maxHashLen] at hroom hlen
      simp only [List.length_append, length_hexEncode, List.length_cons, List.length_drop, maxHexencHashLen, maxHashLen] at hroom ⊢
      omega
    · rw [length_hexEncode, hlen]
      rfl
    · exact fun b hb => mem_hexEncode hb
    · obtain ⟨post', hd⟩ := destructiveHexDecode_hexEncode hlen ((h ++ rest).drop (maxHexencHashLen + 1))
      exact ⟨_, hd, by rw [← hlen, List.take_left]⟩
  · intro x post len hx hdigits hl
    obtain ⟨-, bs, hd, he⟩ := (hexDecode_digits x maxHashLen hx fun b hb => hexDigits_of_hexdict b (hdigits b hb)).resolve_right
      (by
        rintro ⟨bs, a, b, t, rfl, hno, -⟩
        exact hno ⟨hdigits a (by simp), hdigits b (by simp)⟩)
    have hbs : bs.length = maxHashLen := by
      have := congrArg List.length he
      rw [length_hexEncode, hx, maxHexencHashLen] at this
      omega
    subst he
    obtain ⟨post', hleft⟩ := destructiveHexDecode_hexEncode hbs post
    exact ⟨_, _, hleft, hashEncodeHex_eq hbs hl⟩

namespace CodecsExample

/-- Twenty bytes with a zero, a percent sign, an `&` and two letters among them. -/
def hash : Bytes := [0, 37, 38, 97, 65, 32, 61, 255, 128, 1, 2, 3, 4, 5, 6, 7, 8, 9, 10, 0]

/-- What lies behind them in a buffer of sixty-one bytes. -/
def rest : Bytes := List.replicate 41 7

end CodecsExample

open CodecsExample

/-- A buffer of the least size, and the least room for each encoder. -/
theorem codecs_round_trip_least :
    (∃ t post : Bytes, hashEncodeURL (hash ++ rest) 61 = t ++ 0 :: post ∧ t.length ≤ 60 ∧
      ∃ left : Bytes, destructiveURLDecode (t ++ 0 :: post) = some (left, 20) ∧ left.take 20 = hash) ∧
    ∃ t post : Bytes, hashEncodeHex (hash ++ rest) 41 = (t ++ 0 :: post, 0) ∧ t.length = 40 := by
  obtain ⟨hurl, hhex, -⟩ := codecs_round_trip hash rest rfl (by decide)
  obtain ⟨t, post, ht, -, hle, -, -, -, hd⟩ := hurl 61 (by decide) (by decide)
  obtain ⟨t', post', ht', -, hl, -⟩ := hhex 41 (by decide)
  exact ⟨⟨t, post, ht, hle, hd⟩, t', post', ht', hl⟩

end Traccoon
