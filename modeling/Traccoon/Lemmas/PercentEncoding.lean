import Traccoon.Lemmas.HashValues

/-!
# Percent-encodings of twenty bytes

A client may write each byte of a hash or a peer id as it stands or as an escape, with hex digits in either letter case. All these
texts pass the length check of `parseSocket`; the decoder knows the lower-case digits only, so what it makes of a text depends on how
its escapes are written.
-/

namespace Traccoon

open CString

/-- The hexadecimal digits, in either letter case. -/
def hexDigits : Bytes := ascii "0123456789abcdefABCDEF"

/-- One byte of a hash as a client may write it: as it stands, or as an escape. -/
inductive EncodedByte where
  | literal (b : UInt8) (h : b ∉ ([37, 38, 32, 0] : Bytes))
  | escape (x y : UInt8) (hx : x ∈ hexDigits) (hy : y ∈ hexDigits)

/-- The value of a hexadecimal digit. -/
def hexVal (x : UInt8) : Nat := (charIndex hexdict (tolower x)).getD 0

def EncodedByte.text : EncodedByte → Bytes
  | .literal b _ => [b]
  | .escape x y _ _ => [37, x, y]

def EncodedByte.value : EncodedByte → UInt8
  | .literal b _ => b
  | .escape x y _ _ => UInt8.ofNat (hexVal x * 16 + hexVal y)

/-- No capital digit. -/
def EncodedByte.Lower : EncodedByte → Prop
  | .literal _ _ => True
  | .escape x y _ _ => x ∈ hexdict ∧ y ∈ hexdict

/-- A percent-encoding, as text. -/
def encodedText (ps : List EncodedByte) : Bytes := ps.flatMap EncodedByte.text

/-- The bytes it encodes. -/
def encodedHash (ps : List EncodedByte) : Bytes := ps.map EncodedByte.value

/-- A digit is one of `hexdict`, or its value is at least ten. -/
theorem charIndex_hexDigit {x : UInt8} (h : x ∈ hexDigits) :
    (charIndex hexdict x = some (hexVal x) ∧ x ∈ hexdict) ∨ (x ∉ hexdict ∧ charIndex hexdict x = none ∧ 10 ≤ hexVal x) := by
  have hall : ∀ x ∈ hexDigits, (charIndex hexdict x = some (hexVal x) ∧ x ∈ hexdict) ∨
      (x ∉ hexdict ∧ charIndex hexdict x = none ∧ 10 ≤ hexVal x) := by decide +kernel
  exact hall x h

theorem hexVal_lt {x : UInt8} (h : x ∈ hexDigits) : hexVal x < 16 := by
  have hall : ∀ x ∈ hexDigits, hexVal x < 16 := by decide +kernel
  exact hall x h

theorem hexDigit_text {x : UInt8} (h : x ∈ hexDigits) : isParamByte x = true ∧ x ≠ 0 := by
  have hall : ∀ x ∈ hexDigits, isParamByte x = true ∧ x ≠ 0 := by decide +kernel
  exact hall x h

/-- The text of an encoding has no byte that ends a parameter. -/
theorem isParamByte_text {ps : List EncodedByte} : ∀ b ∈ encodedText ps, isParamByte b = true := by
  intro b hb
  obtain ⟨p, -, hb⟩ := List.mem_flatMap.1 hb
  cases p with
  | literal c h =>
    obtain rfl := List.mem_singleton.1 hb
    simp only [List.mem_cons, not_or] at h
    simp [isParamByte, h.2.1, h.2.2.1]
  | escape x y hx hy =>
    simp only [EncodedByte.text, List.mem_cons, List.not_mem_nil, or_false] at hb
    rcases hb with rfl | rfl | rfl
    · rfl
    · exact (hexDigit_text hx).1
    · exact (hexDigit_text hy).1

theorem encodedText_cons (p : EncodedByte) (ps : List EncodedByte) : encodedText (p :: ps) = p.text ++ encodedText ps :=
  List.flatMap_cons

/-- A literal byte is not the percent sign. -/
theorem literal_ne {b : UInt8} (h : b ∉ ([37, 38, 32, 0] : Bytes)) : b ≠ 37 := by
  rintro rfl
  exact h List.mem_cons_self

/-- Each byte encoded is counted once, whatever follows the value. -/
theorem decodedStrlenFrom_text (t : Bytes) (ps : List EncodedByte) : ∀ mlen i : Nat, i + (encodedText ps).length = mlen →
    decodedStrlenFrom mlen (encodedText ps ++ t) i = ps.length := by
  induction ps with
  | nil =>
    intro mlen i h
    exact decodedStrlenFrom_done (Nat.le_of_eq h.symm) t
  | cons p ps ih =>
    intro mlen i h
    rw [encodedText_cons, List.length_append] at h
    cases p with
    | literal b hb =>
      simp only [EncodedByte.text, List.length_cons, List.length_nil] at h
      simp only [encodedText_cons, EncodedByte.text, List.cons_append, List.nil_append, decodedStrlenFrom_literal (literal_ne hb)]
      rw [if_pos (by omega), ih mlen (i + 1) (by omega), List.length_cons]
    | escape x y hx hy =>
      simp only [EncodedByte.text, List.length_cons, List.length_nil] at h
      simp only [encodedText_cons, EncodedByte.text, List.cons_append, List.nil_append, decodedStrlenFrom_percent]
      rw [if_pos (by omega), ih mlen (i + 3) (by omega), List.length_cons]

/-- One more byte in front of an encoding, as the decoder meets it. -/
theorem urlDecode_cons (p : EncodedByte) (ps : List EncodedByte) :
    (p.Lower ∧ urlDecode (encodedText (p :: ps)) = (p.value :: (urlDecode (encodedText ps)).1, (urlDecode (encodedText ps)).2)) ∨
    (¬p.Lower ∧ urlDecode (encodedText (p :: ps)) = ([], false)) := by
  cases p with
  | literal b h =>
    left
    refine ⟨trivial, ?_⟩
    rw [encodedText_cons, EncodedByte.text, List.cons_append, List.nil_append, urlDecode]
    · rfl
    · intro x y s hb
      exact absurd hb (literal_ne h)
  | escape x y hx hy =>
    rw [encodedText_cons, EncodedByte.text, List.cons_append, List.cons_append, List.cons_append, List.nil_append, urlDecode]
    rcases charIndex_hexDigit hx with ⟨hcx, hmx⟩ | ⟨hmx, hcx, -⟩
    · rcases charIndex_hexDigit hy with ⟨hcy, hmy⟩ | ⟨hmy, hcy, -⟩
      · exact Or.inl ⟨⟨hmx, hmy⟩, by simp only [hcx, hcy]; rfl⟩
      · exact Or.inr ⟨fun hl => hmy hl.2, by simp only [hcx, hcy]⟩
    · exact Or.inr ⟨fun hl => hmx hl.1, by simp only [hcx]⟩

/-- An encoding without capital digits is decoded to its end; any other up to its first escape with one. -/
theorem urlDecode_text : ∀ ps : List EncodedByte,
    ((∀ p ∈ ps, p.Lower) ∧ urlDecode (encodedText ps) = (encodedHash ps, true)) ∨
    ∃ qs p rs, ps = qs ++ p :: rs ∧ ¬p.Lower ∧ urlDecode (encodedText ps) = (encodedHash qs, false)
  | [] => Or.inl ⟨by simp, rfl⟩
  | p :: ps => by
    rcases urlDecode_cons p ps with ⟨hl, hd⟩ | ⟨hl, hd⟩
    · rcases urlDecode_text ps with ⟨hall, hps⟩ | ⟨qs, q, rs, rfl, hq, hps⟩
      · left
        refine ⟨?_, by rw [hd, hps]; rfl⟩
        intro q hq
        rcases List.mem_cons.1 hq with rfl | hq
        · exact hl
        · exact hall q hq
      · exact Or.inr ⟨p :: qs, q, rs, rfl, hq, by rw [hd, hps]; rfl⟩
    · exact Or.inr ⟨[], p, ps, rfl, hl, hd⟩

/-- An escape with a capital digit does not stand for the percent sign. -/
theorem value_ne_percent {p : EncodedByte} (h : ¬p.Lower) : p.value ≠ 37 := by
  cases p with
  | literal b hb => exact absurd trivial h
  | escape x y hx hy =>
    intro hv
    have h1 := hexVal_lt hx
    have h2 := hexVal_lt hy
    have hn : hexVal x * 16 + hexVal y = 37 := by
      have := congrArg UInt8.toNat hv
      simp only [EncodedByte.value, UInt8.toNat_ofNat', UInt8.reduceToNat] at this
      omega
    rcases charIndex_hexDigit hx with ⟨-, hmx⟩ | ⟨-, -, h10⟩
    · rcases charIndex_hexDigit hy with ⟨-, hmy⟩ | ⟨-, -, h10⟩
      · exact h ⟨hmx, hmy⟩
      · omega
    · omega

/-- The hash that an encoding names for the tracker is the one encoded exactly when no escape has a capital digit. -/
theorem valueHash_text_iff {ps : List EncodedByte} (hlen : ps.length = maxHashLen) :
    valueHash (encodedText ps) = encodedHash ps ↔ ∀ p ∈ ps, p.Lower := by
  have hl : (encodedHash ps).length = maxHashLen := by rw [encodedHash, List.length_map, hlen]
  rcases urlDecode_text ps with ⟨hall, hd⟩ | ⟨qs, p, rs, rfl, hp, hd⟩
  · refine ⟨fun _ => hall, fun _ => ?_⟩
    rw [valueHash, hd]
    simp only [if_true, List.append_nil]
    rw [List.take_of_length_le (by omega)]
  · refine ⟨fun h => ?_, fun h => absurd (h p (by simp)) hp⟩
    exfalso
    have hq : (encodedHash qs).length < maxHashLen := by
      simp only [encodedHash, List.length_map, ← hlen, List.length_append, List.length_cons]
      omega
    have happ : encodedHash (qs ++ p :: rs) = encodedHash qs ++ p.value :: encodedHash rs := by simp [encodedHash]
    rw [valueHash, hd, happ] at h
    -- the byte behind what was decoded: the percent sign, and the byte that the escape stands for
    have hget := congrArg (fun l : Bytes => l[(encodedHash qs).length]?) h
    simp only [Bool.false_eq_true, if_false, List.getElem?_take, if_pos hq] at hget
    rw [List.getElem?_append_right (Nat.le_refl _), List.getElem?_append_right (Nat.le_refl _)] at hget
    simp only [Nat.sub_self, List.getElem?_cons_zero, Option.some.injEq] at hget
    exact value_ne_percent hp hget.symm

/-- A value that is an encoding of twenty bytes passes the length check. -/
theorem value_text {ps : List EncodedByte} (hlen : ps.length = maxHashLen) {t : Bytes} (ht : t = [] ∨ ∃ t', t = 38 :: t') :
    hasHashLength (encodedText ps ++ t) = true ∧ paramValue (encodedText ps ++ t) = encodedText ps := by
  have hp : httpParamLength (encodedText ps ++ t) = (encodedText ps).length := by
    refine httpParamLength_append isParamByte_text ?_
    rcases ht with rfl | ⟨t', rfl⟩
    · simp
    · simp [isParamByte]
  refine ⟨?_, ?_⟩
  · rw [hasHashLength, hp, decodedStrlen, decodedStrlenFrom_text t ps _ 0 (by omega), hlen]
    simp
  · rw [paramValue, hp, List.take_left]

end Traccoon
