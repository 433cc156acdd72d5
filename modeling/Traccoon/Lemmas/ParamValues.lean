import Traccoon.Lib.Query
import Traccoon.Lemmas.HashValues

/-!
# What a parameter's value makes of the request

The pointers that `parseSocket` takes run on to the end of the request target. All fields but one depend on the value alone, since an
`&` ends a number, an event and a copy. The length check does not: its count takes two bytes behind a `%` that may not belong to the
value.
-/

namespace Traccoon

open CString Query

variable {v tail : Bytes} {last : Prop}

theorem infoHash_text : ∀ b ∈ ascii "info_hash", b ∉ separators := by decide +kernel

theorem peerId_text : ∀ b ∈ ascii "peer_id", b ∉ separators := by decide +kernel

theorem port_text : ∀ b ∈ ascii "port", b ∉ separators := by decide +kernel

theorem isParamByte_value (p : Param) : ∀ b ∈ p.value, isParamByte b = true := by
  intro b hb
  have h := p.value_text b hb
  simp only [separators, List.mem_cons, not_or] at h
  simp [isParamByte, h.1, h.2.2.1]

theorem httpParamLength_behind (hv : ∀ b ∈ v, isParamByte b = true) (hb : Behind last tail) :
    httpParamLength (v ++ tail) = v.length := by
  refine httpParamLength_append hv ?_
  rcases hb with hl | ⟨-, u, -⟩
  · simp
  · simp [isParamByte]

theorem strtoul_behind (v : Bytes) (hb : Behind last tail) : strtoul (v ++ tail) = strtoul v := by
  rcases hb with hl | ⟨-, u, -⟩
  · rw [List.append_nil]
  · exact strtoul_append_cons (by decide) (by decide) (by decide) (by decide) v u

theorem copyParam_behind (hv : ∀ b ∈ v, isParamByte b = true) (hb : Behind last tail) : copyParam (v ++ tail) = copyParam v := by
  have h := httpParamLength_behind hv hb
  have h0 : httpParamLength v = v.length := by
    simpa using httpParamLength_append hv (t := []) (by simp)
  simp [copyParam, strncpy, h, h0]

theorem parseEvent_behind (v : Bytes) (hb : Behind last tail) : parseEvent (some (v ++ tail)) = parseEvent (some v) := by
  rcases hb with hl | ⟨-, u, -⟩
  · rw [List.append_nil]
  · have hst : ascii "st" = [115, 116] := rfl
    have hco : ascii "co" = [99, 111] := rfl
    match v with
    | [] => simp [parseEvent, hst, hco]
    | [a] => simp [parseEvent, hst, hco]
    | [a, b] => simp [parseEvent]
    | a :: b :: c :: w => simp [parseEvent, hst, hco]

/-! ## The length check -/

/-- Of what follows a value the count depends on whether there are two bytes. -/
theorem decodedStrlenFrom_append (x y x' y' : UInt8) (t t' : Bytes) : ∀ (v : Bytes) (mlen i : Nat), mlen = i + v.length →
    decodedStrlenFrom mlen (v ++ x :: y :: t) i = decodedStrlenFrom mlen (v ++ x' :: y' :: t') i
  | [], mlen, i, h => by
    simp only [List.length_nil] at h
    rw [decodedStrlenFrom_done (by omega), decodedStrlenFrom_done (by omega)]
  | b :: v, mlen, i, h => by
    simp only [List.length_cons] at h
    by_cases hb : b = 37
    · subst hb
      match v, h with
      | [], h | [c], h =>
        -- the escape is cut, and the two bytes behind the sign end the count
        simp only [List.length_cons, List.length_nil] at h
        simp only [List.cons_append, List.nil_append, decodedStrlenFrom_percent]
        rw [decodedStrlenFrom_done (by omega), decodedStrlenFrom_done (by omega)]
      | c :: d :: v, h =>
        simp only [List.length_cons] at h
        simp only [List.cons_append, decodedStrlenFrom_percent,
          decodedStrlenFrom_append x y x' y' t t' v mlen (i + 3) (by omega)]
    · simp only [List.cons_append, decodedStrlenFrom_literal hb,
        decodedStrlenFrom_append x y x' y' t t' v mlen (i + 1) (by omega)]

/-- The length check of a value that ends the query, or that another parameter follows. -/
def lengthCheck (last : Bool) (v : Bytes) : Bool := hasHashLength (if last then v else v ++ ascii "&=")

theorem hasHashLength_behind [Decidable last] (hv : ∀ b ∈ v, isParamByte b = true) (hb : Behind last tail) :
    hasHashLength (v ++ tail) = lengthCheck (decide last) v := by
  have h1 := httpParamLength_behind hv hb
  rcases hb with hl | ⟨hl, u, hu⟩
  · simp [lengthCheck, hl]
  · have hb' : Behind False (ascii "&=") := Behind.followed id [61] (by simp)
    have h2 := httpParamLength_behind hv hb'
    obtain ⟨x, u, rfl⟩ := List.exists_cons_of_ne_nil hu
    simp only [lengthCheck, hl, decide_false, Bool.false_eq_true, if_false, hasHashLength, h1, h2, decodedStrlen]
    rw [decodedStrlenFrom_append 38 x 38 61 u [] v v.length 0 (by omega)]
    rfl

end Traccoon
