import Traccoon.Lemmas.HashValues

/-!
# The length check and the decoder

`decodedStrlen` looks for the two bytes behind a `%` in the request text, the decoder in the copy of the value. A value that the decoder
decodes to its end is counted as it is decoded, unless it ends in a `%` and one more byte and is not the end of the text: then the count
takes the delimiter for the second digit (`decodedStrlen_eq_iff`).
-/

namespace Traccoon

open CString

/-- The first `n` bytes end in a `%` and one more byte, and the text goes on behind them. -/
def CutEscape (s : Bytes) (n : Nat) : Prop := 2 ≤ n ∧ s[n - 2]? = some 37 ∧ n < s.length

instance (s : Bytes) (n : Nat) : Decidable (CutEscape s n) := inferInstanceAs (Decidable (_ ∧ _))

namespace LengthCheckAux

theorem not_cutEscape_of_lt {s : Bytes} {n : Nat} (h : n < 2) : ¬CutEscape s n := fun hc => by
  have := hc.1
  omega

/-- A byte that is no percent sign in front of a text does not matter. -/
theorem cutEscape_cons {b : UInt8} {s : Bytes} {n : Nat} (hb : b = 37 → s.length < 2) : CutEscape (b :: s) (n + 1) ↔ CutEscape s n := by
  match n with
  | 0 => exact ⟨fun h => absurd h (not_cutEscape_of_lt (by omega)), fun h => absurd h (not_cutEscape_of_lt (by omega))⟩
  | 1 =>
    refine ⟨fun h => ?_, fun h => absurd h (not_cutEscape_of_lt (by omega))⟩
    obtain ⟨-, h37, hlt⟩ := h
    have := hb (by simpa using h37)
    simp only [List.length_cons] at hlt
    omega
  | n + 2 => simp [CutEscape]

/-- What is decoded to its end is counted, a cut escape once instead of twice. -/
theorem decodedStrlenFrom_urlDecode (str : Bytes) (mlen i : Nat) (hle : mlen - i ≤ str.length)
    (h : (urlDecode (str.take (mlen - i))).2 = true) :
    decodedStrlenFrom mlen str i + (if CutEscape str (mlen - i) then 1 else 0) = (urlDecode (str.take (mlen - i))).1.length := by
  fun_induction decodedStrlenFrom mlen str i with
  | case1 =>
    rw [if_neg (not_cutEscape_of_lt (by simp only [List.length_nil] at hle; omega))]
    simp [urlDecode]
  | case2 x y str i hw ih =>
    have hi : i < mlen := by simpa [withinMlen] using hw
    obtain ⟨n, hn⟩ := Nat.exists_eq_add_of_lt hi
    rcases n with _ | _ | n
    · have hidx : mlen - i = 1 := by omega
      rw [hidx, if_neg (not_cutEscape_of_lt (by omega)), decodedStrlenFrom_done (by omega)]
      simp [urlDecode]
    · have hidx : mlen - i = 2 := by omega
      rw [hidx, if_pos ⟨by omega, by simp, by simp⟩, decodedStrlenFrom_done (by omega)]
      simp [urlDecode]
    · have hidx : mlen - i = n + 3 := by omega
      have hidx' : mlen - (i + 3) = n := by omega
      rw [hidx] at hle
      rw [hidx, List.take_succ_cons, List.take_succ_cons, List.take_succ_cons, urlDecode] at h ⊢
      rw [hidx'] at ih
      simp only [List.length_cons] at hle
      split at h
      · rename_i first second hx hy
        -- the digits of an escape are no percent signs
        have hpercent : charIndex hexdict 37 = none := by decide
        have hx37 : x ≠ 37 := by
          rintro rfl
          rw [hpercent] at hx
          cases hx
        have hy37 : y ≠ 37 := by
          rintro rfl
          rw [hpercent] at hy
          cases hy
        have hcut : CutEscape (37 :: x :: y :: str) (n + 3) ↔ CutEscape str n := by
          rcases n with _ | _ | n
          · simp [CutEscape, hx37]
          · simp [CutEscape, hy37]
          · have hget : (37 :: x :: y :: str)[n + 2 + 3 - 2]? = str[n + 2 - 2]? := rfl
            have hlt : n + 2 + 3 < (37 :: x :: y :: str).length ↔ n + 2 < str.length := by
              simp only [List.length_cons]
              omega
            exact and_congr (iff_of_true (by omega) (by omega)) (and_congr (by rw [hget]) hlt)
        have := ih (by omega) h
        simp only [hcut, List.length_cons]
        omega
      · cases h
  | case3 x y str i hw =>
    have hi : mlen ≤ i := by simpa [withinMlen] using hw
    rw [Nat.sub_eq_zero_of_le hi, if_neg (not_cutEscape_of_lt (by omega))]
    simp [urlDecode]
  | case4 b str i hne hw ih =>
    have hi : i < mlen := by simpa [withinMlen] using hw
    have hidx : mlen - i = mlen - (i + 1) + 1 := by omega
    rw [hidx] at hle
    rw [hidx, List.take_succ_cons] at h ⊢
    have hshort : b = 37 → str.length < 2 := by
      rintro rfl
      rcases str with _ | ⟨c, _ | ⟨d, t⟩⟩
      · simp
      · simp
      · exact absurd rfl (hne c d t rfl)
    have hdec : urlDecode (b :: str.take (mlen - (i + 1))) =
        (b :: (urlDecode (str.take (mlen - (i + 1)))).1, (urlDecode (str.take (mlen - (i + 1)))).2) := by
      rw [urlDecode]
      intro x y s hb hs
      have hlen := congrArg List.length hs
      have := hshort hb
      simp only [List.length_take, List.length_cons] at hlen
      omega
    rw [hdec] at h ⊢
    have := ih (by simp only [List.length_cons] at hle; omega) h
    simp only [cutEscape_cons hshort, List.length_cons]
    omega
  | case5 b str i hne hw =>
    have hi : mlen ≤ i := by simpa [withinMlen] using hw
    rw [Nat.sub_eq_zero_of_le hi, if_neg (not_cutEscape_of_lt (by omega))]
    simp [urlDecode]

end LengthCheckAux

/-- For every string `s` and every copy of its value, with a terminator and anything behind: when the decoder returns `k` and does not
fail, the count that the length check makes in `s` is `k` exactly when the value does not end in a cut escape. -/
theorem decodedStrlen_eq_iff (s : Bytes) (hn : NoNul s) (post left : Bytes) (k : Int)
    (hd : destructiveURLDecode (s.take (httpParamLength s) ++ 0 :: post) = some (left, k)) (hk : 0 ≤ k) :
    (decodedStrlen s (httpParamLength s) : Int) = k ↔ ¬CutEscape s (httpParamLength s) := by
  have hle : httpParamLength s ≤ s.length := (List.takeWhile_prefix _).length_le
  have hu : NoNul (s.take (httpParamLength s)) := hn.of_sublist (List.take_sublist _ _)
  have heq := destructiveURLDecode_eq hu post
  rw [hd] at heq
  have hkeq := (Prod.mk.inj (Option.some.inj heq)).2
  have hok : (urlDecode (s.take (httpParamLength s))).2 = true := by
    by_contra hno
    rw [if_neg hno] at hkeq
    omega
  rw [if_pos hok] at hkeq
  have hcount := LengthCheckAux.decodedStrlenFrom_urlDecode s (httpParamLength s) 0 hle hok
  rw [Nat.sub_zero, ← decodedStrlen] at hcount
  rw [hkeq, ← hcount]
  split
  · rename_i hcut
    exact ⟨fun h => by omega, fun h => absurd hcut h⟩
  · rename_i hcut
    exact ⟨fun _ => hcut, fun _ => by omega⟩

namespace LengthCheckExample

/-- Nineteen letters and an escape. -/
def whole : Bytes := ascii "aaaaaaaaaaaaaaaaaaa%26&peer_id="

/-- Nineteen letters, a percent sign and a digit. -/
def cut : Bytes := ascii "aaaaaaaaaaaaaaaaaaa%4&peer_id="

end LengthCheckExample

open LengthCheckExample

/-- An escape that is whole is counted as it is decoded. -/
theorem decodedStrlen_eq_iff_whole : (decodedStrlen whole (httpParamLength whole) : Int) = 20 := by
  refine (decodedStrlen_eq_iff whole (by decide) [] (ascii "aaaaaaaaaaaaaaaaaaa&" ++ [0, 54, 0]) 20 (by decide) (by decide)).2 ?_
  decide

/-- A value that decodes to twenty-one bytes is counted as twenty, and passes the length check. -/
theorem not_decodedStrlen_eq_cut : NoNul cut ∧ httpParamLength cut = 21 ∧
    destructiveURLDecode (cut.take 21 ++ [0]) = some (cut.take 21 ++ [0], 21) ∧ decodedStrlen cut 21 = 20 ∧ hasHashLength cut = true := by
  refine ⟨by decide, by decide, by decide, by decide, by decide⟩

end Traccoon
