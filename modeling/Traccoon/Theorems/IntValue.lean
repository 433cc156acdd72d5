import Traccoon.Lemmas.BencScan
import Traccoon.Lemmas.BencWalk

/-!
# Reading a bencoded integer back

`benc_int_value` counts the characters between `i` and `e` and takes one of them for none. So every integer comes back except the
ones written with a single digit and no sign; a buffer that starts with no integer gives the default (`intValue_iff`).
-/

namespace Traccoon

open CString Bencode

/-- The buffer starts with a well-formed integer. -/
def StartsInt (b : Bytes) : Prop :=
  ∃ neg ds rest, Digits ds ∧ ds ≠ [] ∧ b = 105 :: (minus neg ++ ds ++ 101 :: rest)

namespace IntValueAux

/-- A buffer without a well-formed integer in front gives the default. -/
theorem intValue_other {b : Bytes} (h : ¬StartsInt b) (defval : Int) : Benc.intValue (b ++ [0]) 0 defval = .ok defval := by
  rcases bencEntityType_cases (textAt_zero (b ++ [0])) with ⟨t, -, ht⟩ | ⟨t, -, ht⟩ | ⟨t, rfl, -⟩ | ⟨-, ht⟩ | ht
  · simp only [Benc.intValue, ht, walk_ok_bind]
    rfl
  · simp only [Benc.intValue, ht, walk_ok_bind]
    rfl
  · obtain ⟨neg, ds, c, u, hu, hd, hc, hs⟩ := exists_sign_digits t
    rw [intValue_eq neg hd hc hs (by rw [← hu]; exact textAt_zero _), if_pos]
    by_contra hcon
    obtain ⟨hlen, rfl⟩ := not_or.1 hcon |>.imp_right not_not.1
    obtain ⟨rest, rfl, -⟩ := split_before_nul (a := minus neg ++ ds) (by rw [hu, List.append_assoc]) (by decide)
    refine h ⟨neg, ds, rest, hd, ?_, rfl⟩
    rintro rfl
    cases neg <;> simp [minus] at hlen
  · simp only [Benc.intValue, ht, walk_ok_bind]
    rfl
  · simp only [Benc.intValue, ht, walk_ok_bind]
    rfl

end IntValueAux

open IntValueAux

/-- An `int` in its bencoding, with any bytes behind it, is read back for the negative numbers and those from ten on; a number with a
single digit gives the default, and so does every buffer that does not start with a well-formed integer. -/
theorem intValue_iff (defval : Int) :
    (∀ n : Int, IsInt32 n → ∀ s : Bytes, Benc.intValue (encodeInt n ++ s) 0 defval = .ok n ↔ n < 0 ∨ 9 < n ∨ defval = n) ∧
    ∀ b : Bytes, ¬StartsInt b → Benc.intValue (b ++ [0]) 0 defval = .ok defval := by
  constructor
  · intro n hn s
    rw [intValue_encodeInt hn (textAt_zero _)]
    by_cases h : n < 0 ∨ 9 < n
    · rw [if_pos h]
      exact ⟨fun _ => h.imp_right Or.inl, fun _ => rfl⟩
    · rw [if_neg h, Except.ok.injEq, ← or_assoc]
      exact ⟨Or.inr, fun h' => h'.resolve_left h⟩
  · intro b h
    exact intValue_other h defval

/-- Thirty minutes, as an announce interval, come back; a text that is no integer gives the default. -/
theorem intValue_iff_interval :
    Benc.intValue (ascii "i1800e") 0 (-1) = .ok 1800 ∧ Benc.intValue (ascii "ie" ++ [0]) 0 (-1) = .ok (-1) := by
  refine ⟨?_, ?_⟩
  · exact ((intValue_iff (-1)).1 1800 ⟨by decide, by decide⟩ []).2 (Or.inr (Or.inl (by decide)))
  · refine (intValue_iff (-1)).2 (ascii "ie") ?_
    rintro ⟨neg, ds, rest, -, hne, h⟩
    have hlen := congrArg List.length h
    have hpos := List.length_pos_iff.2 hne
    simp [ascii] at hlen
    omega

/-- Five seeds are read as the default. -/
theorem not_intValue_five : encodeInt 5 = ascii "i5e" ∧ Benc.intValue (encodeInt 5 ++ ascii "10:incompletei12e") 0 (-1) = .ok (-1) ∧
    Benc.intValue (encodeInt 5 ++ ascii "10:incompletei12e") 0 (-1) ≠ .ok 5 := by
  refine ⟨by decide, by decide, by decide⟩

end Traccoon
