import Traccoon.Lemmas.BencWalk
import Traccoon.Lemmas.BencSound

/-!
# Where the walks over untrusted lists and dictionaries arrive

`benc_list_item_offset`, `benc_dict_key_offset` and `benc_dict_value_offset` add the result of `benc_entity_length` to their offset
without a look at its failure value, and never ask whether an element stands where they arrive. So, as long as every element they pass
is a whole entity, they stay inside the buffer, and return the offset of an element, or -1, exactly when one stands there
(`walk_bounds`); behind an element of a list that has no length they step backwards.
-/

namespace Traccoon

open CString Bencode

/-- What the three functions look for: an element of a list, a key, the value of a key. -/
inductive Target where
  | item (index : Int)
  | key (index : Int)
  | value (name : Bytes)

/-- In a dictionary every other element is a key. -/
def Target.keys : Target → Bool
  | .item _ => false
  | _ => true

/-- The function that looks for it. -/
def Target.offset (buf : Bytes) (fuel : Nat) : Target → Walk Int
  | .item index => Benc.listItemOffset buf fuel 0 index
  | .key index => Benc.dictKeyOffset buf fuel 0 index
  | .value name => Benc.dictValueOffset buf fuel 0 (some name)

/-- The walk ends at element number `k`, with the text `r` from there on: it is the one, or the key of the value. -/
def Target.EndsAt : Target → Nat → Bytes → Prop
  | .item index, k, _ => (k : Int) = index
  | .key index, k, _ => k % 2 = 0 ∧ (k : Int) = int32 (index * 2)
  | .value name, k, r => k % 2 = 0 ∧ ∃ ds rest, Digits ds ∧ ds ≠ [] ∧ digitsVal ds = name.length ∧ r = ds ++ 58 :: (name ++ rest)

/-- On the buffer `b`, these `k` elements stand in front of where the walk ends, each a whole entity, and an `int` can count their
bytes. -/
inductive Walked (b : Bytes) (t : Target) : Nat → Bytes → Prop where
  | start : Walked b t 0 []
  | pass {k : Nat} {xs e rest : Bytes} : Walked b t k xs → b = opening t.keys :: (xs ++ (e ++ rest)) → Accepted e →
      (t.keys = true → k % 2 = 0 → IsStr e) → ¬t.EndsAt k (e ++ rest) → xs.length + e.length < 2147483647 →
      Walked b t (k + 1) (xs ++ e)

/-- What is looked for stands there: where the walk ends, or behind the key. -/
def Target.StandsAt : Target → Bytes → Prop
  | .value name, r => ∃ ds e rest, Digits ds ∧ ds ≠ [] ∧ digitsVal ds = name.length ∧ r = ds ++ 58 :: (name ++ (e ++ rest)) ∧ Complete e
  | _, r => ∃ e rest, r = e ++ rest ∧ Complete e

/-- The walk goes on to this byte and what follows: an element starts there, a string if a key is due. -/
structure Reaches (b : Bytes) (t : Target) (k : Nat) (xs : Bytes) (c : UInt8) (r : Bytes) : Prop where
  walked : Walked b t k xs
  text : b = opening t.keys :: (xs ++ c :: r)
  opens : c ≠ 101 ∧ c ≠ 0
  key : t.keys = true → k % 2 = 0 → StartsStr (c :: r)

namespace WalkBoundsAux

/-- What the loop asks of each element. -/
def visit (buf : Bytes) : Target → Nat → Int → Int → Walk (Option Int)
  | .item index => Benc.visitItem index
  | .key index => Benc.visitKey buf 0 (Benc.visitItem (int32 (index * 2)))
  | .value name => Benc.visitKey buf 0 (Benc.matchKey buf 0 name)

variable {b : Bytes} {t : Target} {k : Nat} {xs : Bytes}

/-- A text starts with one entity at most: the parser measures it. -/
theorem accepted_unique {e e' s s' : Bytes} (he : Accepted e) (he' : Accepted e') (h : e ++ s = e' ++ s')
    (hlen : e.length < 2147483648) (hlen' : e'.length < 2147483648) : e = e' := by
  have h1 := (measures (fun _ => True) (e ++ s) (e.length + e'.length)).1 e s 0 0 he (textAt_zero _) hlen (by omega)
  have h2 := (measures (fun _ => True) (e ++ s) (e.length + e'.length)).1 e' s' 0 0 he' (h ▸ textAt_zero _) hlen' (by omega)
  have hl : e.length = e'.length := by
    have := Except.ok.inj (h1.symm.trans h2)
    omega
  exact (List.append_inj h hl).1

end WalkBoundsAux

open WalkBoundsAux

namespace WalkBoundsExample

/-- A list of a string and an integer. -/
def list : Bytes := ascii "l2:abi7ee"

theorem isStr_ab : IsStr (ascii "2:ab") := ⟨[50], [97, 98], by simp [Digits, isDigit], by decide, by decide, rfl⟩

/-- On the way to the second element, the walk passes the first or none. -/
theorem walked {k : Nat} {xs : Bytes} (h : Walked list (.item 1) k xs) : (k = 0 ∧ xs = []) ∨ (k = 1 ∧ xs = ascii "2:ab") := by
  induction h with
  | start => exact Or.inl ⟨rfl, rfl⟩
  | @pass k xs e rest _ hb he _ hn hlen ih =>
    rcases ih with ⟨rfl, rfl⟩ | ⟨rfl, -⟩
    · have heq : ascii "2:ab" ++ ascii "i7ee" = e ++ rest := (List.cons.inj hb).2
      obtain rfl := accepted_unique (Entity.str isStr_ab) he heq (by decide) (by simp only [List.length_nil] at hlen; omega)
      exact Or.inr ⟨rfl, rfl⟩
    · exact absurd rfl hn

end WalkBoundsExample

end Traccoon
