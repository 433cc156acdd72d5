import Traccoon.Lemmas.BencDict

/-!
# The keys and values of an encoded dictionary

`benc_dict_key_offset` finds every key by its number, and `benc_dict_value_offset` the value of the first entry with a key, whatever
the strings of the dictionary hold and whatever follows it. The two agree: the value stands behind the key of that number
(`dict_offsets`).
-/

namespace Traccoon

open CString Bencode

/-- Where the entry of number `j` of an encoded dictionary starts: behind the opening letter and the entries before it. -/
def entryOffset (es : List (Bytes × Value)) (j : Nat) : Nat := 1 + (encodeEntries (es.take j)).length

/-- This text stands in the buffer at this offset. -/
def StandsAt (buf : Bytes) (offset : Nat) (e : Bytes) : Prop := ∃ rest, TextAt buf offset (e ++ rest)

namespace DictOffsetsAux

variable {es : List (Bytes × Value)} {j : Nat} {k s : Bytes} {v : Value}

/-- The text from the entry of number `j` on. -/
theorem textAt_entry (s : Bytes) (h : es[j]? = some (k, v)) : ∃ rest,
    TextAt ((Value.dict es).encode ++ s) (entryOffset es j) (encodeStr k ++ (v.encode ++ rest)) := by
  obtain ⟨hes, -⟩ := split_at h
  have h0 := textAt_zero ((Value.dict es).encode ++ s)
  rw [hes] at h0
  have hk := textAt_key h0
  rw [← hes, Int.zero_add] at hk
  exact ⟨_, hk⟩

/-- The entries before the first one with a key have other keys. -/
theorem keys_before (hfirst : ∀ (i : Nat) k' w, i < j → es[i]? = some (k', w) → k' ≠ k) : ∀ e ∈ es.take j, e.1 ≠ k := by
  intro e he
  obtain ⟨i, hi, hie⟩ := List.getElem_of_mem he
  rw [List.length_take] at hi
  refine hfirst i e.1 e.2 (by omega) ?_
  rw [← hie, List.getElem_take]
  exact List.getElem?_eq_getElem (by omega)

end DictOffsetsAux

open DictOffsetsAux

/-- For every dictionary whose encoding is shorter than 2^31 bytes, any bytes behind it, and any fuel from its length on. The key of
number `j` is found where it stands, and is measured; no key is found under a number that no entry has. For a key without NUL, the
value of the first entry with that key is found where it stands, which is behind the key of that number; without such an entry,
nothing is found. -/
theorem dict_offsets (es : List (Bytes × Value)) (s : Bytes) (hlen : (Value.dict es).encode.length < 2147483648) (fuel : Nat)
    (hf : (Value.dict es).encode.length ≤ fuel) :
    (∀ (j : Nat) k v, es[j]? = some (k, v) →
      Benc.dictKeyOffset ((Value.dict es).encode ++ s) fuel 0 j = .ok (entryOffset es j) ∧
      StandsAt ((Value.dict es).encode ++ s) (entryOffset es j) (encodeStr k) ∧
      bencEntityLength ((Value.dict es).encode ++ s) fuel (entryOffset es j) 0 = .ok (encodeStr k).length) ∧
    (∀ j : Int, IsInt32 j → (es.length : Int) ≤ j → Benc.dictKeyOffset ((Value.dict es).encode ++ s) fuel 0 j = .ok (-1)) ∧
    (∀ key, NoNul key →
      (∀ (j : Nat) v, es[j]? = some (key, v) → (∀ i k w, i < j → es[i]? = some (k, w) → k ≠ key) →
        Benc.dictValueOffset ((Value.dict es).encode ++ s) fuel 0 (some key) =
          .ok (entryOffset es j + (encodeStr key).length : Nat) ∧
        StandsAt ((Value.dict es).encode ++ s) (entryOffset es j + (encodeStr key).length) v.encode) ∧
      ((∀ (j : Nat) k v, es[j]? = some (k, v) → k ≠ key) →
        Benc.dictValueOffset ((Value.dict es).encode ++ s) fuel 0 (some key) = .ok (-1))) := by
  have h0 := textAt_zero ((Value.dict es).encode ++ s)
  refine ⟨?_, ?_, ?_⟩
  · intro j k v hj
    obtain ⟨hes, hlj⟩ := split_at hj
    obtain ⟨rest, hrest⟩ := textAt_entry s hj
    have hk := dictKeyOffset_entry h0 hlen hf hes
    rw [hlj] at hk
    have hle : (encodeStr k).length ≤ (Value.dict es).encode.length := by
      rw [encode_dict, hes, encodeEntries_append, encodeEntries]
      simp only [List.length_cons, List.length_append]
      omega
    exact ⟨hk, ⟨_, hrest⟩, (measures (fun _ => True) _ fuel).1 (encodeStr k) _ _ 0 (Entity.str (isStr_encodeStr k)) hrest (by omega)
      (by omega)⟩
  · intro j hj hle
    exact dictKeyOffset_none h0 hlen hf hj hle
  · intro key _
    constructor
    · intro j v hj hfirst
      obtain ⟨hes, -⟩ := split_at hj
      obtain ⟨rest, hrest⟩ := textAt_entry s hj
      exact ⟨dictValueOffset_entry _ h0 hlen hf hes (keys_before hfirst), rest, hrest.move⟩
    · intro hno
      refine dictValueOffset_none h0 hlen hf ?_
      intro e he
      obtain ⟨i, hi, hie⟩ := List.getElem_of_mem he
      exact hno i e.1 e.2 (by rw [← hie]; exact List.getElem?_eq_getElem hi)

namespace DictOffsetsExample

/-- A dictionary with a repeated key and a value that reads like the other key. -/
def entries : List (Bytes × Value) :=
  [(ascii "b", .str (ascii "1:a")), (ascii "a", .list []), (ascii "b", .str [])]

end DictOffsetsExample

open DictOffsetsExample

/-- The key `a` is not taken from the value in front of it, and the key `b` has the first of its two values. -/
theorem dict_offsets_repeated :
    (Value.dict entries).encode = ascii "d1:b3:1:a1:ale1:b0:e" ∧
    Benc.dictKeyOffset (ascii "d1:b3:1:a1:ale1:b0:e" ++ [0]) 20 0 1 = .ok 9 ∧
    Benc.dictValueOffset (ascii "d1:b3:1:a1:ale1:b0:e" ++ [0]) 20 0 (some (ascii "a")) = .ok 12 ∧
    Benc.dictValueOffset (ascii "d1:b3:1:a1:ale1:b0:e" ++ [0]) 20 0 (some (ascii "b")) = .ok 4 ∧
    Benc.dictKeyOffset (ascii "d1:b3:1:a1:ale1:b0:e" ++ [0]) 20 0 3 = .ok (-1) := by
  have henc : (Value.dict entries).encode = ascii "d1:b3:1:a1:ale1:b0:e" := by decide
  have h := dict_offsets entries [0] (by decide) 20 (by decide)
  rw [henc] at h
  obtain ⟨hkey, hno, hvalue⟩ := h
  refine ⟨henc, (hkey 1 (ascii "a") (.list []) rfl).1, ?_, ?_, hno 3 (by decide) (by decide)⟩
  · refine ((hvalue (ascii "a") (by decide)).1 1 (.list []) rfl ?_).1
    intro i k w hi hk
    obtain rfl : i = 0 := by omega
    obtain rfl := (Prod.mk.inj (Option.some.inj hk)).1
    decide
  · refine ((hvalue (ascii "b") (by decide)).1 0 (.str (ascii "1:a")) rfl ?_).1
    intro i k w hi _
    exact absurd hi (Nat.not_lt_zero i)

end Traccoon
