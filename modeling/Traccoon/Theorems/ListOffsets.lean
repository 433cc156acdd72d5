import Traccoon.Getpeers
import Traccoon.Lemmas.BencList

/-!
# The elements of an encoded list

`benc_list_item_offset` finds every element of an encoded list by its number, whatever the elements hold and whatever follows the list,
and nothing under any other number. So the loops of `torrentinfo` and `getpeers` that go on while an offset is positive look at each
element once, in order, and stop behind the last (`list_offsets`).
-/

namespace Traccoon

open CString Bencode

namespace ListOffsetsAux

variable {buf : Bytes} {p : Int} {vs : List Value} {s : Bytes} {total : Nat}

/-- The loop of `getpeers` from the element of number `j` on. The induction is on how many elements are left. -/
theorem listedPeers_eq (h : TextAt buf p ((Value.list vs).encode ++ s)) (hlen : (Value.list vs).encode.length < 2147483648)
    (hf : (Value.list vs).encode.length + vs.length < total) : ∀ (k j : Nat) (itemOffset : Int), j + k = vs.length →
    Benc.listItemOffset buf total p j = .ok itemOffset →
    Getpeers.listedPeers buf p (total - j) j itemOffset =
      ((List.range' j k).mapM fun i => Getpeers.listedPeer buf (total - (i + 1)) (p + elementOffset vs i)).map List.flatten := by
  have hcount := length_le_encodeList vs
  have henc : (Value.list vs).encode.length = (encodeList vs).length + 2 := by
    rw [encode_list]
    simp
  intro k
  induction k with
  | zero =>
    intro j itemOffset hj hoff
    obtain ⟨f, hfuel⟩ : ∃ f, total - j = f + 1 := ⟨total - j - 1, by omega⟩
    rw [listItemOffset_none h hlen (by omega) (by omega), Except.ok.injEq] at hoff
    rw [hfuel, ← hoff, Getpeers.listedPeers, if_neg (by decide)]
    rfl
  | succ k ih =>
    intro j itemOffset hj hoff
    obtain ⟨f, hfuel⟩ : ∃ f, total - j = f + 1 := ⟨total - j - 1, by omega⟩
    have hnext : ∃ next, Benc.listItemOffset buf f p ((j + 1 : Nat) : Int) = .ok next ∧
        Benc.listItemOffset buf total p ((j + 1 : Nat) : Int) = .ok next := by
      by_cases hlast : j + 1 < vs.length
      · exact ⟨_, listItemOffset_element h hlen (by omega) hlast, listItemOffset_element h hlen (by omega) hlast⟩
      · exact ⟨-1, listItemOffset_none h hlen (by omega) (by omega), listItemOffset_none h hlen (by omega) (by omega)⟩
    obtain ⟨next, hf', htotal⟩ := hnext
    rw [listItemOffset_element h hlen (by omega) (by omega), Except.ok.injEq] at hoff
    have hpos : (0 : Int) < elementOffset vs j := by unfold elementOffset; omega
    have hrest := ih (j + 1) next (by omega) htotal
    rw [show total - (j + 1) = f by omega] at hrest
    rw [hfuel, ← hoff, Getpeers.listedPeers, if_pos hpos, int32_of_lt (by omega) (by omega), List.range'_succ, List.mapM_cons,
      show total - (j + 1) = f by omega]
    rw [show ((j : Int) + 1) = ((j + 1 : Nat) : Int) by omega]
    cases hone : Getpeers.listedPeer buf f (p + elementOffset vs j) with
    | error e => rfl
    | ok lines =>
      simp only [walk_ok_bind, hf', hrest]
      cases (List.range' (j + 1) k).mapM fun i => Getpeers.listedPeer buf (total - (i + 1)) (p + elementOffset vs i) with
      | error e => rfl
      | ok others => rfl

/-- The recursion of `torrentinfo` from the element of number `j` on. -/
theorem itemLoop_eq (h : TextAt buf p ((Value.list vs).encode ++ s)) (hlen : (Value.list vs).encode.length < 2147483648)
    (hf : (Value.list vs).encode.length ≤ total) {node : Int → Walk Torrentinfo.Trace} {events : Nat → List Torrentinfo.Event}
    (hnode : ∀ i < vs.length, ∃ r : Int, node (p + elementOffset vs i) = .ok (events i, r) ∧ 0 ≤ r) : ∀ k j : Nat, j + k = vs.length →
    ∃ r : Int, Torrentinfo.itemLoop buf total p node k j = .ok ((List.range' j k).flatMap events, r) ∧ 0 ≤ r := by
  intro k
  induction k with
  | zero =>
    intro j _
    exact ⟨0, rfl, Int.le_refl 0⟩
  | succ k ih =>
    intro j hj
    obtain ⟨r, hr, hr0⟩ := hnode j (by omega)
    obtain ⟨r', hr', hr0'⟩ := ih (j + 1) (by omega)
    refine ⟨r', ?_, hr0'⟩
    rw [Torrentinfo.itemLoop, listItemOffset_element h hlen hf (by omega), walk_ok_bind, hr, walk_ok_bind]
    simp only [if_neg (show ¬r < 0 by omega), List.range'_succ, List.flatMap_cons]
    rw [show ((j : Int) + 1) = ((j + 1 : Nat) : Int) by omega, hr']
    rfl

end ListOffsetsAux

open ListOffsetsAux

/-- For every list whose encoding is shorter than 2^31 bytes, anywhere in a buffer, and any fuel from twice its length on. The element of
number `j` is found where it stands, and nothing is found under a number that no element has. `torrentinfo` counts the elements, and its
calls for the elements it has counted are made for each element once, in order. `getpeers` looks at each element once, in order, and
prints what it makes of each. -/
theorem list_offsets {buf : Bytes} {p : Int} (vs : List Value) (s : Bytes) (h : TextAt buf p ((Value.list vs).encode ++ s))
    (hlen : (Value.list vs).encode.length < 2147483648) (fuel : Nat) (hf : 2 * (Value.list vs).encode.length ≤ fuel) :
    (∀ (j : Nat) v, vs[j]? = some v → Benc.listItemOffset buf fuel p j = .ok (elementOffset vs j) ∧
      ∃ rest, TextAt buf (p + elementOffset vs j) (v.encode ++ rest)) ∧
    (∀ j : Int, (vs.length : Int) ≤ j → Benc.listItemOffset buf fuel p j = .ok (-1)) ∧
    Torrentinfo.countItems buf fuel p = .ok vs.length ∧
    (∀ (node : Int → Walk Torrentinfo.Trace) (events : Nat → List Torrentinfo.Event),
      (∀ i < vs.length, ∃ r : Int, node (p + elementOffset vs i) = .ok (events i, r) ∧ 0 ≤ r) →
      ∃ r : Int, Torrentinfo.itemLoop buf fuel p node vs.length 0 = .ok ((List.range vs.length).flatMap events, r) ∧ 0 ≤ r) ∧
    Getpeers.listFormat buf fuel p =
      ((List.range vs.length).mapM fun i => Getpeers.listedPeer buf (fuel - (i + 1)) (p + elementOffset vs i)).map fun lines =>
        .text (ascii "\tPeers (received in non-compact format):\n") :: lines.flatten := by
  have hcount := length_le_encodeList vs
  have henc : (Value.list vs).encode.length = (encodeList vs).length + 2 := by
    rw [encode_list]
    simp
  refine ⟨?_, ?_, countItems_eq h hlen hf, ?_, ?_⟩
  · intro j v hj
    obtain ⟨hlt, -⟩ := List.getElem?_eq_some_iff.1 hj
    exact ⟨listItemOffset_element h hlen (by omega) hlt, _, textAt_element h hj⟩
  · intro j hj
    exact listItemOffset_none h hlen (by omega) hj
  · intro node events hnode
    rw [List.range_eq_range']
    exact itemLoop_eq h hlen (by omega) hnode vs.length 0 (by omega)
  · have hfirst : ∃ first, Benc.listItemOffset buf fuel p 0 = .ok first := by
      by_cases hne : 0 < vs.length
      · exact ⟨_, listItemOffset_element h hlen (by omega) hne⟩
      · exact ⟨-1, listItemOffset_none h hlen (by omega) (by omega)⟩
    obtain ⟨first, hfirst⟩ := hfirst
    have hloop := listedPeers_eq h hlen (by omega) vs.length 0 first (by omega) hfirst
    simp only [Nat.sub_zero, Nat.cast_zero] at hloop
    rw [Getpeers.listFormat, hfirst, walk_ok_bind, hloop, List.range_eq_range']
    cases (List.range' 0 vs.length).mapM fun i => Getpeers.listedPeer buf (fuel - (i + 1)) (p + elementOffset vs i) with
    | error e => rfl
    | ok lines => rfl

namespace ListOffsetsExample

/-- A list whose elements hold the closing letter, a NUL and a list. -/
def elements : List Value := [.str [101, 0], .list [.str (ascii "e")], .int (Numeral.ofInt (-3))]

end ListOffsetsExample

open ListOffsetsExample

/-- The element that is itself a list is found behind the string, and no fourth element is. -/
theorem list_offsets_nested : Benc.listItemOffset (ascii "l2:e" ++ 0 :: ascii "l1:eei-3ee") 30 0 1 = .ok 5 ∧
    Benc.listItemOffset (ascii "l2:e" ++ 0 :: ascii "l1:eei-3ee") 30 0 3 = .ok (-1) := by
  have henc : (Value.list elements).encode = ascii "l2:e" ++ 0 :: ascii "l1:eei-3ee" := by decide
  have h := list_offsets elements [] (textAt_zero _) (by decide) 30 (by decide)
  rw [henc, List.append_nil] at h
  exact ⟨(h.1 1 (.list [.str (ascii "e")]) rfl).1, h.2.1 3 (by decide)⟩

end Traccoon
