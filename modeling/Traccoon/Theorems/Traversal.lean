import Traccoon.Lib.Preorder
import Traccoon.Lemmas.BencDict
import Traccoon.Lemmas.BencList
import Traccoon.Outline

/-!
# What `torrentinfo` visits

On the encoding of a value, `handle_bencoded_node` with `recurse` is called once for everything the value contains, in the order of the
encodings, and what it hashes for each is its encoding (`handleBencodedNode_visits`). The induction is on the value; for the loops, on
the children that are left.
-/

namespace Traccoon

open CString Bencode

namespace Torrentinfo

/-- What is not printed: a call, or bytes that are hashed. -/
def Event.isVisit : Event → Bool
  | .print _ => false
  | _ => true

/-- What the call for a node does: it is entered, and under `display_hash` the encoding is hashed. The walk starts at depth
`recursionDepth` and at `p`. -/
def visit (flags : Flags) (recursionDepth : UInt32) (p : Int) (x : Node) : List Event :=
  .enter (recursionDepth + UInt32.ofNat x.level) (p + x.offset) :: if flags.displayHash then [.sha1 x.value.encode] else []

/-- The call, or loop, visits these nodes and no others, in this order. -/
def Visits (flags : Flags) (recursionDepth : UInt32) (p : Int) (nodes : List Node) (events : List Event) : Prop :=
  events.filter Event.isVisit = nodes.flatMap (visit flags recursionDepth p)

end Torrentinfo

namespace TraversalAux

open Torrentinfo

variable {sha1 : Bytes → Vector UInt8 20} {flags : Flags} {buf : Bytes} {recursionDepth : UInt32} {p : Int} {s : Bytes} {fuel : Nat}

theorem Visits.append {xs ys : List Node} {es fs : List Event} (h : Visits flags recursionDepth p xs es)
    (h' : Visits flags recursionDepth p ys fs) : Visits flags recursionDepth p (xs ++ ys) (es ++ fs) := by
  rw [Visits, List.filter_append, List.flatMap_append, h, h']

theorem Visits.print {xs : List Node} {es : List Event} (t : Bytes) (h : Visits flags recursionDepth p xs es) :
    Visits flags recursionDepth p xs (.print t :: es) := by
  rw [Visits, List.filter_cons_of_neg (by simp [Event.isVisit])]
  exact h

theorem depth_succ (d : UInt32) (level : Nat) : d + UInt32.ofNat level + 1 = d + UInt32.ofNat (level + 1) := by
  rw [UInt32.ofNat_add, ← UInt32.add_assoc]
  rfl

/-- Under `display_hash`, what is hashed is the encoding, and the hash is printed. -/
def hashEvents (sha1 : Bytes → Vector UInt8 20) (flags : Flags) (v : Value) : List Event :=
  if flags.displayHash then [.sha1 v.encode, .print (hexEncode (sha1 v.encode).toList ++ ascii " ")] else []

theorem filter_hashEvents (v : Value) :
    (hashEvents sha1 flags v).filter Event.isVisit = if flags.displayHash then [.sha1 v.encode] else [] := by
  rw [hashEvents]
  split
  · rfl
  · rfl

theorem hashNode_eq (v : Value) (h : TextAt buf p (v.encode ++ s)) (hlen : v.encode.length < 2147483648) (hf : v.encode.length ≤ fuel) :
    hashNode sha1 flags buf fuel p = .ok (hashEvents sha1 flags v, 0) := by
  have hl := (measures _ buf fuel).1 v.encode s p 0 (complete_encode v) h hlen hf
  rw [hashNode, hashEvents]
  split
  · simp only [hl, walk_ok_bind, if_neg (show ¬((v.encode.length : Int) < 0) by omega), bytesAt_eq h]
    rfl
  · rfl

/-- Every byte of a string is there to be printed. -/
theorem stringLoop_eq (deep : Bool) (post : Bytes) : ∀ (t : Bytes) (i : Nat) {q : Int}, TextAt buf q (t ++ post) →
    stringLoop buf deep t.length i q = .ok (shownText deep i t)
  | [], i, q, _ => rfl
  | b :: t, i, q, h => by
    have hb : byteAt buf q = .ok b := TextAt.byteAt (t := t ++ post) h
    have ih := stringLoop_eq deep post t (i + 1) (TextAt.next (t := t ++ post) h)
    rw [List.length_cons, stringLoop, shownText]
    split
    · rfl
    · simp only [hb, walk_ok_bind, ih]
      split
      · rfl
      · rfl

theorem decimalInt_natCast (n : Nat) : decimalInt n = decimal n := by
  rw [decimalInt, if_neg (by omega), Int.natAbs_natCast]

/-- The line of a string. -/
theorem printString_eq {t : Bytes} (d : UInt32) (h : TextAt buf p ((Value.str t).encode ++ s))
    (hlen : (Value.str t).encode.length < 2147483648) :
    printString flags buf d p = .ok ([.print (stringText flags (decide (0 < d)) t)], 0) := by
  have hl := stringLength_encode _ h hlen
  rw [encode_str, encodeStr, List.length_append, List.length_cons] at hlen
  have h' : TextAt buf p (decimal t.length ++ 58 :: (t ++ s)) := by simpa [encode_str, encodeStr] using h
  have ho := stringDataOffset_digits h' (decimal_digits _) (decimal_ne_nil _) (by omega)
  have hdata : TextAt buf (p + ((decimal t.length).length + 1 : Nat)) (t ++ s) := by
    have := h'.move.next
    rwa [show p + ((decimal t.length).length : Int) + 1 = p + ((decimal t.length).length + 1 : Nat) by omega] at this
  have hloop := stringLoop_eq (decide (0 < d)) s t 0 hdata
  simp only [printString, hl, ho, walk_ok_bind, Int.toNat_natCast, hloop, decimalInt_natCast, stringText]
  split
  · rfl
  · rfl

theorem exists_printInt {n : Numeral} (h : TextAt buf p ((Value.int n).encode ++ s)) :
    ∃ out, printInt flags buf p = .ok ([.print out], 0) := by
  rw [Value.encode] at h
  have h' : TextAt buf p (105 :: (minus n.neg ++ (n.digits ++ 101 :: s))) := by simpa using h
  have hv := intValue_eq n.neg n.isDigits (by decide) (fun _ hnil => absurd hnil n.nonempty) h' (-1)
  rw [printInt, hv]
  exact ⟨_, rfl⟩

/-- The call for a node, when the `switch` over its type visits what it contains. -/
theorem exists_handle {v : Value} {level offset : Nat} {below : List Node} (h : TextAt buf (p + offset) (v.encode ++ s))
    (hlen : v.encode.length < 2147483648) (hf : v.encode.length ≤ fuel)
    (hbody : ∃ events, handleType flags buf fuel (handleBencodedNode sha1 flags buf fuel) (recursionDepth + UInt32.ofNat level)
      (p + offset) = .ok (events, 0) ∧ Visits flags recursionDepth p below events) :
    ∃ events, handleBencodedNode sha1 flags buf (fuel + 1) (recursionDepth + UInt32.ofNat level) (p + offset) = .ok (events, 0) ∧
      Visits flags recursionDepth p (⟨level, offset, v⟩ :: below) events := by
  obtain ⟨events, hevents, hvisits⟩ := hbody
  have hhash := @hashNode_eq sha1 flags buf _ s fuel v h hlen hf
  refine ⟨.enter (recursionDepth + UInt32.ofNat level) (p + offset) :: tab (recursionDepth + UInt32.ofNat level) ::
    hashEvents sha1 flags v ++ events, ?_, ?_⟩
  · rw [handleBencodedNode, hhash]
    simp only [walk_ok_bind, if_neg (show ¬(0 : Int) < 0 by decide), hevents]
    rfl
  · refine @Visits.append flags recursionDepth p [⟨level, offset, v⟩] below _ _ ?_ hvisits
    simp only [Visits, List.filter_cons, Event.isVisit, tab, filter_hashEvents, visit, List.flatMap_cons, List.flatMap_nil, List.append_nil,
      if_true, Bool.false_eq_true, if_false]

/-- The keys of an encoded dictionary are counted. -/
theorem countKeys_eq {es : List (Bytes × Value)} (h : TextAt buf p ((Value.dict es).encode ++ s))
    (hlen : (Value.dict es).encode.length < 2147483648) (hf : 2 * (Value.dict es).encode.length ≤ fuel) :
    countKeys buf fuel p = .ok es.length := by
  have hcount := two_mul_length_le es
  have henc : (Value.dict es).encode.length = (encodeEntries es).length + 2 := by
    rw [encode_dict]
    simp
  refine @countFrom_eq _ (Value.dict es).encode.length _ (by omega) ?_ ?_ es.length 0 fuel (by omega) (by omega)
  · intro f i hf' hi
    obtain ⟨hes, htake⟩ := split_at (List.getElem?_eq_getElem hi)
    have hk := dictKeyOffset_entry h hlen hf' hes
    rw [htake] at hk
    exact ⟨_, hk, by omega⟩
  · intro f hf'
    exact ⟨-1, dictKeyOffset_none h hlen hf' ⟨by omega, by omega⟩ (Int.le_refl _), by decide⟩

/-- What is assumed of the recursion below a node. -/
def NodeVisits (sha1 : Bytes → Vector UInt8 20) (flags : Flags) (buf : Bytes) (recursionDepth : UInt32) (p : Int) (v : Value) : Prop :=
  ∀ (level offset fuel : Nat) (s : Bytes), TextAt buf (p + offset) (v.encode ++ s) → v.encode.length < 2147483648 →
    2 * v.encode.length < fuel →
    ∃ events, handleBencodedNode sha1 flags buf fuel (recursionDepth + UInt32.ofNat level) (p + offset) = .ok (events, 0) ∧
      Visits flags recursionDepth p (preorder level offset v) events

/-- The loop over the elements `vs` behind the elements `pre`. -/
def ItemsVisit (sha1 : Bytes → Vector UInt8 20) (flags : Flags) (buf : Bytes) (recursionDepth : UInt32) (p : Int)
    (vs : List Value) : Prop :=
  ∀ (pre : List Value) (level offset fuel : Nat) (s : Bytes), TextAt buf (p + offset) ((Value.list (pre ++ vs)).encode ++ s) →
    (Value.list (pre ++ vs)).encode.length < 2147483648 → 2 * (Value.list (pre ++ vs)).encode.length ≤ fuel →
    ∃ events, itemLoop buf fuel (p + offset) (handleBencodedNode sha1 flags buf fuel (recursionDepth + UInt32.ofNat level)) vs.length
      pre.length = .ok (events, 0) ∧
      Visits flags recursionDepth p (preorderList level (offset + 1 + (encodeList pre).length) vs) events

/-- The loop over the entries `es` behind the entries `pre`. -/
def EntriesVisit (sha1 : Bytes → Vector UInt8 20) (flags : Flags) (buf : Bytes) (recursionDepth : UInt32) (p : Int)
    (es : List (Bytes × Value)) : Prop :=
  ∀ (pre : List (Bytes × Value)) (level offset fuel : Nat) (s : Bytes), TextAt buf (p + offset) ((Value.dict (pre ++ es)).encode ++ s) →
    (Value.dict (pre ++ es)).encode.length < 2147483648 → 2 * (Value.dict (pre ++ es)).encode.length ≤ fuel →
    ∃ events, entryLoop buf fuel (p + offset) (handleBencodedNode sha1 flags buf fuel (recursionDepth + UInt32.ofNat level))
      (handleBencodedNode sha1 flags buf fuel (recursionDepth + UInt32.ofNat (level + 1))) es.length pre.length = .ok events ∧
      Visits flags recursionDepth p (preorderEntries level (offset + 1 + (encodeEntries pre).length) es) events

theorem itemsVisit_nil : ItemsVisit sha1 flags buf recursionDepth p [] := by
  intro pre level offset fuel s _ _ _
  refine ⟨[], rfl, ?_⟩
  rw [preorderList]
  rfl

/-- One round of the loop over a list. -/
theorem itemsVisit_cons {v : Value} {vs : List Value} (hv : NodeVisits sha1 flags buf recursionDepth p v)
    (ih : ItemsVisit sha1 flags buf recursionDepth p vs) : ItemsVisit sha1 flags buf recursionDepth p (v :: vs) := by
  intro pre level offset fuel s h hlen hf
  have hget : (pre ++ v :: vs)[pre.length]? = some v := by simp
  have helem : elementOffset (pre ++ v :: vs) pre.length = 1 + (encodeList pre).length := by simp [elementOffset]
  have hle : v.encode.length + (encodeList pre).length + 2 ≤ (Value.list (pre ++ v :: vs)).encode.length := by
    rw [encode_list, encodeList_append, encodeList]
    simp only [List.length_cons, List.length_append, List.length_nil]
    omega
  have htext := textAt_element h hget
  have hoff := listItemOffset_element h hlen (by omega : (Value.list (pre ++ v :: vs)).encode.length ≤ fuel)
    (by simp : pre.length < (pre ++ v :: vs).length)
  rw [helem] at htext hoff
  have hp : p + (offset : Int) + (1 + (encodeList pre).length : Nat) = p + (offset + 1 + (encodeList pre).length : Nat) := by omega
  rw [hp] at htext
  obtain ⟨events, hcall, hvisits⟩ := hv level (offset + 1 + (encodeList pre).length) fuel _ htext (by omega) (by omega)
  have hassoc : pre ++ v :: vs = pre ++ [v] ++ vs := by simp
  rw [hassoc] at h hlen hf
  obtain ⟨others, hothers, hvisits'⟩ := ih (pre ++ [v]) level offset fuel s h hlen hf
  have hnext : ((pre ++ [v]).length : Int) = pre.length + 1 := by simp
  rw [hnext] at hothers
  refine ⟨events ++ others, ?_, ?_⟩
  · rw [List.length_cons, itemLoop, hoff, walk_ok_bind, hp, hcall, walk_ok_bind]
    simp only [if_neg (show ¬(0 : Int) < 0 by decide), hothers, walk_ok_bind]
    rfl
  · rw [preorderList]
    refine Visits.append hvisits ?_
    rw [encodeList_append, encodeList, encodeList, List.append_nil, List.length_append] at hvisits'
    rwa [Nat.add_assoc (offset + 1)]

theorem entriesVisit_nil : EntriesVisit sha1 flags buf recursionDepth p [] := by
  intro pre level offset fuel s _ _ _
  refine ⟨[], rfl, ?_⟩
  rw [preorderEntries]
  rfl

/-- One round of the loop over a dictionary: the call for the key, and the call for what stands behind it. -/
theorem entriesVisit_cons {k : Bytes} {v : Value} {es : List (Bytes × Value)} (hk : NodeVisits sha1 flags buf recursionDepth p (.str k))
    (hv : NodeVisits sha1 flags buf recursionDepth p v) (ih : EntriesVisit sha1 flags buf recursionDepth p es) :
    EntriesVisit sha1 flags buf recursionDepth p ((k, v) :: es) := by
  intro pre level offset fuel s h hlen hf
  have hle : (encodeEntries pre).length + (encodeStr k).length + v.encode.length + 2 ≤
      (Value.dict (pre ++ (k, v) :: es)).encode.length := by
    rw [encode_dict, encodeEntries_append, encodeEntries]
    simp only [List.length_cons, List.length_append, List.length_nil]
    omega
  have hkey := textAt_key h
  have hvalue := textAt_value pre h
  have hoff := dictKeyOffset_entry h hlen (by omega : (Value.dict (pre ++ (k, v) :: es)).encode.length ≤ fuel) rfl
  have hl := (measures (fun _ => True) buf fuel).1 (encodeStr k) _ _ 0 (Entity.str (isStr_encodeStr k)) hkey (by omega) (by omega)
  have hp : p + (offset : Int) + (1 + (encodeEntries pre).length : Nat) = p + (offset + 1 + (encodeEntries pre).length : Nat) := by omega
  have hp' : p + (offset : Int) + (1 + (encodeEntries pre).length + (encodeStr k).length : Nat) =
      p + (offset + 1 + (encodeEntries pre).length + (encodeStr k).length : Nat) := by omega
  have hsum : int32 ((1 + (encodeEntries pre).length : Nat) + (encodeStr k).length) =
      (1 + (encodeEntries pre).length + (encodeStr k).length : Nat) := by
    rw [int32_of_lt (by omega) (by omega)]
    omega
  rw [hp] at hkey hl
  rw [hp'] at hvalue
  have hkeyEnc : (Value.str k).encode = encodeStr k := encode_str k
  obtain ⟨keyEvents, hkeyCall, hkeyVisits⟩ := hk level (offset + 1 + (encodeEntries pre).length) fuel _ (by rw [hkeyEnc]; exact hkey)
    (by rw [hkeyEnc]; omega) (by rw [hkeyEnc]; omega)
  obtain ⟨valueEvents, hvalueCall, hvalueVisits⟩ := hv (level + 1) (offset + 1 + (encodeEntries pre).length + (encodeStr k).length) fuel _
    hvalue (by omega) (by omega)
  have hassoc : pre ++ (k, v) :: es = pre ++ [(k, v)] ++ es := by simp
  rw [hassoc] at h hlen hf
  obtain ⟨others, hothers, hvisits'⟩ := ih (pre ++ [(k, v)]) level offset fuel s h hlen hf
  have hnext : ((pre ++ [(k, v)]).length : Int) = pre.length + 1 := by simp
  rw [hnext] at hothers
  refine ⟨keyEvents ++ valueEvents ++ others, ?_, ?_⟩
  · simp only [List.length_cons, entryLoop, hoff, walk_ok_bind, hl, hsum, hp, hp', hkeyCall, hvalueCall, hothers]
    rfl
  · rw [preorder] at hkeyVisits
    rw [preorderEntries]
    refine Visits.append (Visits.append hkeyVisits hvalueVisits) ?_
    rw [encodeEntries_append, encodeEntries, encodeEntries, List.append_nil, List.length_append, List.length_append] at hvisits'
    rwa [← Nat.add_assoc, ← Nat.add_assoc] at hvisits'

/-- A string contains nothing but itself. -/
theorem nodeVisits_str (t : Bytes) : NodeVisits sha1 flags buf recursionDepth p (.str t) := by
  intro level offset fuel s h hlen hf
  obtain ⟨f, rfl⟩ : ∃ f, fuel = f + 1 := ⟨fuel - 1, by omega⟩
  rw [preorder]
  refine exists_handle h hlen (by omega) ?_
  have ht : bencEntityType buf (p + offset) = .ok .string := bencEntityType_encode (.str t) h
  rw [handleType, ht, walk_ok_bind]
  exact ⟨_, printString_eq _ h hlen, Visits.print _ rfl⟩

mutual
/-- With `recurse`, every value is visited with all that it contains. -/
theorem nodeVisits (hrec : flags.recurse = true) : ∀ v : Value, NodeVisits sha1 flags buf recursionDepth p v
  | .str t => nodeVisits_str t
  | .int n => by
    intro level offset fuel s h hlen hf
    obtain ⟨f, rfl⟩ : ∃ f, fuel = f + 1 := ⟨fuel - 1, by omega⟩
    rw [preorder]
    refine exists_handle h hlen (by omega) ?_
    obtain ⟨out, hout⟩ := @exists_printInt flags buf _ s n h
    have ht : bencEntityType buf (p + offset) = .ok .int := bencEntityType_encode (.int n) h
    rw [handleType, ht, walk_ok_bind]
    exact ⟨_, hout, Visits.print out rfl⟩
  | .list vs => by
    intro level offset fuel s h hlen hf
    obtain ⟨f, rfl⟩ : ∃ f, fuel = f + 1 := ⟨fuel - 1, by omega⟩
    rw [preorder]
    refine exists_handle h hlen (by omega) ?_
    obtain ⟨events, hloop, hvisits⟩ := itemsVisit hrec vs [] (level + 1) offset f s h hlen (by rw [List.nil_append]; omega)
    have hcount := countItems_eq h hlen (by omega : 2 * (Value.list vs).encode.length ≤ f)
    have ht : bencEntityType buf (p + offset) = .ok .list := bencEntityType_encode (.list vs) h
    rw [handleType, ht, walk_ok_bind]
    refine ⟨printCount flags (ascii "List ") (ascii " entries)") vs.length :: events, ?_, Visits.print _ hvisits⟩
    simp only [handleList, hcount, walk_ok_bind, hrec, if_true, Int.toNat_natCast, depth_succ]
    rw [List.length_nil, Nat.cast_zero] at hloop
    rw [hloop]
    rfl
  | .dict es => by
    intro level offset fuel s h hlen hf
    obtain ⟨f, rfl⟩ : ∃ f, fuel = f + 1 := ⟨fuel - 1, by omega⟩
    rw [preorder]
    refine exists_handle h hlen (by omega) ?_
    obtain ⟨events, hloop, hvisits⟩ := entriesVisit hrec es [] (level + 1) offset f s h hlen (by rw [List.nil_append]; omega)
    have hcount := countKeys_eq h hlen (by omega : 2 * (Value.dict es).encode.length ≤ f)
    have ht : bencEntityType buf (p + offset) = .ok .dict := bencEntityType_encode (.dict es) h
    rw [handleType, ht, walk_ok_bind]
    refine ⟨printCount flags (ascii "Dict ") (ascii " keys)") es.length :: events, ?_, Visits.print _ hvisits⟩
    have hdepth : recursionDepth + UInt32.ofNat level + 2 = recursionDepth + UInt32.ofNat (level + 1 + 1) := by
      rw [← depth_succ, ← depth_succ]
      exact (UInt32.add_assoc _ 1 1).symm
    rw [List.length_nil, Nat.cast_zero] at hloop
    simp only [handleDict, hcount, walk_ok_bind, hrec, not_true_eq_false, and_false, if_false, if_true, Int.toNat_natCast, depth_succ,
      hdepth]
    rw [hloop]
    rfl

theorem itemsVisit (hrec : flags.recurse = true) : ∀ vs : List Value, ItemsVisit sha1 flags buf recursionDepth p vs
  | [] => itemsVisit_nil
  | v :: vs => itemsVisit_cons (nodeVisits hrec v) (itemsVisit hrec vs)

theorem entriesVisit (hrec : flags.recurse = true) : ∀ es : List (Bytes × Value), EntriesVisit sha1 flags buf recursionDepth p es
  | [] => entriesVisit_nil
  | (k, v) :: es => entriesVisit_cons (nodeVisits_str k) (nodeVisits hrec v) (entriesVisit hrec es)
end

end TraversalAux

open Torrentinfo

/-- For every value whose encoding is shorter than 2^31 bytes, at the start of a node, any bytes behind it, and any fuel from twice its
length on: with `recurse` the call returns 0. The calls made are those for the nodes of the value, each before what it contains and a key
directly before its value, and under `display_hash` each has its encoding hashed. The nodes are what the value contains, each once, and
the encoding of each stands where the call is made. -/
theorem handleBencodedNode_visits (sha1 : Bytes → Vector UInt8 20) (flags : Flags) (hrec : flags.recurse = true) {buf : Bytes} {p : Int}
    (recursionDepth : UInt32) (v : Value) (s : Bytes) (h : TextAt buf p (v.encode ++ s)) (hlen : v.encode.length < 2147483648) (fuel : Nat)
    (hf : 2 * v.encode.length < fuel) :
    (∃ events, handleBencodedNode sha1 flags buf fuel recursionDepth p = .ok (events, 0) ∧
      events.filter Event.isVisit = (preorder 0 0 v).flatMap fun x =>
        .enter (recursionDepth + UInt32.ofNat x.level) (p + x.offset) :: if flags.displayHash then [.sha1 x.value.encode] else []) ∧
    (preorder 0 0 v).Pairwise (fun x y => x.offset < y.offset) ∧
    (∀ n w, (∃ x ∈ preorder 0 0 v, x.offset = n ∧ x.value = w) ↔ Occurs v n w) ∧
    ∀ n w, Occurs v n w → ∃ rest, TextAt buf (p + n) (w.encode ++ rest) := by
  refine ⟨?_, pairwise_preorder v 0 0, ?_, ?_⟩
  · have h0 : TextAt buf (p + (0 : Nat)) (v.encode ++ s) := by simpa using h
    obtain ⟨events, hcall, hvisits⟩ := @TraversalAux.nodeVisits sha1 flags buf recursionDepth p hrec v 0 0 fuel s h0 hlen hf
    refine ⟨events, ?_, hvisits⟩
    have hdepth : recursionDepth + UInt32.ofNat 0 = recursionDepth := UInt32.add_zero _
    rw [hdepth] at hcall
    simpa using hcall
  · intro n w
    have hiff := mem_preorder_iff v w 0 0 n
    rwa [Nat.zero_add] at hiff
  · intro n w hw
    obtain ⟨a, b, hab, rfl⟩ := hw.text
    rw [hab, List.append_assoc, List.append_assoc] at h
    exact ⟨_, h.move⟩

namespace TraversalExample

/-- A dictionary with a list under its key. -/
def value : Value := .dict [(ascii "a", .list [.str [], .str (ascii "e")])]

/-- All is displayed, and what a node contains as well. -/
def flags : Flags := { recurse := true, displayHash := true, displayType := true, displayValues := true }

/-- Some function in the place of the hash. -/
def noHash : Bytes → Vector UInt8 20 := fun _ => .replicate 20 0

end TraversalExample

open TraversalExample

/-- The second string of the list is hashed last, three levels below the dictionary. -/
theorem handleBencodedNode_visits_list :
    ∃ events, handleBencodedNode noHash flags (ascii "d1:al0:1:eee") 30 0 0 = .ok (events, 0) ∧
      events.filter Event.isVisit = [.enter 0 0, .sha1 (ascii "d1:al0:1:eee"), .enter 1 1, .sha1 (ascii "1:a"), .enter 2 4,
        .sha1 (ascii "l0:1:ee"), .enter 3 5, .sha1 (ascii "0:"), .enter 3 7, .sha1 (ascii "1:e")] := by
  have henc : value.encode = ascii "d1:al0:1:eee" := by decide
  have h := handleBencodedNode_visits noHash flags rfl 0 value [] (textAt_zero _) (by decide) 30 (by decide)
  rw [List.append_nil, henc] at h
  obtain ⟨⟨events, hcall, hvisits⟩, -⟩ := h
  refine ⟨events, hcall, ?_⟩
  rw [hvisits]
  decide

end Traccoon
