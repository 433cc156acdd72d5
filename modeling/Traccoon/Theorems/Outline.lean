import Traccoon.Outline
import Traccoon.Theorems.NodePaths
import Traccoon.Theorems.ReadReplies
import Traccoon.Theorems.Traversal

/-!
# What `torrentinfo` prints

Whatever the flags and whatever the path, `torrentinfo` prints the outline of the value it is led to, behind what it reports about the
tokens that lead nowhere (`displayFile_prints`). The numbers in it are those that `benc_int_value` makes of the value's. As in the visits,
the induction is on the value, and for the loops on the children that are left; how deep a value stands is bounded by the bytes in front
of it, so the `int` of `tab` holds it.
-/

namespace Traccoon

open CString Bencode Getpeers Torrentinfo

namespace OutlineAux

open TraversalAux

variable {sha1 : Bytes → Vector UInt8 20} {flags : Flags} {buf s : Bytes} {p : Int} {fuel level : Nat}

@[simp] theorem printed_nil : printed [] = [] := rfl

@[simp] theorem printed_append (es fs : List Event) : printed (es ++ fs) = printed es ++ printed fs := List.flatMap_append

@[simp] theorem printed_print (t : Bytes) (es : List Event) : printed (.print t :: es) = t ++ printed es := rfl

@[simp] theorem printed_enter (d : UInt32) (q : Int) (es : List Event) : printed (.enter d q :: es) = printed es := rfl

@[simp] theorem printed_sha1 (data : Bytes) (es : List Event) : printed (.sha1 data :: es) = printed es := rfl

/-! ## Lines -/

theorem printed_tab (h : level < 2147483648) : printed [tab (UInt32.ofNat level)] = List.replicate level 9 := by
  have hmod : (UInt32.ofNat level).toNat = level := by
    rw [UInt32.toNat_ofNat']
    omega
  rw [tab, printed_print, printed_nil, List.append_nil, hmod, int32_of_lt (by omega) (by omega), Int.toNat_natCast]

theorem deep_iff (h : level < 2147483648) : decide (0 < UInt32.ofNat level) = decide (0 < level) := by
  have hmod : (UInt32.ofNat level).toNat = level := by
    rw [UInt32.toNat_ofNat']
    omega
  rw [decide_eq_decide, UInt32.lt_iff_toNat_lt, hmod]
  rfl

/-- The line of a number. -/
theorem printInt_eq {n : Numeral} (h : TextAt buf p ((Value.int n).encode ++ s)) :
    printInt flags buf p = .ok ([.print (intText (numberOf (-1)) flags n)], 0) := by
  rw [printInt, ReadRepliesAux.intValue_encode _ h]
  rfl

theorem printCount_eq (type unit : Bytes) (n : Nat) : printCount flags type unit n = .print (countText flags type unit n) := by
  rw [printCount, countText, decimalInt_natCast]

/-! ## Nodes -/

theorem printed_hashEvents (v : Value) :
    printed (hashEvents sha1 flags v) = if flags.displayHash then hexEncode (sha1 v.encode).toList ++ ascii " " else [] := by
  rw [hashEvents]
  split
  · simp
  · rfl

/-- The call for a node prints its line, and what the `switch` over its type prints. -/
theorem handle_prints {v : Value} {below : Bytes} (h : TextAt buf p (v.encode ++ s)) (hlen : level + v.encode.length < 2147483648)
    (hf : v.encode.length ≤ fuel)
    (hbody : ∃ events, handleType flags buf fuel (handleBencodedNode sha1 flags buf fuel) (UInt32.ofNat level) p = .ok (events, 0) ∧
      printed events = below) :
    ∃ events, handleBencodedNode sha1 flags buf (fuel + 1) (UInt32.ofNat level) p = .ok (events, 0) ∧
      printed events = leadText sha1 flags level v ++ below := by
  obtain ⟨events, hevents, rfl⟩ := hbody
  have hhash := @hashNode_eq sha1 flags buf p s fuel v h (by omega) hf
  refine ⟨.enter (UInt32.ofNat level) p :: ([tab (UInt32.ofNat level)] ++ hashEvents sha1 flags v) ++ events, ?_, ?_⟩
  · rw [handleBencodedNode, hhash]
    simp only [walk_ok_bind, if_neg (show ¬(0 : Int) < 0 by decide), hevents]
    rfl
  · rw [printed_append, printed_enter, printed_append, printed_tab (by omega), printed_hashEvents, leadText]

/-- The call prints the outline. -/
def NodePrints (sha1 : Bytes → Vector UInt8 20) (flags : Flags) (buf : Bytes) (v : Value) : Prop :=
  ∀ (level fuel : Nat) (p : Int) (s : Bytes), TextAt buf p (v.encode ++ s) → level + v.encode.length < 2147483648 →
    2 * v.encode.length < fuel →
    ∃ events, handleBencodedNode sha1 flags buf fuel (UInt32.ofNat level) p = .ok (events, 0) ∧
      printed events = outline (numberOf (-1)) sha1 flags level v

/-- The loop over the elements `vs` behind the elements `pre` prints their outlines. -/
def ItemsPrint (sha1 : Bytes → Vector UInt8 20) (flags : Flags) (buf : Bytes) (vs : List Value) : Prop :=
  ∀ (pre : List Value) (level fuel : Nat) (p : Int) (s : Bytes), TextAt buf p ((Value.list (pre ++ vs)).encode ++ s) →
    level + (Value.list (pre ++ vs)).encode.length < 2147483648 → 2 * (Value.list (pre ++ vs)).encode.length ≤ fuel →
    ∃ events, itemLoop buf fuel p (handleBencodedNode sha1 flags buf fuel (UInt32.ofNat (level + 1))) vs.length pre.length =
      .ok (events, 0) ∧ printed events = outlineList (numberOf (-1)) sha1 flags (level + 1) vs

/-- The loop over the entries `es` behind the entries `pre`. -/
def EntriesPrint (sha1 : Bytes → Vector UInt8 20) (flags : Flags) (buf : Bytes) (es : List (Bytes × Value)) : Prop :=
  ∀ (pre : List (Bytes × Value)) (level fuel : Nat) (p : Int) (s : Bytes), TextAt buf p ((Value.dict (pre ++ es)).encode ++ s) →
    level + (Value.dict (pre ++ es)).encode.length < 2147483648 → 2 * (Value.dict (pre ++ es)).encode.length ≤ fuel →
    ∃ events, entryLoop buf fuel p (handleBencodedNode sha1 flags buf fuel (UInt32.ofNat (level + 1)))
      (handleBencodedNode sha1 flags buf fuel (UInt32.ofNat (level + 2))) es.length pre.length = .ok events ∧
      printed events = outlineEntries (numberOf (-1)) sha1 flags (level + 1) es

/-- One round of the loop over a list. -/
theorem itemsPrint_cons {v : Value} {vs : List Value} (hv : NodePrints sha1 flags buf v) (ih : ItemsPrint sha1 flags buf vs) :
    ItemsPrint sha1 flags buf (v :: vs) := by
  intro pre level fuel p s h hlen hf
  have hget : (pre ++ v :: vs)[pre.length]? = some v := by simp
  have hle : v.encode.length + 2 ≤ (Value.list (pre ++ v :: vs)).encode.length := by
    rw [encode_list, encodeList_append, encodeList]
    simp only [List.length_cons, List.length_append, List.length_nil]
    omega
  have hoff := listItemOffset_element h (by omega) (by omega : (Value.list (pre ++ v :: vs)).encode.length ≤ fuel)
    (by simp : pre.length < (pre ++ v :: vs).length)
  obtain ⟨events, hcall, hprints⟩ := hv (level + 1) fuel _ _ (textAt_element h hget) (by omega) (by omega)
  have hassoc : pre ++ v :: vs = pre ++ [v] ++ vs := by simp
  rw [hassoc] at h hlen hf
  obtain ⟨others, hothers, hprints'⟩ := ih (pre ++ [v]) level fuel p s h hlen hf
  have hnext : ((pre ++ [v]).length : Int) = pre.length + 1 := by simp
  rw [hnext] at hothers
  refine ⟨events ++ others, ?_, ?_⟩
  · rw [List.length_cons, itemLoop, hoff, walk_ok_bind, hcall, walk_ok_bind]
    simp only [if_neg (show ¬(0 : Int) < 0 by decide), hothers, walk_ok_bind]
    rfl
  · rw [printed_append, hprints, hprints', outlineList]

/-- A key stands in a dictionary with at least as many bytes in front of its end as it is deep. -/
theorem length_entry (pre post : List (Bytes × Value)) (k : Bytes) (v : Value) :
    2 ≤ (encodeStr k).length ∧
      (encodeEntries pre).length + (encodeStr k).length + v.encode.length + 2 ≤ (Value.dict (pre ++ (k, v) :: post)).encode.length := by
  have hne := List.length_pos_iff.2 (decimal_ne_nil k.length)
  rw [encode_dict, encodeEntries_append, encodeEntries]
  simp only [encodeStr, List.length_cons, List.length_append, List.length_nil]
  omega

/-- One round of the loop over a dictionary: the call for the key, and the call for what stands behind it. -/
theorem entriesPrint_cons {k : Bytes} {v : Value} {es : List (Bytes × Value)} (hk : NodePrints sha1 flags buf (.str k))
    (hv : NodePrints sha1 flags buf v) (ih : EntriesPrint sha1 flags buf es) : EntriesPrint sha1 flags buf ((k, v) :: es) := by
  intro pre level fuel p s h hlen hf
  obtain ⟨hkey2, hle⟩ := length_entry pre es k v
  have hoff := dictKeyOffset_entry h (by omega) (by omega : (Value.dict (pre ++ (k, v) :: es)).encode.length ≤ fuel) rfl
  have hkey := textAt_key h
  have hvalue := textAt_value pre h
  have hl := (measures (fun _ => True) buf fuel).1 (encodeStr k) _ _ 0 (Entity.str (isStr_encodeStr k)) hkey (by omega) (by omega)
  have hsum : int32 ((1 + (encodeEntries pre).length : Nat) + (encodeStr k).length) =
      (1 + (encodeEntries pre).length + (encodeStr k).length : Nat) := by
    rw [int32_of_lt (by omega) (by omega)]
    omega
  rw [← encode_str] at hkey hkey2 hle
  obtain ⟨keyEvents, hkeyCall, hkeyPrints⟩ := hk (level + 1) fuel _ _ hkey (by omega) (by omega)
  obtain ⟨valueEvents, hvalueCall, hvaluePrints⟩ := hv (level + 2) fuel _ _ hvalue (by omega) (by omega)
  have hassoc : pre ++ (k, v) :: es = pre ++ [(k, v)] ++ es := by simp
  rw [hassoc] at h hlen hf
  obtain ⟨others, hothers, hprints⟩ := ih (pre ++ [(k, v)]) level fuel p s h hlen hf
  have hnext : ((pre ++ [(k, v)]).length : Int) = pre.length + 1 := by simp
  rw [hnext] at hothers
  refine ⟨keyEvents ++ valueEvents ++ others, ?_, ?_⟩
  · simp only [List.length_cons, entryLoop, hoff, walk_ok_bind, hl, hsum, hkeyCall, hvalueCall, hothers]
    rfl
  · rw [printed_append, printed_append, hkeyPrints, hvaluePrints, hprints, outlineEntries, outline, keyText]

/-- A string is printed whether the flags ask for what a node contains or not. -/
theorem nodePrints_str (t : Bytes) : NodePrints sha1 flags buf (.str t) := by
  intro level fuel p s h hlen hf
  obtain ⟨f, rfl⟩ : ∃ f, fuel = f + 1 := ⟨fuel - 1, by omega⟩
  rw [outline]
  refine handle_prints h hlen (by omega) ?_
  have ht : bencEntityType buf p = .ok .string := bencEntityType_encode (.str t) h
  rw [handleType, ht, walk_ok_bind]
  rw [printString_eq _ h (by omega), deep_iff (by omega)]
  exact ⟨_, rfl, by simp⟩

/-- The keys of a dictionary that is not recursed into. -/
theorem keyLoop_prints (es : List (Bytes × Value)) : ∀ (pre : List (Bytes × Value)) {level fuel : Nat} {p : Int} {s : Bytes},
    TextAt buf p ((Value.dict (pre ++ es)).encode ++ s) → level + (Value.dict (pre ++ es)).encode.length < 2147483648 →
    2 * (Value.dict (pre ++ es)).encode.length ≤ fuel →
    ∃ events, keyLoop buf fuel p (handleBencodedNode sha1 flags buf fuel (UInt32.ofNat (level + 1))) es.length pre.length = .ok events ∧
      printed events = es.flatMap fun e => keyText sha1 flags (level + 1) e.1 := by
  induction es with
  | nil => exact fun _ _ _ _ _ _ _ _ => ⟨[], rfl, rfl⟩
  | cons e es ih =>
    intro pre level fuel p s h hlen hf
    obtain ⟨k, v⟩ := e
    obtain ⟨hkey2, hle⟩ := length_entry pre es k v
    have hoff := dictKeyOffset_entry h (by omega) (by omega : (Value.dict (pre ++ (k, v) :: es)).encode.length ≤ fuel) rfl
    have hkey := textAt_key h
    rw [← encode_str] at hkey hkey2 hle
    obtain ⟨keyEvents, hkeyCall, hkeyPrints⟩ := @nodePrints_str sha1 flags buf k (level + 1) fuel _ _ hkey (by omega) (by omega)
    have hassoc : pre ++ (k, v) :: es = pre ++ [(k, v)] ++ es := by simp
    rw [hassoc] at h hlen hf
    obtain ⟨others, hothers, hprints⟩ := ih (pre ++ [(k, v)]) h hlen hf
    have hnext : ((pre ++ [(k, v)]).length : Int) = pre.length + 1 := by simp
    rw [hnext] at hothers
    refine ⟨keyEvents ++ others, ?_, ?_⟩
    · simp only [List.length_cons, keyLoop, hoff, walk_ok_bind, hkeyCall, hothers]
      rfl
    · rw [printed_append, hkeyPrints, hprints, List.flatMap_cons, outline, keyText]

theorem depth_succ (n : Nat) : UInt32.ofNat n + 1 = UInt32.ofNat (n + 1) := UInt32.ofNat_add n 1 |>.symm

theorem depth_add_two (n : Nat) : UInt32.ofNat n + 2 = UInt32.ofNat (n + 2) := UInt32.ofNat_add n 2 |>.symm

mutual
/-- Every value is printed. -/
theorem nodePrints : ∀ v : Value, NodePrints sha1 flags buf v
  | .str t => nodePrints_str t
  | .int n => by
    intro level fuel p s h hlen hf
    obtain ⟨f, rfl⟩ : ∃ f, fuel = f + 1 := ⟨fuel - 1, by omega⟩
    rw [outline]
    refine handle_prints h hlen (by omega) ?_
    have ht : bencEntityType buf p = .ok .int := bencEntityType_encode (.int n) h
    rw [handleType, ht, walk_ok_bind]
    exact ⟨_, printInt_eq h, by simp⟩
  | .list vs => by
    intro level fuel p s h hlen hf
    obtain ⟨f, rfl⟩ : ∃ f, fuel = f + 1 := ⟨fuel - 1, by omega⟩
    rw [outline, List.append_assoc]
    refine handle_prints h hlen (by omega) ?_
    have hcount := countItems_eq h (by omega) (by omega : 2 * (Value.list vs).encode.length ≤ f)
    have ht : bencEntityType buf p = .ok .list := bencEntityType_encode (.list vs) h
    rw [handleType, ht, walk_ok_bind]
    simp only [handleList, hcount, walk_ok_bind, printCount_eq, depth_succ, Int.toNat_natCast]
    by_cases hrec : flags.recurse = true
    · obtain ⟨events, hloop, hprints⟩ := itemsPrint vs [] level f p s h hlen (by rw [List.nil_append]; omega)
      rw [List.length_nil, Nat.cast_zero] at hloop
      simp only [hrec, if_true, hloop, walk_ok_bind]
      exact ⟨_, rfl, by rw [printed_print, hprints]⟩
    · simp only [hrec, Bool.false_eq_true, if_false]
      exact ⟨_, rfl, by simp⟩
  | .dict es => by
    intro level fuel p s h hlen hf
    obtain ⟨f, rfl⟩ : ∃ f, fuel = f + 1 := ⟨fuel - 1, by omega⟩
    rw [outline, List.append_assoc]
    refine handle_prints h hlen (by omega) ?_
    have hcount := countKeys_eq h (by omega) (by omega : 2 * (Value.dict es).encode.length ≤ f)
    have ht : bencEntityType buf p = .ok .dict := bencEntityType_encode (.dict es) h
    rw [handleType, ht, walk_ok_bind]
    simp only [handleDict, hcount, walk_ok_bind, printCount_eq, depth_succ, depth_add_two, Int.toNat_natCast]
    by_cases hrec : flags.recurse = true
    · obtain ⟨events, hloop, hprints⟩ := entriesPrint es [] level f p s h hlen (by rw [List.nil_append]; omega)
      rw [List.length_nil, Nat.cast_zero] at hloop
      simp only [hrec, not_true_eq_false, and_false, if_false, if_true, hloop, walk_ok_bind]
      exact ⟨_, rfl, by simp [hprints]⟩
    · by_cases hvalues : flags.displayValues = true
      · obtain ⟨events, hloop, hprints⟩ := @keyLoop_prints sha1 flags buf es [] level f p s h hlen (by rw [List.nil_append]; omega)
        rw [List.length_nil, Nat.cast_zero] at hloop
        simp only [hrec, hvalues, if_true, hloop, walk_ok_bind]
        exact ⟨_, rfl, by simp [hprints]⟩
      · simp only [hrec, hvalues]
        exact ⟨_, rfl, by simp⟩

theorem itemsPrint : ∀ vs : List Value, ItemsPrint sha1 flags buf vs
  | [] => fun _ _ _ _ _ _ _ _ => ⟨[], rfl, rfl⟩
  | v :: vs => itemsPrint_cons (nodePrints v) (itemsPrint vs)

theorem entriesPrint : ∀ es : List (Bytes × Value), EntriesPrint sha1 flags buf es
  | [] => fun _ _ _ _ _ _ _ _ => ⟨[], rfl, rfl⟩
  | (k, v) :: es => entriesPrint_cons (nodePrints_str k) (nodePrints v) (entriesPrint es)
end

/-! ## Legible numbers -/

theorem intText_legible {n : Numeral} (h : Legible n) : intText (numberOf (-1)) flags n = intText meant flags n := by
  rw [intText, intText, (ReadRepliesAux.numberOf_eq_iff (.int n)).2 h]

mutual
theorem outline_legible : ∀ (v : Value) (level : Nat), (∀ n ∈ numerals v, Legible n) →
    outline (numberOf (-1)) sha1 flags level v = outline meant sha1 flags level v
  | .str s, level, _ => by rw [outline, outline]
  | .int n, level, h => by rw [outline, outline, intText_legible (h n (by simp [numerals]))]
  | .list vs, level, h => by rw [outline, outline, outlineList_legible vs (level + 1) (by rwa [numerals] at h)]
  | .dict es, level, h => by rw [outline, outline, outlineEntries_legible es (level + 1) (by rwa [numerals] at h)]

theorem outlineList_legible : ∀ (vs : List Value) (level : Nat), (∀ n ∈ numeralsList vs, Legible n) →
    outlineList (numberOf (-1)) sha1 flags level vs = outlineList meant sha1 flags level vs
  | [], level, _ => by rw [outlineList, outlineList]
  | v :: vs, level, h => by
    rw [numeralsList, List.forall_mem_append] at h
    rw [outlineList, outlineList, outline_legible v level h.1, outlineList_legible vs level h.2]

theorem outlineEntries_legible : ∀ (es : List (Bytes × Value)) (level : Nat), (∀ n ∈ numeralsEntries es, Legible n) →
    outlineEntries (numberOf (-1)) sha1 flags level es = outlineEntries meant sha1 flags level es
  | [], level, _ => by rw [outlineEntries, outlineEntries]
  | (k, v) :: es, level, h => by
    rw [numeralsEntries, List.forall_mem_append] at h
    rw [outlineEntries, outlineEntries, outline_legible v (level + 1) h.1, outlineEntries_legible es level h.2]
end

/-! ## The path -/

theorem tokens_dot (s : Bytes) : tokens (46 :: s) = tokens s := by
  rw [tokens, List.splitOn_cons_eq_if_modifyHead, if_pos (by decide), List.filter_cons_of_neg (by simp)]
  rfl

theorem tokens_dropWhile (path : Bytes) : tokens (path.dropWhile (· == 46)) = tokens path := by
  induction path with
  | nil => rfl
  | cons c s ih =>
    rw [List.dropWhile_cons]
    split
    · rename_i hc
      rw [ih, eq_of_beq hc, tokens_dot]
    · rfl

/-- A token, and what stands behind it. -/
theorem tokens_token {token : Bytes} (hne : token ≠ []) (hdot : 46 ∉ token) (s : Bytes) (hs : ∀ c ∈ s.head?, c = 46) :
    tokens (token ++ s) = token :: tokens (s.drop 1) := by
  cases s with
  | nil =>
    rw [List.append_nil, tokens, List.splitOn_eq_singleton hdot, List.filter_cons_of_pos (by simpa using hne)]
    rfl
  | cons c s =>
    obtain rfl : c = 46 := hs c rfl
    rw [tokens, List.splitOn_append_cons_self_of_not_mem hdot, List.filter_cons_of_pos (by simpa using hne)]
    rfl

/-- A path is empty, or starts with a token. -/
theorem strtok_tokens (path : Bytes) : (strtok path = none ∧ tokens path = []) ∨
    ∃ token rest, strtok path = some (token, rest) ∧ tokens path = token :: tokens rest ∧ rest.length < path.length := by
  have hdrop := tokens_dropWhile path
  have hle := (List.dropWhile_suffix (fun c : UInt8 => c == 46) (l := path)).length_le
  rw [strtok]
  have hhead := List.head?_dropWhile_not (· == 46) path
  generalize path.dropWhile (· == 46) = s at hdrop hle hhead
  cases s with
  | nil => exact Or.inl ⟨rfl, hdrop.symm.trans rfl⟩
  | cons c s =>
    have hc : c ≠ 46 := by simpa using hhead
    have htake : (c :: s).takeWhile (· != 46) = c :: s.takeWhile (· != 46) := List.takeWhile_cons_of_pos (by simpa using hc)
    have hrest : (c :: s).dropWhile (· != 46) = s.dropWhile (· != 46) := List.dropWhile_cons_of_pos (by simpa using hc)
    refine Or.inr ⟨_, _, if_neg (List.cons_ne_nil c s), ?_, ?_⟩
    · have hbehind := List.head?_dropWhile_not (· != 46) (c :: s)
      rw [← hdrop, ← tokens_token (by rw [htake]; exact List.cons_ne_nil _ _) ?_ _ ?_, List.takeWhile_append_dropWhile]
      · intro h46
        have := List.mem_takeWhile_imp h46
        simp at this
      · intro d hd
        rw [Option.mem_def.1 hd] at hbehind
        simpa using hbehind
    · have := (List.dropWhile_suffix (fun x : UInt8 => x != 46) (l := s)).length_le
      rw [hrest, List.length_drop]
      simp only [List.length_cons] at hle
      omega

/-- An element is found where it stands, or there is none with this number. -/
theorem listItemOffset_cases {vs : List Value} (h : TextAt buf p ((Value.list vs).encode ++ s))
    (hlen : (Value.list vs).encode.length < 2147483648) (hf : (Value.list vs).encode.length ≤ fuel) (i : Int) :
    (item vs i = none ∧ Benc.listItemOffset buf fuel p i = .ok (-1)) ∨
    ∃ (w : Value) (o : Nat) (s' : Bytes), item vs i = some w ∧ Benc.listItemOffset buf fuel p i = .ok o ∧
      TextAt buf (p + o) (w.encode ++ s') ∧ o + w.encode.length ≤ (Value.list vs).encode.length := by
  by_cases h0 : 0 ≤ i
  · rw [item, if_pos h0]
    by_cases hi : i.toNat < vs.length
    · have hget := List.getElem?_eq_getElem hi
      have hoff := listItemOffset_element h hlen hf hi
      rw [Int.toNat_of_nonneg h0] at hoff
      refine Or.inr ⟨_, _, _, hget, hoff, textAt_element h hget, ?_⟩
      have hsplit := congrArg (fun l => (encodeList l).length) (split_at hget).1
      simp only [encodeList_append, encodeList, List.length_append] at hsplit
      rw [encode_list, elementOffset]
      simp only [List.length_cons, List.length_append]
      omega
    · exact Or.inl ⟨List.getElem?_eq_none_iff.2 (by omega), listItemOffset_none h hlen hf (by omega)⟩
  · exact Or.inl ⟨by rw [item, if_neg h0], by rw [Benc.listItemOffset, if_pos (by omega)]; rfl⟩

/-- One token. -/
theorem resolveToken_child (v : Value) (token : Bytes) {r : Nat} (h : TextAt buf r (v.encode ++ s))
    (hlen : r + v.encode.length < 2147483648) (hf : v.encode.length ≤ fuel) :
    (∃ w r' s', child token v = .ok w ∧ resolveToken buf fuel token r = .ok ([], r') ∧ TextAt buf r' (w.encode ++ s') ∧
      r ≤ r' ∧ r' + w.encode.length ≤ r + v.encode.length) ∨
    ∃ message, child token v = .error message ∧ resolveToken buf fuel token r = .ok ([.print message], r) := by
  have htype := bencEntityType_encode v h
  cases v with
  | str t => exact Or.inr ⟨_, rfl, by simp only [resolveToken, htype, walk_ok_bind, entityType, Value.kind]; rfl⟩
  | int n => exact Or.inr ⟨_, rfl, by simp only [resolveToken, htype, walk_ok_bind, entityType, Value.kind]; rfl⟩
  | list vs =>
    simp only [resolveToken, htype, walk_ok_bind, entityType, Value.kind, resolveItem, child]
    by_cases hdigits : token.all isDigit = false
    · exact Or.inr ⟨_, if_pos hdigits, if_pos hdigits⟩
    · rw [if_neg hdigits, if_neg hdigits]
      rcases listItemOffset_cases h (by omega) hf (int32 (strtoul token)) with ⟨hitem, hoff⟩ | ⟨w, o, s', hitem, hoff, hw, hl⟩
      · refine Or.inr ⟨_, by rw [hitem], ?_⟩
        rw [hoff, walk_ok_bind, if_pos (by omega)]
        rfl
      · refine Or.inl ⟨w, r + o, s', by rw [hitem], ?_, by rwa [Nat.cast_add], by omega, by omega⟩
        rw [hoff, walk_ok_bind, if_neg (by omega), NodePathsAux.moveBy_of_lt (by omega)]
        rfl
  | dict es =>
    simp only [resolveToken, htype, walk_ok_bind, entityType, Value.kind, resolveKey, child]
    rcases dictValueOffset_cases h (by omega) hf token with ⟨hget, hoff⟩ | ⟨w, o, s', hget, hoff, hpos, hw, hl⟩
    · refine Or.inr ⟨_, by rw [hget], ?_⟩
      rw [hoff, walk_ok_bind, if_neg (by omega)]
      rfl
    · refine Or.inl ⟨w, r + o, s', by rw [hget], ?_, by rwa [Nat.cast_add], by omega, by omega⟩
      rw [hoff, walk_ok_bind, if_pos (by omega), NodePathsAux.moveBy_of_lt (by omega)]
      rfl

/-- The whole path. -/
theorem resolvePath_descend : ∀ (fuel : Nat) (path : Bytes) (v : Value) (r : Nat) (s : Bytes), TextAt buf r (v.encode ++ s) →
    r + v.encode.length < 2147483648 → path.length + v.encode.length < fuel →
    ∃ events r' s', resolvePath buf fuel path r = .ok (events, r') ∧ printed events = (descend (tokens path) v).1 ∧
      TextAt buf r' ((descend (tokens path) v).2.encode ++ s') ∧
      r' + (descend (tokens path) v).2.encode.length ≤ r + v.encode.length := by
  intro fuel
  induction fuel with
  | zero => exact fun _ _ _ _ _ _ hf => absurd hf (by omega)
  | succ fuel ih =>
    intro path v r s h hlen hf
    rcases strtok_tokens path with ⟨htok, hts⟩ | ⟨token, rest, htok, hts, hshort⟩
    · rw [resolvePath, htok, hts]
      exact ⟨[], r, s, rfl, rfl, h, Nat.le_refl _⟩
    · rw [resolvePath, htok, hts, descend]
      rcases @resolveToken_child buf s fuel v token r h hlen (by omega) with ⟨w, r', s', hc, hr, hw, hmoved, hle⟩ | ⟨message, hc, hr⟩
      · obtain ⟨events, r'', s'', hp, hprints, htext, hle'⟩ := ih rest w r' s' hw (by omega) (by omega)
        simp only [hc, hr, hp, walk_ok_bind]
        exact ⟨_, _, s'', rfl, hprints, htext, by omega⟩
      · obtain ⟨events, r'', s'', hp, hprints, htext, hle'⟩ := ih rest v r s h hlen (by omega)
        simp only [hc, hr, hp, walk_ok_bind]
        exact ⟨_, _, s'', rfl, by rw [printed_append, printed_print, printed_nil, List.append_nil, hprints], htext, by omega⟩

/-- The node that has been found is displayed. -/
theorem displayNode_prints {w : Value} {r : Nat} {path : Bytes} {skipped : List Event} (htext : TextAt buf r (w.encode ++ s))
    (hlen : w.encode.length < 2147483648) (hf : 2 * w.encode.length < fuel) (hresolve : resolvePath buf fuel path 0 = .ok (skipped, r)) :
    ∃ events, displayFile sha1 flags buf (some path) fuel = .ok (events, 0) ∧
      printed events = printed skipped ++ outline (numberOf (-1)) sha1 flags 0 w := by
  obtain ⟨events, hcall, hprints⟩ := nodePrints w 0 fuel r s htext (by omega) hf
  refine ⟨skipped ++ events, ?_, by rw [printed_append, hprints]⟩
  simp only [displayFile, hresolve, walk_ok_bind]
  have hcall' : handleBencodedNode sha1 flags buf fuel 0 r = .ok (events, 0) := hcall
  simp only [hcall', walk_ok_bind, if_neg (show ¬(0 : Int) < 0 by decide)]
  rfl

end OutlineAux

open OutlineAux

/-- For every value shorter than 2^31 bytes at the start of a file, whatever lies behind it, every path given with `-k` and all flags:
`torrentinfo` returns 0, and prints a message for each token that leads nowhere and then the outline of the value that the others lead
to, with the numbers that `benc_int_value` reads; they are those of the value where it reads them all. -/
theorem displayFile_prints (sha1 : Bytes → Vector UInt8 20) (flags : Flags) (v : Value) (hlen : v.encode.length < 2147483648) (s : Bytes)
    (rnode : Option Bytes) (fuel : Nat) (hf : 2 * v.encode.length + (rnode.getD []).length < fuel) :
    ∃ events, displayFile sha1 flags (v.encode ++ s) rnode fuel = .ok (events, 0) ∧
      printed events = (descend (tokens (rnode.getD [])) v).1 ++
        outline (numberOf (-1)) sha1 flags 0 (descend (tokens (rnode.getD [])) v).2 ∧
      ((∀ n ∈ numerals (descend (tokens (rnode.getD [])) v).2, Legible n) →
        printed events = (descend (tokens (rnode.getD [])) v).1 ++ outline meant sha1 flags 0 (descend (tokens (rnode.getD [])) v).2) := by
  -- no path is an empty path
  have hnone : displayFile sha1 flags (v.encode ++ s) rnode fuel = displayFile sha1 flags (v.encode ++ s) (some (rnode.getD [])) fuel := by
    obtain ⟨f, rfl⟩ : ∃ f, fuel = f + 1 := ⟨fuel - 1, by omega⟩
    cases rnode with
    | none => rfl
    | some path => rfl
  obtain ⟨skipped, r, s', hresolve, hskipped, htext, hle⟩ := @resolvePath_descend (v.encode ++ s) fuel (rnode.getD []) v 0 s
    (textAt_zero _) (by omega) (by omega)
  obtain ⟨events, hdisplay, hprints⟩ := @displayNode_prints sha1 flags _ s' fuel _ r (rnode.getD []) skipped htext (by omega) (by omega)
    hresolve
  have hprinted := hprints.trans (congrArg (· ++ _) hskipped)
  exact ⟨events, by rw [hnone, hdisplay], hprinted, fun hl => hprinted.trans (congrArg _ (outline_legible _ _ hl))⟩

namespace OutlineExample

/-- A torrent file with a name that is not printable to its end. -/
def file : Value :=
  .dict [(ascii "info", .dict [(ascii "length", .int (Numeral.ofInt 700)), (ascii "name", .str (ascii "a b" ++ [1]))])]

def flags : Flags := { recurse := true, displayHash := false, displayType := true, displayValues := true }

end OutlineExample

open OutlineExample

/-- The part below `info`, although there is nothing under `files`. -/
theorem displayFile_prints_info :
    ∃ events, displayFile TraversalExample.noHash flags (file.encode ++ [0]) (some (ascii ".info..files")) 200 = .ok (events, 0) ∧
      printed events = ascii ("Dict has no key \"files\", skipping\nDict (2 keys)\n\tString[6] length\n\t\tInteger 700\n" ++
        "\tString[4] name\n\t\tString[4] a b[Non-printable]\n") := by
  obtain ⟨events, hdisplay, -, hprinted⟩ := displayFile_prints TraversalExample.noHash flags file (by decide) [0]
    (some (ascii ".info..files")) 200 (by decide)
  exact ⟨events, hdisplay, (hprinted (by decide)).trans (by decide +kernel)⟩

end Traccoon
