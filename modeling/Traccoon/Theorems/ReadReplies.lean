import Traccoon.Lemmas.BencDict
import Traccoon.Lemmas.BencScan
import Traccoon.Replies
import Traccoon.Theorems.ListOffsets

/-!
# Any reply, read by `getpeers`

Whatever dictionary a tracker sends behind its headers, `getpeers` prints about it what the dictionary says: which entries it has decides,
and not how they are laid out, in which order they come, or what lies behind (`getpeers_reads_reply`). The numbers are those that the
dictionary says if they are legible to `benc_int_value`.
-/

namespace Traccoon

open CString Bencode Getpeers

namespace ReadRepliesAux

variable {inet : Inet} {buf s : Bytes} {p : Int} {fuel : Nat}

/-! ## Numbers and strings -/

theorem strtol_numeral (n : Numeral) (s : Bytes) :
    strtol (minus n.neg ++ (n.digits ++ 101 :: s)) = max (-9223372036854775808) (min 9223372036854775807 n.toInt) := by
  have hc : isDigit 101 = false := by decide
  have hd := takeWhile_digits n.isDigits hc s
  cases hneg : n.neg with
  | false =>
    rw [minus, if_neg Bool.false_ne_true, List.nil_append, strtol_digits n.isDigits n.nonempty hc, Numeral.toInt, hneg]
    simp only [Bool.false_eq_true, if_false]
    omega
  | true =>
    have h45 : isSpace 45 = false := by decide
    rw [minus, if_pos rfl, List.cons_append, List.nil_append, strtol, List.dropWhile_cons_of_neg (by simp [h45])]
    simp only [sign, hd, Numeral.toInt, hneg, if_true]
    omega

/-- A value read as a number. -/
theorem intValue_encode (v : Value) (h : TextAt buf p (v.encode ++ s)) (defval : Int) :
    Benc.intValue buf p defval = .ok (numberOf defval v) := by
  cases v with
  | int n =>
    have h' : TextAt buf p (105 :: (minus n.neg ++ (n.digits ++ 101 :: s))) := by simpa [Value.encode] using h
    rw [intValue_eq n.neg n.isDigits (by decide) (fun _ h0 => absurd h0 n.nonempty) h', strtol_numeral, numberOf]
    simp only [ne_eq, not_true_eq_false, or_false]
  | str a => simp only [Benc.intValue, bencEntityType_encode _ h, walk_ok_bind, entityType, Value.kind, numberOf]; rfl
  | list vs => simp only [Benc.intValue, bencEntityType_encode _ h, walk_ok_bind, entityType, Value.kind, numberOf]; rfl
  | dict es => simp only [Benc.intValue, bencEntityType_encode _ h, walk_ok_bind, entityType, Value.kind, numberOf]; rfl

/-- A number written by the tracker. Of those with one digit nothing is left. -/
theorem numberOf_ofInt {n : Int} (h : IsInt32 n) : numberOf (-1) (.int (Numeral.ofInt n)) = if n < 0 ∨ 9 < n then n else -1 := by
  have hat : TextAt (encodeInt n) 0 (encodeInt n ++ []) := by
    rw [List.append_nil]
    exact textAt_zero _
  have hat' : TextAt (encodeInt n) 0 ((Value.int (Numeral.ofInt n)).encode ++ []) := by rwa [encode_ofInt]
  have heq := (intValue_encode _ hat' (-1)).symm.trans (intValue_encodeInt h hat (-1))
  rwa [Except.ok.injEq] at heq

/-- `benc_int_value` makes of a value what it says exactly if the value is legible. -/
theorem numberOf_eq_iff (v : Value) : numberOf (-1) v = meant v ↔ Value.Legible v := by
  cases v with
  | int n =>
    have hne := List.length_pos_iff.2 n.nonempty
    rw [numberOf, meant, Value.Legible, Legible]
    split
    · -- one digit and no sign: the number is not negative
      have hneg : n.neg = false := by
        cases hn : n.neg with
        | false => rfl
        | true =>
          simp only [hn, minus, if_true, List.length_cons, List.length_nil] at *
          omega
      have hpos : 0 ≤ n.toInt := by
        rw [Numeral.toInt, hneg]
        simp
      omega
    · constructor
      · intro h
        exact ⟨by omega, h ▸ isInt32_int32 _⟩
      · rintro ⟨-, h⟩
        have h' := h
        unfold IsInt32 at h'
        rw [show max (-9223372036854775808) (min 9223372036854775807 n.toInt) = n.toInt by omega, int32_of_isInt32 h]
  | str s => simp [numberOf, meant, Value.Legible]
  | list vs => simp [numberOf, meant, Value.Legible]
  | dict es => simp [numberOf, meant, Value.Legible]

/-- Bytes that stand in the buffer are written. -/
theorem fwrite_text {a : Bytes} (h : TextAt buf p (a ++ s)) : fwrite buf p a.length = .ok a := by
  by_cases h0 : a.length = 0
  · rw [fwrite, if_pos (by omega), List.eq_nil_of_length_eq_zero h0]
  · have hdrop := h.drop
    obtain ⟨pre, rfl, rfl⟩ := h
    rw [fwrite, if_neg (by omega), if_pos ⟨by omega, by omega, by simp only [List.length_append]; omega⟩, hdrop]
    simp

/-- What is no string has the length -1, and more bytes are written than there are. -/
theorem writeString_other {t : BencEntityType} (htype : bencEntityType buf p = .ok t) (ht : t ≠ .string) :
    writeString buf p = .error .fault := by
  have hd : Benc.stringDataOffset buf p = .ok (-1) := by
    cases t with
    | string => exact absurd rfl ht
    | _ => simp only [Benc.stringDataOffset, htype, walk_ok_bind]; rfl
  have hl : Benc.stringLength buf p = .ok (-1) := by
    cases t with
    | string => exact absurd rfl ht
    | _ => simp only [Benc.stringLength, htype, walk_ok_bind]; rfl
  simp only [writeString, hd, hl, walk_ok_bind]
  rw [fwrite, if_neg (by omega), if_neg (by omega)]

/-- A value written as a string. -/
theorem writeString_encode (v : Value) (h : TextAt buf p (v.encode ++ s)) (hlen : v.encode.length < 2147483648) :
    writeString buf p = bytesOf v := by
  have htype := bencEntityType_encode v h
  cases v with
  | str a =>
    have hl := stringLength_encode _ h hlen
    have h' : TextAt buf p (decimal a.length ++ 58 :: (a ++ s)) := by simpa [encode_str, encodeStr] using h
    have hd := stringDataOffset_digits h' (decimal_digits _) (decimal_ne_nil _)
      (by simp only [encode_str, encodeStr, List.length_append, List.length_cons] at hlen; omega)
    have hdata : TextAt buf (p + ((decimal a.length).length + 1 : Nat)) (a ++ s) := by
      have := h'.move.next
      rwa [show p + ((decimal a.length).length : Int) + 1 = p + ((decimal a.length).length + 1 : Nat) by omega] at this
    simp only [writeString, hd, hl, walk_ok_bind, fwrite_text hdata, bytesOf]
  | int n => exact writeString_other htype BencEntityType.noConfusion
  | list vs => exact writeString_other htype BencEntityType.noConfusion
  | dict es => exact writeString_other htype BencEntityType.noConfusion

/-! ## Peers -/

/-- Six bytes of a record at a time. -/
theorem compactPeers_records (inet : Inet) : ∀ (n : Nat) {a : Bytes} {p : Int}, a.length = 6 * n → TextAt buf p (a ++ s) →
    compactPeers inet buf n p = .ok (describeRecords inet a) := by
  intro n
  induction n with
  | zero =>
    intro a p hlen _
    rw [List.eq_nil_of_length_eq_zero (by omega : a.length = 0)]
    rfl
  | succ n ih =>
    intro a p hlen h
    obtain ⟨b0, b1, b2, b3, hi, lo, a, rfl⟩ : ∃ b0 b1 b2 b3 hi lo a', a = b0 :: b1 :: b2 :: b3 :: hi :: lo :: a' := by
      rcases a with _ | ⟨b0, _ | ⟨b1, _ | ⟨b2, _ | ⟨b3, _ | ⟨hi, _ | ⟨lo, a⟩⟩⟩⟩⟩⟩
      · simp at hlen
      · simp at hlen; omega
      · simp at hlen; omega
      · simp at hlen; omega
      · simp at hlen; omega
      · simp at hlen; omega
      · exact ⟨b0, b1, b2, b3, hi, lo, a, rfl⟩
    have h0 : TextAt buf p (b0 :: b1 :: b2 :: b3 :: hi :: lo :: (a ++ s)) := h
    have hat : ∀ k : Nat, k ≤ 6 → TextAt buf (p + k) ((b0 :: b1 :: b2 :: b3 :: hi :: lo :: (a ++ s)).drop k) := by
      intro k hk
      have hsplit : TextAt buf p ((b0 :: b1 :: b2 :: b3 :: hi :: lo :: (a ++ s)).take k ++
          (b0 :: b1 :: b2 :: b3 :: hi :: lo :: (a ++ s)).drop k) := by rwa [List.take_append_drop]
      have := hsplit.move
      rwa [List.length_take, Nat.min_eq_left (by simp only [List.length_cons]; omega)] at this
    have e0 : byteAt buf p = .ok b0 := h0.byteAt
    have e1 : byteAt buf (p + 1) = .ok b1 := (hat 1 (by omega)).byteAt
    have e2 : byteAt buf (p + 2) = .ok b2 := (hat 2 (by omega)).byteAt
    have e3 : byteAt buf (p + 3) = .ok b3 := (hat 3 (by omega)).byteAt
    have e4 : byteAt buf (p + 4) = .ok hi := (hat 4 (by omega)).byteAt
    have e5 : byteAt buf (p + 4 + 1) = .ok lo := by
      have := (hat 5 (by omega)).byteAt
      rwa [show p + ((5 : Nat) : Int) = p + 4 + 1 by omega] at this
    have hnext : TextAt buf (p + 6) (a ++ s) := hat 6 (by omega)
    simp only [List.length_cons] at hlen
    simp only [compactPeers, ntopAt, e0, e1, e2, e3, e4, e5, walk_ok_bind, ih (by omega) hnext, describeRecords]
    rfl

/-- The case of a string of peers. -/
theorem compactFormat_encode (inet : Inet) {a : Bytes} {body offset : Int} (h : TextAt buf (body + offset) ((Value.str a).encode ++ s))
    (h0 : 0 ≤ offset) (hlen : offset + (Value.str a).encode.length < 2147483648) :
    compactFormat inet buf body offset = describePeers (numberOf (-1)) inet (some (.str a)) := by
  have hl := stringLength_encode _ h (by omega)
  rw [encode_str, encodeStr, List.length_append, List.length_cons] at hlen
  have h' : TextAt buf (body + offset) (decimal a.length ++ 58 :: (a ++ s)) := by simpa [encode_str, encodeStr] using h
  have hd := stringDataOffset_digits h' (decimal_digits _) (decimal_ne_nil _) (by omega)
  have hdata : TextAt buf (body + (offset + ((decimal a.length).length + 1 : Nat))) (a ++ s) := by
    have := h'.move.next
    rwa [show body + offset + ((decimal a.length).length : Int) + 1 = body + (offset + ((decimal a.length).length + 1 : Nat)) by
      omega] at this
  simp only [compactFormat, hl, hd, walk_ok_bind]
  rw [int32_of_lt (by omega) (by omega), describePeers]
  by_cases hmod : a.length % 6 = 0
  · rw [if_neg (by omega), if_neg (by omega), compactPeers_records inet _ (by omega) hdata]
    rfl
  · rw [if_pos (by omega), if_pos hmod]
    rfl

/-! ## Entries -/

variable {es : List (Bytes × Value)}

/-- A number printed about a reply. -/
theorem numberLine_encode (h : TextAt buf p ((Value.dict es).encode ++ s)) (hlen : (Value.dict es).encode.length < 2147483648)
    (hf : (Value.dict es).encode.length ≤ fuel) (key before behind : Bytes) (missing : List Line) :
    numberLine buf fuel p key before behind missing =
      .ok (describeNumber (numberOf (-1)) before behind missing ((Value.dict es).get? key)) := by
  rcases dictValueOffset_cases h hlen hf key with ⟨hget, hoff⟩ | ⟨v, o, s', hget, hoff, hpos, hv, -⟩
  · simp only [numberLine, hoff, walk_ok_bind, hget]
    rfl
  · simp only [numberLine, hoff, walk_ok_bind, hget]
    rw [if_pos (by omega), intValue_encode v hv]
    rfl

/-- What follows the port of a peer. -/
theorem peerId_encode (h : TextAt buf p ((Value.dict es).encode ++ s)) (hlen : (Value.dict es).encode.length < 2147483648)
    (hf : (Value.dict es).encode.length ≤ fuel) : ∃ id : Int, Benc.dictValueOffset buf fuel p (some (ascii "peer id")) = .ok id ∧
      (if 0 < id then do
          let s ← writeString buf (p + id)
          pure [.text (ascii " "), .text s]
        else pure [] : Walk (List Line)) = describePeerId ((Value.dict es).get? (ascii "peer id")) := by
  rcases dictValueOffset_cases h hlen hf (ascii "peer id") with ⟨hget, hoff⟩ | ⟨v, o, s', hget, hoff, hpos, hv, hl⟩
  · exact ⟨-1, hoff, by rw [hget, if_neg (by omega)]; rfl⟩
  · exact ⟨o, hoff, by rw [hget, if_pos (by omega), writeString_encode v hv (by omega)]; rfl⟩

/-- A peer of a list. -/
theorem listedPeer_encode (v : Value) (h : TextAt buf p (v.encode ++ s)) (hlen : v.encode.length < 2147483648)
    (hf : v.encode.length ≤ fuel) : listedPeer buf fuel p = describePeer (numberOf (-1)) v := by
  have htype := bencEntityType_encode v h
  cases v with
  | str a => simp only [listedPeer, htype, walk_ok_bind, entityType, Value.kind, describePeer]
  | int n => simp only [listedPeer, htype, walk_ok_bind, entityType, Value.kind, describePeer]
  | list vs => simp only [listedPeer, htype, walk_ok_bind, entityType, Value.kind, describePeer]
  | dict es =>
    obtain ⟨id, hid, hpeerId⟩ := peerId_encode h hlen hf
    simp only [listedPeer, htype, walk_ok_bind, entityType, Value.kind, describePeer, hid]
    rcases dictValueOffset_cases h hlen hf (ascii "ip") with ⟨hip, hipo⟩ | ⟨ip, oip, sip, hip, hipo, hip0, hipv, hipl⟩
    · -- without an address it does not matter whether there is a port
      rcases dictValueOffset_cases h hlen hf (ascii "port") with ⟨hport, hporto⟩ | ⟨port, oport, sport, hport, hporto, -⟩
      · simp only [hip, hipo, hporto, walk_ok_bind]
        rw [if_pos (Or.inl (by omega))]
      · simp only [hip, hipo, hporto, walk_ok_bind]
        rw [if_pos (Or.inl (by omega))]
    · rcases dictValueOffset_cases h hlen hf (ascii "port") with ⟨hport, hporto⟩ | ⟨port, oport, sport, hport, hporto, hport0, hportv, -⟩
      · simp only [hip, hport, hipo, hporto, walk_ok_bind]
        rw [if_pos (Or.inr (by omega))]
      · simp only [hip, hport, hipo, hporto, walk_ok_bind]
        rw [if_neg (by omega), writeString_encode ip hipv (by omega), intValue_encode port hportv, ← hpeerId]
        cases bytesOf ip with
        | error stop => rfl
        | ok addr =>
          simp only [walk_ok_bind]
          split
          · cases writeString buf (p + id) with
            | error stop => rfl
            | ok s => rfl
          · rfl

/-- One after the other. -/
theorem mapM_range' {α β : Type} {f : Nat → Walk β} {g : α → Walk β} : ∀ (xs : List α) (j : Nat),
    (∀ i x, xs[i]? = some x → f (j + i) = g x) → (List.range' j xs.length).mapM f = xs.mapM g
  | [], _, _ => rfl
  | x :: xs, j, h => by
    have h0 := h 0 x rfl
    have ih := mapM_range' xs (j + 1) fun i y hy => by
      have := h (i + 1) y (by simpa using hy)
      rwa [show j + 1 + i = j + (i + 1) by omega]
    rw [List.length_cons, List.range'_succ, List.mapM_cons, List.mapM_cons, ih, ← h0, Nat.add_zero]

/-- A list of peers. -/
theorem listFormat_encode {vs : List Value} (h : TextAt buf p ((Value.list vs).encode ++ s))
    (hlen : (Value.list vs).encode.length < 2147483648) (hf : 2 * (Value.list vs).encode.length ≤ fuel) (inet : Inet) :
    listFormat buf fuel p = describePeers (numberOf (-1)) inet (some (.list vs)) := by
  have hcount := length_le_encodeList vs
  have hsize : (Value.list vs).encode.length = (encodeList vs).length + 2 := by
    simp only [encode_list, List.length_cons, List.length_append, List.length_nil]
  -- the first offset, whether there is an element or not
  obtain ⟨first, hfirst⟩ : ∃ first : Int, Benc.listItemOffset buf fuel p (0 : Nat) = .ok first := by
    by_cases hvs : 0 < vs.length
    · exact ⟨_, listItemOffset_element h hlen (by omega) hvs⟩
    · exact ⟨_, listItemOffset_none h hlen (by omega) (by omega)⟩
  have hloop := ListOffsetsAux.listedPeers_eq h hlen (by omega) vs.length 0 first (by omega) hfirst
  have hmap : ((List.range' 0 vs.length).mapM fun i => listedPeer buf (fuel - (i + 1)) (p + elementOffset vs i)) =
      vs.mapM (describePeer (numberOf (-1))) := by
    refine mapM_range' vs 0 fun i v hv => ?_
    have hi := (List.getElem?_eq_some_iff.1 hv).1
    have hle : v.encode.length ≤ (encodeList vs).length := by
      rw [(split_at hv).1, encodeList_append, encodeList, List.length_append, List.length_append]
      omega
    rw [Nat.zero_add]
    exact listedPeer_encode v (textAt_element h hv) (by omega) (by omega)
  simp only [Nat.cast_zero, Nat.sub_zero] at hfirst hloop
  simp only [listFormat, hfirst, walk_ok_bind, hloop, hmap, describePeers]
  cases vs.mapM (describePeer (numberOf (-1))) with
  | ok lines => rfl
  | error stop => rfl

/-- The peers of a reply. Without an entry for them it is the last byte of the headers that is looked at. Only a list of peers is walked
through a second time. -/
theorem peersSection_encode (inet : Inet) (h : TextAt buf p ((Value.dict es).encode ++ s))
    (hlen : (Value.dict es).encode.length < 2147483648) (hf : (Value.dict es).encode.length ≤ fuel)
    (hlist : ∀ vs, (Value.dict es).get? (ascii "peers") = some (.list vs) → 2 * (Value.dict es).encode.length ≤ fuel) {t : Bytes}
    (hfront : TextAt buf (p + -1) ([] ++ 10 :: t)) :
    peersSection inet buf fuel p = describePeers (numberOf (-1)) inet ((Value.dict es).get? (ascii "peers")) := by
  rcases dictValueOffset_cases h hlen hf (ascii "peers") with ⟨hget, hoff⟩ | ⟨v, o, s', hget, hoff, hpos, hv, hl⟩
  · have htype := bencEntityType_other hfront (by simp [Digits]) (by decide) (fun _ => by decide)
    rw [if_neg (by simp)] at htype
    simp only [peersSection, hoff, walk_ok_bind, hget, htype]
    rfl
  · have htype := bencEntityType_encode v hv
    simp only [peersSection, hoff, walk_ok_bind, hget, htype]
    cases v with
    | list vs =>
      have := hlist vs hget
      exact listFormat_encode hv (by omega) (by omega) inet
    | str a => exact compactFormat_encode inet hv (by omega) (by omega)
    | int n => rfl
    | dict es => rfl

/-! ## The whole reply -/

theorem readBody_encode (inet : Inet) (h : TextAt buf p ((Value.dict es).encode ++ s))
    (hlen : (Value.dict es).encode.length < 2147483648) (hf : (Value.dict es).encode.length ≤ fuel)
    (hlist : ∀ vs, (Value.dict es).get? (ascii "peers") = some (.list vs) → 2 * (Value.dict es).encode.length ≤ fuel) {t : Bytes}
    (hfront : TextAt buf (p + -1) ([] ++ 10 :: t)) : readBody inet buf fuel p = describe (numberOf (-1)) inet (.dict es) := by
  have hnumbers := numberLine_encode h hlen hf
  have hpeers := peersSection_encode inet h hlen hf hlist hfront
  rcases dictValueOffset_cases h hlen hf (ascii "failure reason") with ⟨hget, hoff⟩ | ⟨v, o, s', hget, hoff, hpos, hv, hl⟩
  · simp only [readBody, hoff, walk_ok_bind, describe, hget, hnumbers, hpeers]
    rw [if_neg (by omega)]
  · have htype := bencEntityType_encode v hv
    have hwrite := writeString_encode v hv (by omega)
    simp only [readBody, hoff, walk_ok_bind, describe, hget, htype, hwrite]
    rw [if_pos (by omega)]
    cases v with
    | str a => rfl
    | int n => rfl
    | list vs => rfl
    | dict es => rfl

theorem parseResponse_encode (inet : Inet) {headers : Bytes} (hheaders : Headers headers) (es : List (Bytes × Value))
    (hlen : (Value.dict es).encode.length < 2147483648) (s : Bytes) {fuel : Nat} (hf : (Value.dict es).encode.length ≤ fuel)
    (hlist : ∀ vs, (Value.dict es).get? (ascii "peers") = some (.list vs) → 2 * (Value.dict es).encode.length ≤ fuel) :
    parseResponse inet (headers ++ ((Value.dict es).encode ++ s)) fuel =
      (describe (numberOf (-1)) inet (.dict es)).map fun lines => (.text (ascii "\nTracker response:\n") :: lines, 0) := by
  obtain ⟨hnul, hfound⟩ := hheaders
  have hfour : (ascii "\r\n\r\n").length = 4 := by decide
  have hat : TextAt (headers ++ ((Value.dict es).encode ++ s)) headers.length ((Value.dict es).encode ++ s) := ⟨headers, rfl, rfl⟩
  obtain ⟨pre, hpre⟩ := (strstr_some hfound).2
  have hend : ascii "\r\n\r\n" = [13, 10, 13] ++ [10] := by decide
  have hsize : headers.length = pre.length + 4 := by rw [← hpre, List.length_append, hfour]
  have hfront : TextAt (headers ++ ((Value.dict es).encode ++ s)) (headers.length + -1) ([] ++ 10 :: ((Value.dict es).encode ++ s)) := by
    refine ⟨pre ++ [13, 10, 13], ?_, ?_⟩
    · rw [← hpre, hend]
      simp
    · simp only [List.length_append, hsize, List.length_cons, List.length_nil]
      omega
  have hread := readBody_encode inet hat hlen hf hlist hfront
  have htype : bencEntityType (headers ++ ((Value.dict es).encode ++ s)) headers.length = .ok .dict :=
    bencEntityType_encode (.dict es) hat
  have hidx : headers.length + (cstr ((Value.dict es).encode ++ s)).length - (4 + (cstr ((Value.dict es).encode ++ s)).length) + 4 =
      headers.length := by omega
  simp only [parseResponse, cstr_append hnul, strstr_append hfound, List.length_append, hfour, hidx, htype, walk_ok_bind, hread]
  cases describe (numberOf (-1)) inet (.dict es) with
  | ok lines => rfl
  | error stop => rfl

/-! ## Replies that are not printed -/

theorem bytesOf_cases (v : Value) : (∃ s, v.kind = .str ∧ bytesOf v = .ok s) ∨ (v.kind ≠ .str ∧ bytesOf v = .error .fault) := by
  cases v with
  | str s => exact Or.inl ⟨s, rfl, rfl⟩
  | int n => exact Or.inr ⟨Kind.noConfusion, rfl⟩
  | list vs => exact Or.inr ⟨Kind.noConfusion, rfl⟩
  | dict es => exact Or.inr ⟨Kind.noConfusion, rfl⟩

theorem describePeerId_cases (id : Option Value) : ((∀ v ∈ id, v.kind = .str) ∧ ∃ lines, describePeerId id = .ok lines) ∨
    ((∃ v ∈ id, v.kind ≠ .str) ∧ describePeerId id = .error .fault) := by
  cases id with
  | none => exact Or.inl ⟨by simp, [], rfl⟩
  | some v =>
    rcases bytesOf_cases v with ⟨s, hk, hs⟩ | ⟨hk, hs⟩
    · exact Or.inl ⟨by simpa using hk, _, by rw [describePeerId, hs]; rfl⟩
    · exact Or.inr ⟨⟨v, rfl, hk⟩, by rw [describePeerId, hs]; rfl⟩

/-- A peer is printed, or has no string where one is taken. -/
theorem describePeer_cases (v : Value) : (PeerReadable v ∧ ∃ lines, describePeer (numberOf (-1)) v = .ok lines) ∨
    (¬PeerReadable v ∧ describePeer (numberOf (-1)) v = .error .fault) := by
  cases v with
  | str s => exact Or.inl ⟨(fun ip port h => by cases h), _, rfl⟩
  | int n => exact Or.inl ⟨(fun ip port h => by cases h), _, rfl⟩
  | list vs => exact Or.inl ⟨(fun ip port h => by cases h), _, rfl⟩
  | dict es =>
    simp only [describePeer, PeerReadable, Value.kind]
    cases (Value.dict es).get? (ascii "ip") with
    | none => exact Or.inl ⟨(fun ip port h => by cases h), _, rfl⟩
    | some ip =>
      cases (Value.dict es).get? (ascii "port") with
      | none => exact Or.inl ⟨(fun ip port _ h => by cases h), _, rfl⟩
      | some port =>
        simp only [Option.some.injEq, forall_apply_eq_imp_iff, forall_eq']
        rcases bytesOf_cases ip with ⟨s, hk, hs⟩ | ⟨hk, hs⟩
        · rcases describePeerId_cases ((Value.dict es).get? (ascii "peer id")) with ⟨hid, lines, hl⟩ | ⟨⟨id, hid, hne⟩, hl⟩
          · exact Or.inl ⟨⟨hk, hid⟩, _, by rw [hs, hl]; rfl⟩
          · exact Or.inr ⟨fun h => hne (h.2 id hid), by rw [hs, hl]; rfl⟩
        · exact Or.inr ⟨fun h => hk h.1, by rw [hs]; rfl⟩

/-- So is a list of peers. -/
theorem mapM_describePeer_cases (vs : List Value) :
    ((∀ v ∈ vs, PeerReadable v) ∧ ∃ lines, vs.mapM (describePeer (numberOf (-1))) = .ok lines) ∨
    ((∃ v ∈ vs, ¬PeerReadable v) ∧ vs.mapM (describePeer (numberOf (-1))) = .error .fault) := by
  induction vs with
  | nil => exact Or.inl ⟨by simp, [], rfl⟩
  | cons v vs ih =>
    rw [List.mapM_cons]
    rcases describePeer_cases v with ⟨hv, lines, hl⟩ | ⟨hv, hl⟩
    · rcases ih with ⟨hvs, others, ho⟩ | ⟨⟨w, hw, hne⟩, ho⟩
      · exact Or.inl ⟨List.forall_mem_cons.2 ⟨hv, hvs⟩, _, by rw [hl, ho]; rfl⟩
      · exact Or.inr ⟨⟨w, List.mem_cons_of_mem v hw, hne⟩, by rw [hl, ho]; rfl⟩
    · exact Or.inr ⟨⟨v, List.mem_cons_self, hv⟩, by rw [hl]; rfl⟩

/-- So is a whole reply. -/
theorem describe_cases (inet : Inet) (reply : Value) : (Readable reply ∧ ∃ lines, describe (numberOf (-1)) inet reply = .ok lines) ∨
    (¬Readable reply ∧ describe (numberOf (-1)) inet reply = .error .fault) := by
  rw [describe, Readable]
  cases reply.get? (ascii "failure reason") with
  | some v =>
    left
    refine ⟨(fun h => by cases h), ?_⟩
    cases v with
    | str s => exact ⟨_, rfl⟩
    | int n => exact ⟨_, rfl⟩
    | list vs => exact ⟨_, rfl⟩
    | dict es => exact ⟨_, rfl⟩
  | none =>
    simp only [forall_const]
    cases reply.get? (ascii "peers") with
    | none => exact Or.inl ⟨(fun vs h => by cases h), _, rfl⟩
    | some v =>
      cases v with
      | str s => exact Or.inl ⟨(fun vs h => by cases h), _, rfl⟩
      | int n => exact Or.inl ⟨(fun vs h => by cases h), _, rfl⟩
      | dict es => exact Or.inl ⟨(fun vs h => by cases h), _, rfl⟩
      | list vs =>
        simp only [Option.some.injEq, Value.list.injEq, forall_eq', describePeers]
        rcases mapM_describePeer_cases vs with ⟨hvs, lines, hl⟩ | ⟨⟨v, hv, hne⟩, hl⟩
        · exact Or.inl ⟨hvs, _, by rw [hl]; rfl⟩
        · exact Or.inr ⟨fun h => hne (h v hv), by rw [hl]; rfl⟩

/-! ## Legible replies -/

theorem describeNumber_legible {o : Option Value} (h : ∀ v ∈ o, Value.Legible v) (before behind : Bytes) (missing : List Line) :
    describeNumber (numberOf (-1)) before behind missing o = describeNumber meant before behind missing o := by
  cases o with
  | none => rfl
  | some v => rw [describeNumber, describeNumber, (numberOf_eq_iff v).2 (h v rfl)]

theorem describePeer_legible {v : Value} (h : ∀ port ∈ v.get? (ascii "port"), Value.Legible port) :
    describePeer (numberOf (-1)) v = describePeer meant v := by
  unfold describePeer
  split
  · split
    · rename_i hport
      rw [(numberOf_eq_iff _).2 (h _ hport)]
    · rfl
  · rfl

theorem describePeers_legible {o : Option Value}
    (h : ∀ vs, o = some (.list vs) → ∀ v ∈ vs, ∀ port ∈ v.get? (ascii "port"), Value.Legible port) (inet : Inet) :
    describePeers (numberOf (-1)) inet o = describePeers meant inet o := by
  unfold describePeers
  split
  · rename_i vs
    have hmap : vs.mapM (describePeer (numberOf (-1))) = vs.mapM (describePeer meant) := by
      have hall := h vs rfl
      clear h
      induction vs with
      | nil => rfl
      | cons v vs ih =>
        rw [List.mapM_cons, List.mapM_cons, describePeer_legible (hall v List.mem_cons_self),
          ih fun w hw => hall w (List.mem_cons_of_mem _ hw)]
    rw [hmap]
  · rfl
  · rfl

theorem describe_legible {reply : Value} (h : NumbersLegible reply) (inet : Inet) :
    describe (numberOf (-1)) inet reply = describe meant inet reply := by
  unfold describe
  split
  · rfl
  · rfl
  · rename_i hreason
    obtain ⟨hnumbers, hports⟩ := h hreason
    rw [describePeers_legible hports, describeNumber_legible (hnumbers _ (by simp)), describeNumber_legible (hnumbers _ (by simp)),
      describeNumber_legible (hnumbers _ (by simp))]

end ReadRepliesAux

open ReadRepliesAux

/-- For every dictionary shorter than 2^31 bytes, behind any headers and with anything behind it: when it has strings where `getpeers`
takes them, what is printed is what the dictionary says, and the value is 0, its numbers being as `benc_int_value` reads them; they are
the dictionary's where they are legible. Otherwise it writes from behind the buffer. -/
theorem getpeers_reads_reply (inet : Inet) (headers : Bytes) (hheaders : Headers headers) (es : List (Bytes × Value))
    (hlen : (Value.dict es).encode.length < 2147483648) (s : Bytes) (fuel : Nat) (hf : 2 * (Value.dict es).encode.length ≤ fuel) :
    (Readable (.dict es) → ∃ lines, describe (numberOf (-1)) inet (.dict es) = .ok lines ∧
      parseResponse inet (headers ++ ((Value.dict es).encode ++ s)) fuel = .ok (.text (ascii "\nTracker response:\n") :: lines, 0) ∧
      (NumbersLegible (.dict es) → describe meant inet (.dict es) = .ok lines)) ∧
    (¬Readable (.dict es) → parseResponse inet (headers ++ ((Value.dict es).encode ++ s)) fuel = .error .fault) := by
  have hparse := parseResponse_encode inet hheaders es hlen s (by omega) fun _ _ => hf
  rcases describe_cases inet (.dict es) with ⟨hr, lines, hd⟩ | ⟨hr, hd⟩
  · rw [hd] at hparse
    exact ⟨fun _ => ⟨lines, hd, hparse, fun hl => by rw [← describe_legible hl, hd]⟩, fun h => absurd hr h⟩
  · rw [hd] at hparse
    exact ⟨fun h => absurd h hr, fun _ => hparse⟩

namespace ReadRepliesExample

def headers : Bytes := ascii "HTTP/1.0 200 OK\r\nServer: other\r\n\r\n"

/-- A list in which only the first entry is a peer. -/
def peers : List Value :=
  [.dict [(ascii "port", .int (Numeral.ofInt 80)), (ascii "ip", .str (ascii "::1"))], .str (ascii "ip"), .dict []]

/-- It, behind so many seeds. -/
def reply (seeds : Int) : List (Bytes × Value) :=
  [(ascii "complete", .int (Numeral.ofInt seeds)), (ascii "incomplete", .int (Numeral.ofInt (-5))), (ascii "peers", .list peers),
    (ascii "interval", .int (Numeral.ofInt 1800))]

/-- An address that is no string. -/
def unreadable : List (Bytes × Value) :=
  [(ascii "peers", .list [.dict [(ascii "ip", .int (Numeral.ofInt 7)), (ascii "port", .int (Numeral.ofInt 80))]])]

theorem readable (seeds : Int) : Readable (.dict (reply seeds)) := by
  rcases ReadRepliesAux.describe_cases PlainInet.inet (.dict (reply seeds)) with ⟨hr, -⟩ | ⟨-, hd⟩
  · exact hr
  · have hdescribe : ∃ lines, describe (numberOf (-1)) PlainInet.inet (.dict (reply seeds)) = .ok lines := ⟨_, rfl⟩
    obtain ⟨lines, hlines⟩ := hdescribe
    cases hd.symm.trans hlines

/-- Fifteen are legible. -/
theorem numbersLegible : NumbersLegible (.dict (reply 15)) := by
  intro _
  refine ⟨by decide, ?_⟩
  intro vs hvs
  obtain rfl : peers = vs := Value.list.inj (Option.some.inj hvs)
  decide

end ReadRepliesExample

open ReadRepliesExample

/-- Five seeds are printed as -1, and fifteen as what they are; a reply that gives the address of a peer as a number is not printed. -/
theorem getpeers_reads_reply_list :
    parseResponse PlainInet.inet (headers ++ ((Value.dict (reply 5)).encode ++ [0])) 300 =
      .ok ([.text (ascii "\nTracker response:\n"), .text (ascii "\tAnnounce interval: 1800 seconds\n"),
        .text (ascii "\tActive Seeds: -1\n"), .text (ascii "\tActive Peers: -5\n"),
        .text (ascii "\tPeers (received in non-compact format):\n"), .text (ascii "\t\t"), .text (ascii "::1"), .text (ascii ":80"),
        .text (ascii "\n"), .text (ascii "Invalid data received\n"), .text (ascii "Incomplete peer dictionary\n")], 0) ∧
    (∃ lines, describe meant PlainInet.inet (.dict (reply 15)) = .ok lines ∧
      parseResponse PlainInet.inet (headers ++ ((Value.dict (reply 15)).encode ++ [0])) 300 =
        .ok (.text (ascii "\nTracker response:\n") :: lines, 0)) ∧
    parseResponse PlainInet.inet (headers ++ ((Value.dict unreadable).encode ++ [0])) 300 = .error .fault := by
  have hheaders : Headers headers := ⟨by decide, by decide⟩
  refine ⟨?_, ?_, ?_⟩
  · obtain ⟨lines, hd, hp, -⟩ :=
      (getpeers_reads_reply PlainInet.inet headers hheaders (reply 5) (by decide) [0] 300 (by decide)).1 (readable 5)
    rw [hp, ← Except.ok.inj hd]
    rfl
  · obtain ⟨lines, -, hp, hl⟩ :=
      (getpeers_reads_reply PlainInet.inet headers hheaders (reply 15) (by decide) [0] 300 (by decide)).1 (readable 15)
    exact ⟨lines, hl numbersLegible, hp⟩
  · refine (getpeers_reads_reply PlainInet.inet headers hheaders unreadable (by decide) [0] 300 (by decide)).2 ?_
    intro h
    cases (h rfl _ rfl _ List.mem_cons_self _ _ rfl rfl).1

end Traccoon
