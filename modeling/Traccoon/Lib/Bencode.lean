import Traccoon.Lib.CString

/-!
# Bencoding: values, their canonical encoding, and the grammar

Two descriptions of one format. `Value` is the abstract side, with `Value.encode` as its canonical text. `Entity` is the
grammar: the texts that are one complete entity. The grammar is wider than the canonical encodings (a string length may have
leading zeros) and takes as a parameter which runs of digits count as an integer.
-/

namespace Bencode

open CString

/-- An integer as bencoding writes it: an optional minus and at least one digit. -/
structure Numeral where
  neg : Bool
  digits : Bytes
  isDigits : Digits digits
  nonempty : digits ≠ []

/-- The text of a numeral between `i` and `e`. -/
def minus (neg : Bool) : Bytes := if neg then [45] else []

/-- The numeral `printf` writes for an integer. -/
def Numeral.ofInt (z : Int) : Numeral :=
  { neg := decide (z < 0), digits := decimal z.natAbs, isDigits := decimal_digits _, nonempty := decimal_ne_nil _ }

/-- A bencoded value. Dictionary keys stand in any order and may repeat. -/
inductive Value where
  | str (s : Bytes)
  | int (n : Numeral)
  | list (vs : List Value)
  | dict (es : List (Bytes × Value))

/-- The encoding of a string: its length, a colon, its bytes. -/
def encodeStr (s : Bytes) : Bytes := decimal s.length ++ 58 :: s

/-- The encoding of an integer. -/
def encodeInt (z : Int) : Bytes := 105 :: (decimalInt z ++ [101])

mutual
/-- The canonical encoding of a value. -/
def Value.encode : Value → Bytes
  | .str s => encodeStr s
  | .int n => 105 :: (minus n.neg ++ n.digits ++ [101])
  | .list vs => 108 :: (encodeList vs ++ [101])
  | .dict es => 100 :: (encodeEntries es ++ [101])

/-- The elements of a list, one behind the other. -/
def encodeList : List Value → Bytes
  | [] => []
  | v :: vs => v.encode ++ encodeList vs

/-- The entries of a dictionary, each key before its value. -/
def encodeEntries : List (Bytes × Value) → Bytes
  | [] => []
  | (k, v) :: es => encodeStr k ++ v.encode ++ encodeEntries es
end

theorem encode_str (s : Bytes) : (Value.str s).encode = encodeStr s := by rw [Value.encode]

theorem encode_list (vs : List Value) : (Value.list vs).encode = 108 :: (encodeList vs ++ [101]) := by rw [Value.encode]

theorem encode_dict (es : List (Bytes × Value)) : (Value.dict es).encode = 100 :: (encodeEntries es ++ [101]) := by
  rw [Value.encode]

/-- The value stored under the first entry with this key. -/
def Value.get? : Value → Bytes → Option Value
  | .dict es, k => (es.find? (fun e => e.1 == k)).map (·.2)
  | _, _ => none

/-- Either there is a first entry with the key, or there is none. -/
theorem get?_dict_cases (es : List (Bytes × Value)) (k : Bytes) :
    (∃ pre v post, es = pre ++ (k, v) :: post ∧ (∀ e ∈ pre, e.1 ≠ k) ∧ (Value.dict es).get? k = some v) ∨
      (∀ e ∈ es, e.1 ≠ k) ∧ (Value.dict es).get? k = none := by
  cases hfind : es.find? (fun e => e.1 == k) with
  | none =>
    refine Or.inr ⟨fun e he => ?_, by rw [Value.get?, hfind]; rfl⟩
    simpa using List.find?_eq_none.1 hfind e he
  | some e =>
    obtain ⟨hk, pre, post, rfl, hpre⟩ := List.find?_eq_some_iff_append.1 hfind
    obtain ⟨k', v⟩ := e
    obtain rfl : k' = k := by simpa using hk
    refine Or.inl ⟨pre, v, post, rfl, fun e he => ?_, by rw [Value.get?, hfind]; rfl⟩
    simpa using hpre e he

theorem encodeList_eq_flatMap (vs : List Value) : encodeList vs = vs.flatMap Value.encode := by
  induction vs with
  | nil => rfl
  | cons v vs ih => simp [encodeList, ih]

/-- A list around the entry at an index. -/
theorem split_at {α : Type*} {l : List α} {j : Nat} {x : α} (h : l[j]? = some x) :
    l = l.take j ++ x :: l.drop (j + 1) ∧ (l.take j).length = j := by
  obtain ⟨hlt, he⟩ := List.getElem?_eq_some_iff.1 h
  refine ⟨?_, List.length_take_of_le (by omega)⟩
  rw [← he, ← List.drop_eq_getElem_cons hlt, List.take_append_drop]

theorem encodeList_append (vs ws : List Value) : encodeList (vs ++ ws) = encodeList vs ++ encodeList ws := by
  simp only [encodeList_eq_flatMap, List.flatMap_append]

theorem encodeEntries_append (es fs : List (Bytes × Value)) : encodeEntries (es ++ fs) = encodeEntries es ++ encodeEntries fs := by
  induction es with
  | nil => rfl
  | cons e es ih => simp only [List.cons_append, encodeEntries, ih, List.append_assoc]

/-- An integer value is encoded as `printf` writes it. -/
theorem encode_ofInt (z : Int) : (Value.int (Numeral.ofInt z)).encode = encodeInt z := by
  simp only [Value.encode, Numeral.ofInt, encodeInt, decimalInt, minus]
  by_cases hz : z < 0 <;> simp [hz]

/-! ## The grammar -/

/-- A string entity: a decimal length, a colon and exactly that many bytes. -/
def IsStr (e : Bytes) : Prop := ∃ ds s : Bytes, Digits ds ∧ ds ≠ [] ∧ digitsVal ds = s.length ∧ e = ds ++ 58 :: s

mutual
/-- The texts that are one complete entity; `intOk` says which runs of digits make an integer. -/
inductive Entity (intOk : Bytes → Prop) : Bytes → Prop where
  | str {e : Bytes} (h : IsStr e) : Entity intOk e
  | int (neg : Bool) {ds : Bytes} (hd : Digits ds) (ho : intOk ds) : Entity intOk (105 :: (minus neg ++ ds ++ [101]))
  | list {k : Nat} {xs : Bytes} (h : Items intOk false 0 k xs) : Entity intOk (108 :: (xs ++ [101]))
  | dict {k : Nat} {xs : Bytes} (h : Items intOk true 0 k xs) (hk : k % 2 = 0) : Entity intOk (100 :: (xs ++ [101]))

/-- The texts of a run of entities numbered from `k` up to before `k'`; with `keys`, those of even number are strings. -/
inductive Items (intOk : Bytes → Prop) : Bool → Nat → Nat → Bytes → Prop where
  | nil {keys : Bool} {k : Nat} : Items intOk keys k k []
  | cons {keys : Bool} {k k' : Nat} {e xs : Bytes} (hs : keys = true → k % 2 = 0 → IsStr e) (he : Entity intOk e)
      (ht : Items intOk keys (k + 1) k' xs) : Items intOk keys k k' (e ++ xs)
end

/-- The grammar of bencoding: an integer has at least one digit. -/
def Complete (e : Bytes) : Prop := Entity (fun ds => ds ≠ []) e

theorem isStr_encodeStr (s : Bytes) : IsStr (encodeStr s) :=
  ⟨decimal s.length, s, decimal_digits _, decimal_ne_nil _, digitsVal_decimal _, rfl⟩

/-- An entity that is not empty starts with a digit or one of the three opening letters. -/
theorem Entity.head {intOk : Bytes → Prop} {e : Bytes} (h : Entity intOk e) :
    ∃ c t, e = c :: t ∧ (isDigit c = true ∨ c = 105 ∨ c = 108 ∨ c = 100) := by
  cases h with
  | str h =>
    obtain ⟨ds, s, hd, hne, -, rfl⟩ := h
    obtain ⟨c, ds', rfl⟩ := List.exists_cons_of_ne_nil hne
    exact ⟨c, ds' ++ 58 :: s, rfl, Or.inl (hd c (by simp))⟩
  | int neg hd ho => exact ⟨105, _, rfl, Or.inr (Or.inl rfl)⟩
  | list h => exact ⟨108, _, rfl, Or.inr (Or.inr (Or.inl rfl))⟩
  | dict h hk => exact ⟨100, _, rfl, Or.inr (Or.inr (Or.inr rfl))⟩

theorem Entity.length_pos {intOk : Bytes → Prop} {e : Bytes} (h : Entity intOk e) : 0 < e.length := by
  obtain ⟨c, t, rfl, -⟩ := h.head
  simp

mutual
/-- The canonical encoding of a value is one complete entity. -/
theorem complete_encode : ∀ v : Value, Complete v.encode
  | .str s => by
    rw [Value.encode]
    exact Entity.str (isStr_encodeStr s)
  | .int n => by
    rw [Value.encode]
    exact Entity.int n.neg n.isDigits n.nonempty
  | .list vs => by
    rw [Value.encode]
    exact Entity.list (items_encodeList vs 0)
  | .dict es => by
    rw [Value.encode]
    exact Entity.dict (items_encodeEntries es 0 rfl) (by omega)

theorem items_encodeList : ∀ (vs : List Value) (k : Nat),
    Items (fun ds => ds ≠ []) false k (k + vs.length) (encodeList vs)
  | [], k => by
    rw [encodeList]
    exact Items.nil
  | v :: vs, k => by
    rw [encodeList]
    refine Items.cons (fun h => by cases h) (complete_encode v) ?_
    have h := items_encodeList vs (k + 1)
    rwa [show k + 1 + vs.length = k + (v :: vs).length by simp only [List.length_cons]; omega] at h

theorem items_encodeEntries : ∀ (es : List (Bytes × Value)) (k : Nat), k % 2 = 0 →
    Items (fun ds => ds ≠ []) true k (k + 2 * es.length) (encodeEntries es)
  | [], k, _ => by
    rw [encodeEntries]
    exact Items.nil
  | (s, v) :: es, k, hk => by
    rw [encodeEntries, List.append_assoc]
    refine Items.cons (fun _ _ => isStr_encodeStr s) (Entity.str (isStr_encodeStr s)) ?_
    refine Items.cons (fun _ h => absurd h (by omega)) (complete_encode v) ?_
    have h := items_encodeEntries es (k + 1 + 1) (by omega)
    rwa [show k + 1 + 1 + 2 * es.length = k + 2 * ((s, v) :: es).length by
      simp only [List.length_cons]; omega] at h
end

/-! ## Runs -/

/-- A run of entities grows at its end. -/
theorem Items.snoc {intOk : Bytes → Prop} {keys : Bool} {k k' : Nat} {xs e : Bytes} (h : Items intOk keys k k' xs)
    (hs : keys = true → k' % 2 = 0 → IsStr e) (he : Entity intOk e) : Items intOk keys k (k' + 1) (xs ++ e) :=
  match h with
  | .nil => by simpa using Items.cons hs he Items.nil
  | .cons hs' he' ht => by
    rw [List.append_assoc]
    exact Items.cons hs' he' (Items.snoc ht hs he)

/-! ## One text, one value -/

/-- The integer a numeral stands for. -/
def Numeral.toInt (n : Numeral) : Int := if n.neg then -(digitsVal n.digits : Int) else digitsVal n.digits

theorem toInt_ofInt (z : Int) : (Numeral.ofInt z).toInt = z := by
  simp only [Numeral.toInt, Numeral.ofInt, digitsVal_decimal, decide_eq_true_eq]
  split <;> omega

/-- Digits in front of a byte that is no digit are read off in one way. -/
theorem digits_append_inj {ds es s t : Bytes} {c : UInt8} (hd : Digits ds) (he : Digits es) (hc : isDigit c = false)
    (h : ds ++ c :: s = es ++ c :: t) : ds = es ∧ s = t := by
  have hde : ds = es := by
    rw [← takeWhile_digits hd hc s, h, takeWhile_digits he hc t]
  subst hde
  exact ⟨rfl, by simpa using h⟩

theorem encodeStr_append_inj {a b s t : Bytes} (h : encodeStr a ++ s = encodeStr b ++ t) : a = b ∧ s = t := by
  simp only [encodeStr, List.append_assoc, List.cons_append] at h
  obtain ⟨hl, h⟩ := digits_append_inj (decimal_digits _) (decimal_digits _) (by decide) h
  have hlen : a.length = b.length := by
    rw [← digitsVal_decimal a.length, hl, digitsVal_decimal]
  exact List.append_inj h hlen

theorem numeral_append_inj {n m : Numeral} {s t : Bytes}
    (h : minus n.neg ++ n.digits ++ 101 :: s = minus m.neg ++ m.digits ++ 101 :: t) : n = m ∧ s = t := by
  obtain ⟨neg, ds, hd, hne⟩ := n
  obtain ⟨neg', es, he, hne'⟩ := m
  -- a digit is no minus, so the signs agree
  have hsign : ∀ (ds es u v : Bytes), Digits ds → ds ≠ [] → ds ++ u ≠ 45 :: (es ++ v) := by
    intro ds es u v hd hne heq
    obtain ⟨d, ds', rfl⟩ := List.exists_cons_of_ne_nil hne
    have hdig := hd d (by simp)
    rw [(List.cons.inj heq).1] at hdig
    exact absurd hdig (by decide)
  cases neg with
  | true =>
    cases neg' with
    | true =>
      obtain ⟨rfl, hst⟩ := digits_append_inj hd he (by decide) (List.cons.inj h).2
      exact ⟨rfl, hst⟩
    | false => exact absurd h.symm (hsign es ds _ _ he hne')
  | false =>
    cases neg' with
    | true => exact absurd h (hsign ds es _ _ hd hne)
    | false =>
      obtain ⟨rfl, hst⟩ := digits_append_inj hd he (by decide) h
      exact ⟨rfl, hst⟩

/-- The four kinds of values. -/
inductive Kind where
  | str | int | list | dict
  deriving DecidableEq

def Value.kind : Value → Kind
  | .str _ => .str
  | .int _ => .int
  | .list _ => .list
  | .dict _ => .dict

/-- The bytes the encoding of a value of this kind may start with. -/
def Kind.opens : Kind → UInt8 → Bool
  | .str, c => isDigit c
  | .int, c => c == 105
  | .list, c => c == 108
  | .dict, c => c == 100

theorem encode_opens (v : Value) : ∃ c t, v.encode = c :: t ∧ v.kind.opens c = true := by
  cases v with
  | str s =>
    obtain ⟨d, ds, hd⟩ := List.exists_cons_of_ne_nil (decimal_ne_nil s.length)
    refine ⟨d, ds ++ 58 :: s, by rw [Value.encode, encodeStr, hd, List.cons_append], ?_⟩
    exact decimal_digits s.length d (by simp [hd])
  | int n => exact ⟨105, _, by rw [Value.encode], rfl⟩
  | list vs => exact ⟨108, _, by rw [Value.encode], rfl⟩
  | dict es => exact ⟨100, _, by rw [Value.encode], rfl⟩

/-- The first byte tells the kind, and is never the letter that closes a list or dictionary. -/
theorem opens_unique {k l : Kind} {c : UInt8} (hk : k.opens c = true) (hl : l.opens c = true) : k = l ∧ c ≠ 101 := by
  have hletters : isDigit 100 = false ∧ isDigit 101 = false ∧ isDigit 105 = false ∧ isDigit 108 = false := by decide
  obtain ⟨h100, h101, h105, h108⟩ := hletters
  cases k <;> cases l <;> simp only [Kind.opens, beq_iff_eq] at hk hl <;> first
    | exact ⟨rfl, by rintro rfl; simp_all⟩
    | (subst hk; simp_all)
    | (subst hl; simp_all)

/-- No encoding starts with the letter that closes a list or dictionary. -/
theorem encode_append_ne_close (v : Value) (s t : Bytes) : v.encode ++ s ≠ 101 :: t := by
  intro h
  obtain ⟨c, u, he, ho⟩ := encode_opens v
  rw [he] at h
  exact (opens_unique ho ho).2 (List.cons.inj h).1

theorem encodeStr_append_ne_close (k s t : Bytes) : encodeStr k ++ s ≠ 101 :: t := by
  have := encode_append_ne_close (.str k) s t
  rwa [Value.encode] at this

/-- Texts of values that agree are texts of values of one kind. -/
theorem kind_eq_of_append_eq {v w : Value} {s t : Bytes} (h : v.encode ++ s = w.encode ++ t) : v.kind = w.kind := by
  obtain ⟨c, u, hv, hvo⟩ := encode_opens v
  obtain ⟨d, u', hw, hwo⟩ := encode_opens w
  rw [hv, hw] at h
  rw [← (List.cons.inj h).1] at hwo
  exact (opens_unique hvo hwo).1

mutual
/-- The encoding of a value can be told from what follows it, and from every other value's. -/
theorem encode_append_inj : ∀ (v w : Value) (s t : Bytes), v.encode ++ s = w.encode ++ t → v = w ∧ s = t
  | .str a, w, s, t, h => by
    have hk := kind_eq_of_append_eq h
    cases w with
    | str b =>
      simp only [Value.encode] at h
      obtain ⟨rfl, hst⟩ := encodeStr_append_inj h
      exact ⟨rfl, hst⟩
    | _ => exact Kind.noConfusion hk
  | .int n, w, s, t, h => by
    have hk := kind_eq_of_append_eq h
    cases w with
    | int m =>
      simp only [Value.encode, List.cons_append, List.cons.injEq, true_and] at h
      obtain ⟨rfl, hst⟩ := numeral_append_inj (by simpa using h)
      exact ⟨rfl, hst⟩
    | _ => exact Kind.noConfusion hk
  | .list vs, w, s, t, h => by
    have hk := kind_eq_of_append_eq h
    cases w with
    | list ws =>
      simp only [Value.encode, List.cons_append, List.append_assoc, List.nil_append, List.cons.injEq, true_and] at h
      obtain ⟨rfl, hst⟩ := encodeList_append_inj vs ws s t h
      exact ⟨rfl, hst⟩
    | _ => exact Kind.noConfusion hk
  | .dict es, w, s, t, h => by
    have hk := kind_eq_of_append_eq h
    cases w with
    | dict fs =>
      simp only [Value.encode, List.cons_append, List.append_assoc, List.nil_append, List.cons.injEq, true_and] at h
      obtain ⟨rfl, hst⟩ := encodeEntries_append_inj es fs s t h
      exact ⟨rfl, hst⟩
    | _ => exact Kind.noConfusion hk

theorem encodeList_append_inj : ∀ (vs ws : List Value) (s t : Bytes),
    encodeList vs ++ 101 :: s = encodeList ws ++ 101 :: t → vs = ws ∧ s = t
  | [], [], s, t, h => by
    simp only [encodeList, List.nil_append, List.cons.injEq, true_and] at h
    exact ⟨rfl, h⟩
  | [], w :: ws, s, t, h => by
    rw [encodeList, encodeList, List.append_assoc] at h
    exact absurd h.symm (encode_append_ne_close w _ _)
  | v :: vs, [], s, t, h => by
    rw [encodeList, encodeList, List.append_assoc] at h
    exact absurd h (encode_append_ne_close v _ _)
  | v :: vs, w :: ws, s, t, h => by
    rw [encodeList, encodeList, List.append_assoc, List.append_assoc] at h
    obtain ⟨rfl, h'⟩ := encode_append_inj v w _ _ h
    obtain ⟨rfl, hst⟩ := encodeList_append_inj vs ws s t h'
    exact ⟨rfl, hst⟩

theorem encodeEntries_append_inj : ∀ (es fs : List (Bytes × Value)) (s t : Bytes),
    encodeEntries es ++ 101 :: s = encodeEntries fs ++ 101 :: t → es = fs ∧ s = t
  | [], [], s, t, h => by
    simp only [encodeEntries, List.nil_append, List.cons.injEq, true_and] at h
    exact ⟨rfl, h⟩
  | [], (k, w) :: fs, s, t, h => by
    rw [encodeEntries, encodeEntries, List.append_assoc, List.append_assoc] at h
    exact absurd h.symm (encodeStr_append_ne_close k _ _)
  | (k, v) :: es, [], s, t, h => by
    rw [encodeEntries, encodeEntries, List.append_assoc, List.append_assoc] at h
    exact absurd h (encodeStr_append_ne_close k _ _)
  | (k, v) :: es, (l, w) :: fs, s, t, h => by
    rw [encodeEntries, encodeEntries, List.append_assoc, List.append_assoc, List.append_assoc, List.append_assoc] at h
    obtain ⟨rfl, h'⟩ := encodeStr_append_inj h
    obtain ⟨rfl, h''⟩ := encode_append_inj v w _ _ h'
    obtain ⟨rfl, hst⟩ := encodeEntries_append_inj es fs s t h''
    exact ⟨rfl, hst⟩
end

/-- Two values with one text are one value. -/
theorem encode_injective {v w : Value} (h : v.encode = w.encode) : v = w :=
  (encode_append_inj v w [] [] (by rw [h])).1

end Bencode
