import Traccoon.NodePath
import Traccoon.Lemmas.BencDict
import Traccoon.Lemmas.BencList

/-!
# The node named by a path

A path names keys and indices from the root of a value down. The offset of `-k` grows by the offset of each child below its parent, and
the accessors find the child where it stands as long as an `int` holds that offset (`Fits`). Where it does not, the step goes wrong:
what an accessor returns is below 2^31.
-/

namespace Traccoon

open CString Bencode Torrentinfo

/-- A token that a list is indexed with: digits, for a number that an `int` holds. -/
def IsIndex (t : Bytes) : Prop := Digits t ∧ t ≠ [] ∧ digitsVal t < 2147483648

/-- A token that a dictionary is searched for: a key that has no separator in it and ends where the string does. -/
def IsKey (t : Bytes) : Prop := t ≠ [] ∧ 46 ∉ t ∧ NoNul t

/-- The child of a value that a token names, and its offset below the value. Of entries with one key the first counts. -/
inductive Child : Value → Bytes → Nat → Value → Prop where
  | element {vs : List Value} {t : Bytes} {w : Value} : IsIndex t → vs[digitsVal t]? = some w →
      Child (.list vs) t (elementOffset vs (digitsVal t)) w
  | entry {pre post : List (Bytes × Value)} {t : Bytes} {w : Value} : IsKey t → (∀ e ∈ pre, e.1 ≠ t) →
      Child (.dict (pre ++ (t, w) :: post)) t (1 + (encodeEntries pre).length + (encodeStr t).length) w

/-- The value that a path leads to, and its offset below the value that the path starts at. -/
inductive Follows : Value → List Bytes → Nat → Value → Prop where
  | here {v : Value} : Follows v [] 0 v
  | down {v w u : Value} {t : Bytes} {ts : List Bytes} {o n : Nat} : Child v t o w → Follows w ts n u → Follows v (t :: ts) (o + n) u

/-- The path as the argument of `-k`. -/
def dotted : List Bytes → Bytes
  | [] => []
  | [t] => t
  | t :: t' :: ts => t ++ 46 :: dotted (t' :: ts)

/-- The loop over the path, from offset `r` on, ends with the offset `m`. -/
def Resolves (buf : Bytes) (r : Nat) (ts : List Bytes) (m : Nat) : Prop :=
  ∃ fuel₀, ∀ fuel, fuel₀ ≤ fuel → ∃ events, resolvePath buf fuel (dotted ts) r = .ok (events, m)

/-- Each step of the path from offset `r` on is one an `int` holds, and leads to an offset an `unsigned` holds. -/
def Fits : Nat → Value → List Bytes → Prop
  | _, _, [] => True
  | r, v, t :: ts => ∀ o w, Child v t o w → o < 2147483648 ∧ r + o < 4294967296 ∧ Fits (r + o) w ts

/-! ## Children -/

theorem dot_not_mem_digits {t : Bytes} (h : Digits t) : 46 ∉ t := by
  intro hmem
  exact absurd (h 46 hmem) (by decide)

theorem Child.token {v w : Value} {t : Bytes} {o : Nat} (h : Child v t o w) : t ≠ [] ∧ 46 ∉ t := by
  cases h with
  | element hi _ => exact ⟨hi.2.1, dot_not_mem_digits hi.1⟩
  | entry hk _ => exact ⟨hk.1, hk.2.1⟩

theorem Child.pos {v w : Value} {t : Bytes} {o : Nat} (h : Child v t o w) : 0 < o := by
  cases h with
  | element _ _ =>
    unfold elementOffset
    omega
  | entry _ _ => omega

/-- The child starts at its offset. -/
theorem Child.textAt {buf s t : Bytes} {v w : Value} {o r : Nat} (h : Child v t o w) (ht : TextAt buf r (v.encode ++ s)) :
    ∃ s', TextAt buf ((r + o : Nat) : Int) (w.encode ++ s') := by
  cases h with
  | element _ hw => exact ⟨_, by simpa using textAt_element ht hw⟩
  | @entry pre post t w _ _ => exact ⟨_, by simpa [Int.add_assoc] using textAt_value pre ht⟩

/-- A child is inside its parent. -/
theorem Child.length_le {v w : Value} {t : Bytes} {o : Nat} (h : Child v t o w) : o + w.encode.length ≤ v.encode.length := by
  cases h with
  | @element vs t w _ hw =>
    rw [encode_list]
    conv_rhs => rw [(split_at hw).1, encodeList_append, encodeList]
    simp only [elementOffset, List.length_cons, List.length_append]
    omega
  | @entry pre post t w _ _ =>
    rw [encode_dict, encodeEntries_append, encodeEntries]
    simp only [List.length_cons, List.length_append]
    omega

namespace NodePathsAux

/-! ## Tokens -/

theorem ne_dot {t : Bytes} (h : 46 ∉ t) : ∀ b ∈ t, (b != 46) = true := by
  intro b hb
  simp only [bne_iff_ne, ne_eq]
  rintro rfl
  exact h hb

/-- A token is given back as far as the next separator. -/
theorem strtok_append {t : Bytes} (hne : t ≠ []) (hdot : 46 ∉ t) (s : Bytes) :
    strtok (t ++ s) = some (t ++ s.takeWhile (· != 46), (s.dropWhile (· != 46)).drop 1) := by
  have hall := ne_dot hdot
  obtain ⟨c, t', rfl⟩ := List.exists_cons_of_ne_nil hne
  have hc : (c == 46) = false := by simpa using hall c List.mem_cons_self
  have hskip : (c :: t' ++ s).dropWhile (· == 46) = c :: t' ++ s := by
    rw [List.cons_append, List.dropWhile_cons, hc]
    rfl
  simp only [strtok, hskip]
  rw [if_neg (by simp), List.takeWhile_append_of_pos hall, List.dropWhile_append_of_pos hall]

theorem strtok_dotted {t : Bytes} (hne : t ≠ []) (hdot : 46 ∉ t) (ts : List Bytes) : strtok (dotted (t :: ts)) = some (t, dotted ts) := by
  cases ts with
  | nil => simpa [dotted] using strtok_append hne hdot []
  | cons t' ts =>
    rw [dotted, strtok_append hne hdot]
    simp

/-- One round of the loop. -/
theorem resolvePath_cons {t : Bytes} (hne : t ≠ []) (hdot : 46 ∉ t) (ts : List Bytes) (buf : Bytes) (fuel r : Nat) :
    resolvePath buf (fuel + 1) (dotted (t :: ts)) r = (do
      let (events, r) ← resolveToken buf fuel t r
      let (others, r) ← resolvePath buf fuel (dotted ts) r
      pure (events ++ others, r)) := by
  rw [resolvePath, strtok_dotted hne hdot]

/-! ## What an accessor returns is an `int` -/

/-- What the walk returns, if it returns, has this property. -/
def Yields {α : Type} (P : α → Prop) (x : Walk α) : Prop := ∀ a, x = .ok a → P a

theorem Yields.pure {α : Type} {P : α → Prop} {a : α} (h : P a) : Yields P (Except.ok a) := by
  rintro _ ⟨⟩
  exact h

theorem Yields.bind {α β : Type} {P : α → Prop} {Q : β → Prop} {x : Walk α} {f : α → Walk β} (hx : Yields P x)
    (hf : ∀ a, P a → Yields Q (f a)) : Yields Q (x >>= f) := by
  cases x with
  | error e => exact fun _ he => by cases he
  | ok a => exact hf a (hx a rfl)

theorem Yields.true {α : Type} (x : Walk α) : Yields (fun _ => True) x := fun _ _ => trivial

theorem int32_lt (z : Int) : int32 z < 2147483648 := (isInt32_int32 z).2

theorem walk_lt {buf : Bytes} {visit : Nat → Int → Int → Walk (Option Int)}
    (hv : ∀ fuel offset item, Yields (fun i => ∀ r, i = some r → r < 2147483648) (visit fuel offset item)) :
    ∀ (fuel : Nat) (p offset item : Int), Yields (· < 2147483648) (Benc.walk buf visit fuel p offset item) := by
  intro fuel
  induction fuel with
  | zero => exact fun _ _ _ _ h => by cases h
  | succ fuel ih =>
    intro p offset item
    rw [Benc.walk]
    refine (Yields.true _).bind fun c _ => ?_
    split
    · refine (hv fuel offset item).bind fun found hfound => ?_
      cases found with
      | some r => exact Yields.pure (hfound r rfl)
      | none => exact (Yields.true _).bind fun length _ => ih p _ _
    · exact Yields.pure (by decide)

theorem listItemOffset_lt (buf : Bytes) (fuel : Nat) (p item : Int) : Yields (· < 2147483648) (Benc.listItemOffset buf fuel p item) := by
  rw [Benc.listItemOffset]
  split
  · exact Yields.pure (by decide)
  · refine (Yields.true _).bind fun type _ => ?_
    split
    · refine walk_lt (fun _ offset item' => Yields.pure fun r hr => ?_) fuel p 0 0
      split at hr
      · obtain rfl := Option.some.inj hr
        exact int32_lt _
      · cases hr
    · exact Yields.pure (by decide)

theorem matchKey_lt (buf : Bytes) (p : Int) (key : Bytes) (fuel : Nat) (offset item : Int) :
    Yields (fun i => ∀ r, i = some r → r < 2147483648) (Benc.matchKey buf p key fuel offset item) := by
  rw [Benc.matchKey]
  refine (Yields.true _).bind fun length _ => ?_
  split
  · refine (Yields.true _).bind fun data _ => (Yields.true _).bind fun same _ => ?_
    split
    · refine (Yields.true _).bind fun n _ => Yields.pure fun r hr => ?_
      obtain rfl := Option.some.inj hr
      exact int32_lt _
    · exact Yields.pure fun _ hr => by cases hr
  · exact Yields.pure fun _ hr => by cases hr

theorem dictValueOffset_lt (buf : Bytes) (fuel : Nat) (p : Int) (key : Bytes) :
    Yields (· < 2147483648) (Benc.dictValueOffset buf fuel p (some key)) := by
  rw [Benc.dictValueOffset]
  refine (Yields.true _).bind fun type _ => ?_
  split
  · refine walk_lt (fun fuel offset item => ?_) fuel p 0 0
    rw [Benc.visitKey]
    split
    · refine (Yields.true _).bind fun type _ => ?_
      split
      · exact matchKey_lt buf p key fuel offset item
      · exact Yields.pure fun r hr => Option.some.inj hr ▸ by decide
    · exact Yields.pure fun _ hr => by cases hr
  · exact Yields.pure (by decide)

/-! ## One token -/

variable {buf s t : Bytes} {v w : Value} {o r fuel : Nat}

theorem resolveToken_list {vs : List Value} (hi : IsIndex t) (ht : TextAt buf r ((Value.list vs).encode ++ s)) :
    resolveToken buf fuel t r = (do
      let i ← Benc.listItemOffset buf fuel r (digitsVal t)
      if i < 0 then pure ([.print (ascii "List has no item " ++ t ++ ascii ", skipping\n")], r) else pure ([], moveBy r i)) := by
  obtain ⟨hd, hne, hlt⟩ := hi
  have hall : t.all isDigit = true := List.all_eq_true.2 hd
  have htype : bencEntityType buf r = .ok .list := bencEntityType_encode (.list vs) ht
  simp only [resolveToken, htype, walk_ok_bind, resolveItem, hall, Bool.true_eq_false, if_false,
    strtoul_digits hd hne (by omega), int32_of_lt (Int.natCast_nonneg (digitsVal t)) (by omega)]

theorem resolveToken_dict {es : List (Bytes × Value)} (ht : TextAt buf r ((Value.dict es).encode ++ s)) :
    resolveToken buf fuel t r = resolveKey buf fuel t r := by
  have htype : bencEntityType buf r = .ok .dict := bencEntityType_encode (.dict es) ht
  simp only [resolveToken, htype, walk_ok_bind]

/-- The offset stays, or moves by what an `int` holds. -/
def Moves (r : Nat) (x : Resolved) : Prop := x.2 = r ∨ ∃ i : Int, i < 2147483648 ∧ x.2 = moveBy r i

theorem resolveToken_moves (buf : Bytes) (fuel : Nat) (t : Bytes) (r : Nat) : Yields (Moves r) (resolveToken buf fuel t r) := by
  rw [resolveToken]
  refine (Yields.true _).bind fun type _ => ?_
  split
  · rw [resolveItem]
    split
    · exact Yields.pure (Or.inl rfl)
    · refine (listItemOffset_lt buf fuel r _).bind fun i hi => ?_
      split
      · exact Yields.pure (Or.inl rfl)
      · exact Yields.pure (Or.inr ⟨i, hi, rfl⟩)
  · rw [resolveKey]
    refine (dictValueOffset_lt buf fuel r t).bind fun i hi => ?_
    split
    · exact Yields.pure (Or.inr ⟨i, hi, rfl⟩)
    · exact Yields.pure (Or.inl rfl)
  · exact Yields.pure (Or.inl rfl)

/-- A step that an `int` holds leads to the child, as far as an `unsigned` goes. -/
theorem resolveToken_within (h : Child v t o w) (ht : TextAt buf r (v.encode ++ s)) (ho : o < 2147483648) (hf : buf.length ≤ fuel) :
    resolveToken buf fuel t r = .ok ([], moveBy r o) := by
  have hlen : v.encode.length ≤ fuel := by
    obtain ⟨pre, rfl, -⟩ := ht
    simp only [List.length_append] at hf
    omega
  have hpos := h.pos
  cases h with
  | element hi hw =>
    rw [resolveToken_list hi ht, listItemOffset_within ht ho hlen (List.getElem?_eq_some_iff.1 hw).1, walk_ok_bind, if_neg (by omega)]
    rfl
  | @entry pre post t w hk hfirst =>
    rw [resolveToken_dict ht, resolveKey, dictValueOffset_within pre ht ho hlen rfl hfirst, walk_ok_bind, if_pos (by omega)]
    rfl

theorem moveBy_of_lt (h : r + o < 4294967296) : moveBy r o = r + o := by
  rw [moveBy, Int.toNat_natCast, Nat.mod_eq_of_lt h]

/-- A step leads to the child only if both numbers are held. -/
theorem step_bounds (h : Child v t o w) (ht : TextAt buf r (v.encode ++ s)) {events : List Event} (hf : buf.length ≤ fuel)
    (hstep : resolveToken buf fuel t r = .ok (events, r + o)) : o < 2147483648 ∧ r + o < 4294967296 := by
  have hpos := h.pos
  have ho : o < 2147483648 := by
    rcases resolveToken_moves buf fuel t r _ hstep with hstay | ⟨i, hi, hmove⟩
    · simp only at hstay
      omega
    · have hle := Nat.mod_le (r + i.toNat) 4294967296
      simp only [moveBy] at hmove
      omega
  rw [resolveToken_within h ht ho hf, Except.ok.injEq, Prod.mk.injEq] at hstep
  have hlt : moveBy r o < 4294967296 := Nat.mod_lt _ (by decide)
  omega

/-! ## The path -/

theorem resolves_nil : Resolves buf r [] r := by
  refine ⟨1, fun fuel hf => ⟨[], ?_⟩⟩
  obtain ⟨f, rfl⟩ : ∃ f, fuel = f + 1 := ⟨fuel - 1, by omega⟩
  rfl

/-- Behind a step that leads to the child the path goes on from there. -/
theorem resolves_cons_iff (h : Child v t o w) (ht : TextAt buf r (v.encode ++ s)) (ho : o < 2147483648) (hr : r + o < 4294967296)
    (ts : List Bytes) (m : Nat) : Resolves buf r (t :: ts) m ↔ Resolves buf (r + o) ts m := by
  obtain ⟨hne, hdot⟩ := h.token
  have hround : ∀ fuel, buf.length ≤ fuel →
      resolvePath buf (fuel + 1) (dotted (t :: ts)) r = resolvePath buf fuel (dotted ts) (r + o) := by
    intro fuel hf
    rw [resolvePath_cons hne hdot, resolveToken_within h ht ho hf, walk_ok_bind, moveBy_of_lt hr]
    dsimp only
    cases resolvePath buf fuel (dotted ts) (r + o) with
    | error e => rfl
    | ok x => rfl
  constructor
  · rintro ⟨fuel₀, hres⟩
    refine ⟨buf.length + fuel₀, fun fuel hf => ?_⟩
    rw [← hround fuel (by omega)]
    exact hres (fuel + 1) (by omega)
  · rintro ⟨fuel₀, hres⟩
    refine ⟨buf.length + fuel₀ + 1, fun fuel hf => ?_⟩
    obtain ⟨f, rfl⟩ : ∃ f, fuel = f + 1 := ⟨fuel - 1, by omega⟩
    rw [hround f (by omega)]
    exact hres f (by omega)

/-- A path of one token. -/
theorem bounds_of_resolves (h : Child v t o w) (ht : TextAt buf r (v.encode ++ s)) (hres : Resolves buf r [t] (r + o)) :
    o < 2147483648 ∧ r + o < 4294967296 := by
  obtain ⟨fuel₀, hres⟩ := hres
  obtain ⟨hne, hdot⟩ := h.token
  obtain ⟨events, hpath⟩ := hres (buf.length + fuel₀ + 2) (by omega)
  rw [resolvePath_cons hne hdot] at hpath
  cases hstep : resolveToken buf (buf.length + fuel₀ + 1) t r with
  | error e =>
    rw [hstep] at hpath
    cases hpath
  | ok x =>
    obtain ⟨said, m⟩ := x
    rw [hstep] at hpath
    obtain rfl : m = r + o := (Prod.mk.inj (Except.ok.inj hpath)).2
    exact step_bounds h ht (by omega) hstep

/-- From any offset on, the path and its first parts lead where they should exactly when the steps fit. The induction is on the path. -/
theorem resolves_iff_fits (ts : List Bytes) : ∀ {v : Value} {r : Nat} {s : Bytes}, TextAt buf r (v.encode ++ s) →
    ((∀ pre n w, pre <+: ts → Follows v pre n w → Resolves buf r pre (r + n)) ↔ Fits r v ts) := by
  induction ts with
  | nil =>
    intro v r s _
    refine ⟨fun _ => trivial, fun _ pre n w hpre hfollows => ?_⟩
    obtain rfl := List.prefix_nil.1 hpre
    cases hfollows
    exact resolves_nil
  | cons t ts ih =>
    intro v r s ht
    constructor
    · intro hres o w hchild
      obtain ⟨s', ht'⟩ := hchild.textAt ht
      obtain ⟨ho, hr⟩ := bounds_of_resolves hchild ht (hres [t] (o + 0) w (by simp) (.down hchild .here))
      refine ⟨ho, hr, (ih ht').1 fun pre n u hpre hfollows => ?_⟩
      have hdown := hres (t :: pre) (o + n) u (List.cons_prefix_cons.2 ⟨rfl, hpre⟩) (.down hchild hfollows)
      rw [← Nat.add_assoc] at hdown
      exact (resolves_cons_iff hchild ht ho hr pre _).1 hdown
    · intro hfits pre n w hpre hfollows
      cases hfollows with
      | here => exact resolves_nil
      | @down _ w' _ t' pre o n hchild hfollows =>
        obtain ⟨rfl, hrest⟩ := List.cons_prefix_cons.1 hpre
        obtain ⟨ho, hr, hfits⟩ := hfits o w' hchild
        obtain ⟨s', ht'⟩ := hchild.textAt ht
        rw [resolves_cons_iff hchild ht ho hr, ← Nat.add_assoc]
        exact (ih ht').2 hfits pre n w hrest hfollows

/-- Every path fits into a value shorter than 2^31 bytes. -/
theorem fits_of_length (ts : List Bytes) : ∀ {v : Value} {r : Nat}, r + v.encode.length < 2147483648 → Fits r v ts := by
  induction ts with
  | nil => exact fun _ => trivial
  | cons t ts ih =>
    intro v r hlen o w hchild
    have hle := hchild.length_le
    exact ⟨by omega, by omega, ih (by omega)⟩

end NodePathsAux

open NodePathsAux

/-- For every value, with any bytes behind it, and every path: the path and each first part of it that exists lead to the offset of the
value they name exactly when each step of the path is one an `int` holds and leads to an offset an `unsigned` holds. In a value shorter
than 2^31 bytes every step is. -/
theorem resolves_paths_iff (v : Value) (rest : Bytes) (ts : List Bytes) :
    ((∀ pre n w, pre <+: ts → Follows v pre n w → Resolves (v.encode ++ rest) 0 pre n) ↔ Fits 0 v ts) ∧
    (v.encode.length < 2147483648 → Fits 0 v ts) := by
  refine ⟨?_, fun hlen => fits_of_length ts (by omega)⟩
  have h := @resolves_iff_fits (v.encode ++ rest) ts v 0 rest (textAt_zero _)
  simpa only [Nat.zero_add] using h

namespace NodePathsExample

/-- A list of a string and an empty string. -/
def strings (n : Nat) : Value := .list [.str (List.replicate n 120), .str []]

theorem child_strings (n : Nat) : ∃ o, Child (strings n) (ascii "1") o (.str []) ∧ n < o := by
  have htext : ascii "1" = [49] := by decide
  have hone : digitsVal [49] = 1 := by decide
  have hdigits : Digits [49] := by simp [Digits, isDigit]
  rw [htext]
  refine ⟨elementOffset [.str (List.replicate n 120), .str []] (digitsVal [49]), ?_, ?_⟩
  · exact Child.element ⟨hdigits, List.cons_ne_nil _ _, by omega⟩ (by rw [hone]; rfl)
  · rw [hone]
    simp only [elementOffset, List.take_succ_cons, List.take_zero, encodeList, encode_str, encodeStr, List.length_append,
      List.length_cons, List.length_nil, List.length_replicate]
    omega

end NodePathsExample

open NodePathsExample

/-- The second element of a list whose first is a string of 2^31 bytes is not found. -/
theorem not_resolves_long : ∃ n, Follows (strings 2147483648) [ascii "1"] n (.str []) ∧
    ¬Resolves ((strings 2147483648).encode ++ [0]) 0 [ascii "1"] n := by
  obtain ⟨o, hchild, ho⟩ := child_strings 2147483648
  refine ⟨o + 0, .down hchild .here, fun hres => ?_⟩
  have hbounds := bounds_of_resolves hchild (textAt_zero _) (by simpa using hres)
  omega

end Traccoon
