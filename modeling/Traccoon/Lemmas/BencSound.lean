import Traccoon.Lemmas.BencScan

/-!
# What `benc_entity_length` returns on a buffer it stays inside of

When no scanned string announces more than the buffer holds and no `int` overflows, every walk from a scanned position stays
inside the buffer and returns either -1 or the length of an entity standing there. The induction is on the fuel; the invariant
of the loops is that the elements passed are a run of entities as long as `offset`.
-/

namespace Traccoon

open CString Bencode

variable {b : Bytes}

/-- With this fuel a walk from a scanned text stays inside the buffer, and a length it returns is that of an entity. -/
def WalksEntity (b : Bytes) (fuel : Nat) : Prop :=
  ∀ (r : Bytes) (p io : Int), Scans b r → TextAt (b ++ [0]) p (r ++ [0]) →
    bencEntityLength (b ++ [0]) fuel p io ≠ .error .fault ∧
    ∀ n, bencEntityLength (b ++ [0]) fuel p io = .ok n → n = -1 ∨ ∃ e rest, r = e ++ rest ∧ Accepted e ∧ n = e.length

/-- With this fuel a loop that has passed the run `xs` of a scanned list or dictionary stays inside the buffer, and what it
returns is the length of that list or dictionary. -/
def WalksElements (b : Bytes) (fuel : Nat) : Prop :=
  ∀ (keys : Bool) (k : Nat) (xs t : Bytes) (p io : Int), Scans b (opening keys :: (xs ++ t)) → AcceptedItems keys 0 k xs →
    TextAt (b ++ [0]) (p + xs.length + 1) (t ++ [0]) →
    bencElements (b ++ [0]) fuel keys p io xs.length k ≠ .error .fault ∧
    ∀ n, bencElements (b ++ [0]) fuel keys p io xs.length k = .ok n →
      n = -1 ∨ ∃ e rest, opening keys :: (xs ++ t) = e ++ rest ∧ Accepted e ∧ n = e.length

/-- A walk that ends in a value. -/
theorem walks_value {x : Walk Int} {m : Int} {q : Int → Prop} (hx : x = .ok m) (hq : q m) :
    x ≠ .error .fault ∧ ∀ n, x = .ok n → q n := by
  subst hx
  refine ⟨fun h => (by cases h), fun n hn => ?_⟩
  obtain rfl := Except.ok.inj hn
  exact hq

/-- A scanned string: the announced bytes are there, so its length is returned. -/
theorem bencStringLength_scanned (hi : InBounds b) (hw : NoWrap b) {r : Bytes} {p : Int} (hr : Scans b r)
    (h : TextAt (b ++ [0]) p (r ++ [0])) (hs : StartsStr r) :
    ∃ e rest, r = e ++ rest ∧ Accepted e ∧ bencStringLength (b ++ [0]) p = .ok e.length := by
  obtain ⟨ds, s, hd, hne, rfl⟩ := hs
  have hv := hi ds s hr hd hne
  have hl := hw.string ds s hr hd hne
  have he : IsStr (ds ++ 58 :: s.take (digitsVal ds)) := ⟨ds, s.take (digitsVal ds), hd, hne, by simp [hv], rfl⟩
  have hsplit : ds ++ 58 :: s = (ds ++ 58 :: s.take (digitsVal ds)) ++ s.drop (digitsVal ds) := by simp
  refine ⟨_, _, hsplit, Entity.str he, ?_⟩
  refine bencStringLength_isStr he (s.drop (digitsVal ds) ++ [0]) ?_ ?_
  · rw [← List.append_assoc, ← hsplit]
    exact h
  · simp only [List.length_append, List.length_cons, List.length_take]
    omega

/-- A scanned `i`: the sign, the digits and the byte behind them lie inside the buffer. -/
theorem bencIntLength_scanned (hw : NoWrap b) {t : Bytes} {p : Int} (hr : Scans b (105 :: t))
    (h : TextAt (b ++ [0]) p (105 :: t ++ [0])) :
    bencIntLength (b ++ [0]) p = .ok (-1) ∨
    ∃ e rest, 105 :: t = e ++ rest ∧ Accepted e ∧ bencIntLength (b ++ [0]) p = .ok e.length := by
  rcases bencIntLength_cases h with hl | ⟨neg, ds, rest, rfl, hd, -⟩
  · exact Or.inl hl
  · right
    have hsplit : 105 :: (minus neg ++ ds ++ 101 :: rest) = (105 :: (minus neg ++ ds ++ [101])) ++ rest := by simp
    have he : Accepted (105 :: (minus neg ++ ds ++ [101])) := Entity.int neg hd trivial
    refine ⟨_, _, hsplit, he, bencIntLength_int neg hd (rest ++ [0]) ?_ (hw.entity _ rest (hsplit ▸ hr) he)⟩
    rw [← List.append_assoc, ← hsplit]
    exact h

/-- A walk from a scanned text, given the loops. -/
theorem walksEntity_succ (hi : InBounds b) (hw : NoWrap b) {fuel : Nat} (ih : WalksElements b fuel) :
    WalksEntity b (fuel + 1) := by
  intro r p io hr h
  rcases bencEntityType_cases h with ⟨t, rfl, ht⟩ | ⟨t, rfl, ht⟩ | ⟨t, rfl, ht⟩ | ⟨hs, ht⟩ | ht
  · have h1 : TextAt (b ++ [0]) (p + ((([] : Bytes).length : Nat) : Int) + 1) (t ++ [0]) := by
      simpa using TextAt.next h
    simp only [bencEntityLength, ht, walk_ok_bind]
    exact ih true 0 [] t p io hr Items.nil h1
  · have h1 : TextAt (b ++ [0]) (p + ((([] : Bytes).length : Nat) : Int) + 1) (t ++ [0]) := by
      simpa using TextAt.next h
    simp only [bencEntityLength, ht, walk_ok_bind]
    exact ih false 0 [] t p io hr Items.nil h1
  · simp only [bencEntityLength, ht, walk_ok_bind]
    rcases bencIntLength_scanned hw hr h with hl | ⟨e, rest, hsplit, he, hl⟩
    · exact walks_value hl (Or.inl rfl)
    · exact walks_value hl (Or.inr ⟨e, rest, hsplit, he, rfl⟩)
  · simp only [bencEntityLength, ht, walk_ok_bind]
    obtain ⟨e, rest, hsplit, he, hl⟩ := bencStringLength_scanned hi hw hr h hs
    exact walks_value hl (Or.inr ⟨e, rest, hsplit, he, rfl⟩)
  · simp only [bencEntityLength, ht, walk_ok_bind]
    exact walks_value rfl (Or.inl rfl)

/-- An element where a key is due is a string when its text starts like one. -/
theorem isStr_of_entity {intOk : Bytes → Prop} {e rest : Bytes} (he : Entity intOk e) (hs : StartsStr (e ++ rest)) : IsStr e := by
  obtain ⟨ds, s, hd, hne, heq⟩ := hs
  obtain ⟨d, ds', rfl⟩ := List.exists_cons_of_ne_nil hne
  obtain ⟨c, t, rfl, -⟩ := he.head
  obtain ⟨rfl, -⟩ := List.cons.inj heq
  obtain ⟨h1, h2, h3, -, -⟩ := isDigit_ne (hd c (by simp))
  generalize hg : c :: t = e at he
  cases he with
  | str h => exact h
  | int neg _ _ => exact absurd (List.cons.inj hg).1 h3
  | list _ => exact absurd (List.cons.inj hg).1 h2
  | dict _ _ => exact absurd (List.cons.inj hg).1 h1

/-- The key test at a scanned text stays inside the buffer; when it passes, a text in the place of a key starts a string. -/
theorem badKey_scanned (keys : Bool) (k : Nat) {r : Bytes} {p : Int} (h : TextAt (b ++ [0]) p (r ++ [0])) :
    badKey (b ++ [0]) keys k p = .ok true ∨
    (badKey (b ++ [0]) keys k p = .ok false ∧ (keys = true → k % 2 = 0 → StartsStr r)) := by
  unfold badKey
  split
  · rename_i hk
    rcases bencEntityType_cases h with ⟨t, rfl, ht⟩ | ⟨t, rfl, ht⟩ | ⟨t, rfl, ht⟩ | ⟨hs, ht⟩ | ht
    · left; rw [ht]; rfl
    · left; rw [ht]; rfl
    · left; rw [ht]; rfl
    · right; rw [ht]; exact ⟨rfl, fun _ _ => hs⟩
    · left; rw [ht]; rfl
  · rename_i hk
    exact Or.inr ⟨rfl, fun h1 h2 => absurd ⟨h1, h2⟩ hk⟩

/-- One round of a loop, given the walks one unit of fuel below. -/
theorem walksElements_succ (hw : NoWrap b) {fuel : Nat} (ihe : WalksEntity b fuel) (ih : WalksElements b fuel) :
    WalksElements b (fuel + 1) := by
  intro keys k xs t p io hr hx h
  obtain ⟨c, t', hct, hbc⟩ := h.byteAt_nul
  have hrun := hw.run keys k xs t hr hx
  by_cases hc : c ≠ 101 ∧ c ≠ 0
  · -- an element starts here
    obtain ⟨u, rfl, rfl⟩ := split_before_nul (a := []) hct hc.2
    simp only [List.nil_append] at h hr ⊢
    rcases badKey_scanned keys k h with hk | ⟨hk, hs⟩
    · simp only [bencElements, hbc, walk_ok_bind, ne_eq, hc, not_false_eq_true, and_self, if_true, hk]
      exact walks_value rfl (Or.inl rfl)
    · have hscan : Scans b (c :: u) := Scans.element hr hx hc hs
      have hstep := ihe (c :: u) (p + xs.length + 1) (int32 (io + xs.length + 1)) hscan h
      simp only [bencElements, hbc, walk_ok_bind, ne_eq, hc, not_false_eq_true, and_self, if_true, hk, Bool.false_eq_true,
        if_false]
      cases hl : bencEntityLength (b ++ [0]) fuel (p + xs.length + 1) (int32 (io + xs.length + 1)) with
      | error e =>
        cases e with
        | fault => exact absurd hl hstep.1
        | fuel => exact ⟨by simp, fun n hn => by simp at hn⟩
      | ok n =>
        simp only [walk_ok_bind]
        rcases hstep.2 n hl with rfl | ⟨e, rest, hsplit, he, rfl⟩
        · exact walks_value rfl (Or.inl rfl)
        · rw [if_neg (by omega)]
          have hx' : AcceptedItems keys 0 (k + 1) (xs ++ e) :=
            hx.snoc (fun h1 h2 => isStr_of_entity he (hsplit ▸ hs h1 h2)) he
          have hr' : Scans b (opening keys :: ((xs ++ e) ++ rest)) := by
            rw [List.append_assoc, ← hsplit]
            exact hr
          have hlen := hw.run keys (k + 1) (xs ++ e) rest hr' hx'
          have ht' : TextAt (b ++ [0]) (p + ((xs ++ e).length : Nat) + 1) (rest ++ [0]) := by
            have := TextAt.move (a := e) (t := rest ++ [0]) (by rw [← List.append_assoc, ← hsplit]; exact h)
            rw [List.length_append]
            have hidx : p + (xs.length : Int) + 1 + (e.length : Int) = p + ((xs.length + e.length : Nat) : Int) + 1 := by omega
            rwa [hidx]
              at this
          have hoff : int32 ((xs.length : Int) + e.length) = ((xs ++ e).length : Nat) := by
            rw [List.length_append] at hlen ⊢
            rw [int32_of_lt (by omega) (by omega)]
            omega
          rw [hoff, hsplit, ← List.append_assoc]
          exact ih keys (k + 1) (xs ++ e) rest p io hr' hx' ht'
  · -- the run ends here
    simp only [bencElements, hbc, walk_ok_bind]
    rw [if_neg hc]
    by_cases hclose : c = 101 ∧ (keys = true → k % 2 = 0)
    · rw [if_pos hclose]
      obtain ⟨rfl, hk⟩ := hclose
      obtain ⟨rest, rfl, -⟩ := split_before_nul (a := []) hct (by decide)
      have he : Accepted (opening keys :: (xs ++ [101])) := by
        cases keys with
        | true => exact Entity.dict hx (hk rfl)
        | false => exact Entity.list hx
      have hsplit : opening keys :: (xs ++ ([] ++ 101 :: rest)) = (opening keys :: (xs ++ [101])) ++ rest := by simp
      have hlen := hw.entity _ rest (hsplit ▸ hr) he
      simp only [List.length_cons, List.length_append, List.length_nil] at hlen
      refine walks_value rfl (Or.inr ⟨_, rest, hsplit, he, ?_⟩)
      rw [int32_of_lt (by omega) (by omega)]
      simp only [List.length_cons, List.length_append, List.length_nil]
      omega
    · rw [if_neg hclose]
      exact walks_value rfl (Or.inl rfl)

/-- The two invariants hold together at every fuel. -/
theorem walks (hi : InBounds b) (hw : NoWrap b) (fuel : Nat) : WalksEntity b fuel ∧ WalksElements b fuel := by
  induction fuel with
  | zero =>
    refine ⟨fun r p io _ _ => ⟨fun h => ?_, fun n h => ?_⟩, fun keys k xs t p io _ _ _ => ⟨fun h => ?_, fun n h => ?_⟩⟩
    · exact absurd (Except.error.inj h) (by decide)
    · cases h
    · exact absurd (Except.error.inj h) (by decide)
    · cases h
  | succ fuel ih => exact ⟨walksEntity_succ hi hw ih.2, walksElements_succ hw ih.1 ih.2⟩

end Traccoon
