import Traccoon.Lemmas.BencSound

/-!
# The loops that `benc_entity_length` goes through

`Calls buf` holds of the calls of the function and of the states of its two loops that a call on `buf` goes through, whatever the
buffer holds: they are all that its fuel has to last for. `Entered b` holds of the texts of `b` that elements lead to; it is told from
the text alone, and at each of them the run makes a call.
-/

namespace Traccoon

open CString Bencode

/-- A call of `benc_entity_length` at a pointer, or a state of one of its loops: over what starts at `p`, after `k` elements. -/
inductive BencCall where
  | entity (p : Int)
  | loop (keys : Bool) (p offset : Int) (k : Nat)

/-- In this state the loop goes on: an element starts where it looks, a string if a key is due. -/
def GoesOn (buf : Bytes) (keys : Bool) (p offset : Int) (k : Nat) : Prop :=
  ∃ c, byteAt buf (p + offset + 1) = .ok c ∧ c ≠ 101 ∧ c ≠ 0 ∧ badKey buf keys k (p + offset + 1) = .ok false

/-- `benc_entity_length(buf + p, …)` returns `n`. -/
def ReturnsAt (buf : Bytes) (p n : Int) : Prop := ∃ fuel io, bencEntityLength buf fuel p io = .ok n

/-- The calls and loop states that `benc_entity_length(buf, …)` goes through. -/
inductive Calls (buf : Bytes) : BencCall → Prop where
  | start : Calls buf (.entity 0)
  | enter {keys : Bool} {p : Int} : Calls buf (.entity p) → bencEntityType buf p = .ok (bracket keys) → Calls buf (.loop keys p 0 0)
  | element {keys : Bool} {p offset : Int} {k : Nat} : Calls buf (.loop keys p offset k) → GoesOn buf keys p offset k →
      Calls buf (.entity (p + offset + 1))
  | next {keys : Bool} {p offset n : Int} {k : Nat} : Calls buf (.loop keys p offset k) → GoesOn buf keys p offset k →
      ReturnsAt buf (p + offset + 1) n → n ≠ -1 → Calls buf (.loop keys p (int32 (offset + n)) (k + 1))

/-! ## What the text says

The same loops, told from the text alone: a string leads as far as it announces, narrowed to `int`, which need not be where it ends. -/

/-- An element starts here, and a string if a key is due. -/
def Starts (keys : Bool) (k : Nat) (r : Bytes) : Prop :=
  ∃ c u, r = c :: u ∧ c ≠ 101 ∧ c ≠ 0 ∧ (keys = true → k % 2 = 0 → StartsStr r)

/-- An element that spans `d` bytes leads a loop over the text `t` on from this offset, to a place in `t` or its end that an `int` can
count. -/
def LeadsOn (t : Bytes) (offset : Nat) (d : Int) : Prop := 0 < int32 d ∧ offset + int32 d ≤ t.length ∧ offset + int32 d < 2147483648

mutual
/-- How many bytes the entity spans that the text starts with: a string by the length it announces, as `strtol` reads it, a list or
dictionary up to the `e` that its loop comes to. -/
inductive Spans : Bytes → Int → Prop where
  | str {ds s : Bytes} (hd : Digits ds) (hne : ds ≠ []) :
    Spans (ds ++ 58 :: s) (ds.length + min 9223372036854775807 (digitsVal ds : Int) + 1)
  | int {neg : Bool} {ds s : Bytes} (hd : Digits ds) : Spans (105 :: (minus neg ++ (ds ++ 101 :: s))) ((minus neg).length + ds.length + 2)
  | closed {keys : Bool} {t s : Bytes} {offset k : Nat} (h : Comes keys t offset k) (he : t.drop offset = 101 :: s)
      (hk : keys = true → k % 2 = 0) : Spans (opening keys :: t) (offset + 2)

/-- Over the text `t` behind an opening letter, `k` elements lead a loop to this offset. -/
inductive Comes : Bool → Bytes → Nat → Nat → Prop where
  | start {keys : Bool} {t : Bytes} : Comes keys t 0 0
  | pass {keys : Bool} {t : Bytes} {offset k : Nat} {d : Int} (h : Comes keys t offset k) (hr : Starts keys k (t.drop offset))
      (hd : Spans (t.drop offset) d) (hl : LeadsOn t offset d) : Comes keys t (offset + (int32 d).toNat) (k + 1)
end

/-- The texts of `b` that elements lead to. -/
inductive Entered (b : Bytes) : Bytes → Prop where
  | start : Entered b b
  | element {keys : Bool} {t : Bytes} {offset k : Nat} (h : Entered b (opening keys :: t)) (hc : Comes keys t offset k)
      (hr : Starts keys k (t.drop offset)) : Entered b (t.drop offset)

theorem Entered.suffix {b r : Bytes} (h : Entered b r) : r <:+ b := by
  induction h with
  | start => exact List.suffix_refl _
  | element _ _ _ ih => exact ((List.drop_suffix _ _).trans (List.suffix_cons _ _)).trans ih

/-- A loop comes to places in its text, or to its end. -/
theorem Comes.le {keys : Bool} {t : Bytes} {offset k : Nat} (h : Comes keys t offset k) : offset ≤ t.length ∧ offset < 2147483648 := by
  cases h with
  | start => exact ⟨Nat.zero_le _, by decide⟩
  | pass _ _ _ hl =>
    obtain ⟨hpos, hin, hint⟩ := hl
    exact ⟨by omega, by omega⟩

/-! ## The run -/

/-- The offset that is passed on for messages has no influence. -/
theorem bencEntityLength_io (buf : Bytes) (fuel : Nat) :
    (∀ p io io', bencEntityLength buf fuel p io = bencEntityLength buf fuel p io') ∧
    (∀ keys p io io' offset k, bencElements buf fuel keys p io offset k = bencElements buf fuel keys p io' offset k) := by
  induction fuel with
  | zero => exact ⟨fun _ _ _ => rfl, fun _ _ _ _ _ _ => rfl⟩
  | succ fuel ih =>
    constructor
    · intro p io io'
      rw [bencEntityLength, bencEntityLength, ih.2 true p io io', ih.2 false p io io']
    · intro keys p io io' offset k
      rw [bencElements, bencElements, ih.1 _ (int32 (io + offset + 1)) (int32 (io' + offset + 1))]
      simp only [ih.2 keys p io io']

theorem bencElements_mono {buf : Bytes} {fuel fuel' : Nat} (hle : fuel ≤ fuel') {keys : Bool} {p io offset : Int} {k : Nat} {r : Walk Int}
    (h : bencElements buf fuel keys p io offset k = r) (hr : r ≠ .error .fuel) : bencElements buf fuel' keys p io offset k = r := by
  induction hle with
  | refl => exact h
  | step _ ih => rw [(bencEntityLength_succ buf _).2 keys p io offset k (ih ▸ hr), ih]

/-- What a list or dictionary comes to is what its loop comes to. -/
theorem bencEntityLength_enter {buf : Bytes} (keys : Bool) {p : Int} (h : bencEntityType buf p = .ok (bracket keys)) (fuel : Nat)
    (io : Int) : bencEntityLength buf (fuel + 1) p io = bencElements buf fuel keys p io 0 0 := by
  cases keys with
  | true => simp only [bencEntityLength, h, walk_ok_bind, bracket, if_true]
  | false => simp only [bencEntityLength, h, walk_ok_bind, bracket, Bool.false_eq_true, if_false]

/-- One round of a loop that goes on. -/
theorem bencElements_goesOn {buf : Bytes} {keys : Bool} {p offset : Int} {k : Nat} (h : GoesOn buf keys p offset k)
    (fuel : Nat) (io : Int) :
    bencElements buf (fuel + 1) keys p io offset k = (do
      let l ← bencEntityLength buf fuel (p + offset + 1) (int32 (io + offset + 1))
      if l = -1 then pure (-1) else bencElements buf fuel keys p io (int32 (offset + l)) (k + 1)) := by
  obtain ⟨c, hc, h1, h0, hk⟩ := h
  simp only [bencElements, hc, walk_ok_bind, ne_eq, h1, h0, not_false_eq_true, and_self, if_true, hk, Bool.false_eq_true, if_false]

/-! ## From the text to the run -/

/-- The text that a loop at this offset looks at. -/
theorem textAt_offset {buf t post : Bytes} {p : Int} {keys : Bool} {offset : Nat} (h : TextAt buf p (opening keys :: t ++ post))
    (hle : offset ≤ t.length) : TextAt buf (p + offset + 1) (t.drop offset ++ post) := by
  have hmove : TextAt buf (p + 1) (t.take offset ++ (t.drop offset ++ post)) := by
    rw [← List.append_assoc, List.take_append_drop]
    exact TextAt.next h
  have := hmove.move
  rwa [List.length_take_of_le hle, show p + 1 + (offset : Int) = p + offset + 1 by omega] at this

/-- Where an element starts the loop goes on. -/
theorem goesOn_of_starts {buf r post : Bytes} {keys : Bool} {p offset : Int} {k : Nat} (hr : Starts keys k r)
    (h : TextAt buf (p + offset + 1) (r ++ post)) : GoesOn buf keys p offset k := by
  obtain ⟨c, u, rfl, h101, h0, hs⟩ := hr
  refine ⟨c, TextAt.byteAt (t := u ++ post) h, h101, h0, ?_⟩
  unfold badKey
  split
  · rename_i hk
    rw [bencEntityType_startsStr (hs hk.1 hk.2) h]
    rfl
  · rfl

/-- What a loop comes to from a state on that one round leads to, it comes to from that round on. -/
theorem bencElements_pass {buf : Bytes} {keys : Bool} {p offset n : Int} {k : Nat} (hg : GoesOn buf keys p offset k)
    (hret : ReturnsAt buf (p + offset + 1) n) (hn : n ≠ -1) {fuel : Nat} {r : Walk Int}
    (h : bencElements buf fuel keys p 0 (int32 (offset + n)) (k + 1) = r) (hr : r ≠ .error .fuel) :
    ∃ fuel', bencElements buf fuel' keys p 0 offset k = r := by
  obtain ⟨fuel₁, io₁, hl⟩ := hret
  rw [(bencEntityLength_io buf fuel₁).1 _ io₁ (int32 (0 + offset + 1))] at hl
  refine ⟨max fuel₁ fuel + 1, ?_⟩
  rw [bencElements_goesOn hg, bencEntityLength_mono (Nat.le_max_left _ _) hl (by simp), walk_ok_bind, if_neg hn,
    bencElements_mono (Nat.le_max_right _ _) h hr]

theorem int32_leads {t : Bytes} {offset : Nat} {d : Int} (hl : LeadsOn t offset d) :
    int32 d ≠ -1 ∧ int32 ((offset : Int) + int32 d) = (offset + (int32 d).toNat : Nat) := by
  obtain ⟨hpos, -, hint⟩ := hl
  refine ⟨by omega, ?_⟩
  rw [int32_of_lt (by omega) hint]
  omega

mutual
/-- What spans `d` bytes is measured as `d`, narrowed. -/
theorem Spans.returns {r : Bytes} {d : Int} (h : Spans r d) {buf post : Bytes} {p : Int} (hp : TextAt buf p (r ++ post)) :
    ReturnsAt buf p (int32 d) :=
  match h with
  | .str hd hne => by
    rw [List.append_assoc] at hp
    refine ⟨1, 0, ?_⟩
    simp only [bencEntityLength, bencEntityType_string hp hd hne, walk_ok_bind, bencStringLength_digits hp hd hne]
  | @Spans.int neg ds s hd => by
    have hp' : TextAt buf p (105 :: (minus neg ++ (ds ++ 101 :: (s ++ post)))) := by simpa using hp
    refine ⟨1, 0, ?_⟩
    simp only [bencEntityLength, bencEntityType_int hp', walk_ok_bind, bencIntLength_eq neg hd (by decide) (fun _ _ => by decide) hp',
      if_true]
  | @Spans.closed keys t s offset k hc he hk => by
    have hat := textAt_offset hp hc.le.1
    rw [he] at hat
    have hend : bencElements buf 1 keys p 0 offset k = .ok (int32 (offset + 2)) := by
      simp only [bencElements, TextAt.byteAt (t := s ++ post) hat, walk_ok_bind]
      rw [if_neg (by simp), if_pos ⟨trivial, hk⟩]
      rfl
    obtain ⟨fuel, hf⟩ := hc.run hp hend (by simp)
    exact ⟨fuel + 1, 0, by rw [bencEntityLength_enter keys (bencEntityType_opening hp), hf]⟩

/-- What a loop comes to from the state that the elements lead to, it comes to from its start. -/
theorem Comes.run {keys : Bool} {t : Bytes} {offset k : Nat} (h : Comes keys t offset k) {buf post : Bytes} {p : Int}
    (hp : TextAt buf p (opening keys :: t ++ post)) {fuel : Nat} {r : Walk Int} (hr : bencElements buf fuel keys p 0 offset k = r)
    (hne : r ≠ .error .fuel) : ∃ fuel', bencElements buf fuel' keys p 0 0 0 = r :=
  match h with
  | .start => ⟨fuel, hr⟩
  | .pass hc hs hd hl => by
    obtain ⟨h1, hoff⟩ := int32_leads hl
    have hat := textAt_offset hp hc.le.1
    rw [← hoff] at hr
    obtain ⟨fuel', hf⟩ := bencElements_pass (goesOn_of_starts hs hat) (hd.returns hat) h1 hr hne
    exact hc.run hp hf hne
end

/-- The states that the elements lead to are gone through. -/
theorem Comes.calls {keys : Bool} {t : Bytes} {offset k : Nat} (h : Comes keys t offset k) {buf post : Bytes} {p : Int}
    (hp : TextAt buf p (opening keys :: t ++ post)) (hc : Calls buf (.entity p)) : Calls buf (.loop keys p offset k) :=
  match h with
  | .start => Calls.enter hc (bencEntityType_opening hp)
  | .pass hcomes hs hd hl => by
    obtain ⟨h1, hoff⟩ := int32_leads hl
    have hat := textAt_offset hp hcomes.le.1
    rw [← hoff]
    exact Calls.next (hcomes.calls hp hc) (goesOn_of_starts hs hat) (hd.returns hat) h1

end Traccoon
