import Traccoon.Lemmas.BencLoops

/-!
# When the loops of `benc_entity_length` end

The length that a string announces is added as it stands and narrowed to `int`, and only -1 counts as a failure. So an element may have
the length 0, and a loop stays where it is for ever, a negative one, or one that leads out of the buffer. The function returns, and every
round of its loops moves on, exactly when every element that a loop comes to leads it on inside the text or narrows to -1
(`progresses_iff`); in a buffer shorter than 2^31 bytes only strings can do otherwise.
-/

namespace Traccoon

open CString Bencode

/-- Every round of the loops with an item length other than -1 moves the offset forward. -/
def Advances (b : Bytes) : Prop :=
  ∀ keys p offset k n, Calls (b ++ [0]) (.loop keys p offset k) → GoesOn (b ++ [0]) keys p offset k →
    ReturnsAt (b ++ [0]) (p + offset + 1) n → n ≠ -1 → 0 < n ∧ offset < int32 (offset + n)

/-- The function returns on `b` and its terminator, with every offset handed to the debug output, and its loops move forward. -/
structure Progresses (b : Bytes) : Prop where
  terminates : ∀ initialOffset, ∃ fuel n, bencEntityLength (b ++ [0]) fuel 0 initialOffset = .ok n
  advances : Advances b

/-- Every element that a loop comes to leads it on, or spans a number of bytes that narrows to -1 and counts as a failure. -/
def ElementsLead (b : Bytes) : Prop :=
  ∀ keys t offset k d, Entered b (opening keys :: t) → Comes keys t offset k → Starts keys k (t.drop offset) →
    Spans (t.drop offset) d → int32 d = -1 ∨ LeadsOn t offset d

/-- So does every string, by the length that it announces. -/
def StringsLead (b : Bytes) : Prop :=
  ∀ keys t offset k ds s, Entered b (opening keys :: t) → Comes keys t offset k → t.drop offset = ds ++ 58 :: s → Digits ds →
    ds ≠ [] → int32 (ds.length + min 9223372036854775807 (digitsVal ds : Int) + 1) = -1 ∨
      LeadsOn t offset (ds.length + min 9223372036854775807 (digitsVal ds : Int) + 1)

namespace BencTerminationAux

variable {b : Bytes}

/-- A pointer or an offset in front of the buffer is never come to. -/
def Nonneg : BencCall → Prop
  | .entity p => 0 ≤ p
  | .loop _ p offset _ => 0 ≤ p ∧ 0 ≤ offset ∧ offset < 2147483648

/-- Rounds that do not step in front of the buffer keep all that a run goes through inside or behind it. -/
theorem calls_nonneg {buf : Bytes} (hnext : ∀ keys p offset k n, Calls buf (.loop keys p offset k) → GoesOn buf keys p offset k →
      ReturnsAt buf (p + offset + 1) n → n ≠ -1 → Nonneg (.loop keys p offset k) → 0 ≤ int32 (offset + n))
    {call : BencCall} (h : Calls buf call) : Nonneg call := by
  induction h with
  | start => exact Int.le_refl 0
  | enter _ _ ih => exact ⟨ih, by decide, by decide⟩
  | element _ _ ih =>
    obtain ⟨h1, h2, -⟩ := ih
    simp only [Nonneg]
    omega
  | @next keys p offset n k hc hg hret hn ih => exact ⟨ih.1, hnext keys p offset k n hc hg hret hn ih, (isInt32_int32 _).2⟩

theorem nonneg_of_advances (ha : Advances b) {call : BencCall} (h : Calls (b ++ [0]) call) : Nonneg call := by
  refine calls_nonneg ?_ h
  intro keys p offset k n hc hg hret hn hnn
  have := (ha keys p offset k n hc hg hret hn).2
  have := hnn.2.1
  omega

/-- A pointer behind the terminator reads outside the buffer. -/
theorem byteAt_outside {p : Int} (h : (b.length : Int) < p) : byteAt (b ++ [0]) p = .error .fault := by
  unfold byteAt
  rw [if_neg (by omega), List.getElem?_eq_none (by simp only [List.length_append, List.length_cons, List.length_nil]; omega)]

theorem textAt_of_le {p : Int} (h0 : 0 ≤ p) (h : p ≤ b.length) : ∃ r, TextAt (b ++ [0]) p (r ++ [0]) := by
  refine ⟨b.drop p.toNat, b.take p.toNat, ?_, ?_⟩
  · rw [← List.append_assoc, List.take_append_drop]
  · rw [List.length_take]
    omega

/-- With some fuel this call ends. -/
def EntityEnds (b : Bytes) (p : Int) : Prop := ∃ fuel, bencEntityLength (b ++ [0]) fuel p 0 ≠ .error .fuel

/-- With some fuel the loop ends that is in this state. -/
def LoopEnds (b : Bytes) (keys : Bool) (p offset : Int) (k : Nat) : Prop :=
  ∃ fuel, bencElements (b ++ [0]) fuel keys p 0 offset k ≠ .error .fuel

/-- A walk with a value did not run out of fuel. -/
theorem ok_ne_fuel (n : Int) : (Except.ok n : Walk Int) ≠ .error .fuel := by
  intro h
  cases h

/-- A call ends if the loop does that it goes on to. -/
theorem entity_ends {p : Int} (h0 : 0 ≤ p)
    (hloop : p ≤ b.length → ∀ keys, bencEntityType (b ++ [0]) p = .ok (bracket keys) → LoopEnds b keys p 0 0) : EntityEnds b p := by
  by_cases hp : (b.length : Int) < p
  · refine ⟨1, ?_⟩
    simp only [bencEntityLength, bencEntityType, byteAt_outside hp, walk_error_bind]
    decide
  · obtain ⟨r, hr⟩ := textAt_of_le (b := b) h0 (by omega)
    rcases bencEntityType_cases hr with ⟨t, -, ht⟩ | ⟨t, -, ht⟩ | ⟨t, rfl, ht⟩ | ⟨⟨ds, s, hd, hne, rfl⟩, ht⟩ | ht
    · obtain ⟨fuel, hf⟩ := hloop (by omega) true ht
      exact ⟨fuel + 1, by rwa [bencEntityLength_enter true ht]⟩
    · obtain ⟨fuel, hf⟩ := hloop (by omega) false ht
      exact ⟨fuel + 1, by rwa [bencEntityLength_enter false ht]⟩
    · refine ⟨1, ?_⟩
      simp only [bencEntityLength, ht, walk_ok_bind]
      rcases bencIntLength_cases hr with hl | ⟨neg, ds, rest, -, -, hl⟩
      · rw [hl]
        exact ok_ne_fuel _
      · rw [hl]
        exact ok_ne_fuel _
    · have hr' : TextAt (b ++ [0]) p (ds ++ 58 :: (s ++ [0])) := by simpa using hr
      refine ⟨1, ?_⟩
      simp only [bencEntityLength, ht, walk_ok_bind, bencStringLength_digits hr' hd hne]
      exact ok_ne_fuel _
    · refine ⟨1, ?_⟩
      simp only [bencEntityLength, ht, walk_ok_bind]
      exact ok_ne_fuel _

/-- A loop ends if the call does that it makes, and the next round does. -/
theorem loop_ends {keys : Bool} {p offset : Int} {k : Nat} (h0 : 0 ≤ p + offset + 1)
    (hent : p + offset + 1 ≤ b.length → GoesOn (b ++ [0]) keys p offset k → EntityEnds b (p + offset + 1))
    (hnext : p + offset + 1 ≤ b.length → GoesOn (b ++ [0]) keys p offset k → ∀ n, ReturnsAt (b ++ [0]) (p + offset + 1) n →
      n ≠ -1 →
      LoopEnds b keys p (int32 (offset + n)) (k + 1)) : LoopEnds b keys p offset k := by
  by_cases hp : (b.length : Int) < p + offset + 1
  · refine ⟨1, ?_⟩
    simp only [bencElements, byteAt_outside hp, walk_error_bind]
    decide
  · obtain ⟨r, hr⟩ := textAt_of_le (b := b) h0 (by omega)
    obtain ⟨c, t, -, hb⟩ := hr.byteAt_nul
    by_cases hgo : c ≠ 101 ∧ c ≠ 0
    · rcases badKey_scanned keys k hr with hk | ⟨hk, -⟩
      · refine ⟨1, ?_⟩
        simp only [bencElements, hb, walk_ok_bind, if_pos hgo, hk, if_true]
        exact ok_ne_fuel _
      · have hg : GoesOn (b ++ [0]) keys p offset k := ⟨c, hb, hgo.1, hgo.2, hk⟩
        obtain ⟨fuel, hf⟩ := hent (by omega) hg
        rw [(bencEntityLength_io _ fuel).1 _ 0 (int32 (0 + offset + 1))] at hf
        cases hl : bencEntityLength (b ++ [0]) fuel (p + offset + 1) (int32 (0 + offset + 1)) with
        | error e =>
          refine ⟨fuel + 1, ?_⟩
          rw [bencElements_goesOn hg, hl]
          rw [hl] at hf
          exact hf
        | ok l =>
          by_cases hl1 : l = -1
          · refine ⟨fuel + 1, ?_⟩
            rw [bencElements_goesOn hg, hl, walk_ok_bind, if_pos hl1]
            exact ok_ne_fuel _
          · obtain ⟨fuel', hf'⟩ := hnext (by omega) hg l ⟨fuel, _, hl⟩ hl1
            refine ⟨max fuel fuel' + 1, ?_⟩
            rw [bencElements_goesOn hg, bencEntityLength_mono (Nat.le_max_left _ _) hl (by simp), walk_ok_bind, if_neg hl1,
              bencElements_mono (Nat.le_max_right _ _) rfl hf']
            exact hf'
    · refine ⟨1, ?_⟩
      simp only [bencElements, hb, walk_ok_bind, if_neg hgo]
      split
      · exact ok_ne_fuel _
      · exact ok_ne_fuel _

/-- Calls and loop states end, the farther from the terminator, the later. A call looks at its first byte and goes on to a loop behind
it; a loop calls where it looks, and looks farther on in the next round. -/
theorem terminates_within (ha : Advances b) (m : Nat) :
    (∀ p, Calls (b ++ [0]) (.entity p) → 2 * (b.length + 1 - p.toNat) ≤ m → EntityEnds b p) ∧
    (∀ keys p offset k, Calls (b ++ [0]) (.loop keys p offset k) → 2 * (b.length + 1 - (p + offset + 1).toNat) + 1 ≤ m →
      LoopEnds b keys p offset k) := by
  induction m with
  | zero =>
    constructor
    · intro p hc hm
      refine entity_ends (nonneg_of_advances ha hc) ?_
      intro hp
      omega
    · intro keys p offset k _ hm
      omega
  | succ m ih =>
    constructor
    · intro p hc hm
      have h0 : 0 ≤ p := nonneg_of_advances ha hc
      refine entity_ends h0 ?_
      intro hp keys hty
      exact ih.2 keys p 0 0 (Calls.enter hc hty) (by omega)
    · intro keys p offset k hc hm
      obtain ⟨hp0, ho0, -⟩ := nonneg_of_advances ha hc
      refine loop_ends (by omega) ?_ ?_
      · intro hp hg
        exact ih.1 (p + offset + 1) (Calls.element hc hg) (by omega)
      · intro hp hg n hret hn
        have hadv := (ha keys p offset k n hc hg hret hn).2
        exact ih.2 keys p _ _ (Calls.next hc hg hret hn) (by omega)

theorem terminates_of_advances (ha : Advances b) (initialOffset : Int) :
    ∃ fuel, bencEntityLength (b ++ [0]) fuel 0 initialOffset ≠ .error .fuel := by
  obtain ⟨fuel, hf⟩ := (terminates_within ha _).1 0 Calls.start (Nat.le_refl _)
  exact ⟨fuel, by rwa [(bencEntityLength_io _ fuel).1 0 initialOffset 0]⟩

/-! ### What the elements have to span -/

/-- With this fuel a call at a text that elements lead to stays inside the buffer, and what it returns is what the text spans. -/
def ReturnsSpan (b : Bytes) (fuel : Nat) : Prop :=
  ∀ (r : Bytes) (p io : Int), Entered b r → TextAt (b ++ [0]) p (r ++ [0]) →
    bencEntityLength (b ++ [0]) fuel p io ≠ .error .fault ∧
    ∀ n, bencEntityLength (b ++ [0]) fuel p io = .ok n → n = -1 ∨ ∃ d, Spans r d ∧ n = int32 d

/-- The same of a loop, from the states that elements lead to. -/
def LoopReturnsSpan (b : Bytes) (fuel : Nat) : Prop :=
  ∀ (keys : Bool) (t : Bytes) (offset k : Nat) (p io : Int), Entered b (opening keys :: t) → Comes keys t offset k →
    TextAt (b ++ [0]) p (opening keys :: t ++ [0]) →
    bencElements (b ++ [0]) fuel keys p io offset k ≠ .error .fault ∧
    ∀ n, bencElements (b ++ [0]) fuel keys p io offset k = .ok n → n = -1 ∨ ∃ d, Spans (opening keys :: t) d ∧ n = int32 d

theorem returnsSpan_succ {fuel : Nat} (ih : LoopReturnsSpan b fuel) : ReturnsSpan b (fuel + 1) := by
  intro r p io hr h
  rcases bencEntityType_cases h with ⟨t, rfl, ht⟩ | ⟨t, rfl, ht⟩ | ⟨t, rfl, ht⟩ | ⟨⟨ds, s, hd, hne, rfl⟩, ht⟩ | ht
  · rw [bencEntityLength_enter true ht]
    exact ih true t 0 0 p io hr Comes.start h
  · rw [bencEntityLength_enter false ht]
    exact ih false t 0 0 p io hr Comes.start h
  · simp only [bencEntityLength, ht, walk_ok_bind]
    rcases bencIntLength_cases h with hl | ⟨neg, ds, rest, rfl, hd, hl⟩
    · exact walks_value hl (Or.inl rfl)
    · rw [List.append_assoc]
      exact walks_value hl (Or.inr ⟨_, Spans.int hd, rfl⟩)
  · have hlen := bencStringLength_digits (t := s ++ [0]) (by simpa using h) hd hne
    simp only [bencEntityLength, ht, walk_ok_bind]
    exact walks_value hlen (Or.inr ⟨_, Spans.str hd hne, rfl⟩)
  · simp only [bencEntityLength, ht, walk_ok_bind]
    exact walks_value rfl (Or.inl rfl)

/-- One round of a loop, given the walks one unit of fuel below. -/
theorem loopReturnsSpan_succ (he : ElementsLead b) {fuel : Nat} (ihe : ReturnsSpan b fuel) (ih : LoopReturnsSpan b fuel) :
    LoopReturnsSpan b (fuel + 1) := by
  intro keys t offset k p io hr hcomes h
  have hat := textAt_offset h hcomes.le.1
  obtain ⟨c, u, hcu, hbc⟩ := hat.byteAt_nul
  by_cases hc : c ≠ 101 ∧ c ≠ 0
  · rcases badKey_scanned keys k hat with hk | ⟨hk, hs⟩
    · simp only [bencElements, hbc, walk_ok_bind, if_pos hc, hk, if_true]
      exact walks_value rfl (Or.inl rfl)
    · -- an element starts here: its length is -1 or leads to the next round
      obtain ⟨u', hcu', -⟩ := split_before_nul (a := []) hcu hc.2
      have hstarts : Starts keys k (t.drop offset) := ⟨c, u', hcu', hc.1, hc.2, hs⟩
      have hstep := ihe _ _ (int32 (io + offset + 1)) (Entered.element hr hcomes hstarts) hat
      rw [bencElements_goesOn ⟨c, hbc, hc.1, hc.2, hk⟩]
      cases hl : bencEntityLength (b ++ [0]) fuel (p + offset + 1) (int32 (io + offset + 1)) with
      | error e =>
        cases e with
        | fault => exact absurd hl hstep.1
        | fuel => exact ⟨by simp, fun n hn => by simp at hn⟩
      | ok n =>
        rw [walk_ok_bind]
        by_cases hn : n = -1
        · rw [if_pos hn]
          exact walks_value rfl (Or.inl rfl)
        · obtain ⟨d, hd, rfl⟩ := (hstep.2 n hl).resolve_left hn
          have hlead := (he keys t offset k d hr hcomes hstarts hd).resolve_left hn
          rw [if_neg hn, (int32_leads hlead).2]
          exact ih keys t _ (k + 1) p io hr (Comes.pass hcomes hstarts hd hlead) h
  · -- the run ends here
    simp only [bencElements, hbc, walk_ok_bind, if_neg hc]
    by_cases hclose : c = 101 ∧ (keys = true → k % 2 = 0)
    · rw [if_pos hclose]
      obtain ⟨rfl, hk⟩ := hclose
      obtain ⟨rest, hrest, -⟩ := split_before_nul (a := []) hcu (by decide)
      exact walks_value rfl (Or.inr ⟨_, Spans.closed hcomes hrest hk, rfl⟩)
    · rw [if_neg hclose]
      exact walks_value rfl (Or.inl rfl)

/-- The two hold together at every fuel. -/
theorem returnsSpan (he : ElementsLead b) (fuel : Nat) : ReturnsSpan b fuel ∧ LoopReturnsSpan b fuel := by
  induction fuel with
  | zero =>
    refine ⟨fun r p io _ _ => ⟨fun h => ?_, fun n h => ?_⟩, fun keys t offset k p io _ _ _ => ⟨fun h => ?_, fun n h => ?_⟩⟩
    · exact absurd (Except.error.inj h) (by decide)
    · cases h
    · exact absurd (Except.error.inj h) (by decide)
    · cases h
  | succ fuel ih => exact ⟨returnsSpan_succ ih.2, loopReturnsSpan_succ he ih.1 ih.2⟩

/-- Where a call of the run is, in the text. -/
def Standing (b : Bytes) : BencCall → Prop
  | .entity p => ∃ r, Entered b r ∧ TextAt (b ++ [0]) p (r ++ [0])
  | .loop keys p offset k => ∃ t : Bytes, ∃ o : Nat, offset = o ∧ Entered b (opening keys :: t) ∧ Comes keys t o k ∧
      TextAt (b ++ [0]) p (opening keys :: t ++ [0])

/-- Where the loop goes on, an element starts in the text. -/
theorem starts_of_goesOn {keys : Bool} {p offset : Int} {k : Nat} {r : Bytes} (h : TextAt (b ++ [0]) (p + offset + 1) (r ++ [0]))
    (hg : GoesOn (b ++ [0]) keys p offset k) : Starts keys k r := by
  obtain ⟨c, hc, h101, h0, hk⟩ := hg
  obtain ⟨c', u, hcu, hb⟩ := h.byteAt_nul
  obtain rfl : c = c' := Except.ok.inj (hc.symm.trans hb)
  obtain ⟨u', hcu', -⟩ := split_before_nul (a := []) hcu h0
  refine ⟨c, u', hcu', h101, h0, ?_⟩
  rcases badKey_scanned keys k h with hk' | ⟨-, hs⟩
  · rw [hk'] at hk
    cases hk
  · exact hs

/-- What an element of a loop returns, told from the text. -/
theorem span_of_returns (he : ElementsLead b) {keys : Bool} {t : Bytes} {o k : Nat} {p n : Int} (hr : Entered b (opening keys :: t))
    (hc : Comes keys t o k) (h : TextAt (b ++ [0]) p (opening keys :: t ++ [0])) (hg : GoesOn (b ++ [0]) keys p o k)
    (hret : ReturnsAt (b ++ [0]) (p + o + 1) n) (hn : n ≠ -1) :
    ∃ d, Starts keys k (t.drop o) ∧ Spans (t.drop o) d ∧ n = int32 d ∧ LeadsOn t o d := by
  have hat := textAt_offset h hc.le.1
  have hstarts := starts_of_goesOn hat hg
  obtain ⟨fuel, io, hf⟩ := hret
  obtain ⟨d, hd, rfl⟩ := (((returnsSpan he fuel).1 _ _ io (Entered.element hr hc hstarts) hat).2 n hf).resolve_left hn
  exact ⟨d, hstarts, hd, rfl, (he keys t o k d hr hc hstarts hd).resolve_left hn⟩

theorem standing_of_calls (he : ElementsLead b) {call : BencCall} (h : Calls (b ++ [0]) call) : Standing b call := by
  induction h with
  | start => exact ⟨b, Entered.start, textAt_zero _⟩
  | enter _ hty ih =>
    obtain ⟨r, hr, hp⟩ := ih
    obtain ⟨t, rfl⟩ := opening_of_type hp hty
    exact ⟨t, 0, rfl, hr, Comes.start, hp⟩
  | element _ hg ih =>
    obtain ⟨t, o, rfl, hr, hc, hp⟩ := ih
    have hat := textAt_offset hp hc.le.1
    exact ⟨_, Entered.element hr hc (starts_of_goesOn hat hg), hat⟩
  | next _ hg hret hn ih =>
    obtain ⟨t, o, rfl, hr, hc, hp⟩ := ih
    obtain ⟨d, hstarts, hd, rfl, hlead⟩ := span_of_returns he hr hc hp hg hret hn
    exact ⟨t, _, (int32_leads hlead).2, hr, Comes.pass hc hstarts hd hlead, hp⟩

theorem advances_of_elementsLead (he : ElementsLead b) : Advances b := by
  intro keys p offset k n hc hg hret hn
  obtain ⟨t, o, rfl, hr, hcomes, hp⟩ := standing_of_calls he hc
  obtain ⟨d, -, -, rfl, hlead⟩ := span_of_returns he hr hcomes hp hg hret hn
  have hoff := (int32_leads hlead).2
  have hpos := hlead.1
  exact ⟨hpos, by omega⟩

theorem progresses_of_elementsLead (he : ElementsLead b) : Progresses b := by
  have ha := advances_of_elementsLead he
  refine ⟨?_, ha⟩
  intro io
  obtain ⟨fuel, hf⟩ := terminates_of_advances ha io
  have hstays := ((returnsSpan he fuel).1 b 0 io Entered.start (textAt_zero _)).1
  cases hl : bencEntityLength (b ++ [0]) fuel 0 io with
  | ok n => exact ⟨fuel, n, hl⟩
  | error e =>
    cases e with
    | fault => exact absurd hl hstays
    | fuel => exact absurd hl hf

/-! ### Back to the text -/

/-- A call that reads outside the buffer. -/
def Faults (b : Bytes) (p : Int) : Prop := ∃ fuel, bencEntityLength (b ++ [0]) fuel p 0 = .error .fault

/-- A loop that reads outside the buffer, in a state that elements lead to, makes its call do so. -/
theorem faults_of_loop {keys : Bool} {t : Bytes} {offset k fuel : Nat} {p : Int} (hp : TextAt (b ++ [0]) p (opening keys :: t ++ [0]))
    (hc : Comes keys t offset k) (h : bencElements (b ++ [0]) fuel keys p 0 offset k = .error .fault) : Faults b p := by
  obtain ⟨fuel', hf⟩ := hc.run hp h (by decide)
  exact ⟨fuel' + 1, by rw [bencEntityLength_enter keys (bencEntityType_opening hp), hf]⟩

/-- Where elements lead to, the run makes a call; if it reads outside the buffer, every enclosing call does. -/
theorem call_of_entered {r : Bytes} (hr : Entered b r) :
    ∃ p, TextAt (b ++ [0]) p (r ++ [0]) ∧ Calls (b ++ [0]) (.entity p) ∧ (Faults b p → Faults b 0) := by
  induction hr with
  | start => exact ⟨0, textAt_zero _, Calls.start, id⟩
  | @element keys t offset k _ hc hs ih =>
    obtain ⟨p, hp, hcalls, hup⟩ := ih
    have hat := textAt_offset hp hc.le.1
    have hg := goesOn_of_starts hs hat
    refine ⟨_, hat, Calls.element (hc.calls hp hcalls) hg, ?_⟩
    rintro ⟨fuel, hf⟩
    refine hup (@faults_of_loop b keys t offset k (fuel + 1) p hp hc ?_)
    rw [bencElements_goesOn hg, (bencEntityLength_io _ fuel).1 _ _ 0, hf]
    rfl

theorem add_length_of_textAt {r : Bytes} {p : Int} (h : TextAt (b ++ [0]) p (r ++ [0])) : p + r.length = b.length := by
  obtain ⟨pre, hpre, rfl⟩ := h
  have := congrArg List.length hpre
  simp only [List.length_append, List.length_cons, List.length_nil] at this
  omega

/-- An element with a positive length that moves the loop on leads inside the text, or the loop looks behind the terminator. -/
theorem elementsLead_of_progresses (h : Progresses b) : ElementsLead b := by
  intro keys t offset k d hr hc hs hd
  by_cases h1 : int32 d = -1
  · exact Or.inl h1
  · right
    obtain ⟨p, hp, hcalls, hup⟩ := call_of_entered hr
    have hat := textAt_offset hp hc.le.1
    have hg := goesOn_of_starts hs hat
    have hret := hd.returns hat
    obtain ⟨hpos, hlt⟩ := h.advances keys p offset k _ (hc.calls hp hcalls) hg hret h1
    -- a sum that is no `int` comes out negative
    have hint : (offset : Int) + int32 d < 2147483648 := by
      have hd32 := (isInt32_int32 d).2
      have ho := hc.le.2
      by_contra hover
      unfold int32 at hlt hover hd32 hpos
      omega
    refine ⟨hpos, ?_, hint⟩
    by_contra hout
    have hin := add_length_of_textAt hp
    rw [List.length_cons] at hin
    have hfault : bencElements (b ++ [0]) 1 keys p 0 (int32 (offset + int32 d)) (k + 1) = .error .fault := by
      rw [int32_of_lt (by omega) hint]
      simp only [bencElements, byteAt_outside (b := b) (p := p + (offset + int32 d) + 1) (by omega), walk_error_bind]
    obtain ⟨fuel, hf⟩ := bencElements_pass hg hret h1 hfault (by decide)
    obtain ⟨fuel₀, hf₀⟩ := hup (faults_of_loop hp hc hf)
    obtain ⟨fuel₁, n, hn⟩ := h.terminates 0
    have heq := bencEntityLength_unique hf₀ hn (by decide) (ok_ne_fuel n)
    cases heq

theorem progresses_iff_elementsLead (b : Bytes) : Progresses b ↔ ElementsLead b :=
  ⟨elementsLead_of_progresses, progresses_of_elementsLead⟩

/-- An element of at most as many bytes as the text has leads on, in a text that an `int` can count. -/
theorem leads_of_le {t : Bytes} {offset : Nat} {d : Int} (hpos : 0 < d) (hle : offset + d ≤ t.length) (hlt : t.length < 2147483648) :
    LeadsOn t offset d := by
  have hd : int32 d = d := int32_of_lt (by omega) (by omega)
  exact ⟨by omega, by omega, by omega⟩

/-- In a short buffer only a string can span what it does not hold. -/
theorem elementsLead_of_strings (hb : b.length + 2 < 2147483648) (hs : StringsLead b) : ElementsLead b := by
  intro keys t offset k d hr hc hstarts hd
  have hlen := hr.suffix.length_le
  have hdrop := List.length_drop (l := t) (i := offset)
  have hoff := hc.le.1
  rw [List.length_cons] at hlen
  generalize hu : t.drop offset = u at hd hdrop
  cases hd with
  | @str ds s hds hne => exact hs keys t offset k ds s hr hc hu hds hne
  | @int neg ds s _ =>
    simp only [List.length_cons, List.length_append] at hdrop
    exact Or.inr (leads_of_le (by omega) (by omega) (by omega))
  | @closed keys' t' s offset' k' _ he _ =>
    have hend := congrArg List.length he
    simp only [List.length_drop, List.length_cons] at hend hdrop
    exact Or.inr (leads_of_le (by omega) (by omega) (by omega))

theorem stringsLead_of_elementsLead (he : ElementsLead b) : StringsLead b := by
  intro keys t offset k ds s hr hc hu hds hne
  obtain ⟨c, ds', rfl⟩ := List.exists_cons_of_ne_nil hne
  obtain ⟨-, -, -, h101, h0⟩ := isDigit_ne (hds c (by simp))
  have hstarts : Starts keys k (t.drop offset) := ⟨c, ds' ++ 58 :: s, hu, h101, h0, fun _ _ => ⟨_, s, hds, hne, hu⟩⟩
  exact he keys t offset k _ hr hc hstarts (hu ▸ Spans.str hds hne)

/-- Where strings hold what they announce, they lead on. -/
theorem stringsLead_of_fit (hb : b.length < 2147483648) (hs : StringsFit b) : StringsLead b := by
  intro keys t offset k ds s hr hc hu hds hne
  have hsuffix := (List.suffix_cons (opening keys) t).trans hr.suffix
  have hv := hs ds s (hu ▸ (List.drop_suffix _ _).trans hsuffix) hds hne
  have hlen := hsuffix.length_le
  have hdrop := congrArg List.length hu
  simp only [List.length_drop, List.length_append, List.length_cons] at hdrop
  have hoff := hc.le.1
  exact Or.inr (leads_of_le (by omega) (by omega) (by omega))

end BencTerminationAux

open BencTerminationAux

/-- For every buffer with its terminator, `benc_entity_length` returns and its loops move forward exactly when every element that a loop
comes to spans a number of bytes that, narrowed, leads the loop on inside its text, or is -1. In a buffer that an `int` can count it is
enough that the strings do: the lengths they announce are not the buffer's. -/
theorem progresses_iff (b : Bytes) :
    (Progresses b ↔ ElementsLead b) ∧ (b.length + 2 < 2147483648 → (Progresses b ↔ StringsLead b)) := by
  refine ⟨progresses_iff_elementsLead b, ?_⟩
  intro hb
  rw [progresses_iff_elementsLead]
  exact ⟨stringsLead_of_elementsLead, elementsLead_of_strings hb⟩

/-- A dictionary of a list of a string and a number. -/
theorem progresses_iff_nested : Progresses (ascii "d1:al2:abi7eee") := by
  refine ((progresses_iff (ascii "d1:al2:abi7eee")).2 (by decide)).2 ?_
  exact stringsLead_of_fit (by decide) (stringsFit_of_tails (by decide))

namespace BencTerminationExample

/-- A list whose first string announces so many bytes that its length comes out as 0. -/
def buffer : Bytes := ascii "l4294967285:"

theorem string_length_zero (fuel : Nat) (io : Int) : bencEntityLength (buffer ++ [0]) (fuel + 1) (0 + 0 + 1) io = .ok 0 := by
  have h : bencEntityLength (buffer ++ [0]) 1 (0 + 0 + 1) 0 = .ok 0 := by decide
  rw [(bencEntityLength_io _ _).1 _ io 0]
  exact bencEntityLength_mono (by omega) h (by simp)

/-- The loop stays at its offset until the fuel is used up. -/
theorem stays (fuel : Nat) : ∀ io k, bencElements (buffer ++ [0]) fuel false 0 io 0 k = .error .fuel := by
  induction fuel with
  | zero => intro io k; rfl
  | succ fuel ih =>
    intro io k
    have hg : GoesOn (buffer ++ [0]) false 0 0 k := ⟨52, by decide, by decide, by decide, by simp [badKey]⟩
    rw [bencElements_goesOn hg]
    cases fuel with
    | zero => rfl
    | succ fuel =>
      rw [string_length_zero, walk_ok_bind, if_neg (by decide)]
      exact ih io (k + 1)

end BencTerminationExample

/-- On it the function never returns. -/
theorem not_progresses_zero_length : ¬Progresses BencTerminationExample.buffer := by
  intro h
  obtain ⟨fuel, n, hf⟩ := h.terminates 0
  cases fuel with
  | zero => cases hf
  | succ fuel =>
    rw [bencEntityLength_enter false (by decide), BencTerminationExample.stays fuel 0 0] at hf
    cases hf

end Traccoon
