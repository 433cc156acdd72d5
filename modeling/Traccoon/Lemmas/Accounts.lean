import Mathlib.Tactic.Abel
import Traccoon.Lemmas.ServerStep

/-!
# Accounts of the connections

What each flow adds to the connections of the slots it takes from them, or adds to the records. Summed over the slots and the buffers
this gives the two accounts of a run: what is in the queue and what has been copied (`Server.Queued`), and where the connections
accepted are (`Server.Whereabouts`).
-/

namespace Traccoon

open HandOff

variable {c : Config}

namespace AccountsAux

variable {s s' : Server c} {f : Flow c}

/-- The connections that a flow takes out of a slot. -/
def takenBy : Flow c → Multiset Conn
  | .copies _ _ x | .disposes _ x => {x}
  | _ => 0

/-- Put in is what has been accepted. -/
theorem sum_given {S : Finset Nat} (h : ∀ i ∈ f.site, i ∈ S) : ∑ j ∈ S, (f.label j).given = (f.accepted : Multiset Conn) := by
  cases f with
  | accepts i x =>
    have hi : i ∈ S := h i rfl
    simp [Flow.label, Flow.accepted, apply_ite Label.given, hi]
  | copies i w x | disposes i x => simp [Flow.label, Flow.accepted, apply_ite Label.given]
  | quiet | frees w x | sweeps i x => simp [Flow.label, Flow.accepted]

theorem sum_taken {S : Finset Nat} (h : ∀ i ∈ f.site, i ∈ S) : ∑ j ∈ S, (f.label j).taken = takenBy f := by
  cases f with
  | copies i w x | disposes i x =>
    have hi : i ∈ S := h i rfl
    simp [Flow.label, takenBy, apply_ite Label.taken, hi]
  | accepts i x => simp [Flow.label, takenBy, apply_ite Label.taken]
  | quiet | frees w x | sweeps i x => simp [Flow.label, takenBy]

/-- What is taken from a slot or a buffer has been copied to a buffer or closed. -/
theorem takenBy_add_freed (h : ∀ i x, f ≠ .sweeps i x) : takenBy f + ∑ v, f.freed v = ∑ v, f.copied v + itemsIn f.closed := by
  cases f with
  | quiet | accepts i x => simp [takenBy, Flow.freed, Flow.copied, Flow.closed]
  | copies i w x => simp [takenBy, Flow.freed, Flow.copied, Flow.closed]
  | disposes i x | frees w x => simp [takenBy, Flow.freed, Flow.copied, Flow.closed]
  | sweeps i x => exact absurd rfl (h i x)

/-- What has been copied has been taken. -/
theorem itemsIn_copyLog_le : itemsIn (f.copyLog.map Prod.snd) ≤ takenBy f := by
  cases f with
  | copies i w x => simp [takenBy, Flow.copyLog]
  | quiet | accepts i x | disposes i x | frees w x | sweeps i x => exact Multiset.zero_le _

theorem unswept_subset (s : Server c) : s.unswept ⊆ Finset.range c.queuesize := by
  unfold Server.unswept
  split
  · rw [Finset.range_eq_Ico]
    exact Finset.Ico_subset_Ico_left (Nat.zero_le _)
  · exact Finset.empty_subset _
  · exact Finset.Subset.refl _

end AccountsAux

open AccountsAux

/-! ## What has been accepted -/

/-- The connections are numbered in the order of their acceptance. -/
def Server.Numbered (s : Server c) : Prop := s.accepted.map Conn.serial = List.range s.accepted.length

theorem Server.Numbered.step {s s' : Server c} {f : Flow c} (h : s.Numbered) (hf : s.Flows s' f) : s'.Numbered := by
  have hserial := hf.serial
  rw [Server.Numbered, hf.accepted]
  cases f with
  | accepts i x =>
    have hx : x.serial = s.accepted.length := hserial x (List.mem_singleton.2 rfl)
    simp only [Flow.accepted, List.map_append, List.map_cons, List.map_nil, List.length_append, List.length_cons, List.length_nil,
      List.range_succ]
    rw [h, hx]
  | quiet | copies i w x | disposes i x | frees w x | sweeps i x =>
    simp only [Flow.accepted, List.append_nil]
    exact h

theorem Server.Numbered.nodup {s : Server c} (h : s.Numbered) : s.accepted.Nodup := by
  refine List.Nodup.of_map Conn.serial ?_
  rw [h]
  exact List.nodup_range

/-- Only connections have been copied and closed: no mark of a failure, and no empty slot. -/
def Server.Real (s : Server c) : Prop := (∀ p ∈ s.copies, ∃ x, p.2 = .item x) ∧ ∀ y ∈ s.closed, ∃ x, y = .item x

theorem Server.Real.step {s s' : Server c} {f : Flow c} (h : s.Real) (hs : s.Sound) (hf : s.Flows s' f) : s'.Real := by
  have hun := hf.unswept
  rw [Server.Real, hf.copies, hf.closed]
  refine ⟨fun p hp => ?_, fun y hy => ?_⟩
  · rcases List.mem_append.1 hp with hp | hp
    · exact h.1 p hp
    · cases f with
      | copies i w x =>
        rw [List.mem_singleton.1 hp]
        exact ⟨x, rfl⟩
      | quiet | accepts i x | disposes i x | frees w x | sweeps i x => cases hp
  · rcases List.mem_append.1 hy with hy | hy
    · exact h.2 y hy
    · cases f with
      | disposes i x | frees w x => exact ⟨x, List.mem_singleton.1 hy⟩
      | sweeps i x =>
        obtain ⟨hm, -, hx⟩ := hun
        have hfailed : x ≠ .failed := by
          rw [← hx]
          exact (hs.slots i).not_failed (giver_of_no_site s i (by rw [hm]; rfl))
        simp only [Flow.closed] at hy
        split at hy
        · cases hy
        · rename_i h0
          rw [List.mem_singleton.1 hy]
          exact socket_of_entry hfailed (mt socketValue_eq_zero.1 h0)
      | quiet | accepts i x | copies i w x => cases hy

/-! ## The queue -/

/-- The connections in the queue and those copied from it are among those accepted, each as often as it was accepted. -/
def Server.Queued (s : Server c) : Prop :=
  ∑ j ∈ Finset.range c.queuesize, (s.slot j).live + itemsIn (s.copies.map Prod.snd) ≤ (s.accepted : Multiset Conn)

theorem Server.Queued.step {s s' : Server c} {f : Flow c} (h : s.Queued) (hs : s.Sound) (hf : s.Flows s' f) : s'.Queued := by
  have hsite : ∀ i ∈ f.site, i ∈ Finset.range c.queuesize := fun i hi => unswept_subset s (hf.ahead i hi)
  have hlive := sum_live (S := Finset.range c.queuesize) (fun j _ => hf.slot j) (fun j _ => hs.slots j)
  rw [sum_given hsite, sum_taken hsite] at hlive
  have hcopied := itemsIn_copyLog_le (f := f)
  unfold Server.Queued at h ⊢
  rw [hf.copies, hf.accepted, List.map_append, itemsIn_append, ← Multiset.coe_add]
  rw [Multiset.le_iff_count] at h hcopied ⊢
  intro x
  have h1 := congrArg (Multiset.count x) hlive
  have h2 := h x
  have h3 := hcopied x
  simp only [Multiset.count_add] at h1 h2 h3 ⊢
  omega

/-! ## Where the connections are -/

/-- Each connection accepted is in a slot that the sweep has not passed, in a buffer, or closed. -/
def Server.Whereabouts (s : Server c) : Prop :=
  ∑ j ∈ s.unswept, (s.slot j).live + ∑ w, s.buffer w + itemsIn s.closed = (s.accepted : Multiset Conn)

/-- At the sweep a slot holds its connection, for no worker is at it. -/
theorem live_of_sweep {s : Server c} (hs : s.Sound) {i : Nat} (h : s.main = .sweep i) (j : Nat) :
    (s.slot j).live = (s.queue j).socket.items := by
  have hok := hs.main
  unfold MainOk at hok
  rw [h] at hok
  refine Slot.live_of_no_taker fun w => taker_of_no_site s j ?_
  rw [hok w]
  rfl

/-- A step of the sweep closes what the slot holds, and goes on with the slots behind it. -/
theorem Server.Whereabouts.sweep {s s' : Server c} {i : Nat} {x : Socket} (h : s.Whereabouts) (hs : s.Sound)
    (hf : s.Flows s' (.sweeps i x)) : s'.Whereabouts := by
  obtain ⟨hm, hm', hx⟩ := hf.unswept
  have hi : i < c.queuesize := Finset.mem_range.1 (unswept_subset s (hf.ahead i rfl))
  have hslots : ∀ j, (s'.slot j).live = (s.slot j).live := by
    intro j
    have hlive := ((hf.slot j).keeps (hs.slots j)).2
    simpa [Flow.label] using hlive
  have hbuffer : ∀ v, s'.buffer v = s.buffer v := by
    intro v
    simpa [Flow.freed, Flow.copied] using hf.buffer v
  have hclosed : itemsIn (Flow.closed (.sweeps i x : Flow c)) = (s.slot i).live := by
    rw [live_of_sweep hs hm, hx, Flow.closed]
    split
    · rename_i h0
      rw [h0]
      rfl
    · simp
  have hold : s.unswept = Finset.Ico i c.queuesize := by simp only [Server.unswept, hm]
  have hnew : s'.unswept = Finset.Ico (i + 1) c.queuesize := by simp only [Server.unswept, hm']
  unfold Server.Whereabouts at h ⊢
  rw [hold, Finset.sum_eq_sum_Ico_succ_bot hi] at h
  simp only [hf.closed, hf.accepted, hslots, hbuffer, hnew, itemsIn_append, hclosed, Flow.accepted, List.append_nil]
  rw [← h]
  abel

theorem Server.Whereabouts.step {s s' : Server c} {f : Flow c} (h : s.Whereabouts) (hs : s.Sound) (hf : s.Flows s' f) :
    s'.Whereabouts := by
  by_cases hsweep : ∃ i x, f = .sweeps i x
  · obtain ⟨i, x, rfl⟩ := hsweep
    exact h.sweep hs hf
  · have hun : s'.unswept = s.unswept := by
      have := hf.unswept
      split at this
      · exact absurd ⟨_, _, rfl⟩ hsweep
      · exact this
    have hlive := sum_live (S := s.unswept) (fun j _ => hf.slot j) (fun j _ => hs.slots j)
    rw [sum_given hf.ahead, sum_taken hf.ahead] at hlive
    have hbuffer : ∑ v, s'.buffer v + ∑ v, f.freed v = ∑ v, s.buffer v + ∑ v, f.copied v := by
      rw [← Finset.sum_add_distrib, ← Finset.sum_add_distrib]
      exact Finset.sum_congr rfl fun v _ => hf.buffer v
    have hmoved := takenBy_add_freed (f := f) (fun i x hfx => hsweep ⟨i, x, hfx⟩)
    unfold Server.Whereabouts at h ⊢
    rw [hf.closed, hf.accepted, itemsIn_append, ← Multiset.coe_add, hun]
    -- each connection is counted as often before and after
    refine Multiset.ext.2 fun x => ?_
    have h1 := congrArg (Multiset.count x) h
    have h2 := congrArg (Multiset.count x) hlive
    have h3 := congrArg (Multiset.count x) hbuffer
    have h4 := congrArg (Multiset.count x) hmoved
    simp only [Multiset.count_add] at h1 h2 h3 h4 ⊢
    omega

/-! ## The accounts of a run -/

theorem numbered_start (c : Config) : (Server.start c).Numbered := rfl

theorem live_start (c : Config) (j : Nat) : ((Server.start c).slot j).live = 0 :=
  Slot.live_of_no_taker (s := (Server.start c).slot j) fun _ => rfl

theorem queued_start (c : Config) : (Server.start c).Queued := by
  simp only [Server.Queued, live_start, Finset.sum_const_zero]
  exact Multiset.zero_le _

theorem whereabouts_start (c : Config) : (Server.start c).Whereabouts := by
  have hbuffer : ∀ w, (Server.start c).buffer w = 0 := fun _ => rfl
  simp only [Server.Whereabouts, live_start, hbuffer, Finset.sum_const_zero]
  rfl

/-- What holds of the state at every moment of a run, with its accounts. -/
structure Server.Accounted (s : Server c) : Prop where
  sound : s.Sound
  numbered : s.Numbered
  real : s.Real
  queued : s.Queued
  whereabouts : s.Whereabouts

theorem Server.Accounted.of_visits {schedule : List (ServerAction c)} {s : Server c}
    (h : Machine.Visits Server.step (Server.start c) schedule s) : s.Accounted := by
  have hreal : (Server.start c).Real := ⟨fun _ hp => (by cases hp), fun _ hy => (by cases hy)⟩
  refine Machine.invariant Server.Accounted ?_ ⟨sound_start c, numbered_start c, hreal, queued_start c, whereabouts_start c⟩ s h
  intro s a hs
  obtain ⟨f, hf⟩ := step_flows hs.sound a
  exact ⟨hs.sound.step a, hs.numbered.step hf, hs.real.step hs.sound hf, hs.queued.step hs.sound hf, hs.whereabouts.step hs.sound hf⟩

end Traccoon
