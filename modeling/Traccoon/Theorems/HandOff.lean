import Mathlib.Algebra.Order.BigOperators.Group.Finset
import Traccoon.Lemmas.Accounts

/-!
# Connections handed to the workers

The accept queue is used without a lock. The main thread writes to a slot only while its `socket` is 0 or -1, and names a worker last;
a worker looks for its own number only, and sets `socket` to 0 last. So each connection that is accepted goes to one worker at most,
once, however the threads interleave (`handOff_once`).
-/

namespace Traccoon

open HandOff

variable {c : Config}

/-- The main thread is about to write to slot `i`, other than to name a worker there. -/
def Overwrites (s : Server c) (i : Nat) : Prop := s.main = .clearThread i ∨ s.main = .accept i ∨ s.main = .reset i

/-- A socket that `accept` has returned, and that no worker has copied. -/
def Untaken (s : Server c) (x : Socket) : Prop := (∃ conn ∈ s.accepted, x = .item conn) ∧ x ∉ s.copies.map Prod.snd

namespace HandOffAux

variable {s : Server c}

/-- What a slot holds and nothing has been done with. -/
theorem untaken_of_live (hs : s.Accounted) {i : Nat} (hi : i < c.queuesize) {x : Conn} (hx : (s.slot i).live = {x}) :
    Untaken s (.item x) := by
  have hle : (s.slot i).live ≤ ∑ j ∈ Finset.range c.queuesize, (s.slot j).live :=
    Finset.single_le_sum (f := fun j => (s.slot j).live) (fun _ _ => Multiset.zero_le _) (Finset.mem_range.2 hi)
  have hsum : {x} + itemsIn (s.copies.map Prod.snd) ≤ (s.accepted : Multiset Conn) := by
    rw [← hx]
    exact (Multiset.add_le_add_right hle).trans hs.queued
  have hcount := Multiset.le_iff_count.1 hsum x
  have hone := Multiset.nodup_iff_count_le_one.1 (Multiset.coe_nodup.2 hs.numbered.nodup) x
  simp only [Multiset.count_add, Multiset.count_singleton_self] at hcount
  refine ⟨⟨x, ?_, rfl⟩, ?_⟩
  · rw [← Multiset.mem_coe, ← Multiset.count_pos]
    omega
  · rw [← mem_itemsIn, ← Multiset.count_pos]
    omega

/-- What has been copied has been accepted. -/
theorem copied_le (hs : s.Accounted) : itemsIn (s.copies.map Prod.snd) ≤ (s.accepted : Multiset Conn) :=
  (Multiset.le_add_left _ _).trans hs.queued

theorem accepted_of_copied (hs : s.Accounted) {x : Conn} (h : .item x ∈ s.copies.map Prod.snd) : x ∈ s.accepted :=
  Multiset.mem_coe.1 (Multiset.mem_of_le (copied_le hs) (mem_itemsIn.2 h))

/-- Where the main thread overwrites a slot there is no connection. -/
theorem giver_of_overwrites {i : Nat} (h : Overwrites s i) :
    ∃ g, s.main.site = some (i, g) ∧ ∀ x : Conn, ¬g.Fits (.item x) := by
  rcases h with h | h | h
  · exact ⟨.clearing, by rw [h]; rfl, fun x hx => by cases hx⟩
  · exact ⟨.filling, by rw [h]; rfl, fun x hx => by cases hx⟩
  · exact ⟨.resetting, by rw [h]; rfl, fun x hx => by cases hx⟩

end HandOffAux

open HandOffAux

/-- For any number of slots and workers and every interleaving of their steps: a worker that is about to copy a slot finds there a
socket that `accept` has returned and nobody has copied before; what has been copied are accepted connections, none of them twice;
and the main thread writes to no slot that holds a connection not yet copied, except to name a worker for the one that it has just
put there, where no worker was named. -/
theorem handOff_once (c : Config) (schedule : List (ServerAction c)) (s : Server c)
    (h : Machine.Visits Server.step (Server.start c) schedule s) :
    (∀ w i k, (s.workers w).pc = .copy i k → Untaken s (s.queue i).socket) ∧
    (∀ p ∈ s.copies, ∃ conn ∈ s.accepted, p.2 = .item conn) ∧ (s.copies.map Prod.snd).Nodup ∧
    (s.accepted.map Conn.serial).Nodup ∧
    (∀ i, Overwrites s i → ¬Untaken s (s.queue i).socket) ∧
    (∀ i, s.main = .assign i → Untaken s (s.queue i).socket ∧ ∀ w : Fin c.workerthreads, (s.queue i).thread ≠ tid w) := by
  have hs := Server.Accounted.of_visits h
  have hmain := hs.sound.main
  unfold MainOk at hmain
  refine ⟨?_, ?_, ?_, ?_, ?_, ?_⟩
  · intro w i k hpc
    have hw := (hs.sound.workers w).2
    rw [hpc] at hw
    obtain ⟨x, hx, hlive⟩ := (hs.sound.slots i).live_of_holding (taker_of_site s (w := w) (by rw [hpc]; rfl))
    rw [show (s.queue i).socket = .item x from hx]
    exact untaken_of_live hs hw hlive
  · intro p hp
    obtain ⟨x, hx⟩ := hs.real.1 p hp
    exact ⟨x, accepted_of_copied hs (hx ▸ List.mem_map_of_mem hp), hx⟩
  · refine nodup_of_itemsIn ?_ ?_
    · intro y hy
      obtain ⟨p, hp, rfl⟩ := List.mem_map.1 hy
      exact hs.real.1 p hp
    · exact Multiset.nodup_of_le (copied_le hs) (Multiset.coe_nodup.2 hs.numbered.nodup)
  · rw [hs.numbered]
    exact List.nodup_range
  · rintro i hi ⟨⟨x, -, hx⟩, -⟩
    obtain ⟨g, hg, hgx⟩ := giver_of_overwrites hi
    have hfits := (hs.sound.slots i).fits (giver_of_site s hg)
    exact hgx x (hx ▸ hfits)
  · intro i hi
    have hsite : s.main.site = some (i, .naming) := by rw [hi]; rfl
    obtain ⟨x, hx⟩ := (hs.sound.slots i).fits (giver_of_site s hsite)
    have hlive := (hs.sound.slots i).live_of_giver (giver_of_site s hsite)
    have howner := (hs.sound.slots i).owner_of_giver (giver_of_site s hsite)
    rw [hx, items_item] at hlive
    rw [hi] at hmain
    rw [show (s.queue i).socket = .item x from hx]
    refine ⟨untaken_of_live hs hmain hlive, fun w hw => ?_⟩
    simp only [Server.slot, hw, ownerOf_tid] at howner
    cases howner

namespace HandOffExample

/-- One worker and one slot. -/
def one : Config := { workerthreads := 1, queuesize := 1, pos := Nat.one_pos }

def worker : Fin one.workerthreads := ⟨0, by decide⟩

theorem five_pos : (0 : Int) < 5 := by decide

/-- `accept` returns descriptor 5, and the laziest worker is the first. -/
def answers : Answers := { accept := some ⟨5, five_pos⟩, clockFails := false, laziest := 1, handled := false }

/-- The main thread accepts a connection and hands it over; the worker counts it and finds it. -/
def schedule : List (ServerAction one) := List.replicate 7 (.main answers) ++ List.replicate 4 (.worker worker answers)

end HandOffExample

open HandOffExample

/-- The worker is about to copy the first connection, and nobody has. -/
theorem handOff_once_first :
    ((Machine.run Server.step (Server.start one) schedule).queue 0).socket = .item ⟨0, ⟨5, by decide⟩⟩ ∧
    Untaken (Machine.run Server.step (Server.start one) schedule) (.item ⟨0, ⟨5, by decide⟩⟩) := by
  have hsocket : ((Machine.run Server.step (Server.start one) schedule).queue 0).socket = .item ⟨0, ⟨5, by decide⟩⟩ := by
    decide
  have h := (handOff_once one schedule _ (Machine.visits_end _ _ _)).1 worker 0 0 (by decide)
  rw [hsocket] at h
  exact ⟨hsocket, h⟩

end Traccoon
