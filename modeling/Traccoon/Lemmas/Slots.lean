import Traccoon.Server

/-!
# The slots of the accept queue

Each slot of the queue is a slot of the hand-over protocol: the main thread is its giver, the workers are its takers, and who stands
where follows from the program counters. `Effect` says what a step of the server can do: to the slots, to the buffers of the workers,
and to what has been accepted, copied and closed.
-/

namespace Traccoon

open HandOff

variable {c : Config}

/-- The worker that a field `thread` names. -/
def ownerOf (t : Int) : Option (Fin c.workerthreads) :=
  if h : 1 ≤ t ∧ t ≤ c.workerthreads then some ⟨(t - 1).toNat, by omega⟩ else none

@[simp] theorem ownerOf_tid (w : Fin c.workerthreads) : ownerOf (tid w) = some w := by
  have hw := w.2
  unfold ownerOf tid
  rw [dif_pos (by omega)]
  simp

@[simp] theorem ownerOf_zero : (ownerOf 0 : Option (Fin c.workerthreads)) = none := rfl

/-- The slot at which the main thread stands. -/
def MainPc.site : MainPc → Option (Nat × Giving)
  | .clearThread i => some (i, .clearing)
  | .accept i => some (i, .filling)
  | .test i => some (i, .testing)
  | .reset i => some (i, .resetting)
  | .assign i => some (i, .naming)
  | _ => none

/-- The slot at which a worker stands. -/
def WorkerPc.site : WorkerPc → Option (Nat × Taking)
  | .copy i _ | .dispose i => some (i, .holding)
  | .freeThread i _ | .clearThread i => some (i, .spent)
  | .freeSocket i _ | .clearSocket i => some (i, .cleared)
  | _ => none

/-- Where a thread stands at slot `j`. -/
def standing {α : Type} (j : Nat) : Option (Nat × α) → Option α
  | some (i, a) => if j = i then some a else none
  | none => none

@[simp] theorem standing_none {α : Type} (j : Nat) : standing j (none : Option (Nat × α)) = none := rfl

@[simp] theorem standing_self {α : Type} (i : Nat) (a : α) : standing i (some (i, a)) = some a := if_pos rfl

theorem standing_of_ne {α : Type} {i j : Nat} (h : j ≠ i) (a : α) : standing j (some (i, a)) = none := if_neg h

/-- A thread that stands at no slot but `i`. -/
def OnlyAt {α : Type} (i : Nat) (site : Option (Nat × α)) : Prop := ∀ j, j ≠ i → standing j site = none

theorem onlyAt_some {α : Type} (i : Nat) (a : α) : OnlyAt i (some (i, a)) := fun _ hj => standing_of_ne hj a

theorem onlyAt_none {α : Type} (i : Nat) : OnlyAt i (none : Option (Nat × α)) := fun _ _ => rfl

/-- Slot `j` of the queue, as a slot of the protocol. -/
def Server.slot (s : Server c) (j : Nat) : Slot (Fin c.workerthreads) Conn :=
  { owner := ownerOf (s.queue j).thread
    content := (s.queue j).socket
    giver := standing j s.main.site
    taker := fun w => standing j (s.workers w).pc.site }

/-- The connections in the entries of a buffer. -/
def socketsIn (clients : List ClientData) : Multiset Conn := itemsIn (clients.map (·.socket))

/-- The entries of a worker's buffer that it has not closed on its way out. -/
def Worker.unclosed (wk : Worker) : List ClientData :=
  match wk.pc with
  | .closeBuffer k => wk.clients.drop k
  | _ => wk.clients

/-! ## What the parts of a step do to a slot -/

section

variable (s : Server c) (i j : Nat)

@[simp] theorem slot_setMain (pc : MainPc) : (s.setMain pc).slot j = { s.slot j with giver := standing j pc.site } := rfl

@[simp] theorem slot_setThread (t : Int) :
    (s.setThread i t).slot j = { s.slot j with owner := if j = i then ownerOf t else (s.slot j).owner } := by
  by_cases h : j = i
  · subst h
    simp [Server.slot, Server.setThread]
  · simp [Server.slot, Server.setThread, h]

@[simp] theorem slot_setSocket (x : Socket) :
    (s.setSocket i x).slot j = { s.slot j with content := if j = i then x else (s.slot j).content } := by
  by_cases h : j = i
  · subst h
    simp [Server.slot, Server.setSocket]
  · simp [Server.slot, Server.setSocket, h]

@[simp] theorem slot_setWorker (w : Fin c.workerthreads) (wk : Worker) :
    (s.setWorker w wk).slot j = { s.slot j with taker := Function.update (s.slot j).taker w (standing j wk.pc.site) } := by
  unfold Server.slot Server.setWorker
  congr 1
  funext v
  by_cases h : v = w
  · subst h
    simp
  · simp [h]

theorem slot_setThread_of_ne {i j : Nat} (h : j ≠ i) (t : Int) : (s.setThread i t).slot j = s.slot j := by
  rw [slot_setThread, if_neg h]

theorem slot_setSocket_of_ne {i j : Nat} (h : j ≠ i) (x : Socket) : (s.setSocket i x).slot j = s.slot j := by
  rw [slot_setSocket, if_neg h]

/-- A worker that stands where it stood. -/
theorem slot_setWorker_same {w : Fin c.workerthreads} {wk : Worker} (h : standing j wk.pc.site = standing j (s.workers w).pc.site) :
    (s.setWorker w wk).slot j = s.slot j := by
  rw [slot_setWorker, h]
  exact congrArg (fun t => { s.slot j with taker := t }) (Function.update_eq_self w (s.slot j).taker)

/-- The main thread stands where it stood. -/
theorem slot_setMain_same {pc : MainPc} (h : standing j pc.site = standing j s.main.site) : (s.setMain pc).slot j = s.slot j := by
  rw [slot_setMain, h]
  rfl

/-- Where a worker stands at a slot, by its program counter. -/
theorem taker_of_site {w : Fin c.workerthreads} {i : Nat} {t : Taking} (h : (s.workers w).pc.site = some (i, t)) :
    (s.slot i).taker w = some t := by
  simp only [Server.slot, h, standing_self]

theorem taker_of_no_site {w : Fin c.workerthreads} (h : (s.workers w).pc.site = none) : (s.slot i).taker w = none := by
  simp only [Server.slot, h, standing_none]

/-- Where the main thread stands at a slot, by its program counter. -/
theorem giver_of_site {i : Nat} {g : Giving} (h : s.main.site = some (i, g)) : (s.slot i).giver = some g := by
  simp only [Server.slot, h, standing_self]

theorem giver_of_no_site (h : s.main.site = none) : (s.slot i).giver = none := by
  simp only [Server.slot, h, standing_none]

end

/-- A step at slot `i` leaves the other slots alone. -/
theorem moves_at {s s' : Server c} {i : Nat} {l : Label Conn} (hi : (s.slot i).Step l (s'.slot i))
    (ho : ∀ j, j ≠ i → s'.slot j = s.slot j) (j : Nat) : (s.slot j).Moves (if j = i then l else .silent) (s'.slot j) := by
  by_cases h : j = i
  · subst h
    rw [if_pos rfl]
    exact Or.inl hi
  · rw [if_neg h]
    exact Or.inr ⟨rfl, ho j h⟩

theorem moves_silent_at {s s' : Server c} {i : Nat} (hi : (s.slot i).Step .silent (s'.slot i))
    (ho : ∀ j, j ≠ i → s'.slot j = s.slot j) (j : Nat) : (s.slot j).Moves .silent (s'.slot j) := by
  have h := moves_at hi ho j
  rwa [ite_self] at h

theorem moves_same {s s' : Server c} (h : ∀ j, s'.slot j = s.slot j) (j : Nat) : (s.slot j).Moves .silent (s'.slot j) :=
  Or.inr ⟨rfl, h j⟩

end Traccoon
