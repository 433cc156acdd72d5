import Mathlib.Algebra.BigOperators.Intervals
import Traccoon.Lemmas.Slots

/-!
# What a step of the server does

A step accepts a connection into a slot, copies one from a slot to a buffer, closes one that was in a slot, in a buffer or swept from
the queue, or does nothing to any connection. The `Flow` of a step says which, and `Server.Flows` what it does to each part of the
state. Every step taken from a state that is `Server.Sound` has a flow, and leads to such a state (`step_flows`, `Server.Sound.step`).
-/

namespace Traccoon

open HandOff

variable {c : Config}

/-- What holds where the main thread stands: its index is one of the queue, and the threads that it has joined have returned. -/
def MainOk (s : Server c) : Prop :=
  match s.main with
  | .look i | .clearThread i | .accept i | .test i | .reset i | .assign i => i < c.queuesize
  | .stop j | .join j => ∀ w, w.1 < j → (s.workers w).pc = .terminated
  | .sweep _ | .done => ∀ w, (s.workers w).pc = .terminated
  | .loop | .clock => True

/-- What holds of a worker: no entry of its buffer is the mark of a failure, its index is one of the queue where it writes there, and
on its way out it has freed the buffer. -/
def WorkerOk (c : Config) (wk : Worker) : Prop :=
  (∀ x ∈ wk.clients, x.socket ≠ .failed) ∧
  match wk.pc with
  | .copy i _ | .freeThread i _ | .freeSocket i _ => i < c.queuesize
  | .dispose i | .clearThread i | .clearSocket i => i < c.queuesize ∧ wk.clients = []
  | .release _ | .terminated => wk.clients = []
  | _ => True

/-- The states of a run. -/
structure Server.Sound (s : Server c) : Prop where
  slots : ∀ j, (s.slot j).Sound
  main : MainOk s
  workers : ∀ w, WorkerOk c (s.workers w)

/-- The connections in a worker's buffer that it has not closed. -/
def Server.buffer (s : Server c) (w : Fin c.workerthreads) : Multiset Conn := socketsIn (s.workers w).unclosed

/-- The slots that the sweep at the end has ahead. -/
def Server.unswept (s : Server c) : Finset Nat :=
  match s.main with
  | .sweep i => Finset.Ico i c.queuesize
  | .done => ∅
  | _ => Finset.range c.queuesize

/-- What a step does with a connection: none of it, accepting it into slot `i`, copying it from slot `i` to the buffer of `w`, closing
it in slot `i`, closing it in the buffer of `w`, or looking at what slot `i` holds at the end. -/
inductive Flow (c : Config) where
  | quiet
  | accepts (i : Nat) (x : Conn)
  | copies (i : Nat) (w : Fin c.workerthreads) (x : Conn)
  | disposes (i : Nat) (x : Conn)
  | frees (w : Fin c.workerthreads) (x : Conn)
  | sweeps (i : Nat) (x : Socket)

namespace Flow

/-- What happens at slot `j`. -/
def label (j : Nat) : Flow c → Label Conn
  | .accepts i x => if j = i then .put x else .silent
  | .copies i _ x | .disposes i x => if j = i then .take x else .silent
  | _ => .silent

/-- The slot that is put into, taken from or looked at. -/
def site : Flow c → Option Nat
  | .accepts i _ | .copies i _ _ | .disposes i _ | .sweeps i _ => some i
  | _ => none

/-- The connections that come into a worker's buffer. -/
def copied (v : Fin c.workerthreads) : Flow c → Multiset Conn
  | .copies _ w x => if v = w then {x} else 0
  | _ => 0

/-- The connections that leave a worker's buffer. -/
def freed (v : Fin c.workerthreads) : Flow c → Multiset Conn
  | .frees w x => if v = w then {x} else 0
  | _ => 0

/-- What is added to the records. -/
def accepted : Flow c → List Conn
  | .accepts _ x => [x]
  | _ => []

def copyLog : Flow c → List (Fin c.workerthreads × Socket)
  | .copies _ w x => [(w, .item x)]
  | _ => []

def closed : Flow c → List Socket
  | .disposes _ x | .frees _ x => [.item x]
  | .sweeps _ x => if x = .empty then [] else [x]
  | _ => []

end Flow

/-- A step from `s` to `s'` has this flow. -/
structure Server.Flows (s s' : Server c) (f : Flow c) : Prop where
  slot : ∀ j, (s.slot j).Moves (f.label j) (s'.slot j)
  ahead : ∀ i ∈ f.site, i ∈ s.unswept
  buffer : ∀ v, s'.buffer v + f.freed v = s.buffer v + f.copied v
  accepted : s'.accepted = s.accepted ++ f.accepted
  serial : ∀ x ∈ f.accepted, x.serial = s.accepted.length
  copies : s'.copies = s.copies ++ f.copyLog
  closed : s'.closed = s.closed ++ f.closed
  unswept : match f with
    | .sweeps i x => s.main = .sweep i ∧ s'.main = .sweep (i + 1) ∧ (s.queue i).socket = x
    | _ => s'.unswept = s.unswept

/-! ## Buffers -/

@[simp] theorem socketsIn_nil : socketsIn [] = 0 := rfl

@[simp] theorem socketsIn_cons (x : ClientData) (xs : List ClientData) : socketsIn (x :: xs) = x.socket.items + socketsIn xs := by
  simp [socketsIn]

@[simp] theorem socketsIn_append (xs ys : List ClientData) : socketsIn (xs ++ ys) = socketsIn xs + socketsIn ys := by
  simp [socketsIn]

/-- New entries hold no connection. -/
theorem socketsIn_expand (clients : List ClientData) (n : Nat) : socketsIn (expand clients n) = socketsIn clients := by
  have h : ∀ m, socketsIn (List.replicate m .zero) = 0 := by
    intro m
    induction m with
    | zero => rfl
    | succ m ih =>
      rw [List.replicate_succ, socketsIn_cons, ih]
      rfl
  rw [expand, socketsIn_append, h, add_zero]

theorem socketsIn_tallyClients (clients : List ClientData) : socketsIn (tallyClients clients) = socketsIn clients := by
  induction clients with
  | nil => rfl
  | cons x xs ih =>
    rw [tallyClients, List.map_cons, socketsIn_cons, socketsIn_cons, ← tallyClients, ih]
    split <;> rfl

/-- The entry at an index, and the others. -/
theorem socketsIn_split {clients : List ClientData} {k : Nat} {x : ClientData} (h : clients[k]? = some x) :
    socketsIn clients = socketsIn (clients.take k) + (x.socket.items + socketsIn (clients.drop (k + 1))) := by
  obtain ⟨hk, rfl⟩ := List.getElem?_eq_some_iff.1 h
  rw [← socketsIn_cons, ← socketsIn_append, ← List.drop_eq_getElem_cons hk, List.take_append_drop]

theorem socketsIn_set {clients : List ClientData} {k : Nat} {x y : ClientData} (h : clients[k]? = some x) (hy : y.socket.items = 0) :
    socketsIn clients = socketsIn (clients.set k y) + x.socket.items := by
  obtain ⟨hk, -⟩ := List.getElem?_eq_some_iff.1 h
  rw [socketsIn_split h, List.set_eq_take_append_cons_drop, if_pos hk, socketsIn_append, socketsIn_cons, hy, zero_add, add_assoc,
    add_comm x.socket.items]

/-- A client goes where no connection was. -/
theorem socketsIn_insertClient (clients : List ClientData) (k : Nat) (x : ClientData) :
    socketsIn (insertClient clients (freeIndex clients k) x) = socketsIn clients + x.socket.items := by
  rw [insertClient, socketsIn_append, socketsIn_cons]
  cases h : clients[freeIndex clients k]? with
  | none =>
    have hle := List.getElem?_eq_none_iff.1 h
    rw [List.take_of_length_le hle, List.drop_of_length_le (by omega), socketsIn_nil, add_zero]
  | some y =>
    have hfree : socketValue y.socket = 0 := by
      rw [freeIndex, ← List.getElem?_drop] at h
      obtain ⟨hlt, rfl⟩ := List.getElem?_eq_some_iff.1 h
      simpa using List.findIdx_getElem (w := hlt)
    rw [socketsIn_split h, socketValue_eq_zero.1 hfree, items_empty, zero_add, add_assoc, add_comm x.socket.items]

/-! ## The flow of a step -/

section

variable {s s' : Server c}

/-- A step that changes no slot, no buffer and no record. -/
theorem flows_quiet (slot : ∀ j, (s.slot j).Moves .silent (s'.slot j)) (buffer : ∀ v, s'.buffer v = s.buffer v)
    (logs : s'.accepted = s.accepted ∧ s'.copies = s.copies ∧ s'.closed = s.closed) (unswept : s'.unswept = s.unswept) :
    s.Flows s' .quiet :=
  { slot := slot
    ahead := fun _ hi => by cases hi
    buffer := fun v => by rw [buffer v]; rfl
    accepted := by rw [logs.1]; exact (List.append_nil _).symm
    serial := fun _ hx => by cases hx
    copies := by rw [logs.2.1]; exact (List.append_nil _).symm
    closed := by rw [logs.2.2]; exact (List.append_nil _).symm
    unswept := unswept }

theorem buffer_setWorker (s : Server c) (w v : Fin c.workerthreads) (wk : Worker) :
    (s.setWorker w wk).buffer v = if v = w then socketsIn wk.unclosed else s.buffer v := by
  unfold Server.buffer Server.setWorker
  by_cases h : v = w
  · subst h
    simp
  · simp [h]

/-- A worker whose buffer holds what it held. -/
theorem buffer_setWorker_same {w : Fin c.workerthreads} {wk : Worker} (h : socketsIn wk.unclosed = s.buffer w)
    (v : Fin c.workerthreads) : (s.setWorker w wk).buffer v = s.buffer v := by
  rw [buffer_setWorker, h]
  by_cases hv : v = w
  · rw [if_pos hv, hv]
  · rw [if_neg hv]

/-- A step of a worker by itself. -/
theorem flows_worker {w : Fin c.workerthreads} {wk : Worker} (site : wk.pc.site = (s.workers w).pc.site)
    (buffer : socketsIn wk.unclosed = s.buffer w) : s.Flows (s.setWorker w wk) .quiet :=
  flows_quiet (moves_same fun j => slot_setWorker_same s j (by rw [site])) (buffer_setWorker_same buffer) ⟨rfl, rfl, rfl⟩ rfl

/-- A worker closes a connection that was in its buffer. -/
theorem flows_frees {w : Fin c.workerthreads} {wk : Worker} {x : Conn} (site : wk.pc.site = (s.workers w).pc.site)
    (buffer : s.buffer w = socketsIn wk.unclosed + {x}) : s.Flows ((s.close (.item x)).setWorker w wk) (.frees w x) :=
  { slot := moves_same fun j => slot_setWorker_same (s.close (.item x)) j (by rw [site]; rfl)
    ahead := fun _ hi => by cases hi
    buffer := by
      intro v
      rw [buffer_setWorker]
      by_cases hv : v = w
      · subst hv
        simp only [Flow.freed, Flow.copied, if_true, add_zero]
        exact buffer.symm
      · simp only [Flow.freed, Flow.copied, if_neg hv, add_zero]
        rfl
    accepted := (List.append_nil _).symm
    serial := fun _ hy => by cases hy
    copies := (List.append_nil _).symm
    closed := rfl
    unswept := rfl }

/-- A worker that writes to slot `i`, or starts or ends its stay there, leaves the other slots alone. -/
theorem slot_of_onlyAt {s₀ : Server c} {w : Fin c.workerthreads} {wk : Worker} {i : Nat}
    (h₀ : ∀ j, j ≠ i → s₀.slot j = s.slot j) (hw : s₀.workers = s.workers) (old : OnlyAt i (s.workers w).pc.site)
    (new : OnlyAt i wk.pc.site) : ∀ j, j ≠ i → (s₀.setWorker w wk).slot j = s.slot j := by
  intro j hj
  rw [slot_setWorker_same s₀ j (by rw [hw, old j hj, new j hj]), h₀ j hj]

/-- A worker's step at slot `i` that passes no connection on. -/
theorem flows_site {s₀ : Server c} {w : Fin c.workerthreads} {wk : Worker} (i : Nat)
    (step : (s.slot i).Step .silent ((s₀.setWorker w wk).slot i)) (h₀ : ∀ j, j ≠ i → s₀.slot j = s.slot j)
    (hw : s₀.workers = s.workers) (old : OnlyAt i (s.workers w).pc.site) (new : OnlyAt i wk.pc.site)
    (buffer : socketsIn wk.unclosed = s.buffer w)
    (rest : s₀.accepted = s.accepted ∧ s₀.copies = s.copies ∧ s₀.closed = s.closed ∧ s₀.main = s.main) :
    s.Flows (s₀.setWorker w wk) .quiet := by
  obtain ⟨haccepted, hcopies, hclosed, hmain⟩ := rest
  refine flows_quiet (moves_silent_at step (slot_of_onlyAt h₀ hw old new)) ?_ ⟨haccepted, hcopies, hclosed⟩ ?_
  · intro v
    have hv : s₀.buffer v = s.buffer v := by rw [Server.buffer, Server.buffer, hw]
    rw [buffer_setWorker_same (by rw [buffer, Server.buffer, Server.buffer, hw]), hv]
  · simp only [Server.unswept, Server.setWorker, hmain]

/-- Where a worker is about to take what slot `i` holds, it holds a connection. -/
theorem socket_of_holding (hs : s.Sound) {w : Fin c.workerthreads} {i : Nat} {t : Taking}
    (h : (s.workers w).pc.site = some (i, t)) : ∃ x, (s.queue i).socket = .item x :=
  (hs.slots i).content_of_taker (taker_of_site s h)

/-- An entry of a buffer that is not free holds a connection. -/
theorem socket_of_entry {x : Socket} (hf : x ≠ .failed) (h0 : socketValue x ≠ 0) : ∃ conn, x = .item conn := by
  cases x with
  | empty => exact absurd rfl h0
  | failed => exact absurd rfl hf
  | item conn => exact ⟨conn, rfl⟩

section

variable {w : Fin c.workerthreads} {wk : Worker} {i : Nat}

/-- A worker reads its own number in a slot. -/
theorem flows_claim (ht : (s.queue i).thread = tid w) (old : (s.workers w).pc.site = none) (new : wk.pc.site = some (i, .holding))
    (buffer : socketsIn wk.unclosed = s.buffer w) : s.Flows (s.setWorker w wk) .quiet := by
  refine flows_site i ?_ (fun _ _ => rfl) rfl (old ▸ onlyAt_none i) (new ▸ onlyAt_some i _) buffer ⟨rfl, rfl, rfl, rfl⟩
  rw [slot_setWorker, new, standing_self]
  exact .claim (taker_of_no_site s i old) (by simp only [Server.slot, ht, ownerOf_tid])

/-- A worker that has the connection withdraws its number. -/
theorem flows_withdraw (old : (s.workers w).pc.site = some (i, .spent)) (new : wk.pc.site = some (i, .cleared))
    (buffer : socketsIn wk.unclosed = s.buffer w) : s.Flows ((s.setThread i 0).setWorker w wk) .quiet := by
  refine flows_site i ?_ (fun j hj => slot_setThread_of_ne s hj 0) rfl (old ▸ onlyAt_some i _) (new ▸ onlyAt_some i _) buffer
    ⟨rfl, rfl, rfl, rfl⟩
  rw [slot_setWorker, slot_setThread, if_pos rfl, ownerOf_zero, new, standing_self]
  exact .withdraw (taker_of_site s old)

/-- It empties the slot last. -/
theorem flows_vacate (old : (s.workers w).pc.site = some (i, .cleared)) (new : wk.pc.site = none)
    (buffer : socketsIn wk.unclosed = s.buffer w) : s.Flows ((s.setSocket i .empty).setWorker w wk) .quiet := by
  refine flows_site i ?_ (fun j hj => slot_setSocket_of_ne s hj .empty) rfl (old ▸ onlyAt_some i _) (new ▸ onlyAt_none i) buffer
    ⟨rfl, rfl, rfl, rfl⟩
  rw [slot_setWorker, slot_setSocket, if_pos rfl, new, standing_none]
  exact .vacate (taker_of_site s old)

/-- A worker that is on its way out names another. -/
theorem flows_pass (t : Int) (old : (s.workers w).pc.site = some (i, .holding)) (new : wk.pc.site = none)
    (buffer : socketsIn wk.unclosed = s.buffer w) : s.Flows ((s.setThread i t).setWorker w wk) .quiet := by
  refine flows_site i ?_ (fun j hj => slot_setThread_of_ne s hj t) rfl (old ▸ onlyAt_some i _) (new ▸ onlyAt_none i) buffer
    ⟨rfl, rfl, rfl, rfl⟩
  rw [slot_setWorker, slot_setThread, if_pos rfl, new, standing_none]
  exact .pass (taker_of_site s old) (ownerOf t)

/-- A worker takes what a slot holds: the step of the protocol, and what happens at the other slots. -/
theorem moves_take {x : Conn} (hx : (s.queue i).socket = .item x) (old : (s.workers w).pc.site = some (i, .holding))
    (new : wk.pc.site = some (i, .spent)) (j : Nat) :
    (s.slot j).Moves (if j = i then .take x else .silent) ((s.setWorker w wk).slot j) := by
  refine moves_at ?_ (slot_of_onlyAt (fun _ _ => rfl) rfl (old ▸ onlyAt_some i _) (new ▸ onlyAt_some i _)) j
  rw [slot_setWorker, new, standing_self]
  exact .take (taker_of_site s old) hx

/-- A worker copies a client from slot `i`. -/
theorem flows_copies {x : Conn} (hx : (s.queue i).socket = .item x) (hi : i ∈ s.unswept)
    (old : (s.workers w).pc.site = some (i, .holding)) (new : wk.pc.site = some (i, .spent))
    (buffer : socketsIn wk.unclosed = s.buffer w + {x}) :
    s.Flows { s.setWorker w wk with copies := s.copies ++ [(w, (s.queue i).socket)] } (.copies i w x) :=
  { slot := moves_take hx old new
    ahead := fun _ h => Option.some.inj h ▸ hi
    buffer := by
      intro v
      refine (add_zero _).trans ((buffer_setWorker s w v wk).trans ?_)
      simp only [Flow.copied]
      by_cases hv : v = w
      · rw [if_pos hv, if_pos hv, buffer, hv]
      · rw [if_neg hv, if_neg hv, add_zero]
    accepted := (List.append_nil _).symm
    serial := fun _ hy => by cases hy
    copies := by rw [hx]; rfl
    closed := (List.append_nil _).symm
    unswept := rfl }

/-- A worker closes the connection in slot `i`. -/
theorem flows_disposes {x : Conn} (hx : (s.queue i).socket = .item x) (hi : i ∈ s.unswept)
    (old : (s.workers w).pc.site = some (i, .holding)) (new : wk.pc.site = some (i, .spent))
    (buffer : socketsIn wk.unclosed = s.buffer w) : s.Flows ((s.close (.item x)).setWorker w wk) (.disposes i x) :=
  { slot := moves_take (s := s.close (.item x)) hx old new
    ahead := fun _ h => Option.some.inj h ▸ hi
    buffer := fun v => congrArg (· + 0) (buffer_setWorker_same (s := s.close (.item x)) buffer v)
    accepted := (List.append_nil _).symm
    serial := fun _ hy => by cases hy
    copies := (List.append_nil _).symm
    closed := rfl
    unswept := rfl }

end

/-- While a worker is at work the sweep has not begun. -/
theorem unswept_of_worker (hs : s.Sound) {w : Fin c.workerthreads} (h : (s.workers w).pc ≠ .terminated) :
    s.unswept = Finset.range c.queuesize := by
  have hok := hs.main
  unfold MainOk at hok
  unfold Server.unswept
  split
  · rename_i hm
    rw [hm] at hok
    exact absurd (hok w) h
  · rename_i hm
    rw [hm] at hok
    exact absurd (hok w) h
  · rfl

/-- Every step of a worker has a flow. -/
theorem workerStep_flows (hs : s.Sound) (w : Fin c.workerthreads) (e : Answers) : ∃ f, s.Flows (workerStep w e s) f := by
  have hok := hs.workers w
  have hbuf : s.buffer w = socketsIn (s.workers w).unclosed := rfl
  unfold Worker.unclosed at hbuf
  cases hpc : (s.workers w).pc with
  | loop =>
    rw [hpc] at hbuf
    simp only [workerStep, hpc]
    refine ⟨.quiet, flows_worker ?_ ?_⟩
    · rw [hpc]
      split <;> rfl
    · rw [hbuf]
      split <;> rfl
  | count i n =>
    rw [hpc] at hbuf
    simp only [workerStep, hpc]
    split
    · exact ⟨.quiet, flows_worker (by rw [hpc]; rfl) hbuf.symm⟩
    · exact ⟨.quiet, flows_worker (by rw [hpc]; rfl) (by rw [hbuf]; exact socketsIn_expand _ _)⟩
  | scan i k =>
    have hsite : (s.workers w).pc.site = none := by rw [hpc]; rfl
    rw [hpc] at hbuf
    simp only [workerStep, hpc]
    split
    · split
      · rename_i ht
        exact ⟨.quiet, flows_claim ht hsite rfl hbuf.symm⟩
      · exact ⟨.quiet, flows_worker (by rw [hpc]; rfl) hbuf.symm⟩
    · exact ⟨.quiet, flows_worker (by rw [hpc]; rfl) hbuf.symm⟩
  | copy i k =>
    have hsite : (s.workers w).pc.site = some (i, .holding) := by rw [hpc]; rfl
    obtain ⟨x, hx⟩ := socket_of_holding hs hsite
    have hi := hok.2
    rw [hpc] at hbuf hi
    have hahead : i ∈ s.unswept := by
      rw [unswept_of_worker hs (w := w) (by rw [hpc]; simp)]
      exact Finset.mem_range.2 hi
    simp only [workerStep, hpc]
    refine ⟨.copies i w x, flows_copies hx hahead hsite rfl ?_⟩
    rw [hbuf]
    exact (socketsIn_insertClient _ _ _).trans (by rw [hx, items_item])
  | freeThread i k =>
    have hsite : (s.workers w).pc.site = some (i, .spent) := by rw [hpc]; rfl
    rw [hpc] at hbuf
    simp only [workerStep, hpc]
    exact ⟨.quiet, flows_withdraw hsite rfl hbuf.symm⟩
  | freeSocket i k =>
    have hsite : (s.workers w).pc.site = some (i, .cleared) := by rw [hpc]; rfl
    rw [hpc] at hbuf
    simp only [workerStep, hpc]
    exact ⟨.quiet, flows_vacate hsite rfl hbuf.symm⟩
  | tally =>
    rw [hpc] at hbuf
    simp only [workerStep, hpc]
    exact ⟨.quiet, flows_worker (by rw [hpc]; rfl) (by rw [hbuf]; exact socketsIn_tallyClients _)⟩
  | serve k =>
    rw [hpc] at hbuf
    simp only [workerStep, hpc]
    split
    · rename_i y hk
      split
      · rename_i hfin
        have h0 : socketValue y.socket ≠ 0 := by
          rw [finished, Bool.and_eq_true, bne_iff_ne] at hfin
          exact hfin.1
        obtain ⟨x, hx⟩ := socket_of_entry (hok.1 y (List.mem_of_getElem? hk)) h0
        rw [hx]
        refine ⟨.frees w x, flows_frees (by rw [hpc]; rfl) ?_⟩
        rw [hbuf]
        exact (socketsIn_set hk rfl).trans (by rw [hx]; rfl)
      · exact ⟨.quiet, flows_worker (by rw [hpc]; rfl) hbuf.symm⟩
    · exact ⟨.quiet, flows_worker (by rw [hpc]; rfl) hbuf.symm⟩
  | leave =>
    rw [hpc] at hbuf
    simp only [workerStep, hpc]
    split
    · exact ⟨.quiet, flows_quiet (moves_same fun _ => rfl) (fun _ => rfl) ⟨rfl, rfl, rfl⟩ rfl⟩
    · exact ⟨.quiet, flows_worker (by rw [hpc]; rfl) hbuf.symm⟩
  | closeBuffer k =>
    replace hbuf : s.buffer w = socketsIn ((s.workers w).clients.drop k) := by rw [hbuf, hpc]
    simp only [workerStep, hpc]
    split
    · rename_i y hk
      obtain ⟨hlt, hy⟩ := List.getElem?_eq_some_iff.1 hk
      rw [List.drop_eq_getElem_cons hlt, socketsIn_cons, hy] at hbuf
      split
      · rename_i h0
        obtain ⟨x, hx⟩ := socket_of_entry (hok.1 y (List.mem_of_getElem? hk)) h0
        rw [hx] at hbuf ⊢
        exact ⟨.frees w x, flows_frees (by rw [hpc]; rfl) (hbuf.trans (add_comm _ _))⟩
      · rename_i h0
        rw [not_not, socketValue_eq_zero] at h0
        rw [h0, items_empty, zero_add] at hbuf
        exact ⟨.quiet, flows_worker (by rw [hpc]; rfl) hbuf.symm⟩
    · rename_i hk
      rw [List.drop_eq_nil_of_le (List.getElem?_eq_none_iff.1 hk)] at hbuf
      exact ⟨.quiet, flows_worker (by rw [hpc]; rfl) hbuf.symm⟩
  | release i =>
    have hsite : (s.workers w).pc.site = none := by rw [hpc]; rfl
    rw [hpc] at hbuf
    simp only [workerStep, hpc]
    split
    · split
      · rename_i ht
        exact ⟨.quiet, flows_claim ht hsite rfl hbuf.symm⟩
      · exact ⟨.quiet, flows_worker (by rw [hpc]; rfl) hbuf.symm⟩
    · exact ⟨.quiet, flows_worker (by rw [hpc]; rfl) hbuf.symm⟩
  | dispose i =>
    have hsite : (s.workers w).pc.site = some (i, .holding) := by rw [hpc]; rfl
    obtain ⟨x, hx⟩ := socket_of_holding hs hsite
    have hi := hok.2
    rw [hpc] at hbuf hi
    have hahead : i ∈ s.unswept := by
      rw [unswept_of_worker hs (w := w) (by rw [hpc]; simp)]
      exact Finset.mem_range.2 hi.1
    simp only [workerStep, hpc]
    split
    · rw [hx]
      exact ⟨.disposes i x, flows_disposes hx hahead hsite rfl hbuf.symm⟩
    · exact ⟨.quiet, flows_pass e.laziest hsite rfl hbuf.symm⟩
  | clearThread i =>
    have hsite : (s.workers w).pc.site = some (i, .spent) := by rw [hpc]; rfl
    rw [hpc] at hbuf
    simp only [workerStep, hpc]
    exact ⟨.quiet, flows_withdraw hsite rfl hbuf.symm⟩
  | clearSocket i =>
    have hsite : (s.workers w).pc.site = some (i, .cleared) := by rw [hpc]; rfl
    rw [hpc] at hbuf
    simp only [workerStep, hpc]
    exact ⟨.quiet, flows_vacate hsite rfl hbuf.symm⟩
  | terminated =>
    simp only [workerStep, hpc]
    exact ⟨.quiet, flows_quiet (moves_same fun _ => rfl) (fun _ => rfl) ⟨rfl, rfl, rfl⟩ rfl⟩

/-! ### The main thread -/

/-- A step of the main thread away from the slots. -/
theorem flows_main (slot : ∀ j, s'.slot j = s.slot j) (workers : s'.workers = s.workers)
    (logs : s'.accepted = s.accepted ∧ s'.copies = s.copies ∧ s'.closed = s.closed) (unswept : s'.unswept = s.unswept) :
    s.Flows s' .quiet :=
  flows_quiet (moves_same slot) (fun v => by rw [Server.buffer, Server.buffer, workers]) logs unswept

/-- A step of the main thread at slot `i`: the step of the protocol, and what happens at the other slots. -/
theorem moves_main {s₀ : Server c} {pc : MainPc} {i : Nat} {l : Label Conn} (step : (s.slot i).Step l ((s₀.setMain pc).slot i))
    (h₀ : ∀ j, j ≠ i → s₀.slot j = s.slot j) (hm : s₀.main = s.main) (old : OnlyAt i s.main.site) (new : OnlyAt i pc.site) (j : Nat) :
    (s.slot j).Moves (if j = i then l else .silent) ((s₀.setMain pc).slot j) := by
  refine moves_at step ?_ j
  intro j hj
  rw [slot_setMain_same s₀ j (by rw [hm, old j hj, new j hj]), h₀ j hj]

/-- The same for a step that passes no connection on. -/
theorem flows_main_site {s₀ : Server c} {pc : MainPc} (i : Nat) (step : (s.slot i).Step .silent ((s₀.setMain pc).slot i))
    (h₀ : ∀ j, j ≠ i → s₀.slot j = s.slot j) (old : OnlyAt i s.main.site) (new : OnlyAt i pc.site)
    (rest : s₀.main = s.main ∧ s₀.workers = s.workers ∧ s₀.accepted = s.accepted ∧ s₀.copies = s.copies ∧ s₀.closed = s.closed)
    (unswept : (s₀.setMain pc).unswept = s.unswept) : s.Flows (s₀.setMain pc) .quiet := by
  obtain ⟨hmain, hworkers, haccepted, hcopies, hclosed⟩ := rest
  refine flows_quiet ?_ (fun v => ?_) ⟨haccepted, hcopies, hclosed⟩ unswept
  · intro j
    have h := moves_main step h₀ hmain old new j
    rwa [ite_self] at h
  · show s₀.buffer v = s.buffer v
    rw [Server.buffer, Server.buffer, hworkers]

/-- Before the sweep all slots are ahead. -/
theorem unswept_of_eq {pc : MainPc} (h : s.main = pc) (hpc : ∀ i, pc ≠ .sweep i) (hd : pc ≠ .done) :
    s.unswept = Finset.range c.queuesize := by
  unfold Server.unswept
  rw [h]
  split
  · exact absurd rfl (hpc _)
  · exact absurd rfl hd
  · rfl

/-- Every step of the main thread has a flow. -/
theorem mainStep_flows (hs : s.Sound) (e : Answers) : ∃ f, s.Flows (mainStep e s) f := by
  have hok := hs.main
  unfold MainOk at hok
  cases hpc : s.main with
  | loop =>
    have hun := unswept_of_eq hpc (by simp) (by simp)
    simp only [mainStep, hpc]
    split
    · exact ⟨.quiet, flows_main (fun j => slot_setMain_same s j (by rw [hpc]; rfl)) rfl ⟨rfl, rfl, rfl⟩ hun.symm⟩
    · exact ⟨.quiet, flows_main (fun j => slot_setMain_same s j (by rw [hpc]; rfl)) rfl ⟨rfl, rfl, rfl⟩ hun.symm⟩
  | look i =>
    have hun := unswept_of_eq hpc (by simp) (by simp)
    have hsite : s.main.site = none := by rw [hpc]; rfl
    simp only [mainStep, hpc]
    split
    · rename_i h0
      refine ⟨.quiet, flows_main_site i ?_ (fun _ _ => rfl) (hsite ▸ onlyAt_none i) (onlyAt_some i _) ⟨rfl, rfl, rfl, rfl, rfl⟩
        hun.symm⟩
      rw [slot_setMain, MainPc.site, standing_self]
      exact .look (giver_of_no_site s i hsite) (socketValue_eq_zero.1 h0)
    · exact ⟨.quiet, flows_main (fun j => slot_setMain_same s j (by rw [hpc]; rfl)) rfl ⟨rfl, rfl, rfl⟩ hun.symm⟩
  | clearThread i =>
    have hun := unswept_of_eq hpc (by simp) (by simp)
    have hsite : s.main.site = some (i, .clearing) := by rw [hpc]; rfl
    simp only [mainStep, hpc]
    refine ⟨.quiet, flows_main_site i ?_ (fun j hj => slot_setThread_of_ne s hj 0) (hsite ▸ onlyAt_some i _) (onlyAt_some i _)
      ⟨rfl, rfl, rfl, rfl, rfl⟩ hun.symm⟩
    rw [slot_setMain, slot_setThread, if_pos rfl, ownerOf_zero, MainPc.site, standing_self]
    exact .clear (giver_of_site s hsite)
  | accept i =>
    have hun := unswept_of_eq hpc (by simp) (by simp)
    have hsite : s.main.site = some (i, .filling) := by rw [hpc]; rfl
    rw [hpc] at hok
    simp only [mainStep, hpc]
    split
    · rename_i fd _
      refine ⟨.accepts i (s.nextConn fd), ?_⟩
      have hstep : (s.slot i).Step (.put (s.nextConn fd))
          (((s.setSocket i (.item (s.nextConn fd))).setMain (.test i)).slot i) := by
        rw [slot_setMain, slot_setSocket, if_pos rfl, MainPc.site, standing_self]
        exact .fill (giver_of_site s hsite) _
      have hmoves := moves_main hstep (fun j hj => slot_setSocket_of_ne s hj _) rfl (hsite ▸ onlyAt_some i _) (onlyAt_some i _)
      exact
        { slot := hmoves
          ahead := fun _ h => Option.some.inj h ▸ hun ▸ Finset.mem_range.2 hok
          buffer := fun v => rfl
          accepted := rfl
          serial := fun x hx => by rw [List.mem_singleton.1 hx]; rfl
          copies := (List.append_nil _).symm
          closed := (List.append_nil _).symm
          unswept := hun.symm }
    · refine ⟨.quiet, flows_main_site i ?_ (fun j hj => slot_setSocket_of_ne s hj _) (hsite ▸ onlyAt_some i _) (onlyAt_some i _)
        ⟨rfl, rfl, rfl, rfl, rfl⟩ hun.symm⟩
      rw [slot_setMain, slot_setSocket, if_pos rfl, MainPc.site, standing_self]
      exact .fail (giver_of_site s hsite)
  | test i =>
    have hun := unswept_of_eq hpc (by simp) (by simp)
    have hsite : s.main.site = some (i, .testing) := by rw [hpc]; rfl
    simp only [mainStep, hpc]
    split
    · rename_i h0
      refine ⟨.quiet, flows_main_site i ?_ (fun _ _ => rfl) (hsite ▸ onlyAt_some i _) (onlyAt_some i _) ⟨rfl, rfl, rfl, rfl, rfl⟩
        hun.symm⟩
      rw [slot_setMain, MainPc.site, standing_self]
      exact .seeFailed (giver_of_site s hsite) (socketValue_eq_neg_one.1 h0)
    · rename_i h0
      refine ⟨.quiet, flows_main_site i ?_ (fun _ _ => rfl) (hsite ▸ onlyAt_some i _) (onlyAt_some i _) ⟨rfl, rfl, rfl, rfl, rfl⟩
        hun.symm⟩
      rw [slot_setMain, MainPc.site, standing_self]
      exact .seeFilled (giver_of_site s hsite) (fun h => h0 (socketValue_eq_neg_one.2 h))
  | reset i =>
    have hun := unswept_of_eq hpc (by simp) (by simp)
    have hsite : s.main.site = some (i, .resetting) := by rw [hpc]; rfl
    simp only [mainStep, hpc]
    refine ⟨.quiet, flows_main_site i ?_ (fun j hj => slot_setSocket_of_ne s hj _) (hsite ▸ onlyAt_some i _) (onlyAt_none i)
      ⟨rfl, rfl, rfl, rfl, rfl⟩ hun.symm⟩
    rw [slot_setMain, slot_setSocket, if_pos rfl]
    exact .reset (giver_of_site s hsite)
  | assign i =>
    have hun := unswept_of_eq hpc (by simp) (by simp)
    have hsite : s.main.site = some (i, .naming) := by rw [hpc]; rfl
    simp only [mainStep, hpc]
    refine ⟨.quiet, flows_main_site i ?_ (fun j hj => slot_setThread_of_ne s hj _) (hsite ▸ onlyAt_some i _) (onlyAt_none i)
      ⟨rfl, rfl, rfl, rfl, rfl⟩ hun.symm⟩
    rw [slot_setMain, slot_setThread, if_pos rfl]
    exact .name (giver_of_site s hsite) _
  | clock =>
    have hun := unswept_of_eq hpc (by simp) (by simp)
    simp only [mainStep, hpc]
    exact ⟨.quiet, flows_main (fun j => slot_setMain_same s j (by rw [hpc]; rfl)) rfl ⟨rfl, rfl, rfl⟩ hun.symm⟩
  | stop j =>
    have hun := unswept_of_eq hpc (by simp) (by simp)
    simp only [mainStep, hpc]
    split
    · exact ⟨.quiet, flows_main (fun j => slot_setMain_same s j (by rw [hpc]; rfl)) rfl ⟨rfl, rfl, rfl⟩ hun.symm⟩
    · refine ⟨.quiet, flows_main (fun j => slot_setMain_same s j (by rw [hpc]; rfl)) rfl ⟨rfl, rfl, rfl⟩ ?_⟩
      rw [hun, Finset.range_eq_Ico]
      rfl
  | join j =>
    have hun := unswept_of_eq hpc (by simp) (by simp)
    simp only [mainStep, hpc]
    split
    · exact ⟨.quiet, flows_main (fun j => slot_setMain_same s j (by rw [hpc]; rfl)) rfl ⟨rfl, rfl, rfl⟩ hun.symm⟩
    · exact ⟨.quiet, flows_main (fun _ => rfl) rfl ⟨rfl, rfl, rfl⟩ rfl⟩
  | sweep i =>
    simp only [mainStep, hpc]
    split
    · rename_i hi
      refine ⟨.sweeps i (s.queue i).socket, ?_⟩
      have hclosed : (if socketValue (s.queue i).socket ≠ 0 then s.close (s.queue i).socket else s) =
          { s with closed := s.closed ++ Flow.closed (.sweeps i (s.queue i).socket : Flow c) } := by
        by_cases h0 : (s.queue i).socket = .empty
        · rw [if_neg (not_not.2 (socketValue_eq_zero.2 h0)), Flow.closed, if_pos h0, List.append_nil]
        · rw [if_pos (mt socketValue_eq_zero.1 h0), Flow.closed, if_neg h0]
          rfl
      rw [hclosed]
      exact
        { slot := moves_same fun j => slot_setMain_same _ j (by rw [hpc]; rfl)
          ahead := by
            intro _ h
            obtain rfl := Option.some.inj h
            simp only [Server.unswept, hpc]
            exact Finset.left_mem_Ico.2 hi
          buffer := fun v => rfl
          accepted := (List.append_nil _).symm
          serial := fun _ hx => by cases hx
          copies := (List.append_nil _).symm
          closed := rfl
          unswept := ⟨hpc, rfl, rfl⟩ }
    · rename_i hi
      refine ⟨.quiet, flows_main (fun j => slot_setMain_same s j (by rw [hpc]; rfl)) rfl ⟨rfl, rfl, rfl⟩ ?_⟩
      simp only [Server.unswept, hpc]
      exact (Finset.Ico_eq_empty hi).symm
  | done =>
    simp only [mainStep, hpc]
    exact ⟨.quiet, flows_main (fun _ => rfl) rfl ⟨rfl, rfl, rfl⟩ rfl⟩

/-! ## The states of a run -/

theorem mainStep_workers (e : Answers) : (mainStep e s).workers = s.workers := by
  unfold mainStep
  repeat' split
  all_goals rfl

theorem workerStep_frame (w : Fin c.workerthreads) (e : Answers) :
    (workerStep w e s).main = s.main ∧ ∀ v, v ≠ w → (workerStep w e s).workers v = s.workers v := by
  unfold workerStep
  simp only
  repeat' split
  all_goals exact ⟨rfl, fun v hv => by first | rfl | exact Function.update_of_ne hv _ _⟩

@[simp] theorem setWorker_self (s : Server c) (w : Fin c.workerthreads) (wk : Worker) : (s.setWorker w wk).workers w = wk :=
  Function.update_self ..

/-- A thread that has returned stays so. -/
theorem workerStep_terminated (w v : Fin c.workerthreads) (e : Answers) (h : (s.workers v).pc = .terminated) :
    ((workerStep w e s).workers v).pc = .terminated := by
  by_cases hv : v = w
  · subst hv
    simp only [workerStep, h]
  · rw [(workerStep_frame w e).2 v hv, h]

/-- What holds where the main thread stands still holds when more threads have returned. -/
theorem MainOk.mono (h : MainOk s) (hm : s'.main = s.main)
    (ht : ∀ v, (s.workers v).pc = .terminated → (s'.workers v).pc = .terminated) : MainOk s' := by
  unfold MainOk at h ⊢
  rw [hm]
  cases hpc : s.main with
  | look i | clearThread i | accept i | test i | reset i | assign i =>
    rw [hpc] at h
    exact h
  | stop j | join j =>
    rw [hpc] at h
    exact fun v hv => ht v (h v hv)
  | sweep i | done =>
    rw [hpc] at h
    exact fun v => ht v (h v)
  | loop | clock => trivial

theorem MainOk.mainStep (h : MainOk s) (e : Answers) : MainOk (mainStep e s) := by
  unfold MainOk at h
  cases hpc : s.main with
  | loop =>
    simp only [Traccoon.mainStep, hpc]
    split
    · exact fun v hv => absurd hv (Nat.not_lt_zero _)
    · exact c.pos
  | look i =>
    rw [hpc] at h
    simp only [Traccoon.mainStep, hpc]
    split
    · exact h
    · exact Nat.mod_lt _ c.pos
  | clearThread i =>
    rw [hpc] at h
    simp only [Traccoon.mainStep, hpc]
    exact h
  | accept i =>
    rw [hpc] at h
    simp only [Traccoon.mainStep, hpc]
    split
    · exact h
    · exact h
  | test i =>
    rw [hpc] at h
    simp only [Traccoon.mainStep, hpc]
    split
    · exact h
    · exact h
  | reset i | assign i | clock =>
    simp only [Traccoon.mainStep, hpc]
    trivial
  | stop j =>
    rw [hpc] at h
    simp only [Traccoon.mainStep, hpc]
    split
    · exact h
    · rename_i hj
      exact fun v => h v (by omega)
  | join j =>
    rw [hpc] at h
    simp only [Traccoon.mainStep, hpc]
    split
    · rename_i hj
      intro v hv
      rcases Nat.lt_succ_iff_lt_or_eq.1 hv with hv | hv
      · exact h v hv
      · exact of_decide_eq_true hj v hv
    · unfold MainOk
      rw [hpc]
      exact h
  | sweep i =>
    rw [hpc] at h
    simp only [Traccoon.mainStep, hpc]
    split
    · split
      · exact h
      · exact h
    · exact h
  | done =>
    simp only [Traccoon.mainStep, hpc]
    unfold MainOk
    rw [hpc] at h ⊢
    exact h

/-! ### The workers -/

theorem not_failed_insertClient {clients : List ClientData} (h : ∀ x ∈ clients, x.socket ≠ .failed) (k : Nat) {y : ClientData}
    (hy : y.socket ≠ .failed) : ∀ x ∈ insertClient clients k y, x.socket ≠ .failed := by
  intro x hx
  rcases List.mem_append.1 hx with hx | hx
  · exact h x (List.mem_of_mem_take hx)
  · rcases List.mem_cons.1 hx with rfl | hx
    · exact hy
    · exact h x (List.mem_of_mem_drop hx)

theorem not_failed_expand {clients : List ClientData} (h : ∀ x ∈ clients, x.socket ≠ .failed) (n : Nat) :
    ∀ x ∈ expand clients n, x.socket ≠ .failed := by
  intro x hx
  rcases List.mem_append.1 hx with hx | hx
  · exact h x hx
  · rw [List.eq_of_mem_replicate hx]
    simp [ClientData.zero]

theorem not_failed_tallyClients {clients : List ClientData} (h : ∀ x ∈ clients, x.socket ≠ .failed) :
    ∀ x ∈ tallyClients clients, x.socket ≠ .failed := by
  intro x hx
  obtain ⟨y, hy, rfl⟩ := List.mem_map.1 hx
  split
  · exact h y hy
  · exact h y hy

theorem not_failed_set {clients : List ClientData} (h : ∀ x ∈ clients, x.socket ≠ .failed) (k : Nat) {y : ClientData}
    (hy : y.socket ≠ .failed) : ∀ x ∈ clients.set k y, x.socket ≠ .failed := by
  intro x hx
  rcases List.mem_or_eq_of_mem_set hx with hx | rfl
  · exact h x hx
  · exact hy

/-- What a step of a worker makes of it. -/
theorem WorkerOk.step (hs : s.Sound) (w : Fin c.workerthreads) (e : Answers) : WorkerOk c ((workerStep w e s).workers w) := by
  obtain ⟨hclients, hpcok⟩ := hs.workers w
  cases hpc : (s.workers w).pc with
  | loop =>
    simp only [workerStep, hpc, setWorker_self]
    split
    · exact ⟨hclients, trivial⟩
    · exact ⟨hclients, trivial⟩
  | count i n =>
    simp only [workerStep, hpc]
    split
    · rw [setWorker_self]
      exact ⟨hclients, trivial⟩
    · rw [setWorker_self]
      exact ⟨not_failed_expand hclients n, trivial⟩
  | scan i k =>
    simp only [workerStep, hpc]
    split
    · rename_i hi
      split
      · rw [setWorker_self]
        exact ⟨hclients, hi⟩
      · rw [setWorker_self]
        exact ⟨hclients, trivial⟩
    · rw [setWorker_self]
      exact ⟨hclients, trivial⟩
  | copy i k =>
    obtain ⟨x, hx⟩ := socket_of_holding hs (w := w) (i := i) (t := .holding) (by rw [hpc]; rfl)
    rw [hpc] at hpcok
    simp only [workerStep, hpc, setWorker_self]
    exact ⟨not_failed_insertClient hclients _ (by simp [hx]), hpcok⟩
  | freeThread i k =>
    rw [hpc] at hpcok
    simp only [workerStep, hpc, setWorker_self]
    exact ⟨hclients, hpcok⟩
  | freeSocket i k =>
    simp only [workerStep, hpc, setWorker_self]
    exact ⟨hclients, trivial⟩
  | tally =>
    simp only [workerStep, hpc, setWorker_self]
    exact ⟨not_failed_tallyClients hclients, trivial⟩
  | serve k =>
    simp only [workerStep, hpc]
    split
    · split
      · rw [setWorker_self]
        exact ⟨not_failed_set hclients k (by simp), trivial⟩
      · rw [setWorker_self]
        exact ⟨hclients, trivial⟩
    · rw [setWorker_self]
      exact ⟨hclients, trivial⟩
  | leave =>
    simp only [workerStep, hpc]
    split
    · exact hs.workers w
    · rw [setWorker_self]
      exact ⟨hclients, trivial⟩
  | closeBuffer k =>
    simp only [workerStep, hpc]
    split
    · rw [setWorker_self]
      exact ⟨hclients, trivial⟩
    · rw [setWorker_self]
      exact ⟨fun _ hx => (by cases hx), rfl⟩
  | release i =>
    rw [hpc] at hpcok
    simp only [workerStep, hpc]
    split
    · rename_i hi
      split
      · rw [setWorker_self]
        exact ⟨hclients, hi, hpcok⟩
      · rw [setWorker_self]
        exact ⟨hclients, hpcok⟩
    · rw [setWorker_self]
      exact ⟨hclients, hpcok⟩
  | dispose i =>
    rw [hpc] at hpcok
    simp only [workerStep, hpc]
    split
    · rw [setWorker_self]
      exact ⟨hclients, hpcok⟩
    · rw [setWorker_self]
      exact ⟨hclients, hpcok.2⟩
  | clearThread i =>
    rw [hpc] at hpcok
    simp only [workerStep, hpc, setWorker_self]
    exact ⟨hclients, hpcok⟩
  | clearSocket i =>
    rw [hpc] at hpcok
    simp only [workerStep, hpc, setWorker_self]
    exact ⟨hclients, hpcok.2⟩
  | terminated =>
    simp only [workerStep, hpc]
    exact hs.workers w

/-- Every step has a flow. -/
theorem step_flows (hs : s.Sound) (a : ServerAction c) : ∃ f, s.Flows (s.step a) f := by
  cases a with
  | main e => exact mainStep_flows hs e
  | worker w e => exact workerStep_flows hs w e
  | sigint => exact ⟨.quiet, flows_quiet (moves_same fun _ => rfl) (fun _ => rfl) ⟨rfl, rfl, rfl⟩ rfl⟩

/-- Every step leads from a state of a run to another. -/
theorem Server.Sound.step (hs : s.Sound) (a : ServerAction c) : (s.step a).Sound := by
  obtain ⟨f, hf⟩ := step_flows hs a
  have hslots : ∀ j, ((s.step a).slot j).Sound := fun j => ((hf.slot j).keeps (hs.slots j)).1
  cases a with
  | main e =>
    refine ⟨hslots, hs.main.mainStep e, fun v => ?_⟩
    show WorkerOk c ((mainStep e s).workers v)
    rw [mainStep_workers]
    exact hs.workers v
  | worker w e =>
    refine ⟨hslots, hs.main.mono (workerStep_frame w e).1 (fun v => workerStep_terminated w v e), fun v => ?_⟩
    by_cases hv : v = w
    · subst hv
      exact WorkerOk.step hs v e
    · show WorkerOk c ((workerStep w e s).workers v)
      rw [(workerStep_frame w e).2 v hv]
      exact hs.workers v
  | sigint => exact ⟨hslots, hs.main, hs.workers⟩

end

theorem sound_start (c : Config) : (Server.start c).Sound :=
  { slots := fun _ => .rest (fun _ => rfl) (by simp [Server.start, ClientData.zero])
    main := trivial
    workers := fun _ => ⟨fun _ hx => (by cases hx), trivial⟩ }

end Traccoon
