import Traccoon.CopyPhase

/-!
# No connection is lost on its way into the buffer

The slot cursor is never set back, and the expansion may be too small for what is met in the queue. What holds all the same is that a slot
is written only when it is free, and that it is taken from then on: so the slots written are distinct, and the cursor skips none of them
(`expandAndCopy_places`).
-/

namespace Traccoon

open HandOff

/-- The queue slots of this worker. -/
def ownSlots (tid : Int) (queue : List ClientData) : List ClientData := queue.filter fun x => x.thread == tid

/-- What becomes of a buffer, and of the queue, when the connections are copied into the buffer slots `slots`. -/
structure Places (tid : Int) (clients queue : List ClientData) (slots : List Nat) (b : ClientBuffer) (queue' : List ClientData) : Prop where
  /-- No two connections are copied to one slot. -/
  distinct : slots.Pairwise (· < ·)
  /-- The slots are in the buffer. -/
  inside : ∀ k ∈ slots, k < b.clients.length
  /-- They were free. -/
  free : ∀ k ∈ slots, ∀ x : ClientData, clients[k]? = some x → x.isActive = false
  /-- Each connection is in its slot. -/
  copied : slots.map (fun k => b.clients[k]?) = (ownSlots tid queue).map fun x => some { x with recvIter := 0 }
  /-- The clients that were there are unchanged. -/
  kept : ∀ (k : Nat) (x : ClientData), clients[k]? = some x → x.isActive = true → b.clients[k]? = some x
  /-- There are no others. -/
  others : ∀ (k : Nat) (x : ClientData), b.clients[k]? = some x → x.isActive = true → k ∉ slots → clients[k]? = some x
  /-- The clients are counted. -/
  active : b.clientsActive = b.clients.countP (·.isActive)
  /-- The queue slots of this worker are released, and the others are as they were. -/
  released : queue' = queue.map fun x => if x.thread = tid then releaseSlot x else x

namespace CopyPhaseAux

section Pass

variable {fresh : Nat → ClientData} {tid : Int} {clients queue : List ClientData} {b : ClientBuffer} {x : ClientData} {c : Nat}

theorem isActive_eq_false {x : ClientData} : x.isActive = false ↔ socketValue x.socket = 0 := by
  simp [ClientData.isActive]

/-! ### One connection -/

theorem le_freeIndex (clients : List ClientData) (c : Nat) : c ≤ freeIndex clients c := Nat.le_add_right _ _

theorem freeIndex_le (h : c ≤ clients.length) : freeIndex clients c ≤ clients.length := by
  have := @List.findIdx_le_length _ (fun x => socketValue x.socket == 0) (clients.drop c)
  rw [List.length_drop] at this
  unfold freeIndex
  omega

/-- The slot found is free. -/
theorem free_freeIndex (h : clients[freeIndex clients c]? = some x) : x.isActive = false := by
  rw [freeIndex, ← List.getElem?_drop] at h
  obtain ⟨hlt, rfl⟩ := List.getElem?_eq_some_iff.1 h
  rw [isActive_eq_false]
  simpa using List.findIdx_getElem (w := hlt)

theorem getElem?_insertClient (h : c ≤ clients.length) (k : Nat) :
    (insertClient clients c x)[k]? = if k = c then some x else clients[k]? := by
  have hlen : (clients.take c).length = c := List.length_take_of_le h
  unfold insertClient
  rcases Nat.lt_trichotomy k c with hlt | rfl | hgt
  · rw [List.getElem?_append_left (by omega), List.getElem?_take_of_lt hlt, if_neg (by omega)]
  · rw [List.getElem?_append_right (by omega), hlen, Nat.sub_self, List.getElem?_cons_zero, if_pos rfl]
  · obtain ⟨d, rfl⟩ := Nat.exists_eq_add_of_lt hgt
    rw [List.getElem?_append_right (by omega), hlen, if_neg (by omega), show c + d + 1 - c = d + 1 by omega, List.getElem?_cons_succ,
      List.getElem?_drop, Nat.add_right_comm]

theorem lt_length_insertClient (h : c ≤ clients.length) : c < (insertClient clients c x).length := by
  simp only [insertClient, List.length_append, List.length_take, List.length_cons, List.length_drop]
  omega

/-- A slot that was free is one client more. -/
theorem countP_insertClient (hfree : ∀ y : ClientData, clients[c]? = some y → y.isActive = false) (hx : x.isActive = true) :
    (insertClient clients c x).countP (·.isActive) = clients.countP (·.isActive) + 1 := by
  have hrest : (clients.drop (c + 1)).countP (·.isActive) = (clients.drop c).countP (·.isActive) := by
    cases h : clients[c]? with
    | none =>
      have hle := List.getElem?_eq_none_iff.1 h
      rw [List.drop_of_length_le hle, List.drop_of_length_le (by omega)]
    | some y =>
      obtain ⟨hc, rfl⟩ := List.getElem?_eq_some_iff.1 h
      rw [List.drop_eq_getElem_cons hc, List.countP_cons_of_neg (by simp [hfree _ h])]
  have hsplit : (clients.take c).countP (·.isActive) + (clients.drop c).countP (·.isActive) = clients.countP (·.isActive) := by
    rw [← List.countP_append, List.take_append_drop]
  rw [insertClient, List.countP_append, List.countP_cons_of_pos hx, hrest]
  omega

/-- Both ways the buffer has room come to the same: the connection is in the first free slot from `c` on. -/
theorem copyConnection_eq (h : c ≤ b.clients.length) :
    copyConnection fresh x b c =
      some ({ clients := insertClient b.clients (freeIndex b.clients c) { x with recvIter := 0 }, clientsActive := b.clientsActive + 1 },
        freeIndex b.clients c) := by
  have hle := freeIndex_le h
  unfold copyConnection
  generalize freeIndex b.clients c = k at hle
  by_cases hend : k = b.clients.length
  · subst hend
    have hlt : b.clients.length < (b.clients ++ [fresh b.clients.length]).length := by simp
    simp only [if_true, if_pos hlt, insertClient, List.take_length, List.drop_of_length_le (Nat.le_succ _),
      List.set_append_right _ _ (Nat.le_refl _), Nat.sub_self, List.set_cons_zero]
  · have hlt : k < b.clients.length := by omega
    simp only [if_neg hend, insertClient, List.set_eq_take_append_cons_drop, if_pos hlt]

/-- A connection is copied to a free slot, from the cursor on. -/
theorem exists_slot (fresh : Nat → ClientData) (hc : c ≤ b.clients.length) (hactive : b.clientsActive = b.clients.countP (·.isActive))
    (hx : x.isActive = true) :
    ∃ (b' : ClientBuffer) (k : Nat), copyConnection fresh x b c = some (b', k) ∧ c ≤ k ∧ k < b'.clients.length ∧
      (∀ y : ClientData, b.clients[k]? = some y → y.isActive = false) ∧
      (∀ j : Nat, b'.clients[j]? = if j = k then some { x with recvIter := 0 } else b.clients[j]?) ∧
      b'.clientsActive = b'.clients.countP (·.isActive) := by
  have hle := freeIndex_le hc
  have hfree : ∀ y : ClientData, b.clients[freeIndex b.clients c]? = some y → y.isActive = false := fun y => free_freeIndex
  have hx' : ClientData.isActive { x with recvIter := 0 } = true := hx
  refine ⟨_, _, copyConnection_eq hc, le_freeIndex _ _, lt_length_insertClient hle, hfree, getElem?_insertClient hle, ?_⟩
  rw [countP_insertClient hfree hx', hactive]

/-! ### All connections of the queue -/

/-- The loop over the queue, with the cursor at `c`: it takes free slots from there on, one behind the other. -/
theorem copyConnections_slots (fresh : Nat → ClientData) (queue : List ClientData) (hc : c ≤ b.clients.length)
    (hactive : b.clientsActive = b.clients.countP (·.isActive)) (hq : ∀ x ∈ queue, x.thread = tid → x.isActive = true) :
    ∃ (b' : ClientBuffer) (slots : List Nat),
      copyConnections fresh tid queue b c = some (b', queue.map fun x => if x.thread = tid then releaseSlot x else x) ∧
      slots.Pairwise (· < ·) ∧
      (∀ k ∈ slots, c ≤ k ∧ k < b'.clients.length ∧ ∀ y : ClientData, b.clients[k]? = some y → y.isActive = false) ∧
      slots.map (fun k => b'.clients[k]?) = (ownSlots tid queue).map (fun x => some { x with recvIter := 0 }) ∧
      (∀ k : Nat, k ∉ slots → b'.clients[k]? = b.clients[k]?) ∧
      b'.clientsActive = b'.clients.countP (·.isActive) := by
  induction queue generalizing b c with
  | nil =>
    refine ⟨b, [], rfl, .nil, ?_, rfl, fun _ _ => rfl, hactive⟩
    intro k hk
    cases hk
  | cons x queue ih =>
    obtain ⟨hx, hqueue⟩ := List.forall_mem_cons.1 hq
    by_cases hown : x.thread = tid
    · obtain ⟨b₁, k, hstep, hfrom, hk, hfree, hget, hactive₁⟩ := exists_slot fresh hc hactive (hx hown)
      obtain ⟨b', slots, hcopy, hdistinct, hslots, hcopied, hkept, hactive'⟩ := ih hk.le hactive₁ hqueue
      -- the slot just taken is not free any more, so all that follow are behind it
      have hbehind : ∀ j ∈ slots, k < j := by
        intro j hj
        obtain ⟨hkj, -, hfree'⟩ := hslots j hj
        refine Nat.lt_of_le_of_ne hkj ?_
        rintro rfl
        have hinactive := hfree' _ ((hget k).trans (if_pos rfl))
        have hisactive : ClientData.isActive { x with recvIter := 0 } = true := hx hown
        rw [hisactive] at hinactive
        cases hinactive
      have hhere : b'.clients[k]? = some { x with recvIter := 0 } := by
        rw [hkept k fun hmem => Nat.lt_irrefl k (hbehind k hmem)]
        exact (hget k).trans (if_pos rfl)
      refine ⟨b', k :: slots, ?_, List.pairwise_cons.2 ⟨hbehind, hdistinct⟩, ?_, ?_, ?_, hactive'⟩
      · rw [copyConnections, if_pos hown, hstep, Option.bind_eq_bind, Option.bind_some]
        simp only [hcopy, List.map_cons, if_pos hown]
        rfl
      · intro j hj
        rcases List.mem_cons.1 hj with rfl | hj
        · exact ⟨hfrom, (List.getElem?_eq_some_iff.1 hhere).1, hfree⟩
        · obtain ⟨hkj, hinside, hfree'⟩ := hslots j hj
          have hne : j ≠ k := Nat.ne_of_gt (hbehind j hj)
          exact ⟨hfrom.trans hkj, hinside, fun y hy => hfree' y (by rw [hget, if_neg hne, hy])⟩
      · rw [List.map_cons, hhere, hcopied, ownSlots, ownSlots, List.filter_cons_of_pos (by simpa using hown), List.map_cons]
      · intro j hj
        rw [List.mem_cons, not_or] at hj
        rw [hkept j hj.2, hget, if_neg hj.1]
    · obtain ⟨b', slots, hcopy, hdistinct, hslots, hcopied, hkept, hactive'⟩ := ih hc hactive hqueue
      refine ⟨b', slots, ?_, hdistinct, hslots, ?_, hkept, hactive'⟩
      · rw [copyConnections, if_neg hown, hcopy, List.map_cons, if_neg hown]
        rfl
      · rw [hcopied, ownSlots, ownSlots, List.filter_cons_of_neg (by simpa using hown)]

/-! ### The expansion -/

/-- The buffer is left as it is, or has new slots with no client behind it. -/
theorem exists_expandBuffer (fresh : Nat → ClientData) (n : Nat) (b : ClientBuffer) :
    ∃ new : List ClientData, expandBuffer fresh n b = { b with clients := b.clients ++ new } ∧ ∀ x ∈ new, x.isActive = false := by
  unfold expandBuffer
  simp only
  split
  · refine ⟨_, rfl, fun x hx => ?_⟩
    obtain ⟨c, -, rfl⟩ := List.mem_map.1 hx
    rfl
  · exact ⟨[], by rw [List.append_nil], fun x hx => by cases hx⟩

/-- New slots behind the buffer do not matter for what becomes of its clients. -/
theorem places_of_slots {new : List ClientData} (hnew : ∀ x ∈ new, x.isActive = false) {b' : ClientBuffer} {slots : List Nat}
    (hdistinct : slots.Pairwise (· < ·))
    (hslots : ∀ k ∈ slots, k < b'.clients.length ∧ ∀ y : ClientData, (clients ++ new)[k]? = some y → y.isActive = false)
    (hcopied : slots.map (fun k => b'.clients[k]?) = (ownSlots tid queue).map (fun x => some { x with recvIter := 0 }))
    (hkept : ∀ k : Nat, k ∉ slots → b'.clients[k]? = (clients ++ new)[k]?) (hactive : b'.clientsActive = b'.clients.countP (·.isActive)) :
    Places tid clients queue slots b' (queue.map fun x => if x.thread = tid then releaseSlot x else x) := by
  have hold : ∀ {k : Nat} {x : ClientData}, clients[k]? = some x → (clients ++ new)[k]? = some x := by
    intro k x hx
    rw [List.getElem?_append_left (List.getElem?_eq_some_iff.1 hx).1, hx]
  refine
    { distinct := hdistinct
      inside := fun k hk => (hslots k hk).1
      free := fun k hk x hx => (hslots k hk).2 x (hold hx)
      copied := hcopied
      kept := fun k x hx hact => ?_
      others := fun k x hx hact hk => ?_
      active := hactive
      released := rfl }
  · have hnot : k ∉ slots := by
      intro hk
      have hfree := (hslots k hk).2 x (hold hx)
      rw [hact] at hfree
      cases hfree
    rw [hkept k hnot, hold hx]
  · rw [hkept k hk] at hx
    by_cases hlt : k < clients.length
    · rwa [List.getElem?_append_left hlt] at hx
    · rw [List.getElem?_append_right (by omega)] at hx
      have hinactive := hnew x (List.mem_of_getElem? hx)
      rw [hact] at hinactive
      cases hinactive

end Pass

/-! ### The steps of the server -/

section Steps

variable {c : Config} {w : Fin c.workerthreads}

/-- Four steps copy a connection and release its slot. -/
theorem run_copy (e : Answers) {s : Server c} {i k : Nat} {clients : List ClientData} (hi : i < c.queuesize)
    (hw : s.workers w = { pc := .scan i k, clients := clients }) (hown : (s.queue i).thread = tid w) :
    ∃ s' : Server c, Machine.run Server.step s (List.replicate 4 (.worker w e)) = s' ∧
      s'.workers w = { pc := .scan (i + 1) (freeIndex clients k),
                       clients := insertClient clients (freeIndex clients k) { s.queue i with recvIter := 0 } } ∧
      s'.queue = Function.update s.queue i (releaseSlot (s.queue i)) := by
  refine ⟨_, rfl, ?_, ?_⟩
  · simp [List.replicate, Server.step, workerStep, hw, hi, hown, Server.setWorker, Server.setThread, Server.setSocket]
  · simp [List.replicate, Server.step, workerStep, hw, hi, hown, Server.setWorker, Server.setThread, Server.setSocket, releaseSlot]

/-- The loop over the queue, `m` slots of which are left. -/
theorem run_scan (fresh : Nat → ClientData) (e : Answers) (m : Nat) : ∀ {i k : Nat} {s : Server c} {b : ClientBuffer}, i + m = c.queuesize →
    s.workers w = { pc := .scan i k, clients := b.clients } → k ≤ b.clients.length →
    ∃ (n : Nat) (b' : ClientBuffer) (s' : Server c), Machine.run Server.step s (List.replicate n (.worker w e)) = s' ∧
      s'.workers w = { pc := .tally, clients := b'.clients } ∧
      copyConnections fresh (tid w) ((List.range' i m).map s.queue) b k = some (b', (List.range' i m).map s'.queue) ∧
      ∀ j < i, s'.queue j = s.queue j := by
  induction m with
  | zero =>
    intro i k s b hi hw hk
    have hend : ¬i < c.queuesize := by omega
    refine ⟨1, b, _, rfl, ?_, rfl, fun j _ => ?_⟩
    · simp [Server.step, workerStep, hw, hend, Server.setWorker]
    · simp [Server.step, workerStep, hw, hend, Server.setWorker]
  | succ m ih =>
    intro i k s b hi hw hk
    have hlt : i < c.queuesize := by omega
    have hrest : ∀ j ∈ List.range' (i + 1) m, j ≠ i := by
      intro j hj
      have := (List.mem_range'_1.1 hj).1
      omega
    rw [List.range'_succ, List.map_cons]
    by_cases hown : (s.queue i).thread = tid w
    · obtain ⟨s₁, hrun, hw₁, hqueue₁⟩ := run_copy e hlt hw hown
      have hle := freeIndex_le hk
      have hcopy := @copyConnection_eq fresh b (s.queue i) k hk
      have hsame : (List.range' (i + 1) m).map s₁.queue = (List.range' (i + 1) m).map s.queue := by
        refine List.map_congr_left fun j hj => ?_
        rw [hqueue₁, Function.update_of_ne (hrest j hj)]
      have hnext := lt_length_insertClient (x := { s.queue i with recvIter := 0 }) hle
      obtain ⟨n, b', s', hrun', hw', hcopies, hbefore⟩ := @ih (i + 1) (freeIndex b.clients k) s₁
        { clients := insertClient b.clients (freeIndex b.clients k) { s.queue i with recvIter := 0 }, clientsActive := b.clientsActive + 1 }
        (by omega) hw₁ hnext.le
      have hhere : s'.queue i = releaseSlot (s.queue i) := by rw [hbefore i (Nat.lt_succ_self i), hqueue₁, Function.update_self]
      refine ⟨4 + n, b', s', by rw [Machine.run_replicate_add, hrun, hrun'], hw', ?_, fun j hj => ?_⟩
      · rw [copyConnections, if_pos hown, hcopy, Option.bind_eq_bind, Option.bind_some, ← hsame]
        simp only [hcopies, List.map_cons, hhere]
        rfl
      · rw [hbefore j (by omega), hqueue₁, Function.update_of_ne (by omega)]
    · have hw₁ : (s.step (.worker w e)).workers w = { pc := .scan (i + 1) k, clients := b.clients } := by
        simp [Server.step, workerStep, hw, hlt, hown, Server.setWorker]
      have hqueue₁ : (s.step (.worker w e)).queue = s.queue := by
        simp [Server.step, workerStep, hw, hlt, hown, Server.setWorker]
      obtain ⟨n, b', s', hrun', hw', hcopies, hbefore⟩ := @ih (i + 1) k (s.step (.worker w e)) b (by omega) hw₁ hk
      rw [hqueue₁] at hcopies hbefore
      refine ⟨1 + n, b', s', by rw [Machine.run_replicate_add, ← hrun']; rfl, hw', ?_, fun j hj => hbefore j (by omega)⟩
      rw [copyConnections, if_neg hown, hcopies, List.map_cons, hbefore i (Nat.lt_succ_self i)]
      rfl

/-- The loop that counts, `m` slots of which are left, and the expansion behind it. -/
theorem run_count (e : Answers) (m : Nat) : ∀ {i q : Nat} {s : Server c} {clients : List ClientData}, i + m = c.queuesize →
    s.workers w = { pc := .count i q, clients := clients } →
    ∃ (n : Nat) (s' : Server c), Machine.run Server.step s (List.replicate n (.worker w e)) = s' ∧ s'.queue = s.queue ∧
      s'.workers w = { pc := .scan 0 0,
                       clients := expand clients (q + ((List.range' i m).map s.queue).countP fun x => x.thread == tid w) } := by
  induction m with
  | zero =>
    intro i q s clients hi hw
    have hend : ¬i < c.queuesize := by omega
    refine ⟨1, _, rfl, ?_, ?_⟩
    · simp [Server.step, workerStep, hw, hend, Server.setWorker]
    · simp [Server.step, workerStep, hw, hend, Server.setWorker]
  | succ m ih =>
    intro i q s clients hi hw
    have hlt : i < c.queuesize := by omega
    have hw₁ : (s.step (.worker w e)).workers w =
        { pc := .count (i + 1) (if (s.queue i).thread = tid w then q + 1 else q), clients := clients } := by
      simp [Server.step, workerStep, hw, hlt, Server.setWorker]
    have hqueue₁ : (s.step (.worker w e)).queue = s.queue := by
      simp [Server.step, workerStep, hw, hlt, Server.setWorker]
    obtain ⟨n, s', hrun', hqueue', hw'⟩ := ih (by omega) hw₁
    refine ⟨1 + n, s', by rw [Machine.run_replicate_add, ← hrun']; rfl, hqueue'.trans hqueue₁, ?_⟩
    rw [hw', hqueue₁, List.range'_succ, List.map_cons]
    by_cases hown : (s.queue i).thread = tid w
    · rw [if_pos hown, List.countP_cons_of_pos (by simpa using hown), Nat.add_right_comm, Nat.add_assoc]
    · rw [if_neg hown, List.countP_cons_of_neg (by simpa using hown)]

/-- The expansion in a step of the server. -/
theorem expandBuffer_zero (n : Nat) (clients : List ClientData) :
    expandBuffer (fun _ => .zero) n ⟨clients, clients.countP (·.isActive)⟩ = ⟨expand clients n, clients.countP (·.isActive)⟩ := by
  have hfree : clients.countP (fun x => socketValue x.socket == 0) = clients.length - clients.countP (·.isActive) := by
    have hsum := @List.length_eq_countP_add_countP _ (·.isActive) clients
    have hnot : clients.countP (fun x => decide ¬x.isActive = true) = clients.countP fun x => socketValue x.socket == 0 :=
      List.countP_congr fun x _ => by simp [ClientData.isActive]
    omega
  have hzero : (fun _ : Nat => ({ ClientData.zero with socket := .empty } : ClientData)) = fun _ => .zero := rfl
  have hle : clients.countP (·.isActive) ≤ clients.length := List.countP_le_length
  unfold expandBuffer
  simp only [hzero, List.map_const', List.length_range]
  split
  · rename_i hpos
    rw [expand, hfree, show ((n : Int) - (clients.length - clients.countP (·.isActive) : Int)).toNat =
      n - (clients.length - clients.countP (·.isActive)) by omega]
  · rw [expand, hfree, show n - (clients.length - clients.countP (·.isActive)) = 0 by omega, List.replicate_zero, List.append_nil]

end Steps

end CopyPhaseAux

open CopyPhaseAux

/-- The queue, slot by slot. -/
def Server.queueSlots {c : Config} (s : Server c) : List ClientData := (List.range c.queuesize).map s.queue

/-- When no other thread takes a step, the steps of a worker from the count to the end of the copies come to this part of its pass. -/
theorem run_expandAndCopy {c : Config} {w : Fin c.workerthreads} {s : Server c} {clients : List ClientData} (e : Answers)
    (h : s.workers w = { pc := .count 0 0, clients := clients }) :
    ∃ (n : Nat) (b : ClientBuffer) (s' : Server c), Machine.run Server.step s (List.replicate n (.worker w e)) = s' ∧
      s'.workers w = { pc := .tally, clients := b.clients } ∧
      expandAndCopy (fun _ => .zero) (tid w) (s.queueSlots.countP fun x => x.thread == tid w) clients s.queueSlots =
        some (b, s'.queueSlots) := by
  obtain ⟨n, s₁, hrun, hqueue, hw⟩ := run_count e c.queuesize (Nat.zero_add _) h
  rw [Nat.zero_add, ← List.range_eq_range'] at hw
  have hexpand := expandBuffer_zero (s.queueSlots.countP fun x => x.thread == tid w) clients
  obtain ⟨n', b, s', hrun', hw', hcopies, -⟩ := @run_scan c w (fun _ => .zero) e c.queuesize 0 0 s₁
    ⟨expand clients (s.queueSlots.countP fun x => x.thread == tid w), clients.countP (·.isActive)⟩ (Nat.zero_add _) hw (Nat.zero_le _)
  refine ⟨n + n', b, s', by rw [Machine.run_replicate_add, hrun, hrun'], hw', ?_⟩
  rw [hqueue, ← List.range_eq_range'] at hcopies
  rw [expandAndCopy, hexpand]
  exact hcopies

/-- For every buffer, every count of queued connections, and every content of the queue that is met, with a socket in each slot of this
worker: the pass places the connections of this worker, and no others, in the buffer. -/
theorem expandAndCopy_places (fresh : Nat → ClientData) (tid : Int) (clientsQueued : Nat) (clients queue : List ClientData)
    (hq : ∀ x ∈ queue, x.thread = tid → socketValue x.socket ≠ 0) :
    ∃ b queue' slots, expandAndCopy fresh tid clientsQueued clients queue = some (b, queue') ∧ Places tid clients queue slots b queue' := by
  have hown : ∀ x ∈ queue, x.thread = tid → x.isActive = true := fun x hx ht => bne_iff_ne.2 (hq x hx ht)
  obtain ⟨new, hexpand, hnew⟩ := exists_expandBuffer fresh clientsQueued ⟨clients, clients.countP (·.isActive)⟩
  have hzero : new.countP (·.isActive) = 0 := List.countP_eq_zero.2 fun x hx => by simp [hnew x hx]
  have hcount : clients.countP (·.isActive) = (clients ++ new).countP (·.isActive) := by rw [List.countP_append, hzero, Nat.add_zero]
  obtain ⟨b, slots, hcopy, hdistinct, hslots, hcopied, hkept, hactive⟩ :=
    @copyConnections_slots tid ⟨clients ++ new, clients.countP (·.isActive)⟩ 0 fresh queue (Nat.zero_le _) hcount hown
  refine ⟨b, _, slots, ?_, places_of_slots hnew hdistinct (fun k hk => (hslots k hk).2) hcopied hkept hactive⟩
  rw [expandAndCopy, hexpand, hcopy]

namespace CopyPhaseExample

/-- The descriptors of four connections. -/
def client (thread : Int) (fd : { n : Int // 0 < n }) (recvIter : Nat) : ClientData :=
  { thread := thread, socket := .item ⟨0, fd⟩, recvIter := recvIter }

/-- A client and a free slot. -/
def buffer : List ClientData := [client 1 ⟨5, by decide⟩ 2, .zero]

/-- Two connections for the first worker, and between them one for the second. -/
def slots : List ClientData := [client 1 ⟨6, by decide⟩ 0, client 2 ⟨7, by decide⟩ 0, client 1 ⟨8, by decide⟩ 0]

end CopyPhaseExample

open CopyPhaseExample

/-- Nothing was queued when the connections were counted: the first goes to the free slot, the second to one that is added. -/
theorem expandAndCopy_places_stale : ∃ b queue' slots', expandAndCopy (fun _ => .zero) 1 0 buffer slots = some (b, queue') ∧
    b.clients = [client 1 ⟨5, by decide⟩ 2, client 1 ⟨6, by decide⟩ 0, client 1 ⟨8, by decide⟩ 0] ∧
    Places 1 buffer slots slots' b queue' := by
  obtain ⟨b, queue', slots', h, hplaces⟩ := expandAndCopy_places (fun _ => .zero) 1 0 buffer slots (by decide)
  refine ⟨b, queue', slots', h, ?_, hplaces⟩
  have hclients : (expandAndCopy (fun _ => .zero) 1 0 buffer slots).map (fun r => r.1.clients) =
      some [client 1 ⟨5, by decide⟩ 2, client 1 ⟨6, by decide⟩ 0, client 1 ⟨8, by decide⟩ 0] := by decide
  rw [h] at hclients
  exact Option.some.inj hclients

end Traccoon
