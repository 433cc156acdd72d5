import Traccoon.Lemmas.Accounts
import Traccoon.LoadBalance
import Traccoon.System

/-!
# Counting the passes over a client

A worker counts an iteration for each client it holds before it makes the passes over them, one after the other. So `recv_iter` is the
number of the passes made over a client, or one more where the worker is still on its way to it (`Worker.Counts`). Each step of a worker
keeps that (`counts_workerStep`).
-/

namespace Traccoon

open HandOff

variable {c : Config}

/-- The passes counted for entry `k` and not made yet. -/
def WorkerPc.ahead (k : Nat) : WorkerPc → Nat
  | .serve j => if j ≤ k then 1 else 0
  | _ => 0

theorem WorkerPc.ahead_serve_of_ne {j k : Nat} (h : j ≠ k) : (WorkerPc.serve (k + 1)).ahead j = (WorkerPc.serve k).ahead j := by
  have : k + 1 ≤ j ↔ k ≤ j := by omega
  simp only [WorkerPc.ahead, this]

/-- While the worker is in its loop, `recv_iter` of each connection in its buffer is the number of the passes made over it, which `made`
tells, and of those ahead. -/
def Worker.Counts (made : Conn → Nat) (wk : Worker) : Prop :=
  wk.pc.inLoop → ∀ k x conn, wk.clients[k]? = some x → x.socket = .item conn → x.recvIter = made conn + wk.pc.ahead k

/-- In the loop of a worker none of its entries has been closed and left standing. -/
theorem unclosed_of_inLoop {wk : Worker} (h : wk.pc.inLoop) : wk.unclosed = wk.clients := by
  unfold Worker.unclosed
  split
  · rename_i hpc
    rw [hpc] at h
    cases h
  · rfl

/-- A connection that occurs once in a buffer is in one entry of it. -/
theorem index_unique : ∀ {clients : List ClientData}, (socketsIn clients).Nodup → ∀ {j k : Nat} {x y : ClientData} {conn : Conn},
    clients[j]? = some x → clients[k]? = some y → x.socket = .item conn → y.socket = .item conn → j = k
  | [], _, j, k, x, y, conn, hj, _, _, _ => by simp at hj
  | z :: clients, hn, j, k, x, y, conn, hj, hk, hx, hy => by
    rw [socketsIn_cons, Multiset.nodup_add] at hn
    have hmem : ∀ {i : Nat} {u : ClientData}, clients[i]? = some u → u.socket = .item conn → conn ∈ socketsIn clients :=
      fun hi hu => mem_itemsIn.2 (List.mem_map.2 ⟨_, List.mem_of_getElem? hi, hu⟩)
    have hz : z.socket = .item conn → conn ∉ socketsIn clients := by
      intro hz hc
      refine Multiset.disjoint_left.1 hn.2.2 ?_ hc
      rw [hz, items_item]
      exact Multiset.mem_singleton_self conn
    cases j with
    | zero =>
      obtain rfl := Option.some.inj hj
      cases k with
      | zero => rfl
      | succ k => exact absurd (hmem hk hy) (hz hx)
    | succ j =>
      cases k with
      | zero =>
        obtain rfl := Option.some.inj hk
        exact absurd (hmem hj hx) (hz hy)
      | succ k => rw [index_unique hn.2.1 hj hk hx hy]

/-! ## Where the entries of a buffer come from -/

/-- An entry of the buffer with a client in it is that client, or was there. -/
theorem getElem?_insertClient {clients : List ClientData} {k j : Nat} {x y : ClientData} (h : (insertClient clients k x)[j]? = some y) :
    y = x ∨ clients[j]? = some y := by
  unfold insertClient at h
  rcases Nat.lt_trichotomy j (clients.take k).length with hlt | heq | hgt
  · rw [List.getElem?_append_left hlt, List.getElem?_take] at h
    split at h
    · exact Or.inr h
    · cases h
  · rw [List.getElem?_append_right (by omega), heq, Nat.sub_self, List.getElem?_cons_zero] at h
    exact Or.inl (Option.some.inj h).symm
  · obtain ⟨i, hi⟩ := Nat.exists_eq_add_of_lt hgt
    rw [List.getElem?_append_right (by omega), show j - (clients.take k).length = i + 1 by omega, List.getElem?_cons_succ,
      List.getElem?_drop] at h
    have hle : (clients.take k).length ≤ k := List.length_take_le k clients
    by_cases hk : k ≤ clients.length
    · rw [List.length_take, Nat.min_eq_left hk] at hi
      right
      rwa [show k + 1 + i = j by omega] at h
    · rw [List.getElem?_eq_none (by omega)] at h
      cases h

/-- An entry with a connection was there before the buffer was expanded. -/
theorem getElem?_expand {clients : List ClientData} {n j : Nat} {x : ClientData} {conn : Conn} (h : (expand clients n)[j]? = some x)
    (hx : x.socket = .item conn) : clients[j]? = some x := by
  unfold expand at h
  by_cases hlt : j < clients.length
  · rwa [List.getElem?_append_left hlt] at h
  · rw [List.getElem?_append_right (by omega)] at h
    have hzero := List.eq_of_mem_replicate (List.mem_of_getElem? h)
    rw [hzero] at hx
    cases hx

/-- `recv_iter` goes up for each entry with a connection. -/
theorem getElem?_tallyClients {clients : List ClientData} {j : Nat} {x : ClientData} {conn : Conn}
    (h : (tallyClients clients)[j]? = some x) (hx : x.socket = .item conn) :
    ∃ y, clients[j]? = some y ∧ y.socket = .item conn ∧ x.recvIter = y.recvIter + 1 := by
  unfold tallyClients at h
  rw [List.getElem?_map] at h
  obtain ⟨y, hy, rfl⟩ := Option.map_eq_some_iff.1 h
  split at hx
  · rename_i h0
    exact ⟨y, hy, hx, by rw [if_pos h0]⟩
  · rename_i h0
    rw [not_not, socketValue_eq_zero] at h0
    rw [h0] at hx
    cases hx

/-! ## A step of a worker -/

/-- The passes made, when a worker takes a step that attends to this client or to none. -/
def passed (attended : Option (ClientData × Conn)) (made : Conn → Nat) : Conn → Nat :=
  match attended with
  | some (_, conn) => Function.update made conn (made conn + 1)
  | none => made

/-- A step in the loop that leaves the buffer as it is, and has no pass ahead before or after. -/
theorem Worker.Counts.same {made : Conn → Nat} {wk : Worker} {pc : WorkerPc} (h : wk.Counts made) (hin : wk.pc.inLoop)
    (hbefore : ∀ k, wk.pc.ahead k = 0) (hafter : ∀ k, pc.ahead k = 0) : Worker.Counts made { pc := pc, clients := wk.clients } := by
  intro _ k x conn hk hx
  rw [hafter]
  exact (h hin k x conn hk hx).trans (by rw [hbefore])

/-- Once out of the loop a worker counts nothing. -/
theorem Worker.counts_out {made : Conn → Nat} {wk : Worker} (h : wk.pc.inLoop = false) : wk.Counts made := by
  intro hin
  rw [h] at hin
  cases hin

variable {s : Server c} {w : Fin c.workerthreads}

/-- A worker's step keeps the count. `hfresh` says that no pass has been made over a connection that is copied from the queue. -/
theorem counts_workerStep {made : Conn → Nat} (h : (s.workers w).Counts made) (e : Answers)
    (hn : (s.workers w).pc.inLoop → (socketsIn (s.workers w).clients).Nodup)
    (hfresh : ∀ i k conn, (s.workers w).pc = .copy i k → (s.queue i).socket = .item conn → made conn = 0) :
    ((workerStep w e s).workers w).Counts (passed (s.workers w).attended made) := by
  have hnone : ∀ pc, (s.workers w).pc = pc → (∀ k, pc ≠ .serve k) → passed (s.workers w).attended made = made := by
    intro pc hpc hserve
    have ha : (s.workers w).attended = none := by
      unfold Worker.attended
      split
      · rename_i k hk
        exact absurd (hpc.symm.trans hk) (hserve k)
      · rfl
    rw [ha]
    rfl
  cases hpc : (s.workers w).pc with
  | loop =>
    rw [hnone _ hpc (by simp)]
    simp only [workerStep, hpc, Server.setWorker, Function.update_self]
    split
    · exact Worker.counts_out rfl
    · exact h.same (by rw [hpc]; rfl) (by rw [hpc]; exact fun _ => rfl) fun _ => rfl
  | count i n =>
    rw [hnone _ hpc (by simp)]
    simp only [workerStep, hpc]
    split
    · simp only [Server.setWorker, Function.update_self]
      exact h.same (by rw [hpc]; rfl) (by rw [hpc]; exact fun _ => rfl) fun _ => rfl
    · simp only [Server.setWorker, Function.update_self]
      intro _ k x conn hk hx
      rw [h (by rw [hpc]; rfl) k x conn (getElem?_expand hk hx) hx, hpc]
      rfl
  | scan i k =>
    rw [hnone _ hpc (by simp)]
    simp only [workerStep, hpc]
    have hsame : ∀ pc : WorkerPc, (∀ j, pc.ahead j = 0) → Worker.Counts made { pc := pc, clients := (s.workers w).clients } :=
      fun pc hpc' => h.same (by rw [hpc]; rfl) (by rw [hpc]; exact fun _ => rfl) hpc'
    split
    · split
      · simp only [Server.setWorker, Function.update_self]
        exact hsame _ fun _ => rfl
      · simp only [Server.setWorker, Function.update_self]
        exact hsame _ fun _ => rfl
    · simp only [Server.setWorker, Function.update_self]
      exact hsame _ fun _ => rfl
  | copy i k =>
    rw [hnone _ hpc (by simp)]
    simp only [workerStep, hpc, Server.setWorker, Function.update_self]
    intro _ j x conn hj hx
    rcases getElem?_insertClient hj with rfl | hold
    · rw [hfresh i k conn hpc hx]
      rfl
    · rw [h (by rw [hpc]; rfl) j x conn hold hx, hpc]
      rfl
  | freeThread i k =>
    rw [hnone _ hpc (by simp)]
    simp only [workerStep, hpc, Server.setWorker, Function.update_self]
    exact h.same (by rw [hpc]; rfl) (by rw [hpc]; exact fun _ => rfl) fun _ => rfl
  | freeSocket i k =>
    rw [hnone _ hpc (by simp)]
    simp only [workerStep, hpc, Server.setWorker, Function.update_self]
    exact h.same (by rw [hpc]; rfl) (by rw [hpc]; exact fun _ => rfl) fun _ => rfl
  | tally =>
    rw [hnone _ hpc (by simp)]
    simp only [workerStep, hpc, Server.setWorker, Function.update_self]
    intro _ k x conn hk hx
    obtain ⟨y, hy, hyx, hiter⟩ := getElem?_tallyClients hk hx
    rw [hiter, h (by rw [hpc]; rfl) k y conn hy hyx, hpc]
    rfl
  | serve k =>
    have hin : (s.workers w).pc.inLoop := by rw [hpc]; rfl
    cases hk : (s.workers w).clients[k]? with
    | none =>
      have ha : (s.workers w).attended = none := by simp only [Worker.attended, hpc, hk]
      rw [ha]
      simp only [workerStep, hpc, hk, Server.setWorker, Function.update_self]
      intro _ j x conn hj hx
      have hlt : j < k := by
        have h1 := List.getElem?_eq_none_iff.1 hk
        obtain ⟨h2, -⟩ := List.getElem?_eq_some_iff.1 hj
        exact Nat.lt_of_lt_of_le h2 h1
      rw [h hin j x conn hj hx, hpc, WorkerPc.ahead, if_neg (by omega)]
      rfl
    | some x =>
      have hothers : ∀ j y conn, j ≠ k → (s.workers w).clients[j]? = some y → y.socket = .item conn →
          passed (s.workers w).attended made conn = made conn := by
        intro j y conn hjk hj hy
        cases ha : (s.workers w).attended with
        | none => rfl
        | some p =>
          obtain ⟨x', conn'⟩ := p
          obtain ⟨k', hpc', hk', hx'⟩ := Worker.attended_eq_some ha
          obtain rfl := WorkerPc.serve.inj (hpc.symm.trans hpc')
          refine Function.update_of_ne ?_ _ _
          rintro rfl
          exact hjk (index_unique (hn hin) hj hk' hy hx')
      simp only [workerStep, hpc, hk]
      split
      · simp only [Server.setWorker, Function.update_self]
        intro _ j y conn hj hy
        by_cases hjk : j = k
        · obtain ⟨hlt, -⟩ := List.getElem?_eq_some_iff.1 hk
          rw [hjk, List.getElem?_set_self hlt] at hj
          obtain rfl := Option.some.inj hj
          cases hy
        · rw [List.getElem?_set_ne (Ne.symm hjk)] at hj
          rw [hothers j y conn hjk hj hy, WorkerPc.ahead_serve_of_ne hjk, h hin j y conn hj hy, hpc]
      · simp only [Server.setWorker, Function.update_self]
        intro _ j y conn hj hy
        by_cases hjk : j = k
        · subst hjk
          have hyx : y = x := Option.some.inj (hj.symm.trans hk)
          subst hyx
          have ha : (s.workers w).attended = some (y, conn) := by simp only [Worker.attended, hpc, hk, hy]
          rw [h hin j y conn hj hy, hpc, ha, passed, Function.update_self, WorkerPc.ahead, WorkerPc.ahead, if_pos (Nat.le_refl j),
            if_neg (by omega)]
        · rw [hothers j y conn hjk hj hy, WorkerPc.ahead_serve_of_ne hjk, h hin j y conn hj hy, hpc]
  | leave =>
    refine Worker.counts_out ?_
    simp only [workerStep, hpc]
    split
    · rw [hpc]
      rfl
    · simp [Server.setWorker, WorkerPc.inLoop]
  | closeBuffer k =>
    refine Worker.counts_out ?_
    simp only [workerStep, hpc]
    split
    · simp [Server.setWorker, WorkerPc.inLoop]
    · simp [Server.setWorker, WorkerPc.inLoop]
  | release i =>
    refine Worker.counts_out ?_
    simp only [workerStep, hpc]
    split
    · split
      · simp [Server.setWorker, WorkerPc.inLoop]
      · simp [Server.setWorker, WorkerPc.inLoop]
    · simp [Server.setWorker, WorkerPc.inLoop]
  | dispose i =>
    refine Worker.counts_out ?_
    simp only [workerStep, hpc]
    split
    · simp [Server.setWorker, WorkerPc.inLoop]
    · simp [Server.setWorker, WorkerPc.inLoop]
  | clearThread i =>
    refine Worker.counts_out ?_
    simp [workerStep, hpc, Server.setWorker, WorkerPc.inLoop]
  | clearSocket i =>
    refine Worker.counts_out ?_
    simp [workerStep, hpc, Server.setWorker, WorkerPc.inLoop]
  | terminated =>
    refine Worker.counts_out ?_
    simp only [workerStep, hpc]
    rfl

end Traccoon
