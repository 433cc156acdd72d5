import Traccoon.Lemmas.Accounts

/-!
# Client sockets at the end of the server

Five places close a client's socket: the loop of a worker, a worker on its way out for its buffer and for the queue, and the main
thread for what is left in the queue; each leaves to the others what another has, because the slot or the entry has been set to 0 by
then. So no socket is closed twice, and at the end of `main` each has been closed (`sockets_closed_once`).
-/

namespace Traccoon

open HandOff

variable {c : Config}

namespace SocketsAux

variable {s : Server c}

/-- A thread that has returned has freed its buffer. -/
theorem buffer_of_terminated (hs : s.Sound) {w : Fin c.workerthreads} (h : (s.workers w).pc = .terminated) : s.buffer w = 0 := by
  have hw := (hs.workers w).2
  rw [h] at hw
  unfold Server.buffer Worker.unclosed
  rw [h, hw]
  rfl

/-- At the end nothing is in the queue or in a buffer. -/
theorem closed_of_done (hs : s.Accounted) (h : s.main = .done) : itemsIn s.closed = (s.accepted : Multiset Conn) := by
  have hmain := hs.sound.main
  unfold MainOk at hmain
  rw [h] at hmain
  have hbuffer : ∀ w, s.buffer w = 0 := fun w => buffer_of_terminated hs.sound (hmain w)
  have hunswept : s.unswept = ∅ := by simp only [Server.unswept, h]
  have htotal := hs.whereabouts
  simp only [Server.Whereabouts, hunswept, hbuffer, Finset.sum_empty, Finset.sum_const_zero, zero_add] at htotal
  exact htotal

/-- What has been closed has been accepted. -/
theorem closed_le (hs : s.Accounted) : itemsIn s.closed ≤ (s.accepted : Multiset Conn) := by
  rw [← hs.whereabouts]
  exact Multiset.le_add_left _ _

end SocketsAux

open SocketsAux

/-- For every run of the server, with any number of slots and workers and whatever the order of their steps: only connections that
`accept` has returned are closed, none twice; and when the main thread has come to its end, after it has told each worker to shut down
and joined it, all of them have been closed. -/
theorem sockets_closed_once (c : Config) (schedule : List (ServerAction c)) (s : Server c)
    (h : Machine.Visits Server.step (Server.start c) schedule s) :
    (∀ y ∈ s.closed, ∃ conn ∈ s.accepted, y = .item conn) ∧ s.closed.Nodup ∧ (s.accepted.map Conn.serial).Nodup ∧
    (s.main = .done → s.closed.Perm (s.accepted.map .item)) := by
  have hs := Server.Accounted.of_visits h
  refine ⟨?_, ?_, ?_, ?_⟩
  · intro y hy
    obtain ⟨x, rfl⟩ := hs.real.2 y hy
    exact ⟨x, Multiset.mem_coe.1 (Multiset.mem_of_le (closed_le hs) (mem_itemsIn.2 hy)), rfl⟩
  · exact nodup_of_itemsIn hs.real.2 (Multiset.nodup_of_le (closed_le hs) (Multiset.coe_nodup.2 hs.numbered.nodup))
  · rw [hs.numbered]
    exact List.nodup_range
  · intro hdone
    rw [← Multiset.coe_eq_coe, coe_eq_map_itemsIn hs.real.2, closed_of_done hs hdone, Multiset.map_coe]

namespace SocketsExample

/-- One worker and two slots. -/
def config : Config := { workerthreads := 1, queuesize := 2, pos := by decide }

def worker : Fin config.workerthreads := ⟨0, by decide⟩

theorem five_pos : (0 : Int) < 5 := by decide

/-- `accept` returns descriptor 5, the laziest worker is this one, and no request is handled. -/
def answers (laziest : Int) : Answers :=
  { accept := some ⟨5, five_pos⟩, clockFails := false, laziest := laziest, handled := false }

/-- Three connections are accepted. The worker copies the first one; the second is assigned to it after it has looked, and the third to
a number that is no worker's. The server is then told to shut down, and does. -/
def schedule : List (ServerAction config) :=
  List.replicate 7 (.main (answers 1)) ++ List.replicate 9 (.worker worker (answers 1)) ++ List.replicate 7 (.main (answers 1)) ++
    List.replicate 8 (.main (answers 2)) ++ [.sigint] ++ List.replicate 3 (.main (answers 1)) ++
    List.replicate 30 (.worker worker (answers 1)) ++ List.replicate 6 (.main (answers 1))

end SocketsExample

open SocketsExample

/-- A run in which one connection is closed in the worker's buffer, one in the queue by the worker, and one by the main thread. -/
theorem sockets_closed_once_three :
    (Machine.run Server.step (Server.start config) schedule).accepted.length = 3 ∧
    (Machine.run Server.step (Server.start config) schedule).closed.Perm
      ((Machine.run Server.step (Server.start config) schedule).accepted.map .item) := by
  have hdone : (Machine.run Server.step (Server.start config) schedule).main = .done := by decide +kernel
  exact ⟨by decide +kernel, (sockets_closed_once config schedule _ (Machine.visits_end _ _ _)).2.2.2 hdone⟩

end Traccoon
