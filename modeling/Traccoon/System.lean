import Traccoon.Server

/-!
# The server and what it sends

`Server.lean` leaves open whether a request has been handled; `Comm.lean` says what handling one does. Here the two are one machine: the
step of a worker that stands at a client makes a pass over that client, sends what the pass sends on that client's connection, and
closes it if the pass says so. What `select` reports, what there is to peek at, how the calls are answered and the tables as the other
threads have left them are an input of the step (`Pass`). For each connection the state records what has been sent on it and the passes
made over it. A step has no result when it reads outside an array.
-/

namespace Traccoon

open CString

variable {c : Config}

/-- The server, and for each connection what has been sent on it and the passes made over it. -/
structure System (c : Config) where
  server : Server c
  sent : Conn → List Bytes
  passes : Conn → List Pass

/-- A step: of the main thread, of a worker, with what it meets at the client it stands at, or of the signal handler. -/
inductive SystemAction (c : Config) where
  | main (e : Answers)
  | worker (w : Fin c.workerthreads) (e : Answers) (pass : Pass)
  | sigint

/-- The client that a worker stands at, "iterate over set": `clients[k].socket!=0`. No entry of a buffer is the mark of a failure. -/
def Worker.attended (wk : Worker) : Option (ClientData × Conn) :=
  match wk.pc with
  | .serve k =>
    match wk.clients[k]? with
    | some x =>
      match x.socket with
      | .item conn => some (x, conn)
      | _ => none
    | none => none
  | _ => none

/-- What a worker does for a client it stands at: the pieces it sends, and what `handled` is before the client's time is looked at. -/
def attend (inet : Inet) (announceInterval : Int) (x : ClientData) (pass : Pass) : Option (List Bytes × Bool) := do
  let (effects, handled) ← match pass.round with
    | .idle => some (Effects.none pass.db, false)
    | .readable stack received => parseSocket inet stack x.recvIter received announceInterval pass.env pass.db
  pure (effects.sent ++ if !handled && x.recvIter > maxRecvIter then wrongDoing else [], handled)

namespace System

/-- The system when the accept loop begins. -/
def start (c : Config) : System c := { server := Server.start c, sent := fun _ => [], passes := fun _ => [] }

/-- A step of the system. -/
def step (inet : Inet) (announceInterval : Int) (s : System c) : SystemAction c → Option (System c)
  | .main e => some { s with server := s.server.step (.main e) }
  | .worker w e pass =>
    match (s.server.workers w).attended with
    | some (x, conn) => do
      let (pieces, handled) ← attend inet announceInterval x pass
      pure
        { server := s.server.step (.worker w { e with handled := handled })
          sent := Function.update s.sent conn (s.sent conn ++ pieces)
          passes := Function.update s.passes conn (s.passes conn ++ [pass]) }
    | none => some { s with server := s.server.step (.worker w e) }
  | .sigint => some { s with server := s.server.step .sigint }

end System

variable {inet : Inet} {announceInterval : Int}

/-- A worker that attends to a client stands at an entry with a connection. -/
theorem Worker.attended_eq_some {wk : Worker} {x : ClientData} {conn : Conn} (h : wk.attended = some (x, conn)) :
    ∃ k, wk.pc = .serve k ∧ wk.clients[k]? = some x ∧ x.socket = .item conn := by
  unfold Worker.attended at h
  split at h
  · rename_i k hpc
    split at h
    · rename_i y hk
      split at h
      · rename_i conn' hy
        obtain ⟨rfl, rfl⟩ := Prod.mk.inj (Option.some.inj h)
        exact ⟨k, hpc, hk, hy⟩
      · cases h
    · cases h
  · cases h

/-- What a step of the system does: one of the server, and if a worker attends to a client, a pass over that client. -/
theorem System.step_cases {s t : System c} {a : SystemAction c} (h : s.step inet announceInterval a = some t) :
    (∃ b, t = { s with server := s.server.step b } ∧ ∀ w e, b = .worker w e → (s.server.workers w).attended = none) ∨
    ∃ w e pass x conn pieces handled, a = .worker w e pass ∧ (s.server.workers w).attended = some (x, conn) ∧
      attend inet announceInterval x pass = some (pieces, handled) ∧
      t = { server := s.server.step (.worker w { e with handled := handled })
            sent := Function.update s.sent conn (s.sent conn ++ pieces)
            passes := Function.update s.passes conn (s.passes conn ++ [pass]) } := by
  cases a with
  | main e => exact Or.inl ⟨.main e, (Option.some.inj h).symm, fun _ _ h => by cases h⟩
  | sigint => exact Or.inl ⟨.sigint, (Option.some.inj h).symm, fun _ _ h => by cases h⟩
  | worker w e pass =>
    cases ha : (s.server.workers w).attended with
    | none =>
      simp only [System.step, ha] at h
      refine Or.inl ⟨.worker w e, (Option.some.inj h).symm, ?_⟩
      intro w' e' h'
      obtain ⟨rfl, rfl⟩ := ServerAction.worker.inj h'
      exact ha
    | some p =>
      obtain ⟨x, conn⟩ := p
      simp only [System.step, ha, Option.bind_eq_bind] at h
      obtain ⟨⟨pieces, handled⟩, hp, h⟩ := Option.bind_eq_some_iff.1 h
      exact Or.inr ⟨w, e, pass, x, conn, pieces, handled, rfl, ha, hp, (Option.some.inj h).symm⟩

end Traccoon
