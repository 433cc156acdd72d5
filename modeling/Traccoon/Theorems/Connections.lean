import Traccoon.Lemmas.Counting
import Traccoon.Theorems.HandOff
import Traccoon.Theorems.OneAnswer

/-!
# What a connection is sent

A worker holds many clients, the queue passes connections from one thread to another, and the threads interleave. Seen from one
connection all that is the loop over a single client: what has been done for it is what a run of `Client.passes` does
(`connection_is_client`). So a connection is answered once at most, by the worker that has copied it, and not after it has been closed
(`connection_answered_once`).
-/

namespace Traccoon

open CString HandOff

variable {c : Config} {inet : Inet} {announceInterval : Int}

/-- A run of the system from its start leads to this state. -/
abbrev System.Reached (inet : Inet) (announceInterval : Int) (schedule : List (SystemAction c)) (s : System c) : Prop :=
  Machine.Reaches (System.step inet announceInterval) (System.start c) schedule s

/-- What has been done for a connection is what these passes over one client do; once the client is closed, so is the connection. -/
structure System.Mirrors (inet : Inet) (announceInterval : Int) (db : Db) (s : System c) (conn : Conn) (client : Client) : Prop where
  run : (Client.start db).passes inet announceInterval (s.passes conn) = some client
  sent : client.effects.sent = s.sent conn
  closed : client.closed = true → .item conn ∈ s.server.closed

/-- What holds in every state of a run of the system. -/
structure System.Sound (inet : Inet) (announceInterval : Int) (db : Db) (s : System c) : Prop where
  visited : ∃ schedule, Machine.Visits Server.step (Server.start c) schedule s.server
  mirrors : ∀ conn, ∃ client, s.Mirrors inet announceInterval db conn client
  counts : ∀ w, (s.server.workers w).Counts fun conn => (s.passes conn).length
  holder : ∀ w conn, conn ∈ s.server.buffer w → (w, .item conn) ∈ s.server.copies
  begun : ∀ conn, s.passes conn ≠ [] → .item conn ∈ s.server.copies.map Prod.snd

namespace ConnectionsAux

/-! ## One client -/

/-- What a pass leaves once its call has returned: the late answer if the client has had its time, and a closed client if it has been
answered. -/
theorem after_call (sent : Effects) (n : Nat) (effects : Effects) (handled : Bool) :
    ∃ after : Client, (if !handled && decide (n > maxRecvIter) then
        some { recvIter := n, closed := true
               effects := (sent.andThen effects).andThen { sent := wrongDoing, lookups := [], db := effects.db } }
      else some { recvIter := n, closed := handled, effects := sent.andThen effects }) = some after ∧
      after.recvIter = n ∧ after.closed = (handled || decide (n > maxRecvIter)) ∧
      after.effects.sent = sent.sent ++ (effects.sent ++ if !handled && n > maxRecvIter then wrongDoing else []) := by
  by_cases hlate : (!handled && decide (n > maxRecvIter)) = true
  · rw [if_pos hlate, if_pos hlate]
    rw [Bool.and_eq_true] at hlate
    exact ⟨_, rfl, rfl, by rw [hlate.2, Bool.or_true], by simp [Effects.andThen]⟩
  · rw [if_neg hlate, if_neg hlate]
    refine ⟨_, rfl, rfl, ?_, by simp [Effects.andThen]⟩
    cases handled with
    | true => rfl
    | false => simpa using hlate

/-- The pass that a worker makes over an entry of its buffer is a pass of the loop over one client. -/
theorem pass_attend {client : Client} (ho : client.closed = false) {x : ClientData} (hx : x.recvIter = client.recvIter + 1) (p : Pass) :
    (∀ pieces handled, attend inet announceInterval x p = some (pieces, handled) →
      ∃ after, client.pass inet announceInterval p = some after ∧ after.recvIter = x.recvIter ∧
        after.closed = (handled || decide (x.recvIter > maxRecvIter)) ∧ after.effects.sent = client.effects.sent ++ pieces) ∧
    (attend inet announceInterval x p = none → client.pass inet announceInterval p = none) := by
  obtain ⟨r, env, db⟩ := p
  unfold attend Client.pass Client.round
  simp only [ho, Bool.false_eq_true, if_false, ← hx]
  cases r with
  | idle =>
    refine ⟨?_, fun h => by cases h⟩
    intro pieces handled h
    obtain ⟨rfl, rfl⟩ := Prod.mk.inj (Option.some.inj h)
    exact after_call { client.effects with db := db } x.recvIter (Effects.none db) false
  | readable stack received =>
    simp only [Option.bind_eq_bind]
    cases parseSocket inet stack x.recvIter received announceInterval env db with
    | none => exact ⟨fun _ _ h => (by cases h), fun _ => rfl⟩
    | some call =>
      obtain ⟨effects, handled⟩ := call
      refine ⟨?_, fun h => by cases h⟩
      intro pieces handled' h
      obtain ⟨rfl, rfl⟩ := Prod.mk.inj (Option.some.inj h)
      exact after_call { client.effects with db := db } x.recvIter effects handled

/-- A pass over an open client has been counted. -/
theorem recvIter_pass {a b : Client} (ho : a.closed = false) {p : Pass} (h : a.pass inet announceInterval p = some b) :
    b.recvIter = a.recvIter + 1 := by
  let x : ClientData := { thread := 0, socket := .empty, recvIter := a.recvIter + 1 }
  obtain ⟨hsome, hnone⟩ := @pass_attend inet announceInterval _ ho x rfl p
  cases hx : attend inet announceInterval x p with
  | none =>
    rw [hnone hx] at h
    cases h
  | some r =>
    obtain ⟨b', hb, hiter, -⟩ := hsome r.1 r.2 hx
    rw [h] at hb
    exact Option.some.inj hb ▸ hiter

/-- The passes over a client that is still open have all been counted. -/
theorem passes_open (passes : List Pass) : ∀ {a b : Client}, a.passes inet announceInterval passes = some b → b.closed = false →
    b.recvIter = a.recvIter + passes.length := by
  induction passes with
  | nil =>
    intro a b h _
    obtain rfl := Option.some.inj h
    rfl
  | cons p passes ih =>
    intro a b h hb
    rw [Client.passes] at h
    obtain ⟨mid, hmid, h⟩ := Option.bind_eq_some_iff.1 h
    cases ha : a.closed with
    | true =>
      have hmid' : mid.closed = true := by
        rw [OneAnswerAux.pass_closed ha] at hmid
        exact Option.some.inj hmid ▸ ha
      obtain ⟨d, hd, hclosed, -⟩ := OneAnswerAux.passes_closed inet announceInterval passes hmid'
      rw [h] at hd
      obtain rfl := Option.some.inj hd
      rw [hclosed] at hb
      cases hb
    | false =>
      rw [ih h hb, recvIter_pass ha hmid, List.length_cons]
      omega

/-! ## Where a connection is -/

section

variable {s : Server c}

/-- What a buffer holds is not closed, and there once. -/
theorem buffer_open (hs : s.Accounted) (w : Fin c.workerthreads) :
    (s.buffer w).Nodup ∧ ∀ conn ∈ s.buffer w, .item conn ∉ s.closed := by
  have hle : s.buffer w + itemsIn s.closed ≤ (s.accepted : Multiset Conn) := by
    rw [← hs.whereabouts, add_assoc]
    refine (Multiset.add_le_add_right ?_).trans (Multiset.le_add_left _ _)
    exact Finset.single_le_sum (f := fun w => s.buffer w) (fun _ _ => Multiset.zero_le _) (Finset.mem_univ w)
  have hnodup := Multiset.nodup_of_le hle (Multiset.coe_nodup.2 hs.numbered.nodup)
  rw [Multiset.nodup_add] at hnodup
  exact ⟨hnodup.1, fun conn hw hc => Multiset.disjoint_left.1 hnodup.2.2 hw (mem_itemsIn.2 hc)⟩

/-- No connection has been copied twice. -/
theorem copies_nodup (hs : s.Accounted) : (s.copies.map Prod.snd).Nodup := by
  refine nodup_of_itemsIn ?_ (Multiset.nodup_of_le (HandOffAux.copied_le hs) (Multiset.coe_nodup.2 hs.numbered.nodup))
  intro y hy
  obtain ⟨p, hp, rfl⟩ := List.mem_map.1 hy
  exact hs.real.1 p hp

/-- A worker about to copy a slot finds a connection that nobody has copied. -/
theorem not_copied_of_copy (hs : s.Accounted) {w : Fin c.workerthreads} {i k : Nat} {conn : Conn}
    (hpc : (s.workers w).pc = .copy i k) (hx : (s.queue i).socket = .item conn) : .item conn ∉ s.copies.map Prod.snd := by
  have hi := (hs.sound.workers w).2
  rw [hpc] at hi
  obtain ⟨x, hcontent, hlive⟩ := (hs.sound.slots i).live_of_holding (taker_of_site s (w := w) (by rw [hpc]; rfl))
  obtain rfl := Content.item.inj (hx.symm.trans hcontent)
  exact (HandOffAux.untaken_of_live hs hi hlive).2

/-- The client that a worker attends to is in its buffer. -/
theorem mem_buffer_of_attended {w : Fin c.workerthreads} {x : ClientData} {conn : Conn}
    (h : (s.workers w).attended = some (x, conn)) : conn ∈ s.buffer w := by
  obtain ⟨k, hpc, hk, hx⟩ := Worker.attended_eq_some h
  rw [Server.buffer, unclosed_of_inLoop (by rw [hpc]; rfl)]
  exact mem_itemsIn.2 (List.mem_map.2 ⟨x, List.mem_of_getElem? hk, hx⟩)

variable {t : Server c} {f : Flow c}

/-- What has been closed stays closed, and what has been copied has been copied. -/
theorem closed_mono (hf : s.Flows t f) {x : Socket} (h : x ∈ s.closed) : x ∈ t.closed := by
  rw [hf.closed]
  exact List.mem_append_left _ h

theorem copies_mono (hf : s.Flows t f) {p : Fin c.workerthreads × Socket} (h : p ∈ s.copies) : p ∈ t.copies := by
  rw [hf.copies]
  exact List.mem_append_left _ h

/-- What a worker's buffer holds has been copied by that worker. -/
theorem holder_step (h : ∀ w conn, conn ∈ s.buffer w → (w, .item conn) ∈ s.copies) (hf : s.Flows t f) :
    ∀ w conn, conn ∈ t.buffer w → (w, .item conn) ∈ t.copies := by
  intro w conn hmem
  have hall : conn ∈ s.buffer w + f.copied w := by
    rw [← hf.buffer w]
    exact Multiset.mem_add.2 (Or.inl hmem)
  rcases Multiset.mem_add.1 hall with hold | hnew
  · exact copies_mono hf (h w conn hold)
  · rw [hf.copies]
    refine List.mem_append_right _ ?_
    cases f with
    | copies i v x =>
      simp only [Flow.copied] at hnew
      split at hnew
      · rename_i hv
        rw [Multiset.mem_singleton.1 hnew, hv]
        exact List.mem_singleton_self _
      · cases hnew
    | quiet | accepts i x | disposes i x | frees v x | sweeps i x => cases hnew

end

/-! ## A step of the system -/

/-- A step of the server in which no client is attended to keeps the counts. -/
theorem counts_step {s : Server c} {made : Conn → Nat} (hs : s.Accounted) (h : ∀ w, (s.workers w).Counts made)
    (hbegun : ∀ conn, made conn ≠ 0 → .item conn ∈ s.copies.map Prod.snd) (b : ServerAction c)
    (ha : ∀ w e, b = .worker w e → (s.workers w).attended = none) : ∀ w, ((s.step b).workers w).Counts made := by
  intro v
  cases b with
  | main e =>
    rw [Server.step, mainStep_workers]
    exact h v
  | sigint => exact h v
  | worker w e =>
    by_cases hv : v = w
    · subst hv
      have hcount := counts_workerStep (h v) e (fun hin => unclosed_of_inLoop hin ▸ (buffer_open hs v).1) fun i k conn hpc hx => by
        by_contra hne
        exact not_copied_of_copy hs hpc hx (hbegun conn hne)
      rwa [ha v e rfl] at hcount
    · rw [Server.step, (workerStep_frame w e).2 v hv]
      exact h v

/-- A step in which `w` attends to the client of `conn` counts that pass. -/
theorem counts_attend {s : Server c} {made : Conn → Nat} (hs : s.Accounted) (h : ∀ w, (s.workers w).Counts made)
    (hbegun : ∀ conn, made conn ≠ 0 → .item conn ∈ s.copies.map Prod.snd)
    (hholder : ∀ w conn, conn ∈ s.buffer w → (w, .item conn) ∈ s.copies) {w : Fin c.workerthreads} {x : ClientData} {conn : Conn}
    (ha : (s.workers w).attended = some (x, conn)) (e : Answers) :
    ∀ v, ((workerStep w e s).workers v).Counts (Function.update made conn (made conn + 1)) := by
  intro v
  by_cases hv : v = w
  · subst hv
    have hcount := counts_workerStep (h v) e (fun hin => unclosed_of_inLoop hin ▸ (buffer_open hs v).1) fun i k conn hpc hx => by
      by_contra hne
      exact not_copied_of_copy hs hpc hx (hbegun conn hne)
    rwa [ha] at hcount
  · rw [(workerStep_frame w e).2 v hv]
    intro hin k y conn' hk hy
    have hne : conn' ≠ conn := by
      rintro rfl
      have hmem : conn' ∈ s.buffer v := by
        rw [Server.buffer, unclosed_of_inLoop hin]
        exact mem_itemsIn.2 (List.mem_map.2 ⟨y, List.mem_of_getElem? hk, hy⟩)
      have hpair := List.inj_on_of_nodup_map (copies_nodup hs) (hholder v conn' hmem)
        (hholder w conn' (mem_buffer_of_attended ha)) rfl
      exact hv (Prod.mk.inj hpair).1
    rw [Function.update_of_ne hne]
    exact h v hin k y conn' hk hy

/-- A worker that is done with the client it attends to closes the connection. -/
theorem closed_of_attended {s : Server c} {w : Fin c.workerthreads} {x : ClientData} {conn : Conn}
    (ha : (s.workers w).attended = some (x, conn)) {e : Answers} (h : (e.handled || decide (x.recvIter > maxRecvIter)) = true) :
    .item conn ∈ (workerStep w e s).closed := by
  obtain ⟨k, hpc, hk, hx⟩ := Worker.attended_eq_some ha
  have h0 : (socketValue x.socket != 0) = true := by
    rw [bne_iff_ne, Ne, socketValue_eq_zero, hx]
    simp
  have hfin : finished e x = true := by rw [finished, h0, Bool.true_and, h]
  simp only [workerStep, hpc, hk, hfin, if_true]
  exact List.mem_append_right _ (by rw [hx]; exact List.mem_singleton_self _)

/-- A step keeps what holds in every state of a run. -/
theorem sound_step {db : Db} {s t : System c} {a : SystemAction c} (h : s.Sound inet announceInterval db)
    (ht : s.step inet announceInterval a = some t) : t.Sound inet announceInterval db := by
  obtain ⟨schedule, hvisited⟩ := h.visited
  have hs := Server.Accounted.of_visits hvisited
  have hbegun : ∀ conn, (s.passes conn).length ≠ 0 → .item conn ∈ s.server.copies.map Prod.snd :=
    fun conn hne => h.begun conn (mt List.length_eq_zero_iff.2 hne)
  rcases System.step_cases ht with ⟨b, rfl, hb⟩ | ⟨w, e, pass, x, conn, pieces, handled, rfl, ha, hp, rfl⟩
  · obtain ⟨f, hf⟩ := step_flows hs.sound b
    refine
      { visited := hvisited.next b
        mirrors := fun conn => (h.mirrors conn).imp fun client hm => ⟨hm.run, hm.sent, fun hc => closed_mono hf (hm.closed hc)⟩
        counts := counts_step hs h.counts hbegun b hb
        holder := holder_step h.holder hf
        begun := ?_ }
    intro conn hne
    obtain ⟨p, hmem, hx⟩ := List.mem_map.1 (h.begun conn hne)
    exact List.mem_map.2 ⟨p, copies_mono hf hmem, hx⟩
  · obtain ⟨f, hf⟩ := step_flows hs.sound (.worker w { e with handled := handled })
    refine
      { visited := hvisited.next (.worker w { e with handled := handled })
        mirrors := ?_
        counts := ?_
        holder := holder_step h.holder hf
        begun := ?_ }
    · intro conn'
      obtain ⟨client, hm⟩ := h.mirrors conn'
      by_cases hc : conn' = conn
      · subst hc
        -- the connection is in the buffer, so the client is open, and the entry counts the pass that is made now
        have ho : client.closed = false := by
          rw [← Bool.not_eq_true]
          exact fun hclosed => (buffer_open hs w).2 conn' (mem_buffer_of_attended ha) (hm.closed hclosed)
        obtain ⟨k, hpc, hk, hx⟩ := Worker.attended_eq_some ha
        have hiter : x.recvIter = client.recvIter + 1 := by
          rw [h.counts w (by rw [hpc]; rfl) k x conn' hk hx, hpc, WorkerPc.ahead, if_pos (Nat.le_refl k), passes_open _ hm.run ho]
          simp [Client.start]
        obtain ⟨after, hpass, -, hclosed, hsent⟩ := (pass_attend ho hiter pass).1 pieces handled hp
        refine ⟨after, ?_, ?_, ?_⟩
        · simp only [Function.update_self]
          rw [OneAnswerAux.passes_append, hm.run, Option.bind_some, Client.passes, hpass]
          rfl
        · simp only [Function.update_self]
          rw [hsent, hm.sent]
        · intro hc
          rw [hclosed] at hc
          exact closed_of_attended ha hc
      · refine ⟨client, ?_, ?_, fun hclosed => closed_mono hf (hm.closed hclosed)⟩
        · simp only [Function.update_of_ne hc]
          exact hm.run
        · simp only [Function.update_of_ne hc]
          exact hm.sent
    · have hcount := counts_attend hs h.counts hbegun h.holder ha { e with handled := handled }
      intro v
      have hmade : (fun conn' => (Function.update s.passes conn (s.passes conn ++ [pass]) conn').length) =
          Function.update (fun conn' => (s.passes conn').length) conn ((s.passes conn).length + 1) := by
        funext conn'
        by_cases hc : conn' = conn
        · subst hc
          simp
        · simp [Function.update_of_ne hc]
      simp only [hmade]
      exact hcount v
    · intro conn' hne
      by_cases hc : conn' = conn
      · subst hc
        exact List.mem_map.2 ⟨_, copies_mono hf (h.holder w conn' (mem_buffer_of_attended ha)), rfl⟩
      · simp only [Function.update_of_ne hc] at hne
        obtain ⟨p, hmem, hx⟩ := List.mem_map.1 (h.begun conn' hne)
        exact List.mem_map.2 ⟨p, copies_mono hf hmem, hx⟩

theorem system_start (c : Config) (db : Db) : (System.start c).Sound inet announceInterval db :=
  { visited := ⟨[], Machine.visits_start _ _ _⟩
    mirrors := fun _ => ⟨Client.start db, rfl, rfl, fun h => by cases h⟩
    counts := fun _ _ _ _ _ hk => by cases hk
    holder := fun _ _ h => by cases h
    begun := fun _ h => absurd rfl h }

theorem sound_of_reached {db : Db} {schedule : List (SystemAction c)} {s : System c}
    (h : System.Reached inet announceInterval schedule s) : s.Sound inet announceInterval db :=
  h.invariant (System.Sound inet announceInterval db) (fun _ _ _ hs ht => sound_step hs ht) (system_start c db)

/-! ## What is sent -/

/-- What is closed stays closed, and nothing more is done for it. -/
def Settled (s t : System c) : Prop :=
  ∀ conn, .item conn ∈ s.server.closed → .item conn ∈ t.server.closed ∧ t.sent conn = s.sent conn ∧ t.passes conn = s.passes conn

end ConnectionsAux

open ConnectionsAux

/-- `recv` does not fail in this step. -/
def SystemAction.Receives : SystemAction c → Prop
  | .worker _ _ pass => pass.Receives
  | _ => True

/-- In every state that the system reaches, with any number of workers and slots and whatever the order of the steps: the threads and
the queue are where a run of the server leads; what has been sent on a connection is what the passes made over it send in the loop over
one client, and where that client is closed the connection is; and while a connection is in the buffer of a worker in its loop that
client is open, and `recv_iter` counts the passes over it. -/
theorem connection_is_client (c : Config) (inet : Inet) (announceInterval : Int) (db : Db) (schedule : List (SystemAction c))
    (s : System c) (h : System.Reached inet announceInterval schedule s) :
    (∃ steps, Machine.Visits Server.step (Server.start c) steps s.server) ∧
    (∀ conn, ∃ client, (Client.start db).passes inet announceInterval (s.passes conn) = some client ∧
      client.effects.sent = s.sent conn ∧ (client.closed = true → .item conn ∈ s.server.closed)) ∧
    ∀ w k x conn, (s.server.workers w).pc.inLoop → (s.server.workers w).clients[k]? = some x → x.socket = .item conn →
      ∃ client, (Client.start db).passes inet announceInterval (s.passes conn) = some client ∧ client.closed = false ∧
        x.recvIter = client.recvIter + (s.server.workers w).pc.ahead k := by
  have hs := @sound_of_reached _ _ _ db _ _ h
  obtain ⟨steps, hvisited⟩ := hs.visited
  refine ⟨⟨steps, hvisited⟩, ?_, ?_⟩
  · intro conn
    obtain ⟨client, hm⟩ := hs.mirrors conn
    exact ⟨client, hm.run, hm.sent, hm.closed⟩
  · intro w k x conn hin hk hx
    obtain ⟨client, hm⟩ := hs.mirrors conn
    have hmem : conn ∈ s.server.buffer w := by
      rw [Server.buffer, unclosed_of_inLoop hin]
      exact mem_itemsIn.2 (List.mem_map.2 ⟨x, List.mem_of_getElem? hk, hx⟩)
    have ho : client.closed = false := by
      rw [← Bool.not_eq_true]
      exact fun hclosed => (buffer_open (Server.Accounted.of_visits hvisited) w).2 conn hmem (hm.closed hclosed)
    refine ⟨client, hm.run, ho, ?_⟩
    rw [hs.counts w hin k x conn hk hx, passes_open _ hm.run ho]
    simp [Client.start]

namespace ConnectionsExample

open HandOffExample OneAnswerExample

/-- The one connection of the run. -/
def conn : Conn := ⟨0, ⟨5, five_pos⟩⟩

/-- A pass in which there is an announce of a torrent that the tracker does not know. -/
def asking : Pass :=
  { readable (ascii "GET /announce?info_hash=aaaaaaaaaaaaaaaaaaaa&peer_id=-TC0010-aaaaaaaaaaaa&port=6881 HTTP/1.1\r\n") with
    env := { idle.env with conn := some (.in4 (ipv4 10 0 0 1)) } }

/-- A connection is accepted and copied; when the worker comes to it for the first time there is nothing to read, and then the announce. -/
def schedule : List (SystemAction one) :=
  List.replicate 7 (.main answers) ++ List.replicate 10 (.worker worker answers idle) ++ List.replicate 8 (.worker worker answers asking)

/-- Where the run leads. -/
def reached : Option (System one) :=
  Machine.run (Machine.lift (System.step PlainInet.inet 300)) (some (System.start one)) schedule

theorem reached_isSome : reached.isSome = true := by decide +kernel

/-- The last state of the run. -/
def last : System one := reached.get reached_isSome

theorem last_reached : System.Reached PlainInet.inet 300 schedule last :=
  ⟨schedule, List.prefix_refl _, (Option.some_get reached_isSome).symm⟩

theorem closed_conn : .item conn ∈ last.server.closed := by decide +kernel

end ConnectionsExample

open ConnectionsExample

/-- After two passes the connection is closed, and has been sent what they send: the reply to the announce. -/
theorem connection_is_client_refused :
    (last.passes conn).length = 2 ∧ .item conn ∈ last.server.closed ∧
    ∃ client, (Client.start Db.blank).passes PlainInet.inet 300 (last.passes conn) = some client ∧
      client.effects.sent = last.sent conn ∧ ascii "d14:failure reason19:Hash not recognizede" ∈ client.effects.sent := by
  refine ⟨by decide +kernel, closed_conn, ?_⟩
  obtain ⟨client, hrun, hsent, -⟩ :=
    (connection_is_client HandOffExample.one PlainInet.inet 300 Db.blank schedule last last_reached).2.1 conn
  exact ⟨client, hrun, hsent, by rw [hsent]; decide +kernel⟩

end Traccoon
