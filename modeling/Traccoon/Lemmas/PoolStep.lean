import Traccoon.Lib.Duty
import Traccoon.Lemmas.ServerStep
import Traccoon.LoadBalance

/-!
# What a step of the pool does to the workers in service

While the main thread accepts connections no worker is told to stop (`Pool.Unstopped`), so a worker leaves its service loop by an early
return only. Who serves and whom `LAZIEST_WORKER.threadID` names is then a roster (`Pool.roster`), and every step is an event on it
(`roster_step`).
-/

namespace Traccoon

open Duty

variable {c : Config}

theorem ownerOf_eq_some_iff {t : Int} {w : Fin c.workerthreads} : ownerOf t = some w ↔ tid w = t := by
  constructor
  · intro h
    unfold ownerOf at h
    split at h
    · rename_i ht
      obtain rfl := Option.some.inj h
      rw [tid]
      show (((t - 1).toNat : Nat) : Int) + 1 = t
      omega
    · cases h
  · rintro rfl
    exact ownerOf_tid w

/-! ## Steps of the server -/

/-- A worker sets no flag. -/
theorem workerStep_shutdown (w : Fin c.workerthreads) (e : Answers) (s : Server c) :
    (workerStep w e s).shutdown = s.shutdown := by
  unfold workerStep
  simp only
  repeat' split
  all_goals rfl

/-- The main thread sets a flag when it is past the accept loop. -/
theorem mainStep_shutdown (e : Answers) {s : Server c} (h : s.main.accepts = true) : (mainStep e s).shutdown = s.shutdown := by
  cases hpc : s.main with
  | stop j | join j | sweep i | done =>
    rw [hpc] at h
    cases h
  | loop | look i | test i =>
    simp only [mainStep, hpc]
    split
    · rfl
    · rfl
  | accept i =>
    simp only [mainStep, hpc]
    split
    · rfl
    · rfl
  | clearThread i | reset i | assign i | clock => simp only [mainStep, hpc, Server.setMain, Server.setThread, Server.setSocket]

/-- The accept loop is not begun again. -/
theorem mainStep_accepts (e : Answers) {s : Server c} (h : s.main.accepts = false) : (mainStep e s).main.accepts = false := by
  cases hpc : s.main with
  | loop | look i | clearThread i | accept i | test i | reset i | assign i | clock =>
    rw [hpc] at h
    cases h
  | stop j | join j | sweep j =>
    simp only [mainStep, hpc]
    split
    · rfl
    · first | rfl | rw [hpc]; rfl
  | done =>
    simp only [mainStep, hpc]
    rfl

/-- A worker that is not told to stop stays in its loop. -/
theorem inLoop_workerStep {w : Fin c.workerthreads} (e : Answers) {s : Server c} (hs : s.shutdown w = false)
    (h : (s.workers w).pc.inLoop = true) : ((workerStep w e s).workers w).pc.inLoop = true := by
  cases hpc : (s.workers w).pc with
  | leave | closeBuffer k | release i | dispose i | clearThread i | clearSocket i | terminated =>
    rw [hpc] at h
    cases h
  | loop =>
    simp only [workerStep, hpc, hs, setWorker_self]
    rfl
  | count i n =>
    simp only [workerStep, hpc]
    split
    · rw [setWorker_self]
      rfl
    · rw [setWorker_self]
      rfl
  | scan i k =>
    simp only [workerStep, hpc]
    split
    · split
      · rw [setWorker_self]
        rfl
      · rw [setWorker_self]
        rfl
    · rw [setWorker_self]
      rfl
  | copy i k | freeThread i k | freeSocket i k | tally =>
    simp only [workerStep, hpc, setWorker_self]
    rfl
  | serve k =>
    simp only [workerStep, hpc]
    split
    · split
      · rw [setWorker_self]
        rfl
      · rw [setWorker_self]
        rfl
    · rw [setWorker_self]
      rfl

namespace Pool

/-! ## A step of a worker -/

section

variable (s : Pool c) (w : Fin c.workerthreads) (fails : Bool) (e : Answers)

@[simp] theorem stages_setStage (x : Stage) : (s.setStage w x).stages w = x := Function.update_self ..

/-- A step of a worker leaves the main thread, the flags and the other workers alone. -/
structure Frame (s s' : Pool c) (w : Fin c.workerthreads) : Prop where
  startup : s'.startup = s.startup
  main : s'.server.main = s.server.main
  shutdown : s'.server.shutdown = s.server.shutdown
  stages : ∀ v, v ≠ w → s'.stages v = s.stages v
  workers : ∀ v, v ≠ w → s'.server.workers v = s.server.workers v

theorem Frame.refl : Frame s s w := ⟨rfl, rfl, rfl, fun _ _ => rfl, fun _ _ => rfl⟩

variable {s w}

theorem Frame.setStage {s' : Pool c} (h : Frame s s' w) (x : Stage) : Frame s (s'.setStage w x) w :=
  ⟨h.startup, h.main, h.shutdown, fun v hv => (Function.update_of_ne hv _ _).trans (h.stages v hv), h.workers⟩

theorem Frame.proceed {s' : Pool c} (h : Frame s s' w) : Frame s (s'.proceed w e) w :=
  { startup := h.startup
    main := (workerStep_frame w _).1.trans h.main
    shutdown := (workerStep_shutdown w _ _).trans h.shutdown
    stages := h.stages
    workers := fun v hv => ((workerStep_frame w _).2 v hv).trans (h.workers v hv) }

theorem Frame.abort : Frame s (s.abort w) w :=
  { startup := rfl
    main := rfl
    shutdown := rfl
    stages := fun _ hv => Function.update_of_ne hv _ _
    workers := fun _ hv => Function.update_of_ne hv _ _ }

theorem Frame.setThreadID (t : Int) : Frame s (s.setThreadID t) w := ⟨rfl, rfl, rfl, fun _ _ => rfl, fun _ _ => rfl⟩

theorem Frame.setActiveSockets (n : Int) : Frame s (s.setActiveSockets n) w := ⟨rfl, rfl, rfl, fun _ _ => rfl, fun _ _ => rfl⟩

theorem workerStep_frame : Frame s (workerStep w fails e s) w := by
  unfold Pool.workerStep
  split
  · exact .refl s w
  · exact .refl s w
  · split
    · exact .abort
    · exact (Frame.refl s w).setStage _
  · split
    · exact .abort
    · split
      · split
        · exact (Frame.refl s w).proceed e
        · exact (Frame.refl s w).setStage _
      · split
        · exact (Frame.refl s w).setStage _
        · exact (Frame.refl s w).proceed e
      · exact (Frame.refl s w).proceed e
  · exact (Frame.refl s w).setStage _
  · split
    · exact (Frame.refl s w).setStage _
    · exact ((Frame.refl s w).proceed e).setStage _
  · exact (Frame.setThreadID _).setStage _
  · exact ((Frame.setActiveSockets _).proceed e).setStage _
  · exact (Frame.setActiveSockets _).setStage _
  · split
    · exact .refl s w
    · exact ((Frame.refl s w).proceed e).setStage _

/-- The other workers serve as before. -/
theorem Frame.serving {s' : Pool c} (h : Frame s s' w) {v : Fin c.workerthreads} (hv : v ≠ w) : s'.Serving v ↔ s.Serving v := by
  simp only [Serving, h.stages v hv, h.workers v hv]

/-- No worker has been told to stop: each is in its service loop, has not got there, or has returned early. -/
structure Unstopped (s : Pool c) : Prop where
  shutdown : ∀ w : Fin c.workerthreads, s.server.shutdown w = false
  workers : ∀ w, s.Serving w ∨ s.stages w = .aborted ∨
    (s.stages w = .unborn ∨ s.stages w = .opening) ∧ s.server.workers w = { pc := .loop, clients := [] }

/-- A worker that goes on in its loop. -/
theorem serving_proceed {s' : Pool c} (hs : s'.server.shutdown w = false) (h : (s'.server.workers w).pc.inLoop = true) :
    ((s'.proceed w e).server.workers w).pc.inLoop = true :=
  inLoop_workerStep _ hs h

/-- A worker that has come beyond opening the database, and has not returned early, is in its loop. -/
theorem Unstopped.serving (hs : s.Unstopped) (h : s.stages w ≠ .unborn) (h' : s.stages w ≠ .opening) (h'' : s.stages w ≠ .aborted) :
    s.Serving w := by
  rcases hs.workers w with hw | hw | ⟨hw | hw, -⟩
  · exact hw
  · exact absurd hw h''
  · exact absurd hw h
  · exact absurd hw h'

/-- The step of a worker in its loop. -/
structure Serves (s s' : Pool c) (w : Fin c.workerthreads) : Prop where
  before : s.Serving w
  after : s'.Serving w
  threadID : s'.laziest.threadID = if s.stages w = .writeThreadID then tid w else s.laziest.threadID

/-- A worker that is scanning the queue, tending its clients, or waiting for the next pass. -/
theorem serves_running (hs : s.Unstopped) (hst : s.stages w = .running) (h : ¬s.Aborts w fails) :
    Serves s (workerStep w fails e s) w := by
  have hserving : s.Serving w := hs.serving (by simp [hst]) (by simp [hst]) (by simp [hst])
  have hproceed : (s.proceed w e).Serving w := ⟨hserving.1, serving_proceed e (hs.shutdown w) hserving.2⟩
  have habort : ¬(reallocs c (s.server.workers w) && fails) = true := by
    intro hab
    rw [Bool.and_eq_true] at hab
    exact h ⟨hab.2, Or.inr ⟨hst, hab.1⟩⟩
  have hid : s.laziest.threadID = if s.stages w = .writeThreadID then tid w else s.laziest.threadID := by simp [hst]
  simp only [workerStep, hst, if_neg habort]
  split
  · split
    · exact ⟨hserving, hproceed, hid⟩
    · exact ⟨hserving, ⟨by rw [stages_setStage]; rfl, hserving.2⟩, hid⟩
  · rename_i hpc
    have := hserving.2
    rw [hpc] at this
    cases this
  · exact ⟨hserving, hproceed, hid⟩

/-- A worker at the update of `LAZIEST_WORKER`. -/
theorem serves_balancing (hs : s.Unstopped) (hst : s.stages w = .compareThreadID ∨ s.stages w = .compareActiveSockets ∨
    s.stages w = .writeThreadID ∨ s.stages w = .writeActiveSockets) : Serves s (workerStep w fails e s) w := by
  have hserving : s.Serving w := hs.serving (by grind) (by grind) (by grind)
  have hset : ∀ {s' : Pool c} {x : Stage}, x.serving = true → (s'.server.workers w).pc.inLoop = true →
      (s'.setStage w x).Serving w := by
    intro s' x hx hin
    exact ⟨by rw [stages_setStage]; exact hx, hin⟩
  have hproceed : ∀ {s' : Pool c}, s'.server = s.server → ((s'.proceed w e).server.workers w).pc.inLoop = true := by
    intro s' h
    exact serving_proceed e (by rw [h]; exact hs.shutdown w) (by rw [h]; exact hserving.2)
  rcases hst with hst | hst | hst | hst
  · simp only [workerStep, hst]
    refine ⟨hserving, hset ?_ hserving.2, by simp [hst, setStage]⟩
    split
    · rfl
    · rfl
  · simp only [workerStep, hst]
    split
    · exact ⟨hserving, hset rfl hserving.2, by simp [hst, setStage]⟩
    · exact ⟨hserving, hset rfl (hproceed rfl), by simp [hst, setStage, proceed]⟩
  · simp only [workerStep, hst]
    exact ⟨hserving, hset rfl hserving.2, by simp [hst, setStage, setThreadID]⟩
  · simp only [workerStep, hst]
    exact ⟨hserving, hset rfl (hproceed rfl), by simp [hst, setStage, setActiveSockets, proceed]⟩

/-- What a worker does that has not been told to stop: it returns early, enters its loop or takes a step in it; or it does nothing,
for it has not been created or has returned. -/
theorem workerStep_cases (hs : s.Unstopped) :
    (s.Aborts w fails ∧ workerStep w fails e s = s.abort w) ∨
    (¬s.Aborts w fails ∧ s.stages w = .opening ∧ workerStep w fails e s = s.setStage w .running) ∨
    (¬s.Aborts w fails ∧ Serves s (workerStep w fails e s) w) ∨
    ((s.stages w = .unborn ∨ s.stages w = .aborted) ∧ workerStep w fails e s = s) := by
  by_cases hab : s.Aborts w fails
  · refine Or.inl ⟨hab, ?_⟩
    obtain ⟨rfl, hst | ⟨hst, hre⟩⟩ := hab
    · simp only [workerStep, hst, if_true]
    · simp only [workerStep, hst, hre, Bool.and_true, if_true]
  refine Or.inr ?_
  cases hst : s.stages w with
  | unborn => exact Or.inr (Or.inr ⟨Or.inl rfl, by simp only [workerStep, hst]⟩)
  | aborted => exact Or.inr (Or.inr ⟨Or.inr rfl, by simp only [workerStep, hst]⟩)
  | opening =>
    cases fails with
    | true => exact absurd ⟨rfl, Or.inl hst⟩ hab
    | false => exact Or.inl ⟨hab, rfl, by simp only [workerStep, hst, Bool.false_eq_true, if_false]⟩
  | running => exact Or.inr (Or.inl ⟨hab, serves_running fails e hs hst hab⟩)
  | compareThreadID | compareActiveSockets | writeThreadID | writeActiveSockets =>
    exact Or.inr (Or.inl ⟨hab, serves_balancing fails e hs (by simp [hst])⟩)
  | retire | wait =>
    have := (hs.serving (w := w) (by simp [hst]) (by simp [hst]) (by simp [hst])).1
    rw [hst] at this
    cases this

end

/-! ## Before the accept loop -/

end Pool

/-- Where a worker may stand that has no client and finds none. -/
def WorkerPc.resting : WorkerPc → Prop
  | .loop | .scan _ _ | .tally | .serve _ | .terminated => True
  | .count _ clientsQueued => clientsQueued = 0
  | _ => False

/-- What `LAZIEST_WORKER.threadID` holds before the accept loop. -/
def Startup.threadID : Startup → Int
  | .create _ | .setThreadID _ => 0
  | _ => 1

/-- A worker without clients finds none in a queue that is empty. -/
theorem resting_workerStep {w : Fin c.workerthreads} (e : Answers) {s : Server c} (hs : s.shutdown w = false)
    (hq : ∀ i, (s.queue i).thread = 0) (hc : (s.workers w).clients = []) (h : (s.workers w).pc.resting) :
    (workerStep w e s).queue = s.queue ∧ ((workerStep w e s).workers w).clients = [] ∧
      ((workerStep w e s).workers w).pc.resting := by
  have htid : ∀ i, (s.queue i).thread ≠ tid w := by
    intro i
    rw [hq, tid]
    omega
  cases hpc : (s.workers w).pc with
  | copy i k | freeThread i k | freeSocket i k | leave | closeBuffer k | release i | dispose i | clearThread i | clearSocket i =>
    rw [hpc] at h
    exact h.elim
  | terminated =>
    simp only [workerStep, hpc]
    exact ⟨trivial, hc, trivial⟩
  | loop =>
    simp only [workerStep, hpc, hs, setWorker_self]
    exact ⟨rfl, hc, rfl⟩
  | count i n =>
    obtain rfl : n = 0 := by rwa [hpc] at h
    simp only [workerStep, hpc, hc, if_neg (htid i)]
    split
    · rw [setWorker_self]
      exact ⟨rfl, rfl, rfl⟩
    · rw [setWorker_self]
      exact ⟨rfl, rfl, trivial⟩
  | scan i k =>
    simp only [workerStep, hpc, hc, if_neg (htid i)]
    split
    · rw [setWorker_self]
      exact ⟨rfl, rfl, trivial⟩
    · rw [setWorker_self]
      exact ⟨rfl, rfl, trivial⟩
  | tally =>
    simp only [workerStep, hpc, hc, setWorker_self]
    exact ⟨rfl, rfl, trivial⟩
  | serve k =>
    simp only [workerStep, hpc, hc, List.getElem?_nil, setWorker_self]
    exact ⟨rfl, trivial, trivial⟩

theorem resting_clientsActive {wk : Worker} (hc : wk.clients = []) (h : wk.pc.resting) (shutdown : Bool) (e : Answers) :
    clientsActiveAfter shutdown e wk 0 = 0 := by
  cases hpc : wk.pc with
  | copy i k =>
    rw [hpc] at h
    exact h.elim
  | loop => simp [clientsActiveAfter, hpc, hc]
  | serve k => simp [clientsActiveAfter, hpc, hc]
  | count i n | freeThread i k | freeSocket i k | leave | closeBuffer k | release i | dispose i | clearThread i | clearSocket i | scan i k
  | tally | terminated => simp only [clientsActiveAfter, hpc]

namespace Pool

/-- A worker that has no client and finds none. -/
structure Resting (s : Pool c) (w : Fin c.workerthreads) : Prop where
  clients : (s.server.workers w).clients = []
  clientsActive : s.clientsActive w = 0
  pc : (s.server.workers w).pc.resting
  writes : s.stages w = .writeThreadID ∨ s.stages w = .writeActiveSockets → tid w = s.laziest.threadID

/-- The accept loop has not begun: nothing is in the queue, so no worker counts a client and none takes the place of the first one. -/
structure Early (s : Pool c) : Prop where
  main : s.server.main = .loop
  queue : ∀ i, (s.server.queue i).thread = 0
  uncreated : ∀ i, s.startup = .create i → ∀ w : Fin c.workerthreads, i ≤ w.1 → s.stages w = .unborn
  activeSockets : s.laziest.activeSockets = 0
  threadID : s.laziest.threadID = s.startup.threadID
  workers : ∀ w, s.Resting w

variable {s : Pool c} {w : Fin c.workerthreads}

/-- A step of a worker, up to what it makes of the worker itself. -/
theorem Early.of_frame (h : s.Early) {s' : Pool c} (hf : Frame s s' w) (hq : s'.server.queue = s.server.queue)
    (hl : s'.laziest = s.laziest) (ha : ∀ v, v ≠ w → s'.clientsActive v = s.clientsActive v) (hunborn : s.stages w ≠ .unborn)
    (hw : s'.Resting w) : s'.Early :=
  { main := hf.main.trans h.main
    queue := by rw [hq]; exact h.queue
    uncreated := by
      intro i hi v hv
      have hunborn' := h.uncreated i (hf.startup ▸ hi) v hv
      by_cases hvw : v = w
      · exact absurd (hvw ▸ hunborn') hunborn
      · rw [hf.stages v hvw, hunborn']
    activeSockets := by rw [hl, h.activeSockets]
    threadID := by rw [hl, hf.startup, h.threadID]
    workers := by
      intro v
      by_cases hvw : v = w
      · rw [hvw]
        exact hw
      · obtain ⟨hc, hn, hpc, hwr⟩ := h.workers v
        exact ⟨by rw [hf.workers v hvw, hc], by rw [ha v hvw, hn], by rw [hf.workers v hvw]; exact hpc,
          by rw [hf.stages v hvw, hl]; exact hwr⟩ }

theorem Early.setStage (h : s.Early) (hunborn : s.stages w ≠ .unborn) {x : Stage}
    (hx : x = .writeThreadID ∨ x = .writeActiveSockets → tid w = s.laziest.threadID) : (s.setStage w x).Early :=
  h.of_frame ((Frame.refl s w).setStage x) rfl rfl (fun _ _ => rfl) hunborn
    { clients := (h.workers w).clients
      clientsActive := (h.workers w).clientsActive
      pc := (h.workers w).pc
      writes := by rw [stages_setStage]; exact hx }

theorem Early.abort (h : s.Early) (hunborn : s.stages w ≠ .unborn) : (s.abort w).Early :=
  h.of_frame .abort rfl rfl (fun _ _ => rfl) hunborn
    { clients := by simp [Pool.abort]
      clientsActive := (h.workers w).clientsActive
      pc := by simp [Pool.abort, WorkerPc.resting]
      writes := by
        rw [show (s.abort w).stages w = .aborted from Function.update_self ..]
        simp }

theorem Early.proceed (hs : s.Unstopped) (h : s.Early) (hunborn : s.stages w ≠ .unborn) (e : Answers) : (s.proceed w e).Early := by
  obtain ⟨hc, hn, hpc, hwr⟩ := h.workers w
  obtain ⟨hq, hc', hpc'⟩ := resting_workerStep (s.answers e) (hs.shutdown w) h.queue hc hpc
  refine h.of_frame ((Frame.refl s w).proceed e) hq rfl (fun v hv => Function.update_of_ne hv _ _) hunborn ⟨hc', ?_, hpc', hwr⟩
  rw [show (s.proceed w e).clientsActive w = _ from Function.update_self .., hn]
  exact resting_clientsActive hc hpc _ _

theorem Early.workerStep (hs : s.Unstopped) (h : s.Early) (fails : Bool) (e : Answers) : (workerStep w fails e s).Early := by
  have hw := h.workers w
  have hproceed : s.stages w ≠ .unborn → ((s.proceed w e).setStage w .running).Early := by
    intro hunborn
    exact (h.proceed hs hunborn e).setStage hunborn (by simp)
  cases hst : s.stages w with
  | unborn | aborted =>
    simp only [Pool.workerStep, hst]
    exact h
  | opening =>
    simp only [Pool.workerStep, hst]
    split
    · exact h.abort (by simp [hst])
    · exact h.setStage (by simp [hst]) (by simp)
  | running =>
    simp only [Pool.workerStep, hst]
    split
    · exact h.abort (by simp [hst])
    · split
      · split
        · exact h.proceed hs (by simp [hst]) e
        · exact h.setStage (by simp [hst]) (by simp)
      · rename_i hpc
        have := hw.pc
        rw [hpc] at this
        exact this.elim
      · exact h.proceed hs (by simp [hst]) e
  | compareThreadID =>
    simp only [Pool.workerStep, hst]
    split
    · rename_i hid
      exact h.setStage (by simp [hst]) (fun _ => hid.symm)
    · exact h.setStage (by simp [hst]) (by simp)
  | compareActiveSockets =>
    -- both counts are 0
    simp only [Pool.workerStep, hst, h.activeSockets, hw.clientsActive, lt_irrefl, if_false]
    exact hproceed (by simp [hst])
  | writeThreadID =>
    have hid : tid w = s.laziest.threadID := hw.writes (Or.inl hst)
    simp only [Pool.workerStep, hst]
    rw [show s.setThreadID (tid w) = s by rw [hid]; rfl]
    exact h.setStage (by simp [hst]) (fun _ => hid)
  | writeActiveSockets =>
    simp only [Pool.workerStep, hst]
    rw [show s.setActiveSockets (s.clientsActive w) = s by rw [hw.clientsActive, ← h.activeSockets]; rfl]
    exact hproceed (by simp [hst])
  | retire | wait =>
    have := (hs.serving (w := w) (by simp [hst]) (by simp [hst]) (by simp [hst])).1
    rw [hst] at this
    cases this

/-! ## The states of a run -/

/-- A worker that has not come to its loop stands before it, without clients. -/
theorem Unstopped.fresh (hs : s.Unstopped) (h : s.stages w = .unborn ∨ s.stages w = .opening) :
    s.server.workers w = { pc := .loop, clients := [] } := by
  rcases hs.workers w with hw | hw | hw
  · have := hw.1
    rcases h with h | h
    · rw [h] at this
      cases this
    · rw [h] at this
      cases this
  · rcases h with h | h
    · rw [h] at hw
      cases hw
    · rw [h] at hw
      cases hw
  · exact hw.2

/-- A worker that has opened the database is in its loop. -/
theorem Unstopped.serving_setStage (hs : s.Unstopped) (h : s.stages w = .unborn ∨ s.stages w = .opening) :
    (s.setStage w .running).Serving w := by
  refine ⟨by rw [stages_setStage]; rfl, ?_⟩
  rw [show (s.setStage w .running).server.workers w = _ from hs.fresh h]
  rfl

theorem Unstopped.workerStep (hs : s.Unstopped) (fails : Bool) (e : Answers) : (workerStep w fails e s).Unstopped := by
  have hf : Frame s (Pool.workerStep w fails e s) w := workerStep_frame fails e
  refine ⟨fun v => by rw [hf.shutdown]; exact hs.shutdown v, ?_⟩
  intro v
  by_cases hv : v = w
  · subst hv
    rcases workerStep_cases (w := v) fails e hs with ⟨-, heq⟩ | ⟨-, hst, heq⟩ | ⟨-, hserves⟩ | ⟨-, heq⟩
    · rw [heq]
      exact Or.inr (Or.inl (Function.update_self ..))
    · rw [heq]
      exact Or.inl (hs.serving_setStage (Or.inr hst))
    · exact Or.inl hserves.after
    · rw [heq]
      exact hs.workers v
  · rw [hf.serving hv, hf.stages v hv, hf.workers v hv]
    exact hs.workers v

/-- The main thread is past the accept loop, or goes to the end without it. -/
def Stopping (s : Pool c) : Prop := s.startup = .running ∧ s.server.main.accepts = false

/-- The states of a run. -/
def Sound (s : Pool c) : Prop := s.Stopping ∨ s.Unstopped ∧ (s.startup ≠ .running → s.Early)

theorem sound_start (c : Config) : (start c).Sound := by
  refine Or.inr ⟨⟨fun _ => rfl, fun w => Or.inr (Or.inr ⟨Or.inl rfl, rfl⟩)⟩, fun _ => ?_⟩
  exact
    { main := rfl
      queue := fun _ => rfl
      uncreated := fun _ _ _ _ => rfl
      activeSockets := rfl
      threadID := rfl
      workers := fun w =>
        { clients := rfl
          clientsActive := rfl
          pc := trivial
          writes := by
            rintro (h | h)
            · cases h
            · cases h } }

/-- A worker is created. -/
theorem Unstopped.create (hs : s.Unstopped) (h : s.stages w = .unborn) (x : Startup) :
    ((s.setStage w .opening).setStartup x).Unstopped := by
  refine ⟨hs.shutdown, ?_⟩
  intro v
  by_cases hv : v = w
  · subst hv
    exact Or.inr (Or.inr ⟨Or.inr (Function.update_self ..), hs.fresh (Or.inl h)⟩)
  · have hstage : ((s.setStage w .opening).setStartup x).stages v = s.stages v := Function.update_of_ne hv _ _
    rw [Serving, hstage]
    exact hs.workers v

/-- The main thread goes on to its next place before the accept loop. -/
theorem Early.setStartup (h : s.Early) {x : Startup} (hx : ∀ i, x ≠ .create i) (ht : x.threadID = s.startup.threadID) :
    (s.setStartup x).Early :=
  { main := h.main
    queue := h.queue
    uncreated := fun i hi => absurd hi (hx i)
    activeSockets := h.activeSockets
    threadID := h.threadID.trans ht.symm
    workers := fun w => ⟨(h.workers w).clients, (h.workers w).clientsActive, (h.workers w).pc, (h.workers w).writes⟩ }

theorem Early.create (h : s.Early) (hst : s.startup = .create w.1) :
    ((s.setStage w .opening).setStartup (.create (w.1 + 1))).Early :=
  { main := h.main
    queue := h.queue
    uncreated := by
      intro i hi v hv
      obtain rfl := Startup.create.inj hi
      have hne : v ≠ w := by
        rintro rfl
        omega
      exact (Function.update_of_ne hne _ _).trans (h.uncreated w.1 hst v (by omega))
    activeSockets := h.activeSockets
    threadID := by
      refine h.threadID.trans ?_
      rw [hst]
      rfl
    workers := by
      intro v
      refine ⟨(h.workers v).clients, (h.workers v).clientsActive, (h.workers v).pc, ?_⟩
      by_cases hv : v = w
      · rw [hv, show ((s.setStage w .opening).setStartup (.create (w.1 + 1))).stages w = .opening from Function.update_self ..]
        simp
      · rw [show ((s.setStage w .opening).setStartup (.create (w.1 + 1))).stages v = _ from Function.update_of_ne hv _ _]
        exact (h.workers v).writes }

/-- The main thread names the first worker. Nobody has been named before. -/
theorem Early.name (h : s.Early) {failed : Bool} (hst : s.startup = .setThreadID failed) :
    ((s.setThreadID 1).setStartup (.setActiveSockets failed)).Early :=
  { main := h.main
    queue := h.queue
    uncreated := fun _ hi => by cases hi
    activeSockets := h.activeSockets
    threadID := rfl
    workers := by
      intro v
      refine ⟨(h.workers v).clients, (h.workers v).clientsActive, (h.workers v).pc, ?_⟩
      intro hv
      have hid := (h.workers v).writes hv
      rw [h.threadID, hst, tid] at hid
      simp only [Startup.threadID] at hid
      omega }

theorem Sound.mainStep (h : s.Sound) (fails : Bool) (e : Answers) : (mainStep fails e s).Sound := by
  rcases h with ⟨hst, hm⟩ | ⟨hs, hearly⟩
  · left
    simp only [Pool.mainStep, hst]
    exact ⟨rfl, mainStep_accepts _ hm⟩
  cases hst : s.startup with
  | create i =>
    have he := hearly (by simp [hst])
    right
    simp only [Pool.mainStep, hst]
    split
    · split
      · exact ⟨⟨hs.shutdown, hs.workers⟩, fun _ => he.setStartup (fun _ => by simp) (by rw [hst]; rfl)⟩
      · rename_i hi _
        exact ⟨hs.create (he.uncreated i hst ⟨i, hi⟩ (Nat.le_refl i)) _, fun _ => he.create (w := ⟨i, hi⟩) hst⟩
    · exact ⟨⟨hs.shutdown, hs.workers⟩, fun _ => he.setStartup (fun _ => by simp) (by rw [hst]; rfl)⟩
  | setThreadID failed =>
    right
    simp only [Pool.mainStep, hst]
    exact ⟨⟨hs.shutdown, hs.workers⟩, fun _ => (hearly (by simp [hst])).name hst⟩
  | setActiveSockets failed =>
    have he := hearly (by simp [hst])
    right
    simp only [Pool.mainStep, hst]
    rw [show s.setActiveSockets 0 = s by rw [← he.activeSockets]; rfl]
    exact ⟨⟨hs.shutdown, hs.workers⟩, fun _ => he.setStartup (fun _ => by simp) (by rw [hst]; rfl)⟩
  | listen failed =>
    simp only [Pool.mainStep, hst]
    split
    · exact Or.inl ⟨rfl, rfl⟩
    · split
      · exact Or.inl ⟨rfl, rfl⟩
      · exact Or.inr ⟨⟨hs.shutdown, hs.workers⟩, fun h => absurd rfl h⟩
  | running =>
    simp only [Pool.mainStep, hst]
    cases hm : s.server.main.accepts with
    | false => exact Or.inl ⟨rfl, mainStep_accepts _ hm⟩
    | true =>
      refine Or.inr ⟨⟨?_, ?_⟩, fun h => absurd rfl h⟩
      · intro w
        rw [show (Traccoon.mainStep (s.answers e) s.server).shutdown = _ from mainStep_shutdown _ hm]
        exact hs.shutdown w
      · intro w
        rw [Serving, show (Traccoon.mainStep (s.answers e) s.server).workers = _ from mainStep_workers _]
        exact hs.workers w

/-- Every step leads from a state of a run to a state of a run. -/
theorem Sound.step (h : s.Sound) (a : PoolAction c) : (s.step a).Sound := by
  cases a with
  | main fails e => exact h.mainStep fails e
  | worker w fails e =>
    have hf : Frame s (Pool.workerStep w fails e s) w := workerStep_frame fails e
    rcases h with ⟨hst, hm⟩ | ⟨hs, hearly⟩
    · exact Or.inl ⟨hf.startup.trans hst, by rw [show (s.step (.worker w fails e)).server.main = _ from hf.main, hm]⟩
    · exact Or.inr ⟨hs.workerStep fails e, fun hst => (hearly (hf.startup ▸ hst)).workerStep hs fails e⟩
  | sigint =>
    simp only [Pool.step]
    split
    · rename_i hst
      rcases h with ⟨-, hm⟩ | ⟨hs, -⟩
      · exact Or.inl ⟨hst, hm⟩
      · exact Or.inr ⟨⟨hs.shutdown, hs.workers⟩, fun h => absurd hst h⟩
    · exact h

/-! ## The server within the pool -/

/-- The step is not an early return, and does not end the server for want of a worker. -/
def Clean (s : Pool c) : PoolAction c → Prop
  | .main _ _ => s.startup ≠ .listen true
  | .worker w fails _ => ¬s.Aborts w fails
  | .sigint => True

/-- The server goes from here to there in some steps of its own. -/
def ServerRuns (s s' : Pool c) : Prop := ∃ as, Machine.run Server.step s.server as = s'.server

theorem ServerRuns.refl {s' : Pool c} (h : s'.server = s.server) : ServerRuns s s' := ⟨[], h.symm⟩

theorem ServerRuns.worker {s' : Pool c} (w : Fin c.workerthreads) (e : Answers) (h : s'.server = Traccoon.workerStep w e s.server) :
    ServerRuns s s' :=
  ⟨[.worker w e], h.symm⟩

theorem serverRuns_mainStep (hs : s.Sound) (fails : Bool) (e : Answers) (h : s.startup ≠ .listen true) :
    ServerRuns s (Pool.mainStep fails e s) := by
  cases hst : s.startup with
  | create i =>
    simp only [Pool.mainStep, hst]
    split
    · split
      · exact .refl rfl
      · exact .refl rfl
    · exact .refl rfl
  | setThreadID failed | setActiveSockets failed =>
    simp only [Pool.mainStep, hst]
    exact .refl rfl
  | listen failed =>
    cases failed with
    | true => exact absurd hst h
    | false =>
      simp only [Pool.mainStep, hst, Bool.false_eq_true, if_false]
      split
      · -- as if SIGINT had come before the first connection
        have hm : s.server.main = .loop := by
          rcases hs with ⟨h, -⟩ | ⟨-, h⟩
          · rw [hst] at h
            cases h
          · exact (h (by simp [hst])).main
        exact ⟨[.sigint, .main e], by simp [Server.step, Traccoon.mainStep, hm, giveUp, Server.setMain]⟩
      · exact .refl rfl
  | running =>
    simp only [Pool.mainStep, hst]
    exact ⟨[.main (s.answers e)], rfl⟩

theorem serverRuns_workerStep (fails : Bool) (e : Answers) (h : ¬s.Aborts w fails) : ServerRuns s (Pool.workerStep w fails e s) := by
  have hproceed : ServerRuns s (s.proceed w e) := .worker w (s.answers e) rfl
  cases hst : s.stages w with
  | unborn | aborted | compareThreadID | writeThreadID | retire =>
    simp only [Pool.workerStep, hst]
    exact .refl rfl
  | opening =>
    simp only [Pool.workerStep, hst]
    split
    · rename_i hf
      exact absurd ⟨hf, Or.inl hst⟩ h
    · exact .refl rfl
  | running =>
    simp only [Pool.workerStep, hst]
    split
    · rename_i hab
      rw [Bool.and_eq_true] at hab
      exact absurd ⟨hab.2, Or.inr ⟨hst, hab.1⟩⟩ h
    · split
      · split
        · exact hproceed
        · exact .refl rfl
      · split
        · exact .refl rfl
        · exact hproceed
      · exact hproceed
  | compareActiveSockets | wait =>
    simp only [Pool.workerStep, hst]
    split
    · exact .refl rfl
    · exact hproceed
  | writeActiveSockets =>
    simp only [Pool.workerStep, hst]
    exact hproceed

/-- What the server does in a run without early returns is a run of the server, with `LAZIEST_WORKER.threadID` as its input. -/
theorem serverRuns_of_clean {schedule : List (PoolAction c)} (hs : s.Sound) (h : Machine.Each Pool.step Clean s schedule) :
    ServerRuns s (Machine.run Pool.step s schedule) := by
  induction schedule generalizing s with
  | nil => exact .refl rfl
  | cons a schedule ih =>
    obtain ⟨as, has⟩ : ServerRuns s (s.step a) := by
      cases a with
      | main fails e => exact serverRuns_mainStep hs fails e h.1
      | worker w fails e => exact serverRuns_workerStep fails e h.1
      | sigint =>
        simp only [Pool.step]
        split
        · exact ⟨[.sigint], rfl⟩
        · exact .refl rfl
    obtain ⟨bs, hbs⟩ := ih (hs.step a) h.2
    exact ⟨as ++ bs, by rw [Machine.run_append, has]; exact hbs⟩

/-! ## Who serves, and who is named -/

/-- The workers in their service loop, and the one that `LAZIEST_WORKER.threadID` names. -/
def roster (s : Pool c) : Roster (Fin c.workerthreads) :=
  { serving := {w | s.Serving w}, named := ownerOf s.laziest.threadID }

/-- What a step is to the roster. -/
def event (s : Pool c) : PoolAction c → Event (Fin c.workerthreads)
  | .worker w fails _ =>
    if s.Aborts w fails then .leave w
    else
      match s.stages w with
      | .opening => .enter w
      | .writeThreadID => .claim w
      | _ => .idle
  | _ => .idle

theorem manned_iff : s.roster.Manned ↔ ((∃ w, s.Serving w) → ∃ w, s.laziest.threadID = tid w ∧ s.Serving w) := by
  constructor
  · intro h hne
    obtain ⟨w, hw, hnamed⟩ := h hne
    exact ⟨w, (ownerOf_eq_some_iff.1 hnamed).symm, hw⟩
  · intro h hne
    obtain ⟨w, hid, hw⟩ := h hne
    exact ⟨w, hw, ownerOf_eq_some_iff.2 hid.symm⟩

/-- The roster after the step of a worker, told by what becomes of the worker. -/
theorem roster_of_frame {s' : Pool c} (hf : Frame s s' w) {r : Roster (Fin c.workerthreads)}
    (hw : s'.Serving w ↔ w ∈ r.serving) (hr : ∀ v, v ≠ w → (v ∈ r.serving ↔ s.Serving v))
    (hn : r.named = ownerOf s'.laziest.threadID) : s'.roster = r := by
  obtain ⟨serving, named⟩ := r
  simp only [roster, Roster.mk.injEq]
  refine ⟨Set.ext fun v => ?_, hn.symm⟩
  by_cases hv : v = w
  · rw [hv]
    exact hw
  · exact (hf.serving hv).trans (hr v hv).symm

/-- The step of a worker is an event on the roster. -/
theorem roster_workerStep (hs : s.Unstopped) (fails : Bool) (e : Answers) :
    (Pool.workerStep w fails e s).roster = s.roster.after (s.event (.worker w fails e)) := by
  have hf : Frame s (Pool.workerStep w fails e s) w := workerStep_frame fails e
  rcases workerStep_cases (w := w) fails e hs with ⟨hab, heq⟩ | ⟨hab, hst, heq⟩ | ⟨hab, hserves⟩ | ⟨hst, heq⟩
  · rw [event, if_pos hab]
    refine roster_of_frame hf ?_ (fun v hv => ?_) (by rw [heq]; rfl)
    · rw [heq]
      simp [Serving, Pool.abort, Stage.serving, setStage, Roster.after]
    · simp [Roster.after, roster, hv]
  · rw [event, if_neg hab, hst]
    refine roster_of_frame hf ?_ (fun v hv => ?_) (by rw [heq]; rfl)
    · rw [heq]
      exact ⟨fun _ => Set.mem_insert w _, fun _ => hs.serving_setStage (Or.inr hst)⟩
    · simp [Roster.after, roster, hv]
  · have hsame : ∀ r : Roster (Fin c.workerthreads), r.serving = s.roster.serving →
        r.named = ownerOf (Pool.workerStep w fails e s).laziest.threadID → (Pool.workerStep w fails e s).roster = r := by
      intro r hr hn
      refine roster_of_frame hf ?_ (fun v _ => ?_) hn
      · rw [hr]
        exact ⟨fun _ => hserves.before, fun _ => hserves.after⟩
      · rw [hr]
        exact Iff.rfl
    have hid := hserves.threadID
    rw [event, if_neg hab]
    have hserving := hserves.before.1
    cases hst : s.stages w with
    | unborn | opening | retire | wait | aborted =>
      rw [hst] at hserving
      cases hserving
    | writeThreadID =>
      rw [hst, if_pos rfl] at hid
      exact hsame _ rfl (by rw [hid, ownerOf_tid]; rfl)
    | running | compareThreadID | compareActiveSockets | writeActiveSockets =>
      rw [hst, if_neg (by simp)] at hid
      exact hsame _ rfl (by rw [hid]; rfl)
  · have hab : ¬s.Aborts w fails := by
      rintro ⟨-, h | ⟨h, -⟩⟩
      · rcases hst with hst | hst
        · rw [hst] at h
          cases h
        · rw [hst] at h
          cases h
      · rcases hst with hst | hst
        · rw [hst] at h
          cases h
        · rw [hst] at h
          cases h
    rw [heq, event, if_neg hab]
    rcases hst with hst | hst
    · rw [hst]
      rfl
    · rw [hst]
      rfl

end Pool

end Traccoon
