import Traccoon.Lemmas.PoolStep

/-!
# The worker that connections are assigned to

The main thread makes the first worker the laziest before any has opened the database, and after that the workers alone change
`LAZIEST_WORKER.threadID`. The early returns of `workerthread` skip the cleanup, which would give it up; a worker that has returned so
stays the one named until another finds a smaller count than the one it left, and there is none below 0. So the worker named is in its
service loop, whenever any worker is, in exactly those runs in which no step brings another one into service while it is not, or takes
it out of service before the others (`laziest_serves_iff`).
-/

namespace Traccoon

open Duty

variable {c : Config}

namespace Pool

/-- The worker named is in its service loop, if the main thread accepts connections and any worker is there. -/
def LaziestServes (s : Pool c) : Prop :=
  s.Accepting → (∃ w, s.Serving w) → ∃ w, s.laziest.threadID = tid w ∧ s.Serving w

/-- The step does not take the worker named out of service before the others, or leave it out when others come into service: the
accept loop begins with the first worker in its loop, or with none; the worker named returns early only after the others; and while it
is not in its loop no other worker comes to its own. -/
def Keeps (s : Pool c) : PoolAction c → Prop
  | .main fails _ => s.startup = .listen false → fails = false → (∃ w, s.Serving w) → ∃ w, tid w = 1 ∧ s.Serving w
  | .worker w fails _ =>
    s.Accepting →
      (s.Aborts w fails → s.laziest.threadID = tid w → ∀ v, s.Serving v → v = w) ∧
      (s.stages w = .opening → fails = false → s.laziest.threadID ≠ tid w → ∃ v, s.laziest.threadID = tid v ∧ s.Serving v)
  | .sigint => True

instance (s : Pool c) (a : PoolAction c) : Decidable (s.Keeps a) :=
  match a with
  | .main _ _ => inferInstanceAs (Decidable (_ → _ → _ → _))
  | .worker _ _ _ => inferInstanceAs (Decidable (_ → _ ∧ _))
  | .sigint => isTrue trivial

end Pool

namespace LaziestWorkerAux

open Pool

variable {s : Pool c} {w : Fin c.workerthreads}

/-- The roster stays manned in a step of a worker as the step is one of those allowed. -/
theorem admits_iff (hs : s.Unstopped) (fails : Bool) (e : Answers) (h : s.Accepting) :
    s.roster.Admits (s.event (.worker w fails e)) ↔ s.Keeps (.worker w fails e) := by
  have hnamed : ∀ v, s.roster.named = some v ↔ s.laziest.threadID = tid v := fun v => ownerOf_eq_some_iff.trans eq_comm
  rw [Pool.Keeps]
  by_cases hab : s.Aborts w fails
  · rw [event, if_pos hab, Roster.Admits, hnamed]
    constructor
    · intro hadmits _
      refine ⟨fun _ => hadmits, fun _ hf => ?_⟩
      rw [hab.1] at hf
      cases hf
    · intro hkeeps
      exact (hkeeps h).1 hab
  rw [event, if_neg hab]
  by_cases hst : s.stages w = .opening
  · rw [hst]
    simp only [Roster.Admits, ne_eq, hnamed]
    constructor
    · intro hadmits _
      refine ⟨fun h => absurd h hab, fun _ _ hne => ?_⟩
      obtain ⟨v, hv, hid⟩ := hadmits hne
      exact ⟨v, hid, hv⟩
    · intro hkeeps hne
      have hf : fails = false := by
        cases fails with
        | false => rfl
        | true => exact absurd ⟨rfl, Or.inl hst⟩ hab
      obtain ⟨v, hid, hv⟩ := (hkeeps h).2 trivial hf hne
      exact ⟨v, hv, hid⟩
  · have hkeeps : s.Accepting → (s.Aborts w fails → s.laziest.threadID = tid w → ∀ v, s.Serving v → v = w) ∧
        (s.stages w = .opening → fails = false → s.laziest.threadID ≠ tid w → ∃ v, s.laziest.threadID = tid v ∧ s.Serving v) :=
      fun _ => ⟨fun h => absurd h hab, fun h => absurd h hst⟩
    refine ⟨fun _ => hkeeps, fun _ => ?_⟩
    cases hst' : s.stages w with
    | writeThreadID =>
      intro _
      exact hs.serving (by simp [hst']) (by simp [hst']) (by simp [hst'])
    | opening => exact absurd hst' hst
    | unborn | running | compareThreadID | compareActiveSockets | writeActiveSockets | retire | wait | aborted => trivial

/-- A step of a worker. -/
theorem laziestServes_workerStep (hs : s.Sound) (h : s.LaziestServes) (fails : Bool) (e : Answers) :
    (s.step (.worker w fails e)).LaziestServes ↔ s.Keeps (.worker w fails e) := by
  have hf : Frame s (Pool.workerStep w fails e s) w := Pool.workerStep_frame fails e
  have haccepting : (s.step (.worker w fails e)).Accepting ↔ s.Accepting := by
    rw [Accepting, Accepting, show (s.step (.worker w fails e)).startup = _ from hf.startup,
      show (s.step (.worker w fails e)).server.main = _ from hf.main]
  by_cases ha : s.Accepting
  · have hs' : s.Unstopped := by
      rcases hs with ⟨-, hm⟩ | ⟨hs, -⟩
      · rw [ha.2] at hm
        cases hm
      · exact hs
    rw [← admits_iff hs' fails e ha, ← Roster.manned_after_iff (manned_iff.2 (h ha)), ← roster_workerStep hs' fails e, manned_iff]
    exact ⟨fun h => h (haccepting.2 ha), fun h _ => h⟩
  · exact ⟨fun _ h => absurd h ha, fun _ h => absurd (haccepting.1 h) ha⟩

theorem laziestServes_of_not_accepting (h : ¬s.Accepting) : s.LaziestServes := fun ha => absurd ha h

/-- The accept loop begins. -/
theorem laziestServes_listen (hs : s.Sound) (hst : s.startup = .listen false) :
    (s.setStartup .running).LaziestServes ↔ ((∃ w, s.Serving w) → ∃ w, tid w = 1 ∧ s.Serving w) := by
  have he : s.Early := by
    rcases hs with ⟨h, -⟩ | ⟨-, h⟩
    · rw [hst] at h
      cases h
    · exact h (by simp [hst])
  have hid : s.laziest.threadID = 1 := by
    rw [he.threadID, hst]
    rfl
  have ha : (s.setStartup .running).Accepting := by
    refine ⟨rfl, ?_⟩
    rw [show (s.setStartup .running).server.main = _ from he.main]
    rfl
  have hsame : (∃ w, s.laziest.threadID = tid w ∧ s.Serving w) ↔ ∃ w, tid w = 1 ∧ s.Serving w := by
    simp only [hid, eq_comm]
  rw [← hsame]
  exact ⟨fun h => h ha, fun h _ => h⟩

/-- A step of the main thread. Once it has named the first worker it changes neither who serves nor who is named. -/
theorem laziestServes_mainStep (hs : s.Sound) (h : s.LaziestServes) (fails : Bool) (e : Answers) :
    (s.step (.main fails e)).LaziestServes ↔ s.Keeps (.main fails e) := by
  rw [Pool.Keeps, Pool.step]
  cases hst : s.startup with
  | create i =>
    refine ⟨fun _ h => (by cases h), fun _ => laziestServes_of_not_accepting ?_⟩
    simp only [Pool.mainStep, hst]
    split
    · split
      · exact fun h => by cases h.1
      · exact fun h => by cases h.1
    · exact fun h => by cases h.1
  | setThreadID failed | setActiveSockets failed =>
    refine ⟨fun _ h => (by cases h), fun _ => laziestServes_of_not_accepting ?_⟩
    simp only [Pool.mainStep, hst]
    exact fun h => by cases h.1
  | listen failed =>
    simp only [Pool.mainStep, hst]
    cases failed with
    | true => exact ⟨fun _ h => (by cases h), fun _ => laziestServes_of_not_accepting fun h => by cases h.2⟩
    | false =>
      cases fails with
      | true => exact ⟨fun _ _ h => (by cases h), fun _ => laziestServes_of_not_accepting fun h => by cases h.2⟩
      | false =>
        refine (laziestServes_listen hs hst).trans ?_
        exact ⟨fun h _ _ => h, fun h => h rfl rfl⟩
  | running =>
    refine ⟨fun _ h => (by cases h), fun _ => ?_⟩
    rintro ⟨-, hm⟩ ⟨w, hw⟩
    have hmain : s.server.main.accepts = true := by
      by_contra hne
      simp only [Pool.mainStep, hst] at hm
      rw [mainStep_accepts _ (Bool.eq_false_iff.2 hne)] at hm
      cases hm
    have hserving : ∀ v, (Pool.mainStep fails e s).Serving v ↔ s.Serving v := by
      intro v
      simp only [Pool.mainStep, hst, Serving, mainStep_workers]
    obtain ⟨v, hid, hv⟩ := h ⟨hst, hmain⟩ ⟨w, (hserving w).1 hw⟩
    refine ⟨v, ?_, (hserving v).2 hv⟩
    simp only [Pool.mainStep, hst]
    exact hid

/-- A signal sets a flag. -/
theorem laziestServes_sigint (h : s.LaziestServes) : (s.step .sigint).LaziestServes := by
  rw [Pool.step]
  split
  · exact h
  · exact h

end LaziestWorkerAux

open LaziestWorkerAux

/-- In every state of a run in which the main thread accepts connections and any worker is in its service loop, the worker that
`LAZIEST_WORKER.threadID` names is, in exactly those runs all of whose steps keep that. -/
theorem laziest_serves_iff (c : Config) (schedule : List (PoolAction c)) :
    (∀ s, Pool.Visits c schedule s → s.LaziestServes) ↔ Machine.Each Pool.step Pool.Keeps (Pool.start c) schedule := by
  have hstart : (Pool.start c).LaziestServes := laziestServes_of_not_accepting (fun h => by cases h.1)
  have hsound : ∀ (s : Pool c) a, s.Sound → (s.step a).Sound := fun _ a hs => hs.step a
  refine Machine.visits_iff_each hsound ?_ (Pool.sound_start c) hstart
  intro s a hs h
  cases a with
  | main fails e => exact laziestServes_mainStep hs h fails e
  | worker w fails e => exact laziestServes_workerStep hs h fails e
  | sigint => exact ⟨fun _ => trivial, fun _ => laziestServes_sigint h⟩

/-- Two workers. -/
def twoWorkers : Config := { workerthreads := 2, queuesize := 1, pos := Nat.one_pos }

/-- What the calls below are answered with: nothing is accepted and nothing handled. -/
def nothingHappens : Answers := { accept := none, clockFails := false, laziest := 0, handled := false }

def mainThread : PoolAction twoWorkers := .main false nothingHappens

def firstWorker (fails : Bool) : PoolAction twoWorkers := .worker ⟨0, by decide⟩ fails nothingHappens

def secondWorker (fails : Bool) : PoolAction twoWorkers := .worker ⟨1, by decide⟩ fails nothingHappens

/-- The main thread creates two workers and names the first. -/
def createTwo : List (PoolAction twoWorkers) := List.replicate 5 mainThread

/-- Both open the database before the accept loop begins, and they are in their loops when SIGINT ends it. -/
theorem laziest_serves_iff_both_open :
    ∀ s, Pool.Visits twoWorkers
      (createTwo ++ [secondWorker false, firstWorker false, mainThread, secondWorker false, mainThread, .sigint]) s → s.LaziestServes :=
  (laziest_serves_iff twoWorkers _).2 (by decide)

/-- The first worker fails to open the database and the second one serves: what the main thread accepts is assigned to the first. -/
theorem not_laziest_serves_open_fails :
    ∃ s, Pool.Visits twoWorkers (createTwo ++ [firstWorker true, secondWorker false, mainThread]) s ∧ ¬s.LaziestServes := by
  refine ⟨_, Machine.visits_end _ _ _, ?_⟩
  rw [Pool.LaziestServes]
  decide

end Traccoon
