import Traccoon.Workers

/-!
# `traccoon.c`: when the main thread prunes

Behind each turn of the accept loop the main thread looks at the clock, and prunes the peers when it has not done so for three announce
intervals. The calls of the workers go on beside that, one statement at a time. `timeNow` keeps its value when the clock fails, and
`timeLast` is moved in front of the prune, whatever becomes of it. Times are the seconds of a `time_t`.
-/

namespace Traccoon

variable {ι : Type}

/-- The tables and the calls in flight, and what the accept loop keeps; `ended` says that it has been left. `latest`, `prunes` and `pruned`
record what has happened: the time that the main thread read last, how often the peers have been pruned, and whether the last prune
succeeded. -/
structure Upkeep (ι : Type) where
  tracker : Tracker ι
  timeNow : Int
  timeLast : Int
  killserver : Bool
  ended : Bool
  latest : Int
  prunes : Nat
  pruned : Option Bool

/-- A step: the next statement of a call; what is done behind an `accept`, with the clock it finds and the answers to a prune; or the signal
handler. -/
inductive UpkeepAction (ι : Type) where
  | call (i : ι) (e : StmtEnv)
  | pass (clock : Option Int) (e : StmtEnv)
  | sigint

/-- The times that the main thread reads in a step, in order. -/
def UpkeepAction.readings : UpkeepAction ι → List Int
  | .call _ _ => []
  | .pass clock e => clock.toList ++ e.clock.toList
  | .sigint => []

/-- The clock stays below 2^31 and does not go back while the main thread reads it. A call reads it before its statement is run, and other
threads may have read later times until then, but no time that is more than three announce intervals later. -/
def UpkeepAction.Timely (announceInterval latest : Int) : UpkeepAction ι → Prop
  | .call _ e => ∀ t ∈ e.clock.toList, 0 ≤ t ∧ latest - 3 * announceInterval ≤ t ∧ t < 2147483648
  | .pass clock e =>
    (latest :: (clock.toList ++ e.clock.toList)).Pairwise (· ≤ ·) ∧ ∀ t ∈ clock.toList ++ e.clock.toList, t < 2147483648
  | .sigint => True

instance (announceInterval latest : Int) : ∀ a : UpkeepAction ι, Decidable (a.Timely announceInterval latest)
  | .call _ _ => inferInstanceAs (Decidable (∀ _ ∈ _, _))
  | .pass _ _ => inferInstanceAs (Decidable (_ ∧ _))
  | .sigint => isTrue trivial

namespace Upkeep

/-- The server when the accept loop begins, some time after `gettimeofday(&timeLast,NULL)`. -/
def start (db : Db) (now : Int) : Upkeep ι :=
  { tracker := Tracker.start db, timeNow := 0, timeLast := now, killserver := false, ended := false, latest := now, prunes := 0,
    pruned := none }

/-- `if(gettimeofday(&timeNow,NULL))`. -/
def readClock (s : Upkeep ι) : Option Int → Upkeep ι
  | some now => { s with timeNow := now }
  | none => { s with killserver := true }

variable [DecidableEq ι]

/-- "check if its time for pruning". -/
def checkPrune (calls : ι → Call) (announceInterval : Int) (s : Upkeep ι) (e : StmtEnv) : Upkeep ι :=
  if s.timeNow - s.timeLast ≥ 3 * announceInterval then
    { s with
      timeLast := s.timeNow
      tracker := s.tracker.step calls (.prune (3 * announceInterval) e)
      prunes := s.prunes + 1
      pruned := some (decide ((prunePeers s.tracker.db (3 * announceInterval) e).1 = 0)) }
  else s

/-- One step. -/
def step (calls : ι → Call) (announceInterval : Int) (s : Upkeep ι) (a : UpkeepAction ι) : Upkeep ι :=
  let latest := a.readings.getLastD s.latest
  match a with
  | .call i e => { s with tracker := s.tracker.step calls (.call i e) }
  | .pass clock e =>
    if s.ended then s
    else
      let s := (s.readClock clock).checkPrune calls announceInterval e
      { s with ended := s.killserver, latest := latest }
  | .sigint => { s with killserver := true }

end Upkeep

end Traccoon
