import StyleAudit.Schedule.Scheduler

/-! # Trials of a scheduler

A trial drives a scheduler by hand and notes what can be seen after each action. A pass waits until
it is released, either to end at once or to run until it is cancelled.

* **`Action`** — what is done in a trial.
* **`Observation`** — what is seen after an action.
* **`Trial.run`** — the observations of a trial, and how its passes ended. -/

namespace StyleAudit.Schedule

/-- What is done in a trial. -/
inductive Action where
  | request
  /-- Waits for the next pass to start. -/
  | awaitStart
  /-- Lets the running pass end. -/
  | finish
  /-- Lets the running pass fail. -/
  | fail
  /-- Lets the running pass run until it is cancelled. -/
  | release
  /-- Waits for a released pass to end. -/
  | awaitEnd
  | awaitIdle
  /-- Asks for the number of passes. -/
  | count
  | shutdown
  deriving DecidableEq, Repr

/-- How a pass ended. -/
inductive Ending where
  | completed
  | superseded
  | failed
  deriving DecidableEq, Repr

/-- What is seen after an action. -/
structure Observation where
  action : Action
  /-- For each pass that was seen to start, whether it is cancelled. -/
  cancelled : List Bool
  /-- The number of passes that have started. -/
  passes : Option UInt64
  /-- Whether the pass that ended was cancelled. -/
  ended : Option Bool
  deriving Repr

/-- A scheduler that is driven by hand. -/
structure Trial where
  scheduler : Scheduler := {}
  /-- The tickets of the passes that were seen to start. -/
  tickets : List Ticket := []
  /-- Whether the running pass runs only until it is cancelled. -/
  released : Bool := false
  endings : List Ending := []

namespace Trial

/-- Whether the last pass that started is cancelled. -/
def lastCancelled (t : Trial) : Bool := t.tickets.getLast?.any (·.isCancelled t.scheduler)

/-- Lets something happen to the scheduler, if it can. -/
def advance (t : Trial) (e : Event) : Trial :=
  { t with scheduler := (t.scheduler.step? e).getD t.scheduler }

/-- Ends the running pass. -/
def endPass (t : Trial) (failed : Bool) : Trial :=
  let ending :=
    if failed then Ending.failed else if t.lastCancelled then .superseded else .completed
  { t.advance (.finish failed) with released := false, endings := t.endings ++ [ending] }

/-- A released pass ends as soon as it is cancelled. -/
def settle (t : Trial) : Trial :=
  if t.released && t.scheduler.running && t.lastCancelled then t.endPass false else t

/-- Performs an action. -/
def act (t : Trial) (a : Action) : Trial :=
  match a with
  | .request => (t.advance .request).settle
  | .awaitStart =>
      if t.scheduler.mayStart then
        { t.advance .start with tickets := t.tickets ++ [t.scheduler.ticket] }
      else t
  | .finish => t.endPass false
  | .fail => t.endPass true
  | .release => { t with released := true }.settle
  | .shutdown => (t.advance .shutdown).settle
  | .awaitEnd | .awaitIdle | .count => t

/-- What is seen after an action. -/
def observe (t : Trial) (a : Action) : Observation where
  action := a
  cancelled := t.tickets.map (·.isCancelled t.scheduler)
  passes :=
    match a with
    | .awaitStart | .awaitIdle | .count | .shutdown => some t.scheduler.passes
    | _ => none
  ended :=
    match a with
    | .finish | .fail | .awaitEnd => some t.lastCancelled
    | _ => none

/-- The observations of a trial, and the state after it. -/
def runFrom (t : Trial) : List Action → List Observation × Trial
  | [] => ([], t)
  | a :: actions =>
      let t := t.act a
      let (seen, last) := t.runFrom actions
      (t.observe a :: seen, last)

/-- The observations of a trial, and how its passes ended. -/
def run (actions : List Action) : List Observation × List Ending :=
  let (seen, last) := runFrom {} actions
  (seen, last.endings)

end Trial

end StyleAudit.Schedule
