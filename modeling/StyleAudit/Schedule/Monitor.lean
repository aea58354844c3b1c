import StyleAudit.Schedule.Scheduler

/-! # A caller and the worker

A caller and the worker share the state of a scheduler under one lock. The worker takes the lock to
look what there is to do: it ends when the scheduler is closed, starts the pending pass, or falls
asleep. A caller that waits until no pass is running or pending falls asleep in the same way. Every
change that somebody may be waiting for wakes all who are asleep, and they look again.

* **`Call`** — what a caller may ask for.
* **`WorkerStage`**, **`CallerStage`** — what the two are about to do.
* **`Monitor`** — the shared state, the worker and the caller.
* **`Move`**, **`Monitor.step?`** — what may happen, and what it changes. -/

namespace StyleAudit.Schedule

/-- What a caller may ask for. -/
inductive Call where
  | request
  /-- Waits until no pass is running or pending. -/
  | awaitIdle
  /-- Asks for the number of passes that have started. -/
  | count
  /-- Shuts the scheduler down and waits for the worker to end. -/
  | shutdown
  deriving DecidableEq, Repr

/-- What the worker is about to do. -/
inductive WorkerStage where
  /-- It looks what there is to do. -/
  | looking
  /-- It sleeps until it is woken. -/
  | asleep
  /-- It runs a pass. -/
  | busy
  /-- It has ended. -/
  | gone
  deriving DecidableEq, Repr

/-- What the caller is about to do. -/
inductive CallerStage where
  /-- It may ask for something. -/
  | free
  /-- It looks whether a pass is running or pending. -/
  | looking
  /-- It sleeps until it is woken. -/
  | asleep
  /-- It waits for the worker to end. -/
  | joining
  deriving DecidableEq, Repr

/-- The worker after all who are asleep were woken. -/
def WorkerStage.woken : WorkerStage → WorkerStage
  | asleep => looking
  | s => s

/-- The caller after all who are asleep were woken. -/
def CallerStage.woken : CallerStage → CallerStage
  | asleep => looking
  | s => s

/-- The shared state, the worker and the caller. -/
structure Monitor where
  scheduler : Scheduler := {}
  worker : WorkerStage := .looking
  caller : CallerStage := .free
  deriving DecidableEq, Repr

/-- What may happen. -/
inductive Move where
  | call (c : Call)
  /-- The waiting caller looks whether a pass is running or pending. -/
  | look
  /-- The caller sees that the worker has ended. -/
  | join
  /-- The worker starts the pending pass. -/
  | start
  /-- The worker finds nothing to do. -/
  | doze
  /-- The worker finds the scheduler closed. -/
  | leave
  /-- The running pass ends, by itself or, if it failed, by a fault. -/
  | finish (failed : Bool)
  deriving DecidableEq, Repr

namespace Monitor

/-- Changes the shared state, and wakes all who are asleep. -/
def change (m : Monitor) (s : Scheduler) : Monitor := ⟨s, m.worker.woken, m.caller.woken⟩

/-- What a call changes. -/
def answer (m : Monitor) : Call → Monitor
  | .request => m.change m.scheduler.request
  | .awaitIdle => { m with caller := .looking }
  | .count => m
  | .shutdown => { m.change m.scheduler.shutdown with caller := .joining }

/-- What a move changes; none if it cannot happen. -/
def step? (m : Monitor) : Move → Option Monitor
  | .call c => if m.caller = .free then some (m.answer c) else none
  | .look =>
      if m.caller = .looking then
        some { m with caller := if m.scheduler.isIdle then .free else .asleep }
      else none
  | .join => if m.caller = .joining ∧ m.worker = .gone then some { m with caller := .free } else none
  | .start =>
      if m.worker = .looking ∧ m.scheduler.pending ∧ !m.scheduler.closed then
        some { m with scheduler := m.scheduler.start, worker := .busy }
      else none
  | .doze =>
      if m.worker = .looking ∧ !m.scheduler.pending ∧ !m.scheduler.closed then
        some { m with worker := .asleep }
      else none
  | .leave =>
      if m.worker = .looking ∧ m.scheduler.closed then some { m with worker := .gone } else none
  | .finish _ =>
      if m.worker = .busy then
        some { m.change m.scheduler.finish with worker := .looking }
      else none

/-- The state after a list of moves; none if one of them cannot happen. -/
def run? (m : Monitor) : List Move → Option Monitor
  | [] => some m
  | a :: as => (m.step? a).bind fun m => m.run? as

end Monitor

end StyleAudit.Schedule
