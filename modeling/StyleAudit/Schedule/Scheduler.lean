/-! # Scheduling passes

One pass runs at a time. A request while a pass runs cancels the pass and leaves one more pending,
however many requests come. Each request and the shutdown begin a new generation; a pass belongs to
the generation in which it started, and is cancelled as soon as another one begins.

* **`Scheduler`** — the state that requests and passes share.
* **`Event`**, **`Scheduler.step?`** — what may happen, and what it changes.
* **`Ticket`** — what tells a pass whether it is cancelled. -/

namespace StyleAudit.Schedule

/-- What a pass is given when it starts: the generation that it belongs to. -/
structure Ticket where
  generation : UInt64
  deriving DecidableEq, Repr, Inhabited

/-- The state that requests and passes share. -/
structure Scheduler where
  /-- Whether a pass is to be started. -/
  pending : Bool := false
  /-- Whether a pass is running. -/
  running : Bool := false
  /-- Whether no more passes are to be started. -/
  closed : Bool := false
  /-- The number of passes that have started. -/
  passes : UInt64 := 0
  generation : UInt64 := 0
  deriving DecidableEq, Repr, Inhabited

/-- What may happen. -/
inductive Event where
  | request
  /-- The worker starts a pass. -/
  | start
  /-- The running pass ends, by itself or, if it failed, by a fault. -/
  | finish (failed : Bool)
  | shutdown
  deriving DecidableEq, Repr

/-- Whether a pass was cancelled. -/
def Ticket.isCancelled (t : Ticket) (s : Scheduler) : Bool := s.generation != t.generation

namespace Scheduler

/-- Asks for a pass, and cancels the one that runs. -/
def request (s : Scheduler) : Scheduler :=
  { s with pending := true, generation := s.generation + 1 }

/-- Whether the worker may start a pass. -/
def mayStart (s : Scheduler) : Bool := s.pending && !s.running && !s.closed

/-- Starts a pass. -/
def start (s : Scheduler) : Scheduler :=
  { s with pending := false, running := true, passes := s.passes + 1 }

/-- The ticket of a pass that starts now. -/
def ticket (s : Scheduler) : Ticket := ⟨s.generation⟩

/-- Ends the pass that runs. -/
def finish (s : Scheduler) : Scheduler := { s with running := false }

/-- Cancels the pass that runs, drops the pending one and starts no more. -/
def shutdown (s : Scheduler) : Scheduler :=
  { s with closed := true, pending := false, generation := s.generation + 1 }

/-- Whether no pass is running or pending. -/
def isIdle (s : Scheduler) : Bool := !s.pending && !s.running

/-- What an event changes; none if it cannot happen. -/
def step? (s : Scheduler) : Event → Option Scheduler
  | .request => some s.request
  | .start => if s.mayStart then some s.start else none
  | .finish _ => if s.running then some s.finish else none
  | .shutdown => some s.shutdown

/-- The state after a list of events; none if one of them cannot happen. -/
def run? (s : Scheduler) : List Event → Option Scheduler
  | [] => some s
  | e :: es => (s.step? e).bind fun s => s.run? es

end Scheduler

end StyleAudit.Schedule
