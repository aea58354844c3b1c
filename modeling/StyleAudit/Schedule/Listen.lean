import StyleAudit.Schedule.Scheduler

/-! # Passes on request

A listener asks for a pass at first and for one more with each line that it reads. A worker runs the
passes. A pass analyses files and hands its result over, unless it finds itself cancelled: it looks
when its analysis is complete, and once more before it hands the result over. The listener prints
the results that were handed over, one by one: after each line, and when all is done. Reading and
passes go on side by side, so their steps may come in many orders.

* **`Progress`**, **`Progress.next?`** — how far a pass has come, and what it does next.
* **`Stage`** — what the listener is about to do.
* **`Listener ρ`** — a listener whose passes have results of type `ρ`.
* **`ListenEvent`**, **`Listener.step?`** — what may happen, and what it changes.
* **`Listener.serve`** — the run in which each pass ends before the next line is read. -/

namespace StyleAudit.Schedule

/-! ## Passes -/

/-- How far a pass has come. -/
inductive Progress (ρ : Type) where
  /-- It collects files and analyses them. -/
  | working
  /-- Its analysis is complete. -/
  | found (result : ρ)
  /-- It is about to hand its result over. -/
  | cleared (result : ρ)
  /-- It has handed its result over. -/
  | delivered (result : ρ)
  /-- It has found itself cancelled. -/
  | superseded
  /-- Its files could not be collected or analysed. -/
  | failed
  deriving DecidableEq, Repr

/-- What a pass does. -/
inductive PassStep (ρ : Type) where
  /-- It gives up, since its files cannot be collected or analysed. -/
  | abandon
  /-- Its analysis comes to an end and looks whether the pass is cancelled; `result` is what it
  found. -/
  | analyze (result : ρ)
  /-- It looks once more whether it is cancelled. -/
  | look
  /-- It hands its result over. -/
  | deliver
  deriving DecidableEq, Repr

namespace Progress

/-- How far a pass has come after a step, if it sees itself cancelled or not; none if it cannot take
the step. -/
def next? (cancelled : Bool) : Progress ρ → PassStep ρ → Option (Progress ρ)
  | working, .abandon => some failed
  | working, .analyze r => some (if cancelled then superseded else found r)
  | found r, .look => some (if cancelled then superseded else cleared r)
  | cleared r, .deliver => some (delivered r)
  | _, _ => none

/-- Whether nothing is left to do. -/
def isOver : Progress ρ → Bool
  | delivered _ | superseded | failed => true
  | _ => false

/-- The result that was handed over. -/
def delivered? : Progress ρ → Option ρ
  | delivered r => some r
  | _ => none

end Progress

/-- A pass that has started. -/
structure PassRecord (ρ : Type) where
  /-- How many lines had been read when it started. -/
  linesRead : Nat
  progress : Progress ρ := .working
  /-- Whether it was ended by a fault. -/
  faulted : Bool := false
  deriving DecidableEq, Repr

/-- A result that was handed over, with the number of its pass; the first pass has the number 0. -/
structure Delivery (ρ : Type) where
  pass : Nat
  result : ρ
  deriving DecidableEq, Repr

/-! ## Listeners -/

/-- What the listener is about to do. -/
inductive Stage where
  /-- It reads the next line. -/
  | reading
  /-- It asks for a pass, since it has read a line. -/
  | requesting
  /-- It prints what was handed over so far. -/
  | printing
  /-- All lines are read. It waits until no pass is running or pending. -/
  | waiting
  /-- It shuts the scheduler down. -/
  | stopping
  /-- It waits for the worker to end. -/
  | joining
  /-- It prints what is left. -/
  | closing
  /-- It has returned. -/
  | returned
  deriving DecidableEq, Repr

/-- What comes after printing. -/
def Stage.afterPrinting? : Stage → Option Stage
  | printing => some reading
  | closing => some returned
  | _ => none

/-- A listener. -/
structure Listener (ρ : Type) where
  scheduler : Scheduler := {}
  stage : Stage := .reading
  linesRead : Nat := 0
  /-- The passes that have ended, in the order in which they ran. -/
  ended : List (PassRecord ρ) := []
  /-- The pass that is running, and its ticket. -/
  running : Option (Ticket × PassRecord ρ) := none
  /-- The results that have not been printed. -/
  mailbox : List (Delivery ρ) := []
  /-- The results that have been printed. -/
  printed : List (Delivery ρ) := []
  /-- How many results the listener has counted when it printed them. -/
  reported : UInt64 := 0
  deriving DecidableEq, Repr

/-- What may happen. -/
inductive ListenEvent (ρ : Type) where
  /-- A line is read. -/
  | line
  /-- The listener asks for a pass. -/
  | request
  /-- The first of the results that were handed over is printed. -/
  | print
  /-- Nothing is left to print. -/
  | drained
  /-- The lines are at their end. -/
  | endOfLines
  /-- The listener sees that no pass is running or pending. -/
  | idle
  | shutdown
  /-- The worker has ended. -/
  | join
  /-- The worker starts a pass. -/
  | start
  /-- The running pass does something. -/
  | pass (step : PassStep ρ)
  /-- The running pass ends, by itself or, if it failed, by a fault. -/
  | finish (failed : Bool)
  deriving DecidableEq, Repr

namespace Listener

/-- The state after the first request. -/
def start : Listener ρ := { scheduler := Scheduler.request {} }

/-- The passes that have started, in the order in which they did. -/
def passes (l : Listener ρ) : List (PassRecord ρ) := l.ended ++ l.running.toList.map (·.2)

/-- What an event changes; none if it cannot happen. -/
def step? (l : Listener ρ) : ListenEvent ρ → Option (Listener ρ)
  | .line =>
      if l.stage = .reading then
        some { l with stage := .requesting, linesRead := l.linesRead + 1 }
      else none
  | .request =>
      if l.stage = .requesting then
        some { l with stage := .printing, scheduler := l.scheduler.request }
      else none
  | .print =>
      match l.stage.afterPrinting?, l.mailbox with
      | some _, d :: rest =>
          some { l with mailbox := rest, printed := l.printed ++ [d], reported := l.reported + 1 }
      | _, _ => none
  | .drained =>
      match l.stage.afterPrinting?, l.mailbox with
      | some stage, [] => some { l with stage := stage }
      | _, _ => none
  | .endOfLines => if l.stage = .reading then some { l with stage := .waiting } else none
  | .idle =>
      if l.stage = .waiting ∧ l.scheduler.isIdle then some { l with stage := .stopping } else none
  | .shutdown =>
      if l.stage = .stopping then
        some { l with stage := .joining, scheduler := l.scheduler.shutdown }
      else none
  | .join =>
      -- the worker ends when it sees the shutdown, which it does between passes
      if l.stage = .joining ∧ !l.scheduler.running then some { l with stage := .closing } else none
  | .start =>
      if l.scheduler.mayStart then
        some { l with scheduler := l.scheduler.start,
                      running := some (l.scheduler.ticket, { linesRead := l.linesRead }) }
      else none
  | .pass step =>
      match l.running with
      | some (ticket, pass) =>
          (pass.progress.next? (ticket.isCancelled l.scheduler) step).map fun progress =>
            { l with
              running := some (ticket, { pass with progress := progress })
              mailbox := l.mailbox ++ progress.delivered?.toList.map (⟨l.ended.length, ·⟩) }
      | none => none
  | .finish failed =>
      match l.running with
      | some (_, pass) =>
          if failed || pass.progress.isOver then
            some { l with scheduler := l.scheduler.finish, running := none,
                          ended := l.ended ++ [{ pass with faulted := failed }] }
          else none
      | none => none

/-- The state after a list of events; none if one of them cannot happen. -/
def run? (l : Listener ρ) : List (ListenEvent ρ) → Option (Listener ρ)
  | [] => some l
  | e :: es => (l.step? e).bind fun l => l.run? es

/-! ## Undisturbed passes -/

/-- The events of a pass that is not disturbed. It finds nothing if its files cannot be collected or
analysed. -/
def wholePass : Option ρ → List (ListenEvent ρ)
  | some r => [.start, .pass (.analyze r), .pass .look, .pass .deliver, .finish false]
  | none => [.start, .pass .abandon, .finish false]

/-- The events of printing what one pass has found. -/
def printPass (found : Option ρ) : List (ListenEvent ρ) :=
  found.toList.map (fun _ => .print) ++ [.drained]

/-- The events of a run in which each pass ends before the next line is read. The first pass finds
`first`, and the pass after each line what is listed for it. -/
def calmRun (first : Option ρ) : List (Option ρ) → List (ListenEvent ρ)
  | [] => wholePass first ++ [.endOfLines, .idle, .shutdown, .join] ++ printPass first
  | next :: later => wholePass first ++ [.line, .request] ++ printPass first ++ calmRun next later

/-- The results that are printed when each pass ends before the next line is read. -/
def serve (first : Option ρ) (later : List (Option ρ)) : List ρ :=
  match (start : Listener ρ).run? (calmRun first later) with
  | some l => l.printed.map (·.result)
  | none => []

end Listener

end StyleAudit.Schedule
