import Mathlib
import StyleAudit.Proofs.Schedule.Coalescing
import StyleAudit.Schedule.Listen

/-! # Listening

Whatever the order in which lines are read, passes run and results are printed, a listener prints
the results that its passes hand over, in the order of the passes. A pass that finds itself
cancelled leaves another one pending, so the last pass is never one of those: it started after the
last line was read, and when the listener sees that no pass is left, its result has been handed
over.

* **`Move`** — what a step of a listener can do.
* **`deliveriesFrom`** — what passes have handed over.
* **`Sound`** — what holds in every state of a listener, kept by every step.
* **`work`** — what is left to do without another line; every step but reading a line lowers it.
* **`Returned`**, **`returned_of_run`** — what a listener has printed when it returns.
* **`serve_eq`** — the results that are printed when no pass is disturbed. -/

namespace StyleAudit.Schedule

variable {ρ : Type}

/-! ## Steps -/

/-- **What a pass can do.** -/
theorem Progress.next?_cases {cancelled : Bool} {p q : Progress ρ} {a : PassStep ρ}
    (h : p.next? cancelled a = some q) :
    (p = .working ∧ q = .failed) ∨
    (cancelled = true ∧ q = .superseded ∧ (p = .working ∨ ∃ r, p = .found r)) ∨
    (∃ r, p = .working ∧ q = .found r) ∨
    (∃ r, p = .found r ∧ q = .cleared r) ∨
    ∃ r, p = .cleared r ∧ q = .delivered r := by
  cases p with
  | working =>
      cases a with
      | abandon => exact .inl ⟨rfl, (Option.some.inj h).symm⟩
      | analyze r =>
          obtain rfl := Option.some.inj h
          cases cancelled with
          | true => exact .inr (.inl ⟨rfl, rfl, .inl rfl⟩)
          | false => exact .inr (.inr (.inl ⟨r, rfl, rfl⟩))
      | look => cases h
      | deliver => cases h
  | found r =>
      cases a with
      | look =>
          obtain rfl := Option.some.inj h
          cases cancelled with
          | true => exact .inr (.inl ⟨rfl, rfl, .inr ⟨r, rfl⟩⟩)
          | false => exact .inr (.inr (.inr (.inl ⟨r, rfl, rfl⟩)))
      | _ => cases h
  | cleared r =>
      cases a with
      | deliver => exact .inr (.inr (.inr (.inr ⟨r, rfl, (Option.some.inj h).symm⟩)))
      | _ => cases h
  | _ => cases a <;> cases h

/-- A pass that is over and has not failed was cancelled, or has handed its result over. -/
theorem Progress.delivered_of_isOver {p : Progress ρ} (hover : p.isOver = true)
    (hsuperseded : p ≠ .superseded) (hfailed : p ≠ .failed) : ∃ r, p = .delivered r := by
  cases p with
  | delivered r => exact ⟨r, rfl⟩
  | superseded => exact absurd rfl hsuperseded
  | failed => exact absurd rfl hfailed
  | working => cases hover
  | found r => cases hover
  | cleared r => cases hover

/-- A pass that takes a step has not handed anything over before. -/
theorem Progress.delivered?_eq_none_of_next? {cancelled : Bool} {p q : Progress ρ} {a : PassStep ρ}
    (h : p.next? cancelled a = some q) : p.delivered? = none := by
  rcases next?_cases h with ⟨rfl, -⟩ | ⟨-, -, rfl | ⟨r, rfl⟩⟩ | ⟨r, rfl, -⟩ | ⟨r, rfl, -⟩ |
    ⟨r, rfl, -⟩ <;> rfl

/-- A pass that is not cancelled does not find itself cancelled. -/
theorem Progress.ne_superseded_of_next? {p q : Progress ρ} {a : PassStep ρ}
    (h : p.next? false a = some q) : q ≠ .superseded := by
  rcases next?_cases h with ⟨-, rfl⟩ | ⟨hcancelled, -⟩ | ⟨r, -, rfl⟩ | ⟨r, -, rfl⟩ | ⟨r, -, rfl⟩
  · simp
  · cases hcancelled
  · simp
  · simp
  · simp

/-- What passes have handed over, of which the first one has the number `n`. -/
def deliveriesFrom (n : Nat) : List (PassRecord ρ) → List (Delivery ρ)
  | [] => []
  | p :: ps => p.progress.delivered?.toList.map (⟨n, ·⟩) ++ deliveriesFrom (n + 1) ps

/-- What one pass has handed over. -/
theorem deliveriesFrom_singleton (n : Nat) (p : PassRecord ρ) :
    deliveriesFrom n [p] = p.progress.delivered?.toList.map (⟨n, ·⟩) := List.append_nil _

/-- What some passes and others after them have handed over. -/
theorem deliveriesFrom_append (n : Nat) (ps qs : List (PassRecord ρ)) :
    deliveriesFrom n (ps ++ qs) = deliveriesFrom n ps ++ deliveriesFrom (n + ps.length) qs := by
  induction ps generalizing n with
  | nil => rfl
  | cons p ps ih =>
      rw [List.cons_append, deliveriesFrom, deliveriesFrom, ih, List.append_assoc, List.length_cons,
        Nat.add_assoc, Nat.add_comm 1]

/-- What is handed over has the number of its pass. -/
theorem exists_of_mem_deliveriesFrom {n : Nat} {ps : List (PassRecord ρ)} {d : Delivery ρ}
    (h : d ∈ deliveriesFrom n ps) :
    ∃ k p, d.pass = n + k ∧ ps[k]? = some p ∧ p.progress = .delivered d.result := by
  induction ps generalizing n with
  | nil => cases h
  | cons p ps ih =>
      rcases List.mem_append.1 h with hfirst | hrest
      · obtain ⟨r, hr, rfl⟩ := List.mem_map.1 hfirst
        refine ⟨0, p, rfl, rfl, ?_⟩
        cases hp : p.progress <;> simp_all [Progress.delivered?]
      · obtain ⟨k, q, hpass, hq, hprogress⟩ := ih hrest
        exact ⟨k + 1, q, by omega, hq, hprogress⟩

/-- **Results are handed over in the order of the passes**, at most one by each of them. -/
theorem pairwise_deliveriesFrom (n : Nat) (ps : List (PassRecord ρ)) :
    (deliveriesFrom n ps).Pairwise fun c d => c.pass < d.pass := by
  induction ps generalizing n with
  | nil => exact .nil
  | cons p ps ih =>
      refine List.pairwise_append.2 ⟨?_, ih (n + 1), fun c hc d hd => ?_⟩
      · cases p.progress.delivered? with
        | none => exact .nil
        | some r => exact List.pairwise_singleton _ _
      · obtain ⟨r, -, rfl⟩ := List.mem_map.1 hc
        obtain ⟨k, q, hpass, -⟩ := exists_of_mem_deliveriesFrom hd
        simp only
        omega

/-- There are no more results than passes. -/
theorem length_deliveriesFrom_le (n : Nat) (ps : List (PassRecord ρ)) :
    (deliveriesFrom n ps).length ≤ ps.length := by
  induction ps generalizing n with
  | nil => exact le_rfl
  | cons p ps ih =>
      have hrest := ih (n + 1)
      rw [deliveriesFrom, List.length_append, List.length_map, List.length_cons]
      cases p.progress.delivered? with
      | none => exact Nat.le_succ_of_le (by simpa using hrest)
      | some r => simpa [Nat.add_comm] using hrest

namespace Listener

variable {l m : Listener ρ} {e : ListenEvent ρ} {es : List (ListenEvent ρ)}

/-- **What a step of a listener can do**, and when. -/
inductive Move (l : Listener ρ) : ListenEvent ρ → Listener ρ → Prop
  | line (h : l.stage = .reading) :
      Move l .line { l with stage := .requesting, linesRead := l.linesRead + 1 }
  | request (h : l.stage = .requesting) :
      Move l .request { l with stage := .printing, scheduler := l.scheduler.request }
  | print {stage : Stage} {d : Delivery ρ} {rest : List (Delivery ρ)}
      (h : l.stage.afterPrinting? = some stage) (hmailbox : l.mailbox = d :: rest) :
      Move l .print
        { l with mailbox := rest, printed := l.printed ++ [d], reported := l.reported + 1 }
  | drained {stage : Stage} (h : l.stage.afterPrinting? = some stage) (hmailbox : l.mailbox = []) :
      Move l .drained { l with stage := stage }
  | endOfLines (h : l.stage = .reading) : Move l .endOfLines { l with stage := .waiting }
  | idle (h : l.stage = .waiting) (hidle : l.scheduler.isIdle = true) :
      Move l .idle { l with stage := .stopping }
  | shutdown (h : l.stage = .stopping) :
      Move l .shutdown { l with stage := .joining, scheduler := l.scheduler.shutdown }
  | join (h : l.stage = .joining) (hrunning : l.scheduler.running = false) :
      Move l .join { l with stage := .closing }
  | start (hpending : l.scheduler.pending = true) (hrunning : l.scheduler.running = false)
      (hclosed : l.scheduler.closed = false) :
      Move l .start { l with scheduler := l.scheduler.start
                             running := some (l.scheduler.ticket, { linesRead := l.linesRead }) }
  | pass {ticket : Ticket} {p : PassRecord ρ} {a : PassStep ρ} {progress : Progress ρ}
      (hrunning : l.running = some (ticket, p))
      (hnext : p.progress.next? (ticket.isCancelled l.scheduler) a = some progress) :
      Move l (.pass a)
        { l with
          running := some (ticket, { p with progress := progress })
          mailbox := l.mailbox ++ progress.delivered?.toList.map (⟨l.ended.length, ·⟩) }
  | finish {ticket : Ticket} {p : PassRecord ρ} {failed : Bool}
      (hrunning : l.running = some (ticket, p))
      (hover : failed = true ∨ p.progress.isOver = true) :
      Move l (.finish failed)
        { l with scheduler := l.scheduler.finish, running := none
                 ended := l.ended ++ [{ p with faulted := failed }] }

/-- Every step is one of those. -/
theorem move_of_step? (h : l.step? e = some m) : Move l e m := by
  cases e with
  | line =>
      rw [step?, Option.ite_none_right_eq_some, Option.some.injEq] at h
      obtain ⟨hstage, rfl⟩ := h
      exact .line hstage
  | request =>
      rw [step?, Option.ite_none_right_eq_some, Option.some.injEq] at h
      obtain ⟨hstage, rfl⟩ := h
      exact .request hstage
  | print =>
      simp only [step?] at h
      split at h
      · rename_i hstage hmailbox
        obtain rfl := Option.some.inj h
        exact .print hstage hmailbox
      · cases h
  | drained =>
      simp only [step?] at h
      split at h
      · rename_i hstage hmailbox
        obtain rfl := Option.some.inj h
        exact .drained hstage hmailbox
      · cases h
  | endOfLines =>
      rw [step?, Option.ite_none_right_eq_some, Option.some.injEq] at h
      obtain ⟨hstage, rfl⟩ := h
      exact .endOfLines hstage
  | idle =>
      rw [step?, Option.ite_none_right_eq_some, Option.some.injEq] at h
      obtain ⟨⟨hstage, hidle⟩, rfl⟩ := h
      exact .idle hstage hidle
  | shutdown =>
      rw [step?, Option.ite_none_right_eq_some, Option.some.injEq] at h
      obtain ⟨hstage, rfl⟩ := h
      exact .shutdown hstage
  | join =>
      rw [step?, Option.ite_none_right_eq_some, Option.some.injEq, Bool.not_eq_true'] at h
      obtain ⟨⟨hstage, hrunning⟩, rfl⟩ := h
      exact .join hstage hrunning
  | start =>
      rw [step?, Option.ite_none_right_eq_some, Option.some.injEq, Scheduler.mayStart_iff] at h
      obtain ⟨⟨hpending, hrunning, hclosed⟩, rfl⟩ := h
      exact .start hpending hrunning hclosed
  | pass a =>
      simp only [step?] at h
      split at h
      · rename_i ticket p hrunning
        obtain ⟨progress, hnext, rfl⟩ := Option.map_eq_some_iff.1 h
        exact .pass hrunning hnext
      · cases h
  | finish failed =>
      simp only [step?] at h
      split at h
      · rename_i ticket p hrunning
        rw [Option.ite_none_right_eq_some, Option.some.injEq, Bool.or_eq_true] at h
        obtain ⟨hover, rfl⟩ := h
        exact .finish hrunning hover
      · cases h

/-- A run that begins with an event. -/
theorem run?_cons_eq_some : l.run? (e :: es) = some m ↔ ∃ k, l.step? e = some k ∧ k.run? es = some m := by
  rw [run?, Option.bind_eq_some_iff]

/-- **What every step keeps** is kept by every run. -/
theorem run_induction {P : Listener ρ → Prop} (hl : P l)
    (hstep : ∀ {k e m}, P k → Move k e m → P m) (h : l.run? es = some m) : P m := by
  induction es generalizing l with
  | nil =>
      obtain rfl := Option.some.inj h
      exact hl
  | cons e es ih =>
      obtain ⟨k, hk, hrun⟩ := run?_cons_eq_some.1 h
      exact ih (hstep hl (move_of_step? hk)) hrun

/-- The passes of a listener, while one is running. -/
theorem passes_of_running {ticket : Ticket} {p : PassRecord ρ} (h : l.running = some (ticket, p)) :
    l.passes = l.ended ++ [p] := by
  simp [passes, h]

/-- The passes of a listener, while none is running. -/
theorem passes_of_none (h : l.running = none) : l.passes = l.ended := by
  simp [passes, h]

/-! ## What every step keeps -/

/-- The worker and its passes: a pass is running when the scheduler says so, passes end by
themselves only when they are over, and what they have handed over has been printed or will be. -/
structure Worked (l : Listener ρ) : Prop where
  running : l.scheduler.running = l.running.isSome
  settled : ∀ p ∈ l.ended, p.faulted = false → p.progress.isOver = true
  delivered : l.printed ++ l.mailbox = deliveriesFrom 0 l.passes
  reported : l.reported = .ofNat l.printed.length

/-- Nothing is worked on at first. -/
theorem worked_start : (start : Listener ρ).Worked where
  running := rfl
  settled := by simp [start]
  delivered := rfl
  reported := rfl

/-- **Every step keeps what the worker has done.** -/
theorem Worked.step (h : l.Worked) (hmove : Move l e m) : m.Worked := by
  obtain ⟨hrunning, hover, hdelivered, hreported⟩ := h
  cases hmove with
  | line => exact ⟨hrunning, hover, hdelivered, hreported⟩
  | request => exact ⟨hrunning, hover, hdelivered, hreported⟩
  | print hstage hmailbox =>
      -- the first result moves from the mailbox to what is printed
      refine ⟨hrunning, hover, ?_, ?_⟩
      · rw [hmailbox] at hdelivered
        rw [List.append_assoc]
        exact hdelivered
      · rw [hreported, List.length_append, List.length_singleton, UInt64.ofNat_add]
        rfl
  | drained => exact ⟨hrunning, hover, hdelivered, hreported⟩
  | endOfLines => exact ⟨hrunning, hover, hdelivered, hreported⟩
  | idle => exact ⟨hrunning, hover, hdelivered, hreported⟩
  | shutdown => exact ⟨hrunning, hover, hdelivered, hreported⟩
  | join => exact ⟨hrunning, hover, hdelivered, hreported⟩
  | start hpending hnone hclosed =>
      have hidle : l.running = none := by simpa [hnone] using hrunning
      refine ⟨rfl, hover, ?_, hreported⟩
      rw [passes_of_none hidle] at hdelivered
      rw [passes_of_running rfl, deliveriesFrom_append, ← hdelivered]
      exact (List.append_nil _).symm
  | pass hrun hnext =>
      refine ⟨?_, hover, ?_, hreported⟩
      · rw [hrunning, hrun]
        rfl
      · rw [passes_of_running hrun, deliveriesFrom_append, deliveriesFrom_singleton,
          Progress.delivered?_eq_none_of_next? hnext] at hdelivered
        rw [passes_of_running rfl, deliveriesFrom_append, deliveriesFrom_singleton,
          ← List.append_assoc, hdelivered, Nat.zero_add]
        simp
  | finish hrun hend =>
      refine ⟨rfl, ?_, ?_, hreported⟩
      · intro q hq hfault
        rcases List.mem_append.1 hq with hq | hq
        · exact hover q hq hfault
        · obtain rfl := List.mem_singleton.1 hq
          rcases hend with rfl | hend
          · cases hfault
          · exact hend
      · rw [passes_of_running hrun, deliveriesFrom_append, deliveriesFrom_singleton] at hdelivered
        rw [passes_of_none rfl, deliveriesFrom_append, deliveriesFrom_singleton]
        exact hdelivered

/-- The stages after waiting for the passes. -/
def isLate : Stage → Bool
  | .stopping | .joining | .closing | .returned => true
  | _ => false

/-- The stages after the shutdown. -/
def isShut : Stage → Bool
  | .joining | .closing | .returned => true
  | _ => false

/-- The requests of a listener: there is one for each line and one at first, and as long as no pass
is pending, the last pass is the one that was asked for last. -/
structure Fresh (l : Listener ρ) : Prop where
  /-- Every pass that has started or is pending was asked for. -/
  asked : l.passes.length + l.scheduler.pending.toNat + (decide (l.stage = .requesting)).toNat ≤
    l.linesRead + 1
  last : l.scheduler.pending = false → ∃ p, l.passes.getLast? = some p ∧
    p.progress ≠ .superseded ∧ (l.stage ≠ .requesting → p.linesRead = l.linesRead)
  current : l.scheduler.pending = false → ∀ ticket p, l.running = some (ticket, p) →
    ticket.isCancelled l.scheduler = false
  idle : isLate l.stage = true → l.scheduler.pending = false ∧ l.running = none
  closed : l.scheduler.closed = isShut l.stage
  emptied : l.stage = .returned → l.mailbox = []

/-- The first request is made at first. -/
theorem fresh_start : (start : Listener ρ).Fresh where
  asked := le_rfl
  last := fun hp => absurd hp (by simp [start, Scheduler.request])
  current := fun hp => absurd hp (by simp [start, Scheduler.request])
  idle := fun hlate => absurd hlate (by simp [start, isLate])
  closed := rfl
  emptied := fun hstop => absurd hstop (by simp [start])

/-- A listener goes on to another stage. -/
theorem Fresh.stage (h : l.Fresh) {stage : Stage} (hold : l.stage ≠ .requesting)
    (hnew : stage ≠ .requesting)
    (hidle : isLate stage = true → l.scheduler.pending = false ∧ l.running = none)
    (hclosed : isShut stage = isShut l.stage) (hempty : stage = .returned → l.mailbox = []) :
    Fresh { l with stage := stage } := by
  refine ⟨?_, fun hp => ?_, h.current, hidle, h.closed.trans hclosed.symm, hempty⟩
  · have hasked := h.asked
    rw [decide_eq_false hold] at hasked
    rwa [decide_eq_false hnew]
  · obtain ⟨p, hlast, hprogress, hlines⟩ := h.last hp
    exact ⟨p, hlast, hprogress, fun _ => hlines hold⟩

/-- A line is read, and a pass will be asked for. -/
theorem Fresh.line (h : l.Fresh) (hstage : l.stage = .reading) :
    Fresh { l with stage := .requesting, linesRead := l.linesRead + 1 } := by
  have hclosed := h.closed
  have hasked := h.asked
  rw [hstage] at hclosed hasked
  refine ⟨?_, fun hp => ?_, h.current, by simp [isLate], hclosed, by simp⟩
  · show l.passes.length + l.scheduler.pending.toNat + 1 ≤ l.linesRead + 1 + 1
    exact Nat.add_le_add_right hasked 1
  · obtain ⟨p, hlast, hprogress, -⟩ := h.last hp
    exact ⟨p, hlast, hprogress, fun hne => absurd rfl hne⟩

/-- A pass is asked for, and is pending. -/
theorem Fresh.request (h : l.Fresh) (hstage : l.stage = .requesting) :
    Fresh { l with stage := .printing, scheduler := l.scheduler.request } := by
  have hclosed := h.closed
  have hasked := h.asked
  rw [hstage] at hclosed hasked
  constructor
  case asked =>
    show l.passes.length + 1 + 0 ≤ l.linesRead + 1
    simp only [decide_true, Bool.toNat_true] at hasked
    omega
  case last => exact fun hp => absurd hp (by simp [Scheduler.request])
  case current => exact fun hp => absurd hp (by simp [Scheduler.request])
  case idle => exact fun hlate => absurd hlate (by simp [isLate])
  case closed => exact hclosed
  case emptied => exact fun hstop => absurd hstop (by simp)

/-- Nothing is left to print. -/
theorem Fresh.drained (h : l.Fresh) {stage : Stage}
    (hstage : l.stage.afterPrinting? = some stage) (hmailbox : l.mailbox = []) :
    Fresh { l with stage := stage } := by
  have hlate := h.idle
  cases hold : l.stage with
  | printing =>
      rw [hold] at hstage
      obtain rfl := Option.some.inj hstage
      exact h.stage (by simp [hold]) (by simp) (by simp [isLate]) (by simp [hold, isShut]) (by simp)
  | closing =>
      rw [hold] at hstage hlate
      obtain rfl := Option.some.inj hstage
      exact h.stage (by simp [hold]) (by simp) hlate (by simp [hold, isShut]) fun _ => hmailbox
  | _ =>
      rw [hold] at hstage
      cases hstage

/-- The scheduler is shut down when nothing is pending or running any more. -/
theorem Fresh.shutdown (h : l.Fresh) (hstage : l.stage = .stopping) :
    Fresh { l with stage := .joining, scheduler := l.scheduler.shutdown } := by
  obtain ⟨hpending, hnone⟩ := h.idle (by simp [hstage, isLate])
  have hasked := h.asked
  rw [hstage, hpending] at hasked
  refine ⟨hasked, fun _ => ?_, fun _ ticket p hrun => ?_, fun _ => ⟨rfl, hnone⟩, rfl, by simp⟩
  · obtain ⟨p, hlast, hprogress, hlines⟩ := h.last hpending
    exact ⟨p, hlast, hprogress, fun _ => hlines (by simp [hstage])⟩
  · rw [hnone] at hrun
    cases hrun

/-- A pass that starts is not cancelled, and comes after all lines that were read. -/
theorem Fresh.start (h : l.Fresh) (hidle : l.running = none)
    (hpending : l.scheduler.pending = true) :
    Fresh { l with scheduler := l.scheduler.start
                   running := some (l.scheduler.ticket, { linesRead := l.linesRead }) } := by
  have hasked := h.asked
  rw [passes_of_none hidle, hpending, Bool.toNat_true] at hasked
  refine ⟨?_, fun _ => ?_, fun _ ticket p hrun => ?_, fun hlate => ?_, h.closed, h.emptied⟩
  · rw [passes_of_running rfl, List.length_append, List.length_singleton]
    exact hasked
  · exact ⟨_, by rw [passes_of_running rfl, List.getLast?_concat], by simp, fun _ => rfl⟩
  · -- the ticket is that of the generation in which the pass starts
    obtain ⟨rfl, -⟩ := Prod.mk.inj (Option.some.inj hrun)
    simp [Ticket.isCancelled, Scheduler.ticket, Scheduler.start]
  · rw [(h.idle hlate).1] at hpending
    cases hpending

/-- A pass that goes on while none is pending does not find itself cancelled. -/
theorem Fresh.pass (h : l.Fresh) {ticket : Ticket} {p : PassRecord ρ} {a : PassStep ρ}
    {progress : Progress ρ} (hrun : l.running = some (ticket, p))
    (hnext : p.progress.next? (ticket.isCancelled l.scheduler) a = some progress)
    (mailbox : List (Delivery ρ)) :
    Fresh { l with
      running := some (ticket, { p with progress := progress })
      mailbox := mailbox } := by
  have hasked := h.asked
  rw [passes_of_running hrun] at hasked
  -- a listener does not come to its last stages while a pass is running
  have hearly : isLate l.stage ≠ true := by
    intro hlate
    rw [(h.idle hlate).2] at hrun
    cases hrun
  refine ⟨?_, fun hp => ?_, fun hp ticket' q hrun' => ?_, fun hlate => absurd hlate hearly, h.closed,
    fun hstop => absurd (congrArg isLate hstop) hearly⟩
  · rw [passes_of_running rfl]
    simpa using hasked
  · obtain ⟨q, hlast, -, hlines⟩ := h.last hp
    rw [passes_of_running hrun, List.getLast?_concat] at hlast
    obtain rfl := Option.some.inj hlast
    rw [h.current hp ticket p hrun] at hnext
    exact ⟨{ p with progress := progress }, by rw [passes_of_running rfl, List.getLast?_concat],
      Progress.ne_superseded_of_next? hnext, hlines⟩
  · obtain ⟨rfl, -⟩ := Prod.mk.inj (Option.some.inj hrun')
    exact h.current hp ticket p hrun

/-- A pass that ends stays the last one. -/
theorem Fresh.finish (h : l.Fresh) {ticket : Ticket} {p : PassRecord ρ}
    (hrun : l.running = some (ticket, p)) (failed : Bool) :
    Fresh { l with scheduler := l.scheduler.finish, running := none
                   ended := l.ended ++ [{ p with faulted := failed }] } := by
  have hasked := h.asked
  rw [passes_of_running hrun] at hasked
  refine ⟨?_, fun hp => ?_, fun _ ticket' q hrun' => ?_, fun hlate => ?_, h.closed, h.emptied⟩
  · rw [passes_of_none rfl]
    simpa [Scheduler.finish] using hasked
  · obtain ⟨q, hlast, hprogress, hlines⟩ := h.last hp
    rw [passes_of_running hrun, List.getLast?_concat] at hlast
    obtain rfl := Option.some.inj hlast
    exact ⟨{ p with faulted := failed }, by rw [passes_of_none rfl, List.getLast?_concat],
      hprogress, hlines⟩
  · cases hrun'
  · rw [(h.idle hlate).2] at hrun
    cases hrun

/-- **Every step keeps the last pass fresh.** -/
theorem Fresh.step (h : l.Fresh) (hworked : l.Worked) (hmove : Move l e m) : m.Fresh := by
  cases hmove with
  | line hstage => exact h.line hstage
  | request hstage => exact h.request hstage
  | print hstage hmailbox =>
      refine ⟨h.asked, h.last, h.current, h.idle, h.closed, fun hstop => ?_⟩
      -- a listener that has returned prints nothing
      rw [h.emptied hstop] at hmailbox
      cases hmailbox
  | drained hstage hmailbox => exact h.drained hstage hmailbox
  | endOfLines hstage =>
      exact h.stage (by simp [hstage]) (by simp) (by simp [isLate]) (by simp [hstage, isShut])
        (by simp)
  | idle hstage hidle =>
      rw [Scheduler.isIdle, Bool.and_eq_true, Bool.not_eq_true', Bool.not_eq_true'] at hidle
      have hnone : l.running = none := by simpa [hidle.2] using hworked.running
      exact h.stage (by simp [hstage]) (by simp) (fun _ => ⟨hidle.1, hnone⟩)
        (by simp [hstage, isShut]) (by simp)
  | shutdown hstage => exact h.shutdown hstage
  | join hstage hrunning =>
      have hlate := h.idle
      rw [hstage] at hlate
      exact h.stage (by simp [hstage]) (by simp) hlate (by simp [hstage, isShut]) (by simp)
  | start hpending hnone hclosed =>
      have hidle : l.running = none := by simpa [hnone] using hworked.running
      exact h.start hidle hpending
  | pass hrun hnext => exact h.pass hrun hnext _
  | finish hrun hend => exact h.finish hrun _

/-- What holds in every state of a listener. -/
structure Sound (l : Listener ρ) : Prop where
  worked : l.Worked
  fresh : l.Fresh

/-- **What holds in every state of a listener.** -/
theorem sound_of_run (h : (start : Listener ρ).run? es = some l) : l.Sound :=
  run_induction (P := Sound) ⟨worked_start, fresh_start⟩
    (fun hk hmove => ⟨hk.worked.step hmove, hk.fresh.step hk.worked hmove⟩) h

/-! ## Coming to an end -/

/-- What a pass has left to do; a result that it hands over is to be printed, too. -/
def progressWork : Progress ρ → Nat
  | .working => 5
  | .found _ => 4
  | .cleared _ => 3
  | .delivered _ | .superseded | .failed => 1

/-- What the listener has left to do without another line; asking for a pass makes a whole pass
pending. -/
def stageWork : Stage → Nat
  | .requesting => 13
  | .printing => 6
  | .reading => 5
  | .waiting => 4
  | .stopping => 3
  | .joining => 2
  | .closing => 1
  | .returned => 0

/-- What is left to do without another line. -/
def work (l : Listener ρ) : Nat :=
  stageWork l.stage + 6 * l.scheduler.pending.toNat +
    l.running.elim 0 (fun r => progressWork r.2.progress) + l.mailbox.length

/-- A step of a pass leaves it less to do. -/
theorem progressWork_lt {cancelled : Bool} {p q : Progress ρ} {a : PassStep ρ}
    (h : p.next? cancelled a = some q) :
    progressWork q + q.delivered?.toList.length < progressWork p := by
  rcases Progress.next?_cases h with ⟨rfl, rfl⟩ | ⟨-, rfl, rfl | ⟨r, rfl⟩⟩ | ⟨r, rfl, rfl⟩ |
    ⟨r, rfl, rfl⟩ | ⟨r, rfl, rfl⟩ <;> simp [progressWork, Progress.delivered?]

/-- **Every step but reading a line** leaves less to do. -/
theorem work_lt (hmove : Move l e m) (hline : e ≠ .line) : m.work < l.work := by
  cases hmove with
  | line => exact absurd rfl hline
  | request hstage =>
      simp only [work, hstage, stageWork, Scheduler.request, Bool.toNat_true]
      omega
  | print hstage hmailbox =>
      simp only [work, hmailbox, List.length_cons]
      omega
  | drained hstage hmailbox =>
      -- the mailbox is drained in two stages, and both are left for a later one
      cases hold : l.stage with
      | printing =>
          rw [hold] at hstage
          obtain rfl := Option.some.inj hstage
          simp only [work, hold, stageWork]
          omega
      | closing =>
          rw [hold] at hstage
          obtain rfl := Option.some.inj hstage
          simp only [work, hold, stageWork]
          omega
      | _ =>
          rw [hold] at hstage
          cases hstage
  | endOfLines hstage =>
      simp only [work, hstage, stageWork]
      omega
  | idle hstage hidle =>
      simp only [work, hstage, stageWork]
      omega
  | shutdown hstage =>
      simp only [work, hstage, stageWork, Scheduler.shutdown, Bool.toNat_false]
      omega
  | join hstage hrunning =>
      simp only [work, hstage, stageWork]
      omega
  | start hpending hnone hclosed =>
      simp only [work, hpending, Scheduler.start, Bool.toNat_true, Bool.toNat_false,
        Option.elim_some, progressWork]
      omega
  | pass hrun hnext =>
      have hless := progressWork_lt hnext
      simp only [work, hrun, Option.elim_some, List.length_append, List.length_map]
      omega
  | @finish ticket p failed hrun hend =>
      have hpos : 0 < progressWork p.progress := by cases p.progress <;> simp [progressWork]
      simp only [work, hrun, Scheduler.finish, Option.elim_some, Option.elim_none]
      omega

/-- A pass that is not over has something to do, whether it is cancelled or not. -/
theorem exists_next? {p : Progress ρ} (h : p.isOver = false) (cancelled : Bool) :
    ∃ a q, p.next? cancelled a = some q := by
  cases p with
  | working => exact ⟨.abandon, _, rfl⟩
  | found r => exact ⟨.look, _, rfl⟩
  | cleared r => exact ⟨.deliver, _, rfl⟩
  | delivered r => cases h
  | superseded => cases h
  | failed => cases h

/-- The running pass can go on or end. -/
theorem exists_step_of_running {ticket : Ticket} {p : PassRecord ρ}
    (h : l.running = some (ticket, p)) : ∃ e m, e ≠ .line ∧ l.step? e = some m := by
  cases hover : p.progress.isOver with
  | true => exact ⟨.finish false, _, by simp, by simp only [step?, h, hover, Bool.or_true]; rfl⟩
  | false =>
      obtain ⟨a, q, hq⟩ := exists_next? hover (ticket.isCancelled l.scheduler)
      exact ⟨.pass a, _, by simp, by simp only [step?, h, hq, Option.map_some]; rfl⟩

/-- **A listener that has not returned can go on**, without another line. -/
theorem Sound.exists_step (h : l.Sound) (hstage : l.stage ≠ .returned) :
    ∃ e m, e ≠ .line ∧ l.step? e = some m := by
  have hrunning := h.worked.running
  have hclosed := h.fresh.closed
  have hlate := h.fresh.idle
  cases hold : l.stage with
  | reading => exact ⟨.endOfLines, _, by simp, by rw [step?, if_pos hold]⟩
  | requesting => exact ⟨.request, _, by simp, by rw [step?, if_pos hold]⟩
  | printing =>
      cases hmailbox : l.mailbox with
      | nil => exact ⟨.drained, _, by simp, by simp only [step?, hold, hmailbox]; rfl⟩
      | cons d rest => exact ⟨.print, _, by simp, by simp only [step?, hold, hmailbox]; rfl⟩
  | waiting =>
      rw [hold] at hclosed
      cases hrun : l.running with
      | some r => exact exists_step_of_running hrun
      | none =>
          rw [hrun] at hrunning
          cases hpending : l.scheduler.pending with
          | true =>
              -- the scheduler is not closed while the listener waits, so that a pending pass can start
              have hmay : l.scheduler.mayStart = true :=
                Scheduler.mayStart_iff.2 ⟨hpending, hrunning, hclosed⟩
              exact ⟨.start, _, by simp, by rw [step?, if_pos hmay]⟩
          | false =>
              have hidle : l.scheduler.isIdle = true := by
                simp [Scheduler.isIdle, hpending, hrunning]
              exact ⟨.idle, _, by simp, by rw [step?, if_pos ⟨hold, hidle⟩]⟩
  | stopping => exact ⟨.shutdown, _, by simp, by rw [step?, if_pos hold]⟩
  | joining =>
      -- no pass runs any more when the worker is joined
      rw [hold] at hlate
      rw [(hlate rfl).2] at hrunning
      exact ⟨.join, _, by simp, by rw [step?, if_pos ⟨hold, by simp [hrunning]⟩]⟩
  | closing =>
      cases hmailbox : l.mailbox with
      | nil => exact ⟨.drained, _, by simp, by simp only [step?, hold, hmailbox]; rfl⟩
      | cons d rest => exact ⟨.print, _, by simp, by simp only [step?, hold, hmailbox]; rfl⟩
  | returned => exact absurd hold hstage

/-- **A listener returns** when its lines are at their end, whatever its passes do: it can always go
on, and only finitely often. -/
theorem Sound.exists_returned (h : l.Sound) :
    ∃ es m, .line ∉ es ∧ l.run? es = some m ∧ m.stage = .returned := by
  induction hwork : l.work using Nat.strong_induction_on generalizing l with
  | _ n ih =>
      subst hwork
      by_cases hstage : l.stage = .returned
      · exact ⟨[], l, List.not_mem_nil, rfl, hstage⟩
      · obtain ⟨e, k, hline, hk⟩ := h.exists_step hstage
        have hmove := move_of_step? hk
        have hsound : k.Sound := ⟨h.worked.step hmove, h.fresh.step h.worked hmove⟩
        obtain ⟨es, m, hes, hrun, hreturned⟩ := ih _ (work_lt hmove hline) hsound rfl
        refine ⟨e :: es, m, ?_, run?_cons_eq_some.2 ⟨k, hk, hrun⟩, hreturned⟩
        simp [hes, Ne.symm hline]

/-! ## What a listener has printed -/

/-- The lines that are read are counted. -/
theorem linesRead_of_run (h : l.run? es = some m) :
    m.linesRead = l.linesRead + es.countP (fun e => e matches .line) := by
  induction es generalizing l with
  | nil =>
      obtain rfl := Option.some.inj h
      rfl
  | cons e es ih =>
      obtain ⟨k, hk, hrun⟩ := run?_cons_eq_some.1 h
      rw [ih hrun, List.countP_cons]
      cases move_of_step? hk with
      | line => simp only [if_true]; omega
      | _ => rfl

/-- What a listener has printed when it returns. -/
structure Returned (l : Listener ρ) : Prop where
  /-- What is printed are results of different passes, in the order in which they ran. -/
  increasing : l.printed.Pairwise fun c d => c.pass < d.pass
  of_pass : ∀ d ∈ l.printed, ∃ p, l.ended[d.pass]? = some p ∧ p.progress = .delivered d.result
  /-- Every result is counted. -/
  reported : l.reported = .ofNat l.printed.length
  length_le : l.printed.length ≤ l.linesRead + 1
  /-- The last pass started after the last line was read. If its files were collected and analysed
  and it did not end by a fault, its result is what is printed last. -/
  last : ∃ p, l.ended.getLast? = some p ∧ p.linesRead = l.linesRead ∧
    (p.progress ≠ .failed → p.faulted = false → ∃ d, l.printed.getLast? = some d ∧
      d.pass + 1 = l.ended.length ∧ p.progress = .delivered d.result)

/-- A listener in its last stage has returned. -/
theorem Sound.returned (h : l.Sound) (hstage : l.stage = .returned) : l.Returned := by
  obtain ⟨hpending, hnone⟩ := h.fresh.idle (by rw [hstage]; rfl)
  have hprinted := h.worked.delivered
  rw [h.fresh.emptied hstage, List.append_nil, passes_of_none hnone] at hprinted
  constructor
  case increasing =>
    rw [hprinted]
    exact pairwise_deliveriesFrom 0 l.ended
  case of_pass =>
    intro d hd
    rw [hprinted] at hd
    obtain ⟨k, p, hpass, hp, hprogress⟩ := exists_of_mem_deliveriesFrom hd
    rw [Nat.zero_add] at hpass
    exact ⟨p, hpass ▸ hp, hprogress⟩
  case reported => exact h.worked.reported
  case length_le =>
    have hasked := h.fresh.asked
    rw [passes_of_none hnone] at hasked
    have hle := length_deliveriesFrom_le 0 l.ended
    rw [← hprinted] at hle
    omega
  case last =>
    obtain ⟨p, hlast, hsuperseded, hlines⟩ := h.fresh.last hpending
    rw [passes_of_none hnone] at hlast
    refine ⟨p, hlast, hlines (by simp [hstage]), fun hfailed hfault => ?_⟩
    -- it ended by itself, was not cancelled and did not give up, so it has handed its result over
    have hover := h.worked.settled p (List.mem_of_getLast? hlast) hfault
    obtain ⟨r, hr⟩ := Progress.delivered_of_isOver hover hsuperseded hfailed
    obtain ⟨front, hfront⟩ := List.getLast?_eq_some_iff.1 hlast
    refine ⟨⟨front.length, r⟩, ?_, by simp [hfront], hr⟩
    rw [hprinted, hfront, deliveriesFrom_append, deliveriesFrom_singleton, hr]
    simp [Progress.delivered?]

/-- **A listener ends with a fresh result.** In every run, whatever the order in which lines are
read, passes go on and results are printed, the listener can be brought to return without another
line. When it has returned, it has printed the results of different passes in their order, at most
one more than there were lines, and last the result of the last pass, which started after the last
line was read. -/
theorem returned_of_run (h : (start : Listener ρ).run? es = some l) :
    (∃ more m, .line ∉ more ∧ l.run? more = some m ∧ m.stage = .returned) ∧
    l.linesRead = es.countP (fun e => e matches .line) ∧ (l.stage = .returned → l.Returned) := by
  have hsound := sound_of_run h
  refine ⟨hsound.exists_returned, ?_, hsound.returned⟩
  rw [linesRead_of_run h]
  exact Nat.zero_add _

/-- The first pass is disturbed by the request after the first line, but too late: it hands its
result over all the same. The second one finds itself cancelled, and the third one ends when all
lines are read. -/
theorem returned_of_run_busy :
    let es : List (ListenEvent Nat) := [.start, .pass (.analyze 1), .line, .pass .look, .request,
      .pass .deliver, .print, .finish false, .start, .pass (.analyze 2), .drained, .line, .request,
      .pass .look, .drained, .finish false, .endOfLines, .start, .pass (.analyze 3), .pass .look,
      .pass .deliver, .finish false, .idle, .shutdown, .join, .print, .drained]
    ∃ l, start.run? es = some l ∧ l.printed = [⟨0, 1⟩, ⟨2, 3⟩] ∧ l.linesRead = 2 ∧
      l.stage = .returned ∧ l.Returned := by
  intro es
  let l : Listener Nat := (start.run? es).getD {}
  have h : start.run? es = some l := by decide
  have hstage : l.stage = .returned := by decide
  exact ⟨l, h, by decide, by decide, hstage, (returned_of_run h).2.2 hstage⟩

/-! ## Undisturbed passes -/

/-- One run after another. -/
theorem run?_append (es es' : List (ListenEvent ρ)) :
    l.run? (es ++ es') = (l.run? es).bind fun k => k.run? es' := by
  induction es generalizing l with
  | nil => rfl
  | cons e es ih =>
      rw [List.cons_append, run?, run?, Option.bind_assoc]
      exact congrArg _ (funext fun k => ih)

/-- The listener is about to read a line, and nothing but the next pass is left to do. -/
structure Resting (l : Listener ρ) : Prop where
  reading : l.stage = .reading
  mayStart : l.scheduler.mayStart = true
  running : l.running = none
  mailbox : l.mailbox = []

/-- A pass that is not disturbed hands over what it finds. -/
theorem run?_wholePass (h : l.Resting) (found : Option ρ) :
    l.run? (wholePass found) = some { l with
      scheduler := l.scheduler.start.finish
      ended := l.ended ++ [{ linesRead := l.linesRead, progress := found.elim .failed .delivered }]
      mailbox := found.toList.map (⟨l.ended.length, ·⟩) } := by
  have hcurrent : l.scheduler.ticket.isCancelled l.scheduler.start = false := by
    simp [Ticket.isCancelled, Scheduler.ticket, Scheduler.start]
  cases found with
  | none =>
      simp [wholePass, run?, step?, h.mayStart, h.mailbox, h.running, Progress.next?,
        Progress.delivered?, Progress.isOver]
  | some r =>
      simp [wholePass, run?, step?, h.mayStart, h.mailbox, h.running, hcurrent, Progress.next?,
        Progress.delivered?, Progress.isOver]

/-- What one pass has handed over is printed, and then the listener goes on. -/
theorem run?_printPass {found : Option ρ} {n : Nat} {stage : Stage}
    (hstage : l.stage.afterPrinting? = some stage)
    (hmailbox : l.mailbox = found.toList.map (⟨n, ·⟩)) :
    l.run? (printPass found) = some { l with
      stage := stage
      mailbox := []
      printed := l.printed ++ found.toList.map (⟨n, ·⟩)
      reported := l.reported + .ofNat found.toList.length } := by
  cases found with
  | none => simp [printPass, run?, step?, hstage, hmailbox]
  | some r => simp [printPass, run?, step?, hstage, hmailbox]

/-- **The run in which no pass is disturbed** goes to its end, and all that is found is printed. -/
theorem Resting.run?_calmRun (h : l.Resting) (first : Option ρ) (later : List (Option ρ)) :
    ∃ m, l.run? (calmRun first later) = some m ∧ m.stage = .returned ∧
      m.printed.map (·.result) = l.printed.map (·.result) ++ (first :: later).reduceOption := by
  induction later generalizing l first with
  | nil =>
      let k : Listener ρ := { l with
        scheduler := l.scheduler.start.finish.shutdown
        stage := .closing
        ended := l.ended ++
          [{ linesRead := l.linesRead, progress := first.elim .failed .delivered }]
        mailbox := first.toList.map (⟨l.ended.length, ·⟩) }
      have hk : l.run? (wholePass first ++ [.endOfLines, .idle, .shutdown, .join]) = some k := by
        rw [run?_append, run?_wholePass h]
        simp [run?, step?, h.reading, Scheduler.isIdle, Scheduler.start, Scheduler.finish,
          Scheduler.shutdown, k]
      have hrun : l.run? (calmRun first []) = k.run? (printPass first) := by
        rw [calmRun, run?_append, hk]
        rfl
      refine ⟨_, hrun.trans (run?_printPass rfl rfl), rfl, ?_⟩
      cases first <;> simp [k]
  | cons next later ih =>
      let k : Listener ρ := { l with
        scheduler := l.scheduler.start.finish.request
        stage := .printing
        linesRead := l.linesRead + 1
        ended := l.ended ++
          [{ linesRead := l.linesRead, progress := first.elim .failed .delivered }]
        mailbox := first.toList.map (⟨l.ended.length, ·⟩) }
      have hk : l.run? (wholePass first ++ [.line, .request]) = some k := by
        rw [run?_append, run?_wholePass h]
        simp [run?, step?, h.reading, k]
      let k' : Listener ρ := { k with
        stage := .reading
        mailbox := []
        printed := l.printed ++ first.toList.map (⟨l.ended.length, ·⟩)
        reported := l.reported + .ofNat first.toList.length }
      have hprint : k.run? (printPass first) = some k' := run?_printPass rfl rfl
      -- the next pass is pending, as it was before this one
      have hresting : k'.Resting :=
        ⟨rfl, Scheduler.mayStart_iff.2 ⟨rfl, rfl, (Scheduler.mayStart_iff.1 h.mayStart).2.2⟩,
          h.running, rfl⟩
      obtain ⟨m, hrun, hreturned, hprinted⟩ := ih hresting next
      refine ⟨m, ?_, hreturned, ?_⟩
      · rw [calmRun, run?_append, run?_append, hk, Option.bind_some, hprint, Option.bind_some, hrun]
      · rw [hprinted]
        cases first <;> simp [k']

/-- **When no pass is disturbed**, all that is found is printed. -/
theorem serve_eq (first : Option ρ) (later : List (Option ρ)) :
    serve first later = (first :: later).reduceOption := by
  obtain ⟨m, hrun, -, hprinted⟩ := Resting.run?_calmRun (l := start) ⟨rfl, rfl, rfl, rfl⟩ first later
  rw [serve, hrun]
  exact hprinted

end Listener

end StyleAudit.Schedule
