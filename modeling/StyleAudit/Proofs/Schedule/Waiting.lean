import Mathlib
import StyleAudit.Schedule.Monitor
import StyleAudit.Proofs.Schedule.Coalescing

/-! # Waiting for the passes

A caller that waits until no pass is running or pending is served: whatever it asked for before and
however its calls and the worker follow each other, the worker can start the pending pass or end the
running one, nobody sleeps while there is something to do, and after a few moves the caller goes on.
The one exception is a request after the last shutdown. It leaves a pass pending that no worker
starts any more, and a caller that waits then sleeps for good.

* **`Monitor.Step`** — what a move can do.
* **`Monitor.events`** — what the moves do to the scheduler.
* **`Monitor.Sound`** — what holds in every state, kept by every move.
* **`Late`** — a request came after the last shutdown.
* **`Monitor.Sound.exists_serves_iff`** — when the worker can start or end a pass.
* **`Monitor.work`** — what is left to do without a call; every other move lowers it.
* **`Monitor.Attended`**, **`Monitor.attended_of_run`** — how a waiting caller is served. -/

namespace StyleAudit.Schedule

/-- Whether the move is a call. -/
def Move.isCall : Move → Bool
  | call _ => true
  | _ => false

/-- Whether the worker starts a pass or ends one. -/
def Move.serves : Move → Bool
  | start => true
  | finish _ => true
  | _ => false

/-- The worker makes no calls. -/
theorem Move.isCall_eq_false_of_serves {a : Move} (h : a.serves = true) : a.isCall = false := by
  cases a with
  | call c => cases h
  | _ => rfl

/-- What a move does to the scheduler. -/
def Move.event? : Move → Option Event
  | call .request => some .request
  | call .shutdown => some .shutdown
  | start => some .start
  | finish failed => some (.finish failed)
  | _ => none

/-- A request came after the last shutdown. -/
def Late (es : List Event) : Prop := .shutdown ∈ es ∧ Since .request .shutdown es

/-! ## Waking -/

/-- Waking leaves nobody asleep. -/
@[simp] theorem WorkerStage.woken_ne_asleep (s : WorkerStage) : s.woken ≠ .asleep := by
  cases s <;> simp [woken]

/-- Waking starts no pass and ends none. -/
@[simp] theorem WorkerStage.woken_eq_busy {s : WorkerStage} : s.woken = .busy ↔ s = .busy := by
  cases s <;> simp [woken]

/-- Nobody who has ended is woken. -/
@[simp] theorem WorkerStage.woken_eq_gone {s : WorkerStage} : s.woken = .gone ↔ s = .gone := by
  cases s <;> simp [woken]

/-- Waking leaves nobody asleep. -/
@[simp] theorem CallerStage.woken_ne_asleep (s : CallerStage) : s.woken ≠ .asleep := by
  cases s <;> simp [woken]

/-- Waking does not end the wait for the worker to end. -/
@[simp] theorem CallerStage.woken_eq_joining {s : CallerStage} :
    s.woken = .joining ↔ s = .joining := by
  cases s <;> simp [woken]

namespace Scheduler

variable {s : Scheduler} {es : List Event}

/-- A scheduler is idle when no pass is pending or running. -/
theorem isIdle_iff : s.isIdle = true ↔ s.pending = false ∧ s.running = false := by
  rw [isIdle, Bool.and_eq_true, Bool.not_eq_true', Bool.not_eq_true']

/-- **A closed scheduler has a pass pending** when a request came after the last shutdown. -/
theorem pending_iff_of_closed (h : run? {} es = some s) :
    s.closed = true → (s.pending = true ↔ Since .request .shutdown es) := by
  refine run_induction (P := fun es s => s.closed = true →
    (s.pending = true ↔ Since .request .shutdown es)) (fun hc => by cases hc) ?_ h
  intro es s e t hs hstep hc
  rcases step_cases hstep with ⟨rfl, rfl⟩ | ⟨rfl, -, -, hopen, rfl⟩ | ⟨⟨failed, rfl⟩, -, rfl⟩ |
    ⟨rfl, rfl⟩
  · simp [request, since_append_singleton]
  · exact absurd hc (by simp [start, hopen])
  · rw [since_append_singleton, ← hs hc]
    simp [finish]
  · simp [shutdown, since_append_singleton]

/-- A request came after the last shutdown when a closed scheduler has a pass pending. -/
theorem late_iff (h : run? {} es = some s) :
    Late es ↔ s.closed = true ∧ s.pending = true := by
  rw [Late, ← (ledger_of_run h).closed]
  exact and_congr_right fun hc => (pending_iff_of_closed h hc).symm

end Scheduler

namespace Monitor

variable {m k : Monitor} {a : Move} {moves : List Move}

/-! ## Moves -/

/-- **What a move can do**, and when. -/
inductive Step (m : Monitor) : Move → Monitor → Prop
  | request (h : m.caller = .free) : Step m (.call .request) (m.change m.scheduler.request)
  | awaitIdle (h : m.caller = .free) : Step m (.call .awaitIdle) { m with caller := .looking }
  | count (h : m.caller = .free) : Step m (.call .count) m
  | shutdown (h : m.caller = .free) :
      Step m (.call .shutdown) { m.change m.scheduler.shutdown with caller := .joining }
  | idle (h : m.caller = .looking) (hidle : m.scheduler.isIdle = true) :
      Step m .look { m with caller := .free }
  | wait (h : m.caller = .looking) (hidle : m.scheduler.isIdle = false) :
      Step m .look { m with caller := .asleep }
  | join (h : m.caller = .joining) (hgone : m.worker = .gone) :
      Step m .join { m with caller := .free }
  | start (h : m.worker = .looking) (hpending : m.scheduler.pending = true)
      (hopen : m.scheduler.closed = false) :
      Step m .start { m with scheduler := m.scheduler.start, worker := .busy }
  | doze (h : m.worker = .looking) (hpending : m.scheduler.pending = false)
      (hopen : m.scheduler.closed = false) : Step m .doze { m with worker := .asleep }
  | leave (h : m.worker = .looking) (hclosed : m.scheduler.closed = true) :
      Step m .leave { m with worker := .gone }
  | finish (failed : Bool) (h : m.worker = .busy) :
      Step m (.finish failed) { m.change m.scheduler.finish with worker := .looking }

/-- **Every move is one of those**, and each of those can be made. -/
theorem step?_eq_some_iff : m.step? a = some k ↔ Step m a k := by
  constructor
  · intro h
    cases a with
    | call c =>
        rw [step?, Option.ite_none_right_eq_some, Option.some.injEq] at h
        obtain ⟨hfree, rfl⟩ := h
        cases c with
        | request => exact .request hfree
        | awaitIdle => exact .awaitIdle hfree
        | count => exact .count hfree
        | shutdown => exact .shutdown hfree
    | look =>
        rw [step?, Option.ite_none_right_eq_some, Option.some.injEq] at h
        obtain ⟨hlooking, rfl⟩ := h
        cases hidle : m.scheduler.isIdle with
        | true => exact .idle hlooking hidle
        | false => exact .wait hlooking hidle
    | join =>
        rw [step?, Option.ite_none_right_eq_some, Option.some.injEq] at h
        obtain ⟨⟨hjoining, hgone⟩, rfl⟩ := h
        exact .join hjoining hgone
    | start =>
        rw [step?, Option.ite_none_right_eq_some, Option.some.injEq, Bool.not_eq_true'] at h
        obtain ⟨⟨hlooking, hpending, hopen⟩, rfl⟩ := h
        exact .start hlooking hpending hopen
    | doze =>
        rw [step?, Option.ite_none_right_eq_some, Option.some.injEq, Bool.not_eq_true',
          Bool.not_eq_true'] at h
        obtain ⟨⟨hlooking, hpending, hopen⟩, rfl⟩ := h
        exact .doze hlooking hpending hopen
    | leave =>
        rw [step?, Option.ite_none_right_eq_some, Option.some.injEq] at h
        obtain ⟨⟨hlooking, hclosed⟩, rfl⟩ := h
        exact .leave hlooking hclosed
    | finish failed =>
        rw [step?, Option.ite_none_right_eq_some, Option.some.injEq] at h
        obtain ⟨hbusy, rfl⟩ := h
        exact .finish failed hbusy
  · intro h
    cases h <;> simp [step?, answer, *]

/-- A run that begins with a move. -/
theorem run?_cons_eq_some : m.run? (a :: moves) = some k ↔
    ∃ l, m.step? a = some l ∧ l.run? moves = some k := by
  rw [run?, Option.bind_eq_some_iff]

/-- **What every move keeps** is kept by every run. -/
theorem run_induction {P : Monitor → Prop} (hm : P m)
    (hstep : ∀ {m a k}, P m → Step m a k → P k) (h : m.run? moves = some k) : P k := by
  induction moves generalizing m with
  | nil =>
      obtain rfl := Option.some.inj h
      exact hm
  | cons a moves ih =>
      obtain ⟨l, hl, hrun⟩ := run?_cons_eq_some.1 h
      exact ih (hstep hm (step?_eq_some_iff.1 hl)) hrun

/-! ## What every move keeps -/

/-- What holds in every state: a pass is running when the worker runs it, and nobody sleeps or has
ended while there is something to do. -/
structure Sound (m : Monitor) : Prop where
  running : m.scheduler.running = true ↔ m.worker = .busy
  worker_asleep : m.worker = .asleep → m.scheduler.pending = false ∧ m.scheduler.closed = false
  worker_gone : m.worker = .gone → m.scheduler.closed = true
  caller_asleep : m.caller = .asleep → m.scheduler.isIdle = false
  caller_joining : m.caller = .joining → m.scheduler.closed = true

/-- **Every move keeps that.** -/
theorem Sound.step (h : m.Sound) (hstep : Step m a k) : k.Sound := by
  obtain ⟨hrunning, hworker, hgone, hcaller, hjoining⟩ := h
  cases hstep with
  | request hfree =>
      -- a request wakes the worker, and nobody sleeps after it
      exact ⟨by simpa [change, Scheduler.request] using hrunning, by simp [change],
        by simpa [change, Scheduler.request] using hgone, by simp [change],
        by simpa [change, Scheduler.request] using hjoining⟩
  | awaitIdle hfree => exact ⟨hrunning, hworker, hgone, by simp, by simp⟩
  | count hfree => exact ⟨hrunning, hworker, hgone, hcaller, hjoining⟩
  | shutdown hfree =>
      exact ⟨by simpa [change, Scheduler.shutdown] using hrunning, by simp [change],
        by simp [change, Scheduler.shutdown], by simp, by simp [change, Scheduler.shutdown]⟩
  | idle hlooking hidle => exact ⟨hrunning, hworker, hgone, by simp, by simp⟩
  | wait hlooking hidle => exact ⟨hrunning, hworker, hgone, fun _ => hidle, by simp⟩
  | join hjoin hworkerGone => exact ⟨hrunning, hworker, hgone, by simp, by simp⟩
  | start hlooking hpending hopen =>
      exact ⟨by simp [Scheduler.start], by simp, by simp,
        by simp [Scheduler.start, Scheduler.isIdle], hjoining⟩
  | doze hlooking hpending hopen =>
      exact ⟨by simpa [hlooking] using hrunning, fun _ => ⟨hpending, hopen⟩, by simp, hcaller,
        hjoining⟩
  | leave hlooking hclosed =>
      exact ⟨by simpa [hlooking] using hrunning, by simp, fun _ => hclosed, hcaller, hjoining⟩
  | finish failed hbusy =>
      exact ⟨by simp [change, Scheduler.finish], by simp, by simp, by simp [change],
        by simpa [change, Scheduler.finish] using hjoining⟩

/-- No pass is running while the worker looks what there is to do. -/
theorem Sound.running_eq_false (h : m.Sound) (hlooking : m.worker = .looking) :
    m.scheduler.running = false := by
  rw [← Bool.not_eq_true, h.running, hlooking]
  simp

/-- **What holds in every state.** -/
theorem sound_of_run (h : run? {} moves = some m) : m.Sound :=
  run_induction (P := Sound) ⟨by simp, by simp, by simp, by simp, by simp⟩ Sound.step h

/-- What the moves do to the scheduler. -/
def events (moves : List Move) : List Event := moves.filterMap Move.event?

/-- What a move does to the scheduler can happen. -/
theorem Sound.scheduler_step (h : m.Sound) (hstep : Step m a k) :
    m.scheduler.run? a.event?.toList = some k.scheduler := by
  cases hstep with
  | start hlooking hpending hopen =>
      have hidle := h.running_eq_false hlooking
      simp [Move.event?, Scheduler.run?, Scheduler.step?, Scheduler.mayStart, hpending, hopen, hidle]
  | finish failed hbusy =>
      have hrunning := h.running.2 hbusy
      simp [Move.event?, Scheduler.run?, Scheduler.step?, change, hrunning]
  | _ => rfl

/-- **What the moves do to the scheduler** is a run of it. -/
theorem Sound.scheduler_run (h : m.Sound) (hrun : m.run? moves = some k) :
    m.scheduler.run? (events moves) = some k.scheduler := by
  induction moves generalizing m with
  | nil =>
      obtain rfl := Option.some.inj hrun
      rfl
  | cons a moves ih =>
      obtain ⟨l, hl, hrest⟩ := run?_cons_eq_some.1 hrun
      have hstep := step?_eq_some_iff.1 hl
      have hevents : events (a :: moves) = a.event?.toList ++ events moves := by
        rw [events, List.filterMap_cons]
        cases a.event? <;> rfl
      rw [hevents, Scheduler.run?_append_eq_some]
      exact ⟨l.scheduler, h.scheduler_step hstep, ih (h.step hstep) hrest⟩

/-- No pass is pending in a closed scheduler. -/
def Orderly (m : Monitor) : Prop := m.scheduler.closed = true → m.scheduler.pending = false

/-- No pass is pending in a closed scheduler when no request came after the last shutdown. -/
theorem orderly_iff_not_late (h : run? {} moves = some m) : m.Orderly ↔ ¬ Late (events moves) := by
  have hrun : Scheduler.run? {} (events moves) = some m.scheduler :=
    (@sound_of_run {} [] rfl).scheduler_run h
  rw [Scheduler.late_iff hrun, not_and, Bool.not_eq_true, Orderly]

/-- Without calls, nothing becomes pending. -/
theorem Orderly.step (h : m.Orderly) (hstep : Step m a k) (hcall : a.isCall = false) :
    k.Orderly := by
  cases hstep with
  | start hlooking hpending hopen => exact fun _ => rfl
  | request => cases hcall
  | awaitIdle => cases hcall
  | count => cases hcall
  | shutdown => cases hcall
  | _ => exact h

/-! ## Being served -/

/-- **The worker looks** when a pass is pending that may be started. -/
theorem Sound.worker_eq_looking (h : m.Sound) (hstart : m.scheduler.mayStart = true) :
    m.worker = .looking := by
  obtain ⟨hpending, hrunning, hopen⟩ := Scheduler.mayStart_iff.1 hstart
  cases hworker : m.worker with
  | looking => rfl
  | asleep => simp [(h.worker_asleep hworker).1] at hpending
  | busy => simp [h.running.2 hworker] at hrunning
  | gone => simp [h.worker_gone hworker] at hopen

/-- **The worker can start or end a pass** when the scheduler says that one may start or is
running. -/
theorem Sound.exists_serves_iff (h : m.Sound) :
    (∃ a k, a.serves = true ∧ m.step? a = some k) ↔
      m.scheduler.mayStart = true ∨ m.scheduler.running = true := by
  constructor
  · rintro ⟨a, k, hserves, hk⟩
    cases step?_eq_some_iff.1 hk with
    | start hlooking hpending hopen =>
        have hrunning := h.running_eq_false hlooking
        exact .inl (Scheduler.mayStart_iff.2 ⟨hpending, hrunning, hopen⟩)
    | finish failed hbusy => exact .inr (h.running.2 hbusy)
    | _ => cases hserves
  · rintro (hstart | hrunning)
    · obtain ⟨hpending, -, hopen⟩ := Scheduler.mayStart_iff.1 hstart
      have hlooking := h.worker_eq_looking hstart
      exact ⟨.start, _, rfl, step?_eq_some_iff.2 (.start hlooking hpending hopen)⟩
    · have hbusy := h.running.1 hrunning
      exact ⟨.finish false, _, rfl, step?_eq_some_iff.2 (.finish false hbusy)⟩

/-- A scheduler that is not idle can start a pass or has one running, if it is closed in order. -/
theorem Orderly.mayStart_or_running (h : m.Orderly) (hidle : m.scheduler.isIdle = false) :
    m.scheduler.mayStart = true ∨ m.scheduler.running = true := by
  rw [← Bool.not_eq_true, Scheduler.isIdle_iff] at hidle
  cases hrunning : m.scheduler.running with
  | true => exact .inr rfl
  | false =>
      left
      have hpending : m.scheduler.pending = true := by simpa [hrunning] using hidle
      have hopen : m.scheduler.closed = false := by
        rw [← Bool.not_eq_true]
        intro hclosed
        simp [h hclosed] at hpending
      exact Scheduler.mayStart_iff.2 ⟨hpending, hrunning, hopen⟩

/-- **A caller that waits can go on, or the worker can**, without a further call. -/
theorem Sound.exists_step (h : m.Sound) (horderly : m.Orderly) (hfree : m.caller ≠ .free) :
    ∃ a k, a.isCall = false ∧ m.step? a = some k := by
  cases hcaller : m.caller with
  | free => exact absurd hcaller hfree
  | looking => exact ⟨.look, _, rfl, if_pos hcaller⟩
  | asleep =>
      obtain ⟨a, k, hserves, hk⟩ :=
        h.exists_serves_iff.2 (horderly.mayStart_or_running (h.caller_asleep hcaller))
      exact ⟨a, k, Move.isCall_eq_false_of_serves hserves, hk⟩
  | joining =>
      have hclosed := h.caller_joining hcaller
      cases hworker : m.worker with
      | looking => exact ⟨.leave, _, rfl, if_pos ⟨hworker, hclosed⟩⟩
      | asleep => simp [(h.worker_asleep hworker).2] at hclosed
      | busy => exact ⟨.finish false, _, rfl, if_pos hworker⟩
      | gone => exact ⟨.join, _, rfl, if_pos ⟨hcaller, hworker⟩⟩

/-- What the worker has left to do without a call; a pass that it ends leaves it looking. -/
def workerWork : WorkerStage → Nat
  | .looking => 1
  | .asleep => 0
  | .busy => 3
  | .gone => 0

/-- What the caller has left to do without a call. -/
def callerWork : CallerStage → Nat
  | .free => 0
  | .looking => 1
  | .asleep => 0
  | .joining => 1

/-- What is left to do without a call. -/
def work (m : Monitor) : Nat :=
  3 * m.scheduler.pending.toNat + workerWork m.worker + callerWork m.caller

/-- There is never much to do. -/
theorem work_le (m : Monitor) : m.work ≤ 7 := by
  have hpending := Bool.toNat_le m.scheduler.pending
  have hworker : workerWork m.worker ≤ 3 := by cases m.worker <;> simp [workerWork]
  have hcaller : callerWork m.caller ≤ 1 := by cases m.caller <;> simp [callerWork]
  rw [work]
  omega

/-- A caller that is woken has at most one look more to do. -/
theorem callerWork_woken_le (s : CallerStage) : callerWork s.woken ≤ callerWork s + 1 := by
  cases s <;> simp [callerWork, CallerStage.woken]

/-- **Every move but a call** leaves less to do. -/
theorem work_lt (hstep : Step m a k) (hcall : a.isCall = false) : k.work < m.work := by
  cases hstep with
  | request => cases hcall
  | awaitIdle => cases hcall
  | count => cases hcall
  | shutdown => cases hcall
  | idle hlooking hidle => simp [work, callerWork, hlooking]
  | wait hlooking hidle => simp [work, callerWork, hlooking]
  | join hjoining hgone => simp [work, callerWork, hjoining]
  | start hlooking hpending hopen =>
      simp only [work, workerWork, hlooking, hpending, Scheduler.start, Bool.toNat_true,
        Bool.toNat_false]
      omega
  | doze hlooking hpending hopen => simp [work, workerWork, hlooking]
  | leave hlooking hclosed => simp [work, workerWork, hlooking]
  | finish failed hbusy =>
      have hwoken := callerWork_woken_le m.caller
      simp only [work, workerWork, hbusy, change, Scheduler.finish]
      omega

/-- **Without calls there are few moves.** -/
theorem length_add_work_le (hrun : m.run? moves = some k) (hcall : ∀ a ∈ moves, a.isCall = false) :
    moves.length + k.work ≤ m.work := by
  induction moves generalizing m with
  | nil =>
      obtain rfl := Option.some.inj hrun
      simp
  | cons a moves ih =>
      obtain ⟨l, hl, hrest⟩ := run?_cons_eq_some.1 hrun
      have hless := work_lt (step?_eq_some_iff.1 hl) (hcall a List.mem_cons_self)
      have hmore := ih hrest fun b hb => hcall b (.tail _ hb)
      rw [List.length_cons]
      omega

/-- Without calls, nothing becomes pending, in a whole run. -/
theorem Orderly.run (h : m.Orderly) (hrun : m.run? moves = some k)
    (hcall : ∀ a ∈ moves, a.isCall = false) : k.Orderly := by
  induction moves generalizing m with
  | nil =>
      obtain rfl := Option.some.inj hrun
      exact h
  | cons a moves ih =>
      obtain ⟨l, hl, hrest⟩ := run?_cons_eq_some.1 hrun
      have hl := h.step (step?_eq_some_iff.1 hl) (hcall a List.mem_cons_self)
      exact ih hl hrest fun b hb => hcall b (.tail _ hb)

/-- How a waiting caller is served after some moves. -/
structure Attended (moves : List Move) (m : Monitor) : Prop where
  /-- The worker can start or end a pass as long as one is pending or running. -/
  serves : ¬ Late (events moves) → m.scheduler.pending = true ∨ m.scheduler.running = true →
    ∃ a k, a.serves = true ∧ m.step? a = some k
  /-- The worker leaves nothing behind. -/
  gone : ¬ Late (events moves) → m.worker = .gone →
    m.scheduler.pending = false ∧ m.scheduler.running = false
  /-- After a few moves the caller goes on: whatever the others do until the next call, there are
  not many moves, and as long as the caller waits, there is another one. -/
  returns : ¬ Late (events moves) → ∀ more k, m.run? more = some k →
    (∀ a ∈ more, a.isCall = false) → more.length ≤ 7 ∧
      (k.caller ≠ .free → ∃ a l, a.isCall = false ∧ k.step? a = some l)
  /-- After a late request a pass is pending, and it is never started. -/
  late : Late (events moves) → m.scheduler.pending = true ∧
    (m.scheduler.running = false → ¬ ∃ a k, a.serves = true ∧ m.step? a = some k)

/-- **A waiting caller is served** in every state that is reached by calls and moves of the worker
in any order, unless a request came after the last shutdown. -/
theorem attended_of_run (h : run? {} moves = some m) : Attended moves m := by
  have hsound := sound_of_run h
  have horderly := orderly_iff_not_late h
  constructor
  case serves =>
    intro hlate hbusy
    refine hsound.exists_serves_iff.2 ((horderly.2 hlate).mayStart_or_running ?_)
    rw [← Bool.not_eq_true, Scheduler.isIdle_iff]
    rintro ⟨hpending, hrunning⟩
    simp [hpending, hrunning] at hbusy
  case gone =>
    intro hlate hgone
    refine ⟨horderly.2 hlate (hsound.worker_gone hgone), ?_⟩
    rw [← Bool.not_eq_true, hsound.running, hgone]
    simp
  case returns =>
    intro hlate more k hrun hcall
    refine ⟨?_, ?_⟩
    · have hfew := length_add_work_le hrun hcall
      have hle := m.work_le
      omega
    · have hk : k.Sound := run_induction hsound Sound.step hrun
      exact hk.exists_step ((horderly.2 hlate).run hrun hcall)
  case late =>
    intro hlate
    have hnot : ¬ m.Orderly := fun hm => horderly.1 hm hlate
    rw [Orderly, Classical.not_imp, Bool.not_eq_false] at hnot
    refine ⟨hnot.2, fun hrunning => ?_⟩
    rw [hsound.exists_serves_iff, Scheduler.mayStart_iff, hnot.1, hrunning]
    simp

/-- The caller waits while a pass is pending, which starts and then fails. Another request comes
before the shutdown, which drops it. -/
theorem attended_of_run_fault_and_shutdown :
    let moves : List Move := [.call .request, .call .awaitIdle, .look, .start, .finish true, .look,
      .call .request, .call .shutdown, .leave, .join, .call .awaitIdle]
    let m : Monitor := ⟨⟨false, false, true, 1, 3⟩, .gone, .looking⟩
    run? {} moves = some m ∧ ¬ Late (events moves) ∧ Attended moves m := by
  intro moves m
  have h : run? {} moves = some m := by decide
  exact ⟨h, (orderly_iff_not_late h).1 fun _ => rfl, attended_of_run h⟩

/-- **A request after the shutdown**: the worker has ended and a pass is pending, so the caller that
waits sleeps, and there is no move left. -/
theorem wedged_of_late_request :
    let moves : List Move :=
      [.call .shutdown, .leave, .join, .call .request, .call .awaitIdle, .look]
    let m : Monitor := ⟨⟨true, false, true, 0, 2⟩, .gone, .asleep⟩
    run? {} moves = some m ∧ ∀ a, m.step? a = none := by
  refine ⟨by decide, fun a => ?_⟩
  cases a <;> rfl

end Monitor

end StyleAudit.Schedule
