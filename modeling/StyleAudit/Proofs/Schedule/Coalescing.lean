import Mathlib
import StyleAudit.Schedule.Scheduler

/-! # Requests and passes

However requests, passes and the shutdown follow each other, no request is lost and bursts of them
lead to one pass. Each start takes up the pending pass, and only a request leaves one pending, so
starts are paid for by requests.

* **`run_induction`** — what every step keeps holds after every run.
* **`Since`**, **`Awaited`** — a request came, and no pass has started since.
* **`Ledger`** — what the state says of the events so far, kept by every step.
* **`count_start_add_pending_le`** — starts are paid for by requests.
* **`Coalesced`**, **`coalesced_of_run`** — how passes follow requests. -/

namespace StyleAudit.Schedule

/-- Whether a pass ends, in whatever way. -/
def Event.isFinish : Event → Bool
  | finish _ => true
  | _ => false

/-- The event with a fault taken for a regular end. -/
def Event.calm : Event → Event
  | finish _ => finish false
  | e => e

/-- An event came, and another one has not come since. -/
def Since (e f : Event) (es : List Event) : Prop :=
  ∃ before after, es = before ++ e :: after ∧ f ∉ after

/-- An event has come after it came, and as long as the other one does not come. -/
theorem since_append_singleton {e f last : Event} {es : List Event} :
    Since e f (es ++ [last]) ↔ last = e ∨ (last ≠ f ∧ Since e f es) := by
  constructor
  · rintro ⟨before, after, heq, hafter⟩
    -- the event is the last one, or stands among those before it
    rcases List.eq_nil_or_concat' after with rfl | ⟨front, g, rfl⟩
    · exact .inl (List.singleton_inj.1 (List.append_inj' heq rfl).2)
    · have heq : es ++ [last] = (before ++ e :: front) ++ [g] := by simpa using heq
      obtain ⟨rfl, hlast⟩ := List.append_inj' heq rfl
      obtain rfl := List.singleton_inj.1 hlast
      simp only [List.mem_append, List.mem_singleton, not_or] at hafter
      exact .inr ⟨Ne.symm hafter.2, before, front, rfl, hafter.1⟩
  · rintro (rfl | ⟨he, before, after, rfl, hafter⟩)
    · exact ⟨es, [], rfl, List.not_mem_nil⟩
    · refine ⟨before, after ++ [last], by simp, ?_⟩
      simp [hafter, Ne.symm he]

/-- A request came, and no pass has started since. -/
def Awaited (es : List Event) : Prop :=
  ∃ before after, es = before ++ .request :: after ∧ .start ∉ after

/-- A pass is awaited after a request, and as long as no pass starts. -/
theorem awaited_append_singleton {es : List Event} {e : Event} :
    Awaited (es ++ [e]) ↔ e = .request ∨ (e ≠ .start ∧ Awaited es) :=
  since_append_singleton

/-- A pass is awaited when a request came and no pass has started in the meantime. -/
theorem awaited_append {es fs : List Event} (hrequest : .request ∈ fs) (hstart : .start ∉ fs) :
    Awaited (es ++ fs) := by
  obtain ⟨front, back, rfl⟩ := List.append_of_mem hrequest
  refine ⟨es ++ front, back, by simp, fun hmem => hstart ?_⟩
  simp [hmem]

namespace Scheduler

variable {s t : Scheduler} {e : Event} {es fs : List Event}

/-! ## Runs -/

/-- A pass may start when one is pending, none is running and the scheduler is not closed. -/
theorem mayStart_iff : s.mayStart = true ↔
    s.pending = true ∧ s.running = false ∧ s.closed = false := by
  rw [mayStart, Bool.and_eq_true, Bool.and_eq_true, Bool.not_eq_true', Bool.not_eq_true', and_assoc]

/-- The start of a pass. -/
theorem step?_start_eq_some : s.step? .start = some t ↔
    s.pending = true ∧ s.running = false ∧ s.closed = false ∧ t = s.start := by
  rw [step?, Option.ite_none_right_eq_some, Option.some.injEq, mayStart_iff, and_assoc, and_assoc,
    @eq_comm _ t]

/-- **What a step can do.** -/
theorem step_cases (h : s.step? e = some t) :
    (e = .request ∧ t = s.request) ∨
    (e = .start ∧ s.pending = true ∧ s.running = false ∧ s.closed = false ∧ t = s.start) ∨
    ((∃ failed, e = .finish failed) ∧ s.running = true ∧ t = s.finish) ∨
    (e = .shutdown ∧ t = s.shutdown) := by
  cases e with
  | request => exact .inl ⟨rfl, (Option.some.inj h).symm⟩
  | start => exact .inr (.inl ⟨rfl, step?_start_eq_some.1 h⟩)
  | finish failed =>
      rw [step?, Option.ite_none_right_eq_some, Option.some.injEq] at h
      exact .inr (.inr (.inl ⟨⟨failed, rfl⟩, h.1, h.2.symm⟩))
  | shutdown => exact .inr (.inr (.inr ⟨rfl, (Option.some.inj h).symm⟩))

/-- A run that begins with an event. -/
theorem run?_cons_eq_some : s.run? (e :: es) = some t ↔
    ∃ u, s.step? e = some u ∧ u.run? es = some t := by
  rw [run?, Option.bind_eq_some_iff]

/-- A run in two parts. -/
theorem run?_append_eq_some : s.run? (es ++ fs) = some t ↔
    ∃ u, s.run? es = some u ∧ u.run? fs = some t := by
  induction es generalizing s with
  | nil => simp [run?]
  | cons e es ih =>
      simp only [List.cons_append, run?_cons_eq_some, ih]
      constructor
      · rintro ⟨u, hu, v, hv, ht⟩
        exact ⟨v, ⟨u, hu, hv⟩, ht⟩
      · rintro ⟨v, ⟨u, hu, hv⟩, ht⟩
        exact ⟨u, hu, v, hv, ht⟩

/-- **What every step keeps** holds after every run. -/
theorem run_induction {P : List Event → Scheduler → Prop} (hstart : P [] {})
    (hstep : ∀ {es s e t}, P es s → s.step? e = some t → P (es ++ [e]) t)
    (h : run? {} es = some s) : P es s := by
  suffices hrun : ∀ (before : List Event) (u : Scheduler), P before u → u.run? es = some s →
      P (before ++ es) s from hrun [] {} hstart h
  clear h
  induction es with
  | nil =>
      intro before u hu h
      obtain rfl := Option.some.inj h
      rwa [List.append_nil]
  | cons e es ih =>
      intro before u hu h
      obtain ⟨v, hv, hrun⟩ := run?_cons_eq_some.1 h
      rw [List.append_cons]
      exact ih _ v (hstep hu hv) hrun

/-- A fault changes what a regular end changes. -/
theorem run?_map_calm (s : Scheduler) (es : List Event) : s.run? (es.map Event.calm) = s.run? es := by
  induction es generalizing s with
  | nil => rfl
  | cons e es ih =>
      have hcalm : s.step? e.calm = s.step? e := by cases e <;> rfl
      rw [List.map_cons, run?, run?, hcalm]
      congr 1
      funext u
      exact ih u

/-! ## Accounts -/

/-- What the state says of the events so far. -/
structure Ledger (es : List Event) (s : Scheduler) : Prop where
  running : es.count .start = es.countP Event.isFinish + s.running.toNat
  passes : s.passes = .ofNat (es.count .start)
  closed : s.closed = true ↔ .shutdown ∈ es
  pending : s.closed = false → (s.pending = true ↔ Awaited es)

/-- **Every step keeps the ledger.** -/
theorem Ledger.step (h : Ledger es s) (hstep : s.step? e = some t) : Ledger (es ++ [e]) t := by
  obtain ⟨hrunning, hpasses, hclosed, hpending⟩ := h
  rcases step_cases hstep with ⟨rfl, rfl⟩ | ⟨rfl, hp, hr, hc, rfl⟩ | ⟨⟨failed, rfl⟩, hr, rfl⟩ |
    ⟨rfl, rfl⟩
  · refine ⟨?_, ?_, ?_, fun _ => ?_⟩
    · simpa [Event.isFinish, request] using hrunning
    · simpa [request] using hpasses
    · simpa [request] using hclosed
    · simp [request, awaited_append_singleton]
  · refine ⟨?_, ?_, ?_, fun _ => ?_⟩
    · simpa [Event.isFinish, start, hr] using hrunning
    · simp [start, hpasses, UInt64.ofNat_add]
    · simpa [start] using hclosed
    · simp [start, awaited_append_singleton]
  · refine ⟨?_, ?_, ?_, fun hopen => ?_⟩
    · simpa [Event.isFinish, finish, hr, List.countP_append] using hrunning
    · simpa [finish] using hpasses
    · simpa [finish] using hclosed
    · rw [awaited_append_singleton, ← hpending hopen]
      simp [finish]
  · refine ⟨?_, ?_, ?_, fun hopen => ?_⟩
    · simpa [Event.isFinish, shutdown] using hrunning
    · simpa [shutdown] using hpasses
    · simp [shutdown]
    · cases hopen

/-- **The ledger is kept in every run.** -/
theorem ledger_of_run (h : run? {} es = some s) : Ledger es s := by
  refine run_induction ⟨rfl, rfl, by simp, fun _ => ?_⟩ Ledger.step h
  simp [Awaited]

/-- **Starts are paid for by requests**, and by the pass that was pending at first. -/
theorem count_start_add_pending_le (h : s.run? es = some t) :
    es.count .start + t.pending.toNat ≤ es.count .request + s.pending.toNat := by
  induction es generalizing s with
  | nil =>
      obtain rfl := Option.some.inj h
      simp
  | cons e es ih =>
      obtain ⟨u, hu, hrun⟩ := run?_cons_eq_some.1 h
      have hrest := ih hrun
      rcases step_cases hu with ⟨rfl, rfl⟩ | ⟨rfl, hp, -, -, rfl⟩ | ⟨⟨failed, rfl⟩, -, rfl⟩ |
        ⟨rfl, rfl⟩
      · simp [request] at hrest ⊢
        omega
      · simp [start, hp] at hrest ⊢
        omega
      · simpa [finish] using hrest
      · simp [shutdown] at hrest ⊢
        omega

/-- Without requests, a pass stays pending until it starts or is dropped. -/
theorem count_start_add_pending_eq (h : s.run? es = some t) (hrequest : .request ∉ es)
    (hshutdown : .shutdown ∉ es) : es.count .start + t.pending.toNat = s.pending.toNat := by
  induction es generalizing s with
  | nil =>
      obtain rfl := Option.some.inj h
      simp
  | cons e es ih =>
      obtain ⟨u, hu, hrun⟩ := run?_cons_eq_some.1 h
      have hrest := ih hrun (fun hmem => hrequest (.tail _ hmem))
        (fun hmem => hshutdown (.tail _ hmem))
      rcases step_cases hu with ⟨rfl, -⟩ | ⟨rfl, hp, -, -, rfl⟩ | ⟨⟨failed, rfl⟩, -, rfl⟩ |
        ⟨rfl, -⟩
      · exact absurd List.mem_cons_self hrequest
      · rw [List.count_cons_self, hp]
        simp only [start, Bool.toNat_false] at hrest
        simp only [Bool.toNat_true]
        omega
      · simpa [finish] using hrest
      · exact absurd List.mem_cons_self hshutdown

/-- Between a start and the next one there is a request. -/
theorem request_mem_of_start {before during after : List Event}
    (h : s.run? (before ++ .start :: (during ++ .start :: after)) = some t) :
    .request ∈ during := by
  obtain ⟨u, -, h⟩ := run?_append_eq_some.1 h
  obtain ⟨v, hv, h⟩ := run?_cons_eq_some.1 h
  obtain ⟨w, hw, h⟩ := run?_append_eq_some.1 h
  obtain ⟨x, hx, -⟩ := run?_cons_eq_some.1 h
  -- the first start leaves nothing pending, the second one finds something
  obtain ⟨-, -, -, rfl⟩ := step?_start_eq_some.1 hv
  obtain ⟨hpending, -⟩ := step?_start_eq_some.1 hx
  have hcredit := count_start_add_pending_le hw
  rw [hpending] at hcredit
  refine List.count_pos_iff.1 ?_
  simp only [start, Bool.toNat_true, Bool.toNat_false] at hcredit
  omega

/-- No pass starts once the scheduler is closed. -/
theorem start_not_mem_of_closed (hs : s.closed = true) (h : s.run? es = some t) :
    .start ∉ es := by
  induction es generalizing s with
  | nil => exact List.not_mem_nil
  | cons e es ih =>
      obtain ⟨u, hu, hrun⟩ := run?_cons_eq_some.1 h
      rcases step_cases hu with ⟨rfl, rfl⟩ | ⟨-, -, -, hc, -⟩ | ⟨⟨failed, rfl⟩, -, rfl⟩ | ⟨rfl, rfl⟩
      · simpa using ih (s := s.request) hs hrun
      · rw [hs] at hc
        cases hc
      · simpa using ih (s := s.finish) hs hrun
      · simpa using ih (s := s.shutdown) rfl hrun

/-- A pending pass can be started, as soon as the running one has ended. -/
theorem exists_run_start (hp : s.pending = true) (hc : s.closed = false) :
    ∃ later t, s.run? later = some t ∧ .request ∉ later ∧ .shutdown ∉ later ∧
      later.count .start = 1 := by
  cases hr : s.running with
  | false =>
      refine ⟨[.start], s.start, ?_, by simp, by simp, by simp⟩
      simp [run?, step?, mayStart, hp, hc, hr]
  | true =>
      refine ⟨[.finish false, .start], s.finish.start, ?_, by simp, by simp, by simp⟩
      simp [run?, step?, mayStart, finish, hp, hc, hr]

/-! ## How passes follow requests -/

/-- How passes have followed requests in a run. -/
structure Coalesced (es : List Event) (s : Scheduler) : Prop where
  /-- All passes that have started have ended, but for one that may be running. -/
  one_running : es.count .start = es.countP Event.isFinish + s.running.toNat
  passes_eq : s.passes.toNat = es.count .start
  /-- No request is lost: a pass is pending when a request came after the last start. -/
  pending_iff : .shutdown ∉ es → (s.pending = true ↔ Awaited es)
  /-- A pending pass can be started without a further request. -/
  exists_start : .shutdown ∉ es → s.pending = true → ∃ later t, s.run? later = some t ∧
    .request ∉ later ∧ .shutdown ∉ later ∧ later.count .start = 1
  passes_le : s.passes.toNat + s.pending.toNat ≤ es.count .request
  /-- A request comes between a start and the next one. -/
  between : ∀ before during after, es = before ++ .start :: (during ++ .start :: after) →
    .request ∈ during
  /-- Requests after the last start, however many, leave one pass pending: without another request
  at most one pass starts, and unless the scheduler is shut down, it starts or stays pending. -/
  burst : ∀ before during, es = before ++ .start :: during → .start ∉ during →
    .request ∈ during → .shutdown ∉ es → s.pending = true ∧
      ∀ later t, s.run? later = some t → .request ∉ later → later.count .start ≤ 1 ∧
        (.shutdown ∉ later → later.count .start + t.pending.toNat = 1)
  /-- Passes that end by a fault leave the state that they would leave otherwise. -/
  fault_alike : ∀ es' : List Event, es'.map Event.calm = es.map Event.calm →
    run? {} es' = some s
  /-- No pass starts after a shutdown. -/
  after_shutdown : ∀ before after, es = before ++ .shutdown :: after → .start ∉ after

/-- **No request is lost, and bursts coalesce**, in every run of the scheduler with requests, starts,
ends and shutdowns in any order: one pass runs at a time, a pass is pending exactly when a request
came after the last start, and the requests of a burst are answered by one pass. -/
theorem coalesced_of_run (h : run? {} es = some s) (hrequests : es.count .request < 2 ^ 64) :
    Coalesced es s := by
  have hledger := ledger_of_run h
  have hcredit : es.count .start + s.pending.toNat ≤ es.count .request := by
    simpa using count_start_add_pending_le h
  have hopen : .shutdown ∉ es → s.closed = false := by
    intro hshutdown
    rwa [← Bool.not_eq_true, hledger.closed]
  -- fewer passes than requests, so their number did not come round
  have hpasses : s.passes.toNat = es.count .start := by
    rw [hledger.passes, UInt64.toNat_ofNat', Nat.mod_eq_of_lt (by omega)]
  constructor
  case one_running => exact hledger.running
  case passes_eq => exact hpasses
  case pending_iff => exact fun hshutdown => hledger.pending (hopen hshutdown)
  case exists_start => exact fun hshutdown hp => exists_run_start hp (hopen hshutdown)
  case passes_le => rwa [hpasses]
  case between =>
    rintro before during after rfl
    exact request_mem_of_start h
  case burst =>
    intro before during heq hstart hrequest hshutdown
    have hp : s.pending = true := by
      rw [hledger.pending (hopen hshutdown), heq, List.append_cons]
      exact awaited_append hrequest hstart
    refine ⟨hp, fun later t hrun hlater => ⟨?_, fun hquiet => ?_⟩⟩
    · have hle := count_start_add_pending_le hrun
      rw [hp, List.count_eq_zero.2 hlater, Bool.toNat_true] at hle
      omega
    · have heq := count_start_add_pending_eq hrun hlater hquiet
      rwa [hp] at heq
  case fault_alike =>
    intro es' hcalm
    rw [← run?_map_calm, hcalm, run?_map_calm, h]
  case after_shutdown =>
    rintro before after rfl
    obtain ⟨u, -, hrun⟩ := run?_append_eq_some.1 h
    obtain ⟨v, hv, hrun⟩ := run?_cons_eq_some.1 hrun
    obtain rfl := Option.some.inj hv
    exact start_not_mem_of_closed rfl hrun

/-- Two requests come while a pass runs, which then fails. The next pass runs when the scheduler is
shut down, and a request after that is left pending. -/
theorem coalesced_of_run_fault_and_shutdown :
    let es : List Event := [.request, .start, .request, .request, .finish true, .start, .shutdown,
      .finish false, .request]
    run? {} es = some ⟨true, false, true, 2, 5⟩ ∧ es.count .request < 2 ^ 64 ∧
      Coalesced es ⟨true, false, true, 2, 5⟩ := by
  intro es
  have h : run? {} es = some ⟨true, false, true, 2, 5⟩ := by decide
  exact ⟨h, by decide, coalesced_of_run h (by decide)⟩

end Scheduler

end StyleAudit.Schedule
