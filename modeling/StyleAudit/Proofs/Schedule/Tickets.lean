import Mathlib
import StyleAudit.Proofs.Schedule.Coalescing

/-! # Tickets

A ticket is only a number, the generation in which its pass started. It tells whether the pass is
cancelled since every call begins a new generation, and only calls do: as long as there are fewer
calls than numbers, no generation comes round. Two passes never share a ticket, since a request
comes between them.

* **`Issue`**, **`issues`** — the tickets that a run hands out, and what happened after each.
* **`generation_of_run`** — the generation counts the calls.
* **`mem_issues_iff`** — where the tickets of a run come from.
* **`TicketsExact`**, **`ticketsExact_of_run`** — what tickets tell in a run. -/

namespace StyleAudit.Schedule

/-- Whether an event is a request or a shutdown. -/
def Event.isCall : Event → Bool
  | request | shutdown => true
  | _ => false

/-- Some call is a request or a shutdown. -/
theorem exists_isCall_iff {es : List Event} :
    0 < es.countP Event.isCall ↔ .request ∈ es ∨ .shutdown ∈ es := by
  rw [List.countP_pos_iff]
  constructor
  · rintro ⟨e, he, hcall⟩
    cases e with
    | request => exact .inl he
    | shutdown => exact .inr he
    | start => cases hcall
    | finish failed => cases hcall
  · rintro (he | he)
    · exact ⟨_, he, rfl⟩
    · exact ⟨_, he, rfl⟩

/-- A ticket that was handed out, and what happened after the start of its pass. -/
structure Issue where
  ticket : Ticket
  after : List Event

namespace Scheduler

variable {s t u : Scheduler} {es fs : List Event} {i : Issue}

/-- The tickets that a run hands out, in the order of the passes. -/
def issues (s : Scheduler) : List Event → List Issue
  | [] => []
  | e :: es =>
      (if e = .start then [⟨s.ticket, es⟩] else []) ++ (s.step? e).elim [] fun u => u.issues es

/-- The tickets of a run that begins with an event. -/
theorem issues_cons {e : Event} (h : s.step? e = some u) :
    s.issues (e :: es) = (if e = .start then [⟨s.ticket, es⟩] else []) ++ u.issues es := by
  rw [issues, h, Option.elim_some]

/-! ## Generations -/

/-- **The generation counts the calls.** -/
theorem generation_of_run (h : s.run? es = some t) :
    t.generation = s.generation + .ofNat (es.countP Event.isCall) := by
  induction es generalizing s with
  | nil =>
      obtain rfl := Option.some.inj h
      simp
  | cons e es ih =>
      obtain ⟨u, hu, hrun⟩ := run?_cons_eq_some.1 h
      rw [ih hrun, List.countP_cons]
      rcases step_cases hu with ⟨rfl, rfl⟩ | ⟨rfl, -, -, -, rfl⟩ | ⟨⟨failed, rfl⟩, -, rfl⟩ |
        ⟨rfl, rfl⟩
      · simp only [request, Event.isCall, if_true, UInt64.ofNat_add]
        rw [UInt64.add_assoc, UInt64.add_comm 1]
        rfl
      · rfl
      · rfl
      · simp only [shutdown, Event.isCall, if_true, UInt64.ofNat_add]
        rw [UInt64.add_assoc, UInt64.add_comm 1]
        rfl

/-- The generation as a number, while the generations do not come round. -/
theorem toNat_generation_of_run (h : s.run? es = some t)
    (hcalls : s.generation.toNat + es.countP Event.isCall < 2 ^ 64) :
    t.generation.toNat = s.generation.toNat + es.countP Event.isCall := by
  rw [generation_of_run h, UInt64.toNat_add, UInt64.toNat_ofNat', Nat.add_mod_mod,
    Nat.mod_eq_of_lt hcalls]

/-- **A ticket is cancelled by calls**, as long as there are fewer of them than generations. -/
theorem isCancelled_ticket_iff (h : s.run? es = some t) (hcalls : es.countP Event.isCall < 2 ^ 64) :
    s.ticket.isCancelled t = true ↔ .request ∈ es ∨ .shutdown ∈ es := by
  rw [← exists_isCall_iff, Ticket.isCancelled, bne_iff_ne, generation_of_run h, ticket, Ne,
    UInt64.add_eq_left, ← UInt64.toNat_inj, UInt64.toNat_ofNat', Nat.mod_eq_of_lt hcalls]
  exact Nat.pos_iff_ne_zero.symm

/-! ## Tickets of a run -/

/-- **Where the tickets of a run come from**: each belongs to a start. -/
theorem mem_issues_iff (h : s.run? es = some t) : i ∈ s.issues es ↔
    ∃ before u, es = before ++ .start :: i.after ∧ s.run? before = some u ∧ i.ticket = u.ticket := by
  induction es generalizing s with
  | nil => simp [issues]
  | cons e es ih =>
      obtain ⟨v, hv, hrun⟩ := run?_cons_eq_some.1 h
      rw [issues_cons hv, List.mem_append, ih hrun]
      constructor
      · rintro (hfirst | ⟨before, u, rfl, hu, hticket⟩)
        · split at hfirst
          · rename_i he
            obtain rfl := List.mem_singleton.1 hfirst
            exact ⟨[], s, by rw [he]; rfl, rfl, rfl⟩
          · cases hfirst
        · exact ⟨e :: before, u, rfl, run?_cons_eq_some.2 ⟨v, hv, hu⟩, hticket⟩
      · rintro ⟨before, u, heq, hu, hticket⟩
        cases before with
        | nil =>
            obtain ⟨rfl, hafter⟩ := List.cons.inj heq
            obtain rfl := Option.some.inj hu
            refine .inl ?_
            rw [if_pos rfl, List.mem_singleton, hafter, ← hticket]
        | cons first before =>
            obtain ⟨rfl, hrest⟩ := List.cons.inj heq
            obtain ⟨v', hv', hu⟩ := run?_cons_eq_some.1 hu
            obtain rfl := Option.some.inj (hv.symm.trans hv')
            exact .inr ⟨before, u, hrest, hu, hticket⟩

/-- Every pass has a ticket. -/
theorem length_issues (h : s.run? es = some t) : (s.issues es).length = es.count .start := by
  induction es generalizing s with
  | nil => rfl
  | cons e es ih =>
      obtain ⟨v, hv, hrun⟩ := run?_cons_eq_some.1 h
      rw [issues_cons hv, List.length_append, ih hrun, List.count_cons, Nat.add_comm]
      by_cases he : e = .start
      · simp [he]
      · simp [he]

/-- The state after the start of a pass with a ticket, and the run from there. -/
theorem exists_run_of_mem_issues (h : s.run? es = some t) (hi : i ∈ s.issues es) :
    ∃ u : Scheduler, i.ticket = u.ticket ∧ u.pending = false ∧ u.run? i.after = some t := by
  obtain ⟨before, u, rfl, hu, hticket⟩ := (mem_issues_iff h).1 hi
  obtain ⟨v, hv, hrun⟩ := run?_append_eq_some.1 h
  obtain rfl := Option.some.inj (hu.symm.trans hv)
  obtain ⟨w, hw, hrun⟩ := run?_cons_eq_some.1 hrun
  obtain ⟨-, -, -, rfl⟩ := step?_start_eq_some.1 hw
  exact ⟨u.start, hticket, rfl, hrun⟩

/-- The ticket of a pass comes after a request, and belongs to a later generation than the one before
it. -/
theorem generation_lt_of_mem_issues (h : s.run? (.start :: es) = some t)
    (hcalls : s.generation.toNat + es.countP Event.isCall < 2 ^ 64) (hi : i ∈ s.start.issues es) :
    .request ∈ es ∧ s.ticket.generation < i.ticket.generation := by
  obtain ⟨v, hv, hrun⟩ := run?_cons_eq_some.1 h
  obtain ⟨-, -, -, rfl⟩ := step?_start_eq_some.1 hv
  obtain ⟨before, u, rfl, hu, hticket⟩ := (mem_issues_iff hrun).1 hi
  have hstarts : s.run? ([] ++ .start :: (before ++ .start :: i.after)) = some t := h
  have hrequest : .request ∈ before := request_mem_of_start hstarts
  have hpos : 0 < before.countP Event.isCall := exists_isCall_iff.2 (.inl hrequest)
  have hgeneration : u.generation.toNat = s.generation.toNat + before.countP Event.isCall := by
    refine toNat_generation_of_run (s := s.start) hu ?_
    rw [List.countP_append] at hcalls
    exact lt_of_le_of_lt (Nat.add_le_add_left (Nat.le_add_right _ _) _) hcalls
  refine ⟨List.mem_append_left _ hrequest, ?_⟩
  rw [hticket, UInt64.lt_iff_toNat_lt]
  simp only [ticket]
  omega

/-- **The generations of the tickets increase**, with requests between them. -/
theorem pairwise_issues (h : s.run? es = some t)
    (hcalls : s.generation.toNat + es.countP Event.isCall < 2 ^ 64) :
    (s.issues es).Pairwise fun i j =>
      .request ∈ i.after ∧ i.ticket.generation < j.ticket.generation := by
  induction es generalizing s with
  | nil => exact .nil
  | cons e es ih =>
      obtain ⟨u, hu, hrun⟩ := run?_cons_eq_some.1 h
      have hone : s.run? [e] = some u := run?_cons_eq_some.2 ⟨u, hu, rfl⟩
      rw [← List.singleton_append, List.countP_append] at hcalls
      have hgeneration := toNat_generation_of_run hone (by omega)
      have hrest := ih hrun (by omega)
      have hfirst : s.generation.toNat + es.countP Event.isCall < 2 ^ 64 := by omega
      rw [issues_cons hu]
      by_cases he : e = .start
      · subst he
        obtain ⟨-, -, -, rfl⟩ := step?_start_eq_some.1 hu
        rw [if_pos rfl, List.singleton_append, List.pairwise_cons]
        exact ⟨fun i hi => generation_lt_of_mem_issues h hfirst hi, hrest⟩
      · rwa [if_neg he, List.nil_append]

/-- Every ticket but the last one is followed by a request. -/
theorem request_mem_or_getLast? (h : s.run? es = some t)
    (hcalls : s.generation.toNat + es.countP Event.isCall < 2 ^ 64) (hi : i ∈ s.issues es) :
    .request ∈ i.after ∨ (s.issues es).getLast? = some i := by
  have hpairs := pairwise_issues h hcalls
  obtain ⟨front, back, hsplit⟩ := List.append_of_mem hi
  rw [hsplit] at hpairs ⊢
  cases back with
  | nil => exact .inr (by simp)
  | cons j back =>
      rw [List.pairwise_append, List.pairwise_cons] at hpairs
      exact .inl (hpairs.2.1.1 j List.mem_cons_self).1

/-- No pass has started since the last ticket was handed out. -/
theorem start_not_mem_of_getLast? (h : s.run? es = some t) (hi : (s.issues es).getLast? = some i) :
    .start ∉ i.after := by
  induction es generalizing s with
  | nil => cases hi
  | cons e es ih =>
      obtain ⟨u, hu, hrun⟩ := run?_cons_eq_some.1 h
      rw [issues_cons hu] at hi
      by_cases hrest : u.issues es = []
      · -- without further tickets there are no further starts
        have hnone : es.count .start = 0 := by rw [← length_issues hrun, hrest, List.length_nil]
        rw [hrest, List.append_nil] at hi
        split at hi
        · obtain rfl := Option.some.inj hi
          exact List.count_eq_zero.1 hnone
        · cases hi
      · rw [List.getLast?_append_of_ne_nil _ hrest] at hi
        exact ih hrun hi

/-! ## What tickets tell -/

/-- What the tickets of a run tell. -/
structure TicketsExact (es : List Event) (s : Scheduler) : Prop where
  /-- Every pass has its ticket. -/
  length_eq : (issues {} es).length = es.count .start
  /-- Each ticket belongs to a later generation than those before it. -/
  increasing : ((issues {} es).map (·.ticket.generation)).Pairwise (· < ·)
  /-- A pass is cancelled when a request or a shutdown came after its start. -/
  cancelled_iff : ∀ i ∈ issues {} es,
    (i.ticket.isCancelled s = true ↔ .request ∈ i.after ∨ .shutdown ∈ i.after)
  /-- A pass that is cancelled stays so. -/
  stays : ∀ i ∈ issues {} es, i.ticket.isCancelled s = true → ∀ later t,
    s.run? later = some t → (es ++ later).countP Event.isCall < 2 ^ 64 →
      i.ticket.isCancelled t = true
  /-- At most one ticket is not cancelled. -/
  at_most_one : ((issues {} es).filter fun i => !i.ticket.isCancelled s).length ≤ 1
  /-- Only the last ticket may not be cancelled. -/
  only_last : ∀ i ∈ issues {} es, i.ticket.isCancelled s = false →
    (issues {} es).getLast? = some i
  /-- When nothing is left to do, the pass that ended last is not cancelled: it started after the
  last request. -/
  idle : .shutdown ∉ es → s.isIdle = true → ∀ i, (issues {} es).getLast? = some i →
    i.ticket.isCancelled s = false ∧ .request ∉ i.after

/-- **Tickets tell exactly which passes are cancelled**, in every run with fewer requests and
shutdowns than generations: those after whose start a request or a shutdown came, and so all but
perhaps the last one. -/
theorem ticketsExact_of_run (h : run? {} es = some s)
    (hcalls : es.countP Event.isCall < 2 ^ 64) : TicketsExact es s := by
  have hstart : (0 : UInt64).toNat + es.countP Event.isCall < 2 ^ 64 := by simpa using hcalls
  have hpairs := pairwise_issues h hstart
  -- what happened after a start is part of the run
  have hsuffix : ∀ i ∈ issues {} es, i.after <:+ es := by
    intro i hi
    obtain ⟨before, -, rfl, -⟩ := (mem_issues_iff h).1 hi
    exact (List.suffix_cons _ _).trans (List.suffix_append _ _)
  have hcancelled : ∀ i ∈ issues {} es,
      (i.ticket.isCancelled s = true ↔ .request ∈ i.after ∨ .shutdown ∈ i.after) := by
    intro i hi
    obtain ⟨u, hticket, -, hrun⟩ := exists_run_of_mem_issues h hi
    rw [hticket]
    refine isCancelled_ticket_iff hrun (lt_of_le_of_lt ?_ hcalls)
    exact (hsuffix i hi).sublist.countP_le
  have hlast : ∀ i ∈ issues {} es, i.ticket.isCancelled s = false →
      (issues {} es).getLast? = some i := by
    intro i hi hlive
    rcases request_mem_or_getLast? h hstart hi with hrequest | hlast
    · rw [(hcancelled i hi).2 (.inl hrequest)] at hlive
      cases hlive
    · exact hlast
  constructor
  case length_eq => exact length_issues h
  case increasing => exact List.pairwise_map.2 (hpairs.imp fun {i j} hij => hij.2)
  case cancelled_iff => exact hcancelled
  case stays =>
    intro i hi hcancel later t hrun hmore
    obtain ⟨u, hticket, -, hafter⟩ := exists_run_of_mem_issues h hi
    have hlater : u.run? (i.after ++ later) = some t := run?_append_eq_some.2 ⟨s, hafter, hrun⟩
    have hle : (i.after ++ later).countP Event.isCall ≤ (es ++ later).countP Event.isCall :=
      ((hsuffix i hi).sublist.append_right later).countP_le
    rw [hticket, isCancelled_ticket_iff hlater (lt_of_le_of_lt hle hmore)]
    exact ((hcancelled i hi).1 hcancel).imp (List.mem_append_left _) (List.mem_append_left _)
  case at_most_one =>
    have hapart := hpairs.filter fun i => !i.ticket.isCancelled s
    have hsame : ∀ i ∈ (issues {} es).filter fun i => !i.ticket.isCancelled s,
        (issues {} es).getLast? = some i := by
      intro i hi
      obtain ⟨hi, hlive⟩ := List.mem_filter.1 hi
      exact hlast i hi (by simpa using hlive)
    -- two of them would both be the last ticket
    rcases hlive : (issues {} es).filter fun i => !i.ticket.isCancelled s with _ | ⟨i, _ | ⟨j, rest⟩⟩
    · simp [hlive]
    · simp [hlive]
    · rw [hlive] at hapart hsame
      have hi := hsame i List.mem_cons_self
      have hj := hsame j (List.mem_cons_of_mem _ List.mem_cons_self)
      obtain rfl := Option.some.inj (hi.symm.trans hj)
      exact absurd ((List.pairwise_cons.1 hapart).1 i List.mem_cons_self).2 (UInt64.lt_irrefl _)
  case only_last => exact hlast
  case idle =>
    intro hshutdown hidle i hi
    have hmem := List.mem_of_getLast? hi
    obtain ⟨before, -, hsplit, -⟩ := (mem_issues_iff h).1 hmem
    have hledger := ledger_of_run h
    have hopen : s.closed = false := by rwa [← Bool.not_eq_true, hledger.closed]
    have hrequest : .request ∉ i.after := by
      intro hrequest
      have hp : s.pending = true := by
        rw [hledger.pending hopen, hsplit, List.append_cons]
        exact awaited_append hrequest (start_not_mem_of_getLast? h hi)
      simp [isIdle, hp] at hidle
    refine ⟨?_, hrequest⟩
    rw [← Bool.not_eq_true, hcancelled i hmem, not_or]
    exact ⟨hrequest, fun hmore => hshutdown ((hsuffix i hmem).subset hmore)⟩

/-- Two requests come while a pass runs. The pass after them ends by a fault and is not cancelled;
only the shutdown cancels it. -/
theorem ticketsExact_of_run_burst :
    let es : List Event := [.request, .start, .request, .request, .finish false, .start,
      .finish true]
    let s : Scheduler := ⟨false, false, false, 2, 3⟩
    run? {} es = some s ∧ es.countP Event.isCall < 2 ^ 64 ∧ TicketsExact es s ∧
      (issues {} es).map (fun i => (i.ticket.generation, i.ticket.isCancelled s)) =
        [(1, true), (3, false)] ∧
      (∃ t, s.run? [.shutdown] = some t ∧ TicketsExact (es ++ [.shutdown]) t) := by
  intro es s
  have h : run? {} es = some s := by decide
  have hmore : run? {} (es ++ [.shutdown]) = some s.shutdown := by decide
  exact ⟨h, by decide, ticketsExact_of_run h (by decide), by decide, s.shutdown, rfl,
    ticketsExact_of_run hmore (by decide)⟩

end Scheduler

end StyleAudit.Schedule
