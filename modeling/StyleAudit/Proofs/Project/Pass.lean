import Mathlib
import StyleAudit.Proofs.Project.Contribution
import StyleAudit.Schedule.Scheduler

/-! # Passes

A pass analyses files with one task for each of them. The tasks run in any order and at the same
time, while requests and shutdowns may come in. A task looks once whether its pass is cancelled; it
then reads its file, and last hands over what it contributes. The selectors that tasks use are
merged two by two. After the last task the pass looks once more and gives up if it is cancelled.

* **`Pass`**, **`Step`** — the state of a pass, and what may happen next.
* **`Pass.Accounts`** — what the state says of the tasks so far, kept by every step.
* **`Pass.Ending`** — a pass whose tasks are done, with the orders in which its results are visited.
* **`Ending.exists_analyze`** — what a pass returns is the analysis of its files in some order.
* **`exists_ending`** — a pass can always be brought to its end.
* **`ending_complete_or_cancelled`** — a pass returns the analysis of all files or none. -/

namespace StyleAudit.Project

open Files Schedule

/-! ## The machine -/

/-- The task of a file that has looked whether its pass is cancelled. -/
structure Task where
  file : SourceFile
  /-- What the task saw. -/
  cancelled : Bool

/-- What a task contributes. -/
def Task.contribution (w : Workspace) (s : Settings) (t : Task) : Contribution :=
  contribute w s t.file t.cancelled

/-- Puts a value at a path. If there is a value at a path with the same parts, it is replaced, and
the path stays as it is written. -/
def putPath {α : Type} (m : List (Path × α)) (e : Path × α) : List (Path × α) :=
  if m.any (·.1.parts == e.1.parts) then
    m.map fun k => if k.1.parts == e.1.parts then (k.1, e.2) else k
  else m ++ [e]

/-- The state of a pass, and of the scheduler that may cancel it. -/
structure Pass where
  scheduler : Scheduler
  /-- What tells whether the pass is cancelled; without it, the pass never is. -/
  ticket : Option Ticket
  /-- The number of requests and shutdowns that came. -/
  calls : Nat
  /-- The files whose tasks have not looked yet. -/
  waiting : List SourceFile
  /-- The tasks that have looked, but have not read their files yet. -/
  looked : List Task
  /-- The tasks that have read their files, but have not handed over what they contribute. -/
  opened : List Task
  /-- The tasks that are done, in the order in which they were. -/
  ended : List Task
  filesRead : Nat
  sheets : List (Path × ParsedSheet)
  faulty : List (Path × String)
  /-- The selectors that tasks use, as far as they are merged. -/
  partials : List SelectorSet

namespace Pass

/-- A pass whose tasks have not begun. -/
def start (scheduler : Scheduler) (ticket : Option Ticket) (files : List SourceFile) : Pass where
  scheduler := scheduler
  ticket := ticket
  calls := 0
  waiting := files
  looked := []
  opened := []
  ended := []
  filesRead := 0
  sheets := []
  faulty := []
  partials := []

/-- The tasks that have begun. -/
def tasks (p : Pass) : List Task := p.looked ++ (p.opened ++ p.ended)

/-- Whether a look now would find the pass cancelled. -/
def isCancelled (p : Pass) : Bool := p.ticket.any (·.isCancelled p.scheduler)

variable (w : Workspace) (s : Settings)

/-- A task reads its file and counts it. -/
def readFile (p : Pass) (t : Task) (rest : List Task) : Pass :=
  { p with
    looked := rest
    opened := t :: p.opened
    filesRead := p.filesRead + (t.contribution w s).isRead.toNat }

/-- A task hands over what it contributes. -/
def handOver (p : Pass) (t : Task) (rest : List Task) : Pass :=
  { p with
    opened := rest
    ended := p.ended ++ [t]
    sheets := (t.contribution w s).sheet?.elim p.sheets (putPath p.sheets)
    faulty := (t.contribution w s).faulty?.elim p.faulty (putPath p.faulty)
    partials := (t.contribution w s).used :: p.partials }

end Pass

/-- What may happen next while a pass runs. -/
inductive Step (w : Workspace) (s : Settings) : Pass → Pass → Prop
  | request (p : Pass) :
      Step w s p { p with scheduler := p.scheduler.request, calls := p.calls + 1 }
  | shutdown (p : Pass) :
      Step w s p { p with scheduler := p.scheduler.shutdown, calls := p.calls + 1 }
  /-- Any task that has not begun looks whether the pass is cancelled. -/
  | look {p : Pass} {f : SourceFile} {rest : List SourceFile} (h : p.waiting.Perm (f :: rest)) :
      Step w s p { p with waiting := rest, looked := ⟨f, p.isCancelled⟩ :: p.looked }
  | read {p : Pass} {t : Task} {rest : List Task} (h : p.looked.Perm (t :: rest)) :
      Step w s p (p.readFile w s t rest)
  | handOver {p : Pass} {t : Task} {rest : List Task} (h : p.opened.Perm (t :: rest)) :
      Step w s p (p.handOver w s t rest)
  /-- Merging begins with a set without members, and may do so more than once. -/
  | blank (p : Pass) : Step w s p { p with partials := .empty :: p.partials }
  /-- Any two sets are merged. -/
  | merge {p : Pass} {a b : SelectorSet} {rest : List SelectorSet}
      (h : p.partials.Perm (a :: b :: rest)) :
      Step w s p { p with partials := a.union b :: rest }

/-- What may happen while a pass runs, step after step. -/
abbrev Reaches (w : Workspace) (s : Settings) : Pass → Pass → Prop :=
  Relation.ReflTransGen (Step w s)

/-- What may happen while a pass runs and is not cancelled. -/
abbrev ReachesQuietly (w : Workspace) (s : Settings) : Pass → Pass → Prop :=
  Relation.ReflTransGen fun p q => Step w s p q ∧ q.isCancelled = false

/-- A pass whose tasks are done and whose sets are merged into one, and the orders in which the
stylesheets and those that were left out are visited. -/
structure Pass.Ending (p : Pass) where
  used : SelectorSet
  sheets : List (Path × ParsedSheet)
  faulty : List (Path × String)
  waiting : p.waiting = []
  looked : p.looked = []
  opened : p.opened = []
  partials : p.partials = [used]
  sheets_perm : sheets.Perm p.sheets
  faulty_perm : faulty.Perm p.faulty

/-- What the pass returns. -/
def Pass.Ending.result {p : Pass} (e : p.Ending) (s : Settings) :
    Except AuditError (Option Analysis) :=
  match s.root with
  | none => .error .noRoot
  | some root =>
      if p.isCancelled then .ok none
      else .ok (some (.assemble root e.sheets e.faulty e.used p.filesRead))

/-! ## What every step keeps -/

/-- A value is replaced by itself, so putting it is keeping the first. -/
theorem putPath_distinctPaths {α : Type} {es : List (Path × α)} {e : Path × α}
    (h : ∀ k ∈ es, k.1.parts = e.1.parts → k.2 = e.2) :
    putPath (distinctPaths es) e = distinctPaths (es ++ [e]) := by
  have hany : (distinctPaths es).any (·.1.parts == e.1.parts) =
      es.any (·.1.parts == e.1.parts) := by
    rw [Bool.eq_iff_iff, List.any_eq_true, List.any_eq_true]
    constructor
    · rintro ⟨k, hk, hparts⟩
      exact ⟨k, (distinctPaths_sublist es).subset hk, hparts⟩
    · rintro ⟨k, hk, hparts⟩
      obtain ⟨k', hk', hparts'⟩ := exists_mem_distinctPaths hk
      exact ⟨k', hk', by rw [hparts', hparts]⟩
  rw [putPath, distinctPaths_append, hany]
  cases hseen : es.any (·.1.parts == e.1.parts) with
  | false => simp [distinctPaths, hseen]
  | true =>
      -- the path has its value already
      have hsame : (distinctPaths es).map
          (fun k => if k.1.parts == e.1.parts then (k.1, e.2) else k) = distinctPaths es := by
        refine (List.map_congr_left fun k hk => ?_).trans (List.map_id _)
        split
        · rename_i hparts
          rw [← h k ((distinctPaths_sublist es).subset hk) (beq_iff_eq.1 hparts)]
          rfl
        · rfl
      rw [if_pos rfl, hsame]
      simp [distinctPaths, hseen]

/-- What tasks give is put one by one. -/
theorem elim_putPath_distinctPaths {α β : Type} {g : β → Option (Path × α)} {l : List β} {t : β}
    (h : ∀ {b a a'}, g b = some a → g t = some a' → a.1.parts = a'.1.parts → a.2 = a'.2) :
    (g t).elim (distinctPaths (l.filterMap g)) (putPath (distinctPaths (l.filterMap g))) =
      distinctPaths ((l ++ [t]).filterMap g) := by
  rw [List.filterMap_append]
  cases ht : g t with
  | none => simp [ht]
  | some e =>
      have hone : [t].filterMap g = [e] := by simp [ht]
      rw [hone]
      refine putPath_distinctPaths fun k hk hparts => ?_
      obtain ⟨b, -, hb⟩ := List.mem_filterMap.1 hk
      exact h hb ht hparts

namespace Pass

variable {w : Workspace} {s : Settings} {files : List SourceFile} {p q : Pass}

/-- A task that reads its file stays a task. -/
theorem tasks_readFile {t : Task} {rest : List Task} (h : p.looked.Perm (t :: rest)) :
    (p.readFile w s t rest).tasks.Perm p.tasks :=
  List.perm_middle.trans (h.symm.append_right _)

/-- A task that hands over what it contributes stays a task. -/
theorem tasks_handOver {t : Task} {rest : List Task} (h : p.opened.Perm (t :: rest)) :
    (p.handOver w s t rest).tasks.Perm p.tasks := by
  refine List.Perm.append_left _ ?_
  simp only [handOver, ← List.append_assoc]
  exact List.perm_append_comm.trans (h.symm.append_right _)

/-- What the state of a pass says of its tasks: every file has one, and what is counted, kept and
merged comes from the tasks that have come that far. -/
structure Accounts (w : Workspace) (s : Settings) (files : List SourceFile) (p : Pass) : Prop where
  files : (p.waiting ++ p.tasks.map Task.file).Perm files
  filesRead : p.filesRead = (p.opened ++ p.ended).countP fun t => (t.contribution w s).isRead
  sheets : p.sheets = distinctPaths (p.ended.filterMap fun t => (t.contribution w s).sheet?)
  faulty : p.faulty = distinctPaths (p.ended.filterMap fun t => (t.contribution w s).faulty?)
  used : ∀ x, (∃ u ∈ p.partials, x ∈ u) ↔ ∃ t ∈ p.ended, x ∈ (t.contribution w s).used

/-- Nothing is accounted for before the tasks begin. -/
theorem accounts_start (scheduler : Scheduler) (ticket : Option Ticket) :
    (start scheduler ticket files).Accounts w s files where
  files := by simp [start, tasks]
  filesRead := rfl
  sheets := rfl
  faulty := rfl
  used := by simp [start]

/-- **Every step keeps the accounts.** -/
theorem Accounts.step (h : p.Accounts w s files) (hstep : Step w s p q) :
    q.Accounts w s files := by
  cases hstep with
  | request => exact ⟨h.files, h.filesRead, h.sheets, h.faulty, h.used⟩
  | shutdown => exact ⟨h.files, h.filesRead, h.sheets, h.faulty, h.used⟩
  | @look f rest hpick =>
      -- the file leaves the waiting ones and has a task from now on
      refine ⟨List.Perm.trans ?_ h.files, h.filesRead, h.sheets, h.faulty, h.used⟩
      simp only [tasks, List.cons_append, List.map_cons]
      exact List.perm_middle.trans (hpick.symm.append_right _)
  | @read t rest hpick =>
      refine ⟨List.Perm.trans ?_ h.files, ?_, h.sheets, h.faulty, h.used⟩
      · exact ((tasks_readFile hpick).map _).append_left _
      · simp only [readFile, List.cons_append, List.countP_cons, h.filesRead]
        cases (t.contribution w s).isRead <;> rfl
  | @handOver t rest hpick =>
      refine ⟨List.Perm.trans ?_ h.files, ?_, ?_, ?_, fun x => ?_⟩
      · exact ((tasks_handOver hpick).map _).append_left _
      · have hmove := (List.perm_append_left_iff _).1 (@tasks_handOver w s p t rest hpick)
        exact h.filesRead.trans (hmove.countP_eq _).symm
      -- a file that is met again brings the value that is already there
      · simp only [Pass.handOver, h.sheets]
        exact elim_putPath_distinctPaths sheet?_congr
      · simp only [Pass.handOver, h.faulty]
        exact elim_putPath_distinctPaths faulty?_congr
      · have hused := h.used x
        simp only [Pass.handOver, List.mem_append, List.mem_cons, List.not_mem_nil, or_false,
          or_and_right, exists_or, exists_eq_left, hused]
        exact or_comm
  | blank =>
      refine ⟨h.files, h.filesRead, h.sheets, h.faulty, fun x => ?_⟩
      rw [← h.used x]
      simp
  | @merge a b rest hpick =>
      refine ⟨h.files, h.filesRead, h.sheets, h.faulty, fun x => ?_⟩
      rw [← h.used x]
      simp [hpick.mem_iff, or_assoc]

/-- **The accounts hold in every state of a pass.** -/
theorem Accounts.reaches (h : p.Accounts w s files) (hrun : Reaches w s p q) :
    q.Accounts w s files := by
  induction hrun with
  | refl => exact h
  | tail _ hstep ih => exact ih.step hstep

/-! ## What a pass returns -/

/-- What the tasks of a list saw when they looked, in their order, and last what their pass saw. -/
def looksOf (ts : List Task) (last : Bool) : Looks := fun n => ts[n]?.elim last (·.cancelled)

/-- Tasks that saw nothing. -/
theorem looksOf_eq_never {ts : List Task} (h : ∀ t ∈ ts, t.cancelled = false) :
    looksOf ts false = .never := by
  funext n
  rw [looksOf]
  cases ht : ts[n]? with
  | none => rfl
  | some t => exact h t (List.mem_of_getElem? ht)

/-- The analysis of files whose tasks saw what they saw. -/
theorem analyze_looksOf {root : Path} (hroot : s.root = some root) (ts : List Task)
    (last : Bool) :
    analyze w s (ts.map Task.file) (looksOf ts last) =
      if last then .ok none
      else .ok (some (.ofContributions root (ts.map (Task.contribution w s)))) := by
  have hlast : looksOf ts last (ts.map Task.file).length = last := by simp [looksOf]
  simp only [analyze, hroot, hlast]
  congr 4
  refine List.ext_getElem (by simp) fun n hn _ => ?_
  simp only [List.length_map, List.length_zipIdx] at hn
  simp [looksOf, Task.contribution, hn]

/-- At the end there was a task for every file. -/
theorem Ending.perm_files (e : p.Ending) (h : p.Accounts w s files) :
    (p.ended.map Task.file).Perm files := by
  simpa [tasks, e.waiting, e.looked, e.opened] using h.files

/-- **What a pass returns** is the analysis of its files in some order, with the looks of their
tasks. -/
theorem Ending.exists_analyze (e : p.Ending) (h : p.Accounts w s files) :
    ∃ ts : List Task, ts.Perm p.ended ∧ (ts.map Task.file).Perm files ∧
      analyze w s (ts.map Task.file) (looksOf ts p.isCancelled) = e.result s := by
  -- an order of the tasks in which the kept stylesheets come as they are visited
  obtain ⟨m, hm, hsheets⟩ := exists_perm_distinctPaths_eq (h.sheets ▸ e.sheets_perm)
  obtain ⟨n, hn, hfaulty⟩ := exists_perm_distinctPaths_eq (h.faulty ▸ e.faulty_perm)
  obtain ⟨ts, hts, hm, hn⟩ :=
    exists_perm_filterMap_eq_both (fun t => Contribution.faulty?_eq_none) hm hn
  refine ⟨ts, hts, (hts.map Task.file).trans (e.perm_files h), ?_⟩
  cases hroot : s.root with
  | none => simp [analyze, Ending.result, hroot]
  | some root =>
      have hused : (ts.map (Task.contribution w s)).foldl (fun u c => u.union c.used) .empty =
          e.used := by
        ext x
        have hx := h.used x
        rw [e.partials] at hx
        simp only [List.mem_singleton, exists_eq_left] at hx
        rw [mem_foldl_union, hx]
        simp [hts.mem_iff]
      have hread : (ts.map (Task.contribution w s)).countP Contribution.isRead = p.filesRead := by
        rw [h.filesRead, e.opened, List.nil_append, List.countP_map, hts.countP_eq]
        rfl
      rw [analyze_looksOf hroot, Analysis.ofContributions, List.filterMap_map, List.filterMap_map,
        hused, hread]
      simp only [Ending.result, hroot]
      rw [← hsheets, ← hfaulty, ← hm, ← hn]
      rfl

/-! ## Passes come to an end -/

/-- What is left to do: each task looks, reads, hands over, and its set is merged. -/
def work (p : Pass) : Nat :=
  4 * p.waiting.length + 3 * p.looked.length + 2 * p.opened.length + p.partials.length

/-- While there is something left to do, some of it can be done. -/
theorem exists_step_or_done (w : Workspace) (s : Settings) (p : Pass) :
    (∃ q, Step w s p q ∧ q.calls = p.calls ∧ q.work < p.work) ∨
      (p.waiting = [] ∧ p.looked = [] ∧ p.opened = [] ∧ p.partials.length ≤ 1) := by
  by_cases hwaiting : p.waiting = []
  swap
  · obtain ⟨f, rest, hf⟩ := List.exists_cons_of_ne_nil hwaiting
    refine .inl ⟨_, .look (.of_eq hf), rfl, ?_⟩
    simp only [work, hf, List.length_cons]
    omega
  by_cases hlooked : p.looked = []
  swap
  · obtain ⟨t, rest, ht⟩ := List.exists_cons_of_ne_nil hlooked
    refine .inl ⟨_, .read (.of_eq ht), rfl, ?_⟩
    simp only [work, readFile, ht, List.length_cons]
    omega
  by_cases hopened : p.opened = []
  swap
  · obtain ⟨t, rest, ht⟩ := List.exists_cons_of_ne_nil hopened
    refine .inl ⟨_, .handOver (.of_eq ht), rfl, ?_⟩
    simp only [work, handOver, ht, List.length_cons]
    omega
  -- no file is left: two partial results can be merged
  rcases hpartials : p.partials with _ | ⟨a, _ | ⟨b, rest⟩⟩
  · exact .inr ⟨hwaiting, hlooked, hopened, by simp⟩
  · exact .inr ⟨hwaiting, hlooked, hopened, by simp⟩
  · refine .inl ⟨_, .merge (.of_eq hpartials), rfl, ?_⟩
    simp only [work, hpartials, List.length_cons]
    omega

/-- **A pass can always be brought to its end**, whatever happened before, without further calls. -/
theorem exists_ending (w : Workspace) (s : Settings) (p : Pass) :
    ∃ q, Reaches w s p q ∧ q.calls = p.calls ∧ Nonempty q.Ending := by
  induction hwork : p.work using Nat.strong_induction_on generalizing p with
  | _ n ih =>
      subst hwork
      rcases exists_step_or_done w s p with ⟨q, hstep, hcalls, hless⟩ | ⟨hw, hl, ho, hpartials⟩
      · obtain ⟨r, hrun, hsame, hending⟩ := ih _ hless q rfl
        exact ⟨r, .head hstep hrun, hsame.trans hcalls, hending⟩
      · -- without tasks there is no set to return yet
        rcases hset : p.partials with _ | ⟨u, _ | ⟨v, rest⟩⟩
        · exact ⟨_, .single (.blank p), rfl,
            ⟨⟨.empty, p.sheets, p.faulty, hw, hl, ho, by simp [hset], .refl _, .refl _⟩⟩⟩
        · exact ⟨p, .refl, rfl, ⟨⟨u, p.sheets, p.faulty, hw, hl, ho, hset, .refl _, .refl _⟩⟩⟩
        · simp [hset] at hpartials

/-! ## Cancelled passes -/

/-- Only a call touches the scheduler, and it begins a new generation. -/
theorem call_cases (hstep : Step w s p q) : q.ticket = p.ticket ∧
    ((q.scheduler = p.scheduler ∧ q.calls = p.calls) ∨
      (q.scheduler.generation = p.scheduler.generation + 1 ∧ q.calls = p.calls + 1)) := by
  cases hstep with
  | request => exact ⟨rfl, .inr ⟨rfl, rfl⟩⟩
  | shutdown => exact ⟨rfl, .inr ⟨rfl, rfl⟩⟩
  | look => exact ⟨rfl, .inl ⟨rfl, rfl⟩⟩
  | read => exact ⟨rfl, .inl ⟨rfl, rfl⟩⟩
  | handOver => exact ⟨rfl, .inl ⟨rfl, rfl⟩⟩
  | blank => exact ⟨rfl, .inl ⟨rfl, rfl⟩⟩
  | merge => exact ⟨rfl, .inl ⟨rfl, rfl⟩⟩

/-- Calls are only ever added. -/
theorem calls_le (hrun : Reaches w s p q) : p.calls ≤ q.calls := by
  induction hrun with
  | refl => exact le_rfl
  | tail _ hstep ih =>
      rcases (call_cases hstep).2 with ⟨-, hcalls⟩ | ⟨-, hcalls⟩ <;> omega

/-- A pass that is not cancelled stays so while no call comes. -/
theorem reachesQuietly_of_calls_eq (hp : p.isCancelled = false) (hrun : Reaches w s p q)
    (hcalls : q.calls = p.calls) : ReachesQuietly w s p q ∧ q.isCancelled = false := by
  induction hrun with
  | refl => exact ⟨.refl, hp⟩
  | @tail a b hrun hstep ih =>
      have hle := calls_le hrun
      obtain ⟨hticket, ⟨hscheduler, hsame⟩ | ⟨-, hmore⟩⟩ := call_cases hstep
      · obtain ⟨hquiet, ha⟩ := ih (hsame.symm.trans hcalls)
        have hb : b.isCancelled = false := by
          rw [← ha, isCancelled, isCancelled, hticket, hscheduler]
        exact ⟨hquiet.tail ⟨hstep, hb⟩, hb⟩
      · omega

/-- No task that has begun saw its pass cancelled. -/
def Undisturbed (p : Pass) : Prop := ∀ t ∈ p.tasks, t.cancelled = false

/-- A task that looks while the pass is not cancelled does not see it cancelled. -/
theorem Undisturbed.step (h : p.Undisturbed) (hp : p.isCancelled = false)
    (hstep : Step w s p q) : q.Undisturbed := by
  cases hstep with
  | request => exact h
  | shutdown => exact h
  | look hpick =>
      intro t ht
      rcases List.mem_cons.1 ht with rfl | ht
      · exact hp
      · exact h t ht
  | read hpick => exact fun t ht => h t ((tasks_readFile hpick).mem_iff.1 ht)
  | handOver hpick => exact fun t ht => h t ((tasks_handOver hpick).mem_iff.1 ht)
  | blank => exact h
  | merge hpick => exact h

/-- **In a pass that is never cancelled** no task is disturbed. -/
theorem undisturbed_of_reachesQuietly (hp : p.isCancelled = false) (h : p.Undisturbed)
    (hrun : ReachesQuietly w s p q) : q.isCancelled = false ∧ q.Undisturbed := by
  induction hrun with
  | refl => exact ⟨hp, h⟩
  | tail _ hstep ih => exact ⟨hstep.2, ih.2.step ih.1 hstep.1⟩

/-- **An undisturbed pass** that is not cancelled at its end returns the analysis of all its files,
in some order. -/
theorem Ending.exists_analyze_never (e : p.Ending) (h : p.Accounts w s files)
    (hp : p.isCancelled = false) (hundisturbed : p.Undisturbed) :
    ∃ files' : List SourceFile, files'.Perm files ∧ analyze w s files' .never = e.result s := by
  obtain ⟨ts, hts, hfiles, hresult⟩ := e.exists_analyze h
  refine ⟨ts.map Task.file, hfiles, ?_⟩
  rw [hp, looksOf_eq_never fun t ht => hundisturbed t ?_] at hresult
  · exact hresult
  · exact List.mem_append_right _ (List.mem_append_right _ (hts.mem_iff.1 ht))

/-- A pass that began in a generation: every call begins another one, and as long as there was none,
no task was disturbed. -/
structure Watches (generation : UInt64) (p : Pass) : Prop where
  ticket : p.ticket = some ⟨generation⟩
  generation : p.scheduler.generation = generation + .ofNat p.calls
  undisturbed : p.calls = 0 → p.Undisturbed

/-- A pass is cancelled when a call came, unless the generations ran out. -/
theorem Watches.isCancelled_eq {g : UInt64} (h : p.Watches g) (hcalls : p.calls < 2 ^ 64) :
    p.isCancelled = decide (p.calls ≠ 0) := by
  -- fewer calls than generations, so the generations do not come round to the first one
  have hsame : p.scheduler.generation = g ↔ p.calls = 0 := by
    rw [h.generation, ← UInt64.toNat_inj, UInt64.toNat_add, UInt64.toNat_ofNat',
      Nat.mod_eq_of_lt hcalls]
    have := g.toNat_lt
    omega
  simp only [isCancelled, h.ticket, Option.any_some, Ticket.isCancelled]
  rw [bne, Bool.eq_iff_iff, Bool.not_eq_true', beq_eq_false_iff_ne, decide_eq_true_iff, Ne, hsame]

/-- **Every step keeps the watch.** -/
theorem Watches.step {g : UInt64} (h : p.Watches g) (hstep : Step w s p q) : q.Watches g := by
  obtain ⟨hticket, hcall⟩ := call_cases hstep
  rcases hcall with ⟨hscheduler, hcalls⟩ | ⟨hgeneration, hcalls⟩
  · -- a task that looks now sees the generation in which the pass began
    refine ⟨hticket.trans h.ticket, by rw [hscheduler, hcalls, h.generation], fun hnone => ?_⟩
    have hp : p.calls = 0 := hcalls.symm.trans hnone
    refine (h.undisturbed hp).step ?_ hstep
    rw [h.isCancelled_eq (by omega), hp]
    rfl
  · refine ⟨hticket.trans h.ticket, ?_, fun hnone => by omega⟩
    rw [hgeneration, hcalls, h.generation, UInt64.ofNat_add, UInt64.add_assoc]
    rfl

/-- **A pass is watched in all its states.** -/
theorem watches_of_reaches {scheduler : Scheduler}
    (hrun : Reaches w s (start scheduler (some scheduler.ticket) files) p) :
    p.Watches scheduler.generation := by
  induction hrun with
  | refl => exact ⟨rfl, by simp [start], fun _ t ht => by simp [start, tasks] at ht⟩
  | tail _ hstep ih => exact ih.step hstep

/-- **A pass returns the analysis of all files or none.** A pass can be brought to its end from each
of its states. If it then returns an analysis, there was a task for every file, none of them saw the
pass cancelled, and the analysis is that of all files. If the pass is cancelled in a state before
the end, it returns nothing. -/
theorem ending_complete_or_cancelled {scheduler : Scheduler}
    (hrun : Reaches w s (start scheduler (some scheduler.ticket) files) p) :
    (∃ q, Reaches w s p q ∧ q.calls = p.calls ∧ Nonempty q.Ending) ∧
    ∀ q, Reaches w s p q → q.calls < 2 ^ 64 → ∀ e : q.Ending,
      (∀ a, e.result s = .ok (some a) →
        (q.ended.map Task.file).Perm files ∧ (∀ t ∈ q.ended, t.cancelled = false) ∧
          ∃ files' : List SourceFile, files'.Perm files ∧
            analyze w s files' .never = .ok (some a)) ∧
      ∀ root, s.root = some root → p.isCancelled = true → e.result s = .ok none := by
  refine ⟨exists_ending w s p, fun q hrest hcalls e => ⟨fun a ha => ?_, fun root hroot hp => ?_⟩⟩
  · have hwatches := watches_of_reaches (hrun.trans hrest)
    have haccounts := (accounts_start scheduler (some scheduler.ticket)).reaches
      (hrun.trans hrest)
    -- the last look saw no call, so no earlier one did
    have hlast : q.isCancelled = false := by
      cases hlast : q.isCancelled with
      | false => rfl
      | true => cases hroot : s.root <;> simp [Ending.result, hroot, hlast] at ha
    have hnone : q.calls = 0 := by simpa [hlast] using hwatches.isCancelled_eq hcalls
    have hundisturbed := hwatches.undisturbed hnone
    refine ⟨e.perm_files haccounts, fun t ht => hundisturbed t ?_, ?_⟩
    · exact List.mem_append_right _ (List.mem_append_right _ ht)
    · rw [← ha]
      exact e.exists_analyze_never haccounts hlast hundisturbed
  · have hle := calls_le hrest
    have hpcalls := (watches_of_reaches hrun).isCancelled_eq (hle.trans_lt hcalls)
    -- calls are not taken back
    have hcancelled : q.isCancelled = true := by
      rw [(watches_of_reaches (hrun.trans hrest)).isCancelled_eq hcalls]
      rw [hp, eq_comm, decide_eq_true_iff] at hpcalls
      exact decide_eq_true (by omega)
    simp [Ending.result, hroot, hcancelled]

/-- A stylesheet is analysed while nothing is requested. If the pass ends then, it returns the
analysis; if a request comes just before its last look, it returns nothing. -/
theorem ending_complete_or_cancelled_late_request :
    let w : Workspace := ⟨⟨[(["a.css"], .file (.text ".a {}"))]⟩, []⟩
    let s : Settings := { root := some ⟨"/"⟩ }
    let files : List SourceFile := [⟨⟨"/a.css"⟩, .stylesheet⟩]
    ∃ p, Reaches w s (start {} (some (Scheduler.ticket {})) files) p ∧ p.calls < 2 ^ 64 ∧
      p.filesRead = 1 ∧
      (∃ (e : p.Ending) (a : Analysis), e.result s = .ok (some a) ∧
        (∀ t ∈ p.ended, t.cancelled = false) ∧
        ∃ files' : List SourceFile, files'.Perm files ∧
          analyze w s files' .never = .ok (some a)) ∧
      ∃ q, Step w s p q ∧ q.isCancelled = true ∧ ∃ e : q.Ending, e.result s = .ok none := by
  intro w s files
  have hrun : Reaches w s (start {} (some (Scheduler.ticket {})) files) _ :=
    ((Relation.ReflTransGen.single (.look (.refl files))).tail (.read (.refl _))).tail
      (.handOver (.refl _))
  have hread : (Task.contribution w s ⟨⟨⟨"/a.css"⟩, .stylesheet⟩, false⟩).isRead = true := by
    decide +kernel
  refine ⟨_, hrun, by decide, congrArg (fun b : Bool => 0 + b.toNat) hread, ?_, ?_⟩
  · refine ⟨⟨_, _, _, rfl, rfl, rfl, rfl, .refl _, .refl _⟩, _, rfl, ?_⟩
    exact (((ending_complete_or_cancelled hrun).2 _ .refl (by decide) _).1 _ rfl).2
  · refine ⟨_, .request _, rfl, ⟨_, _, _, rfl, rfl, rfl, rfl, .refl _, .refl _⟩, ?_⟩
    exact ((ending_complete_or_cancelled (hrun.tail (.request _))).2 _ .refl (by decide) _).2 _
      rfl rfl

end Pass

end StyleAudit.Project
