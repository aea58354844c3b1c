import Mathlib
import StyleAudit.Proofs.Sheet.Faults
import StyleAudit.Proofs.Sheet.Shortening

/-! # Removal is exact

Replaying the edits of the exposed rules of a text gives a text that is read as what remains: the
rules that are neither deleted nor nested in a deleted one, with the selectors that stay. The text is
gone through statement by statement, and each statement is read again before what has become of
the ones after it.

* **`remaining targets rules`** — the selectors and depths of the rules that remain.
* **`Forest.Prunes`** — a forest can be replayed, and the outcome shows what remains.
* **`prunes_style`, `prunes_deleted`** — what becomes of a rule that stays, and of one that goes.
* **`removal_exact`** — removal is exact on a text all of whose rules can be removed.
* **`removal_not_exact`** — on other texts it is not. -/

namespace StyleAudit.Sheet

open Text

variable {targets : SelectorSet} {cs : List Char}

/-! ## Edits of the exposed rules -/

/-- The edits of the exposed rules of a list. -/
def editsIn (targets : SelectorSet) (cs : List Char) (rules : List Rule) : List Edit :=
  (exposed targets rules).filterMap (editOf targets cs)

/-- The selectors and depths of the rules that remain. -/
def remaining (targets : SelectorSet) (rules : List Rule) : List (List String × Nat) :=
  ((exposed targets rules).filter fun r => !r.fullyTargeted targets).map fun r =>
    ((r.entries.map Entry.text).filter fun s => !decide (s ∈ targets), r.depth)

/-- No edit writes anything on a run of whitespace. -/
theorem inserts_editsIn {rules : List Rule} (hplaced : ∀ r ∈ rules, Nonempty (Placement cs r))
    {a run b : List Char} (htext : cs = a ++ (run ++ b)) (hrun : ∀ c ∈ run, isSpace c = true)
    {n : Nat} (hlow : byteSize a ≤ n) (hhigh : n < byteSize a + byteSize run) :
    Edit.inserts (editsIn targets cs rules) n = [] := by
  rw [Edit.inserts, List.flatMap_eq_nil_iff]
  intro e he
  obtain ⟨r, hr, hedit⟩ := List.mem_filterMap.1 he
  rcases editOf_eq_some_iff.1 hedit with ⟨-, rfl⟩ | ⟨-, rfl⟩
  · split <;> rfl
  · refine if_neg ?_
    rintro rfl
    -- a selector list does not begin with whitespace
    obtain ⟨p⟩ := hplaced r (mem_exposed_iff.1 hr).1
    obtain ⟨c, hat, hc⟩ := p.at_start
    rw [htext] at hat
    rw [hrun c (hat.mem_run hlow hhigh)] at hc
    exact absurd hc (by decide)

/-! ## Statements -/

/-- Replaying the edits of the exposed rules of a forest gives a forest that is read before `x`, and
that shows what remains of the rules. -/
def Forest.Prunes (targets : SelectorSet) (cs : List Char) (context : Context) (depth pos : Nat)
    (within : Option Bracket) (f : Forest) (x : List Char) : Prop :=
  ∃ f', f.Turns (editsIn targets cs (outlineFrom context depth pos [] f).rules) pos within x f' ∧
    f'.Shows context depth (remaining targets (outlineFrom context depth pos [] f).rules)

variable {context : Context} {depth : Nat} {front back : List Lexeme} {f q body rest : Forest}
  {within : Option Bracket} {x : List Char} {o l : Lexeme}

/-- A forest between fences is read before any text that begins with the same fence. -/
theorem Forest.Sits.splits_of_head? (h : f.Sits cs front back within)
    (hx : x.head? = (charsOf back).head?) : Splits f.lexemes x := by
  have hsplits := h.splits
  by_cases hne : back = []
  · subst hne
    have hnil : x = [] := by simpa using hx
    rwa [hnil]
  · obtain ⟨c, b, hback, hfence, -⟩ := h.exists_after hne
    rw [hback, List.head?_cons] at hx
    obtain ⟨y, rfl⟩ := List.head?_eq_some_iff.1 hx
    rw [hback] at hsplits
    exact splits_fence hfence hsplits

/-- The edits of a forest stay between the fences around it. -/
theorem Forest.Sits.bounds_editsIn (h : f.Sits cs front back within) (targets : SelectorSet)
    (context : Context) (depth : Nat) :
    ∀ e ∈ editsIn targets cs (outlineFrom context depth (byteSize (charsOf front)) [] f).rules,
      byteSize (charsOf front) ≤ e.span.start ∧ e.span.start < e.span.stop ∧
        e.span.stop ≤ byteSize (charsOf front) + f.size := by
  intro e he
  obtain ⟨r, hr, hedit⟩ := List.mem_filterMap.1 he
  exact h.bounds_of_editOf (mem_exposed_iff.1 hr).1 hedit

/-- The head of a statement is read before its end, whatever comes after that. -/
theorem Forest.Sits.splits_head {ls : List Lexeme} (h : (q ++ f).Sits cs front back within)
    (hlex : f.lexemes = l :: ls) (hl : l.IsFence) (x : List Char) :
    Splits q.lexemes (l.chars ++ x) ∧ l.Reads x := by
  have hsplits := h.splits
  rw [Forest.lexemes_append, hlex, splits_append, charsOf_cons, List.append_assoc] at hsplits
  obtain ⟨r, hreads⟩ := h.reads (show l ∈ (q ++ f).lexemes by simp [hlex])
  obtain ⟨c, hc, hfence, -, -⟩ := hl.chars_eq hreads
  refine ⟨?_, hl.reads hreads x⟩
  rw [hc, List.singleton_append] at hsplits ⊢
  exact splits_fence hfence hsplits.1

/-- The last statement of a forest stays. -/
theorem prunes_finish (hf : q.Sits cs front back within) (hq : q.Flat)
    (hproblems : (outlineFrom context depth (byteSize (charsOf front)) [] q).problems = [])
    (hx : x.head? = (charsOf back).head?) :
    q.Prunes targets cs context depth (byteSize (charsOf front)) within x := by
  rw [Forest.Prunes, outlineFrom_finish hq]
  rw [outlineFrom_finish hq] at hproblems
  obtain ⟨hhead, hend⟩ := List.append_eq_nil_iff.1 hproblems
  have hself : Edit.replay [] (byteSize (charsOf front)) q.source = q.source :=
    Edit.replay_eq_self (by simp) (by simp)
  exact ⟨q, ⟨hself.symm, hf.splits_of_head? hx, hf.balanced⟩, shows_finish hq hhead hend⟩

/-- A statement that ends with a semicolon stays. -/
theorem prunes_semicolon (hf : (q ++ .token l rest).Sits cs front back within) (hq : q.Flat)
    (hl : l.token = .semicolon)
    (hproblems : q.problems (byteSize (charsOf front)) = [])
    (hend : endProblems context (q.marks (byteSize (charsOf front))) = [])
    (hrest : rest.Prunes targets cs context depth
      (byteSize (charsOf (front ++ (q.lexemes ++ [l])))) within x) :
    (q ++ .token l rest).Prunes targets cs context depth (byteSize (charsOf front)) within x := by
  have hpos : byteSize (charsOf (front ++ (q.lexemes ++ [l]))) =
      byteSize (charsOf front) + q.size + byteSize l.chars := by
    simp [Forest.charsOf_lexemes, Forest.byteSize_source, Nat.add_assoc]
  have hbounds := (hf.semicolon hl).bounds_editsIn targets context depth
  rw [hpos] at hrest hbounds
  obtain ⟨rest', ⟨hsource, hsplits, hbalanced⟩, hshows⟩ := hrest
  rw [Forest.Prunes, outlineFrom_semicolon hq hl]
  simp only [Outline.rules_append, Outline.rules_ofProblems, List.nil_append]
  obtain ⟨hhead, hreads⟩ := hf.splits_head rfl (.inl hl) (rest'.source ++ x)
  refine ⟨q ++ .token l rest', ⟨?_, ?_, ?_⟩, shows_semicolon hq hproblems hl hend hshows⟩
  · -- every edit comes after the semicolon
    have hsize := q.byteSize_source
    rw [Forest.source_append, Forest.source_append, Forest.source, Forest.source,
      Edit.replay_append_of_le (fun e he => by have := (hbounds e he).1; omega), hsize,
      Edit.replay_append_of_le fun e he => (hbounds e he).1, hsource]
  · rw [Forest.lexemes_append, Forest.lexemes, splits_append, charsOf_cons, List.append_assoc,
      Forest.charsOf_lexemes]
    exact ⟨hhead, .inr (by rwa [Forest.charsOf_lexemes]), hsplits⟩
  · obtain ⟨hopen, hclose, -⟩ := hf.balanced.of_append.2
    exact hf.balanced.of_append.1.append ⟨hopen, hclose, hbalanced⟩

/-! ## Statements with a block -/

/-- The offset of the body of a block that ends the head `q`. -/
def bodyStart (pos : Nat) (q : Forest) (o : Lexeme) : Nat := pos + q.size + byteSize o.chars

/-- The offset of what follows such a block. -/
def blockStop (pos : Nat) (q : Forest) (o : Lexeme) (body : Forest) : Nat :=
  bodyStart pos q o + body.size + byteSize (closerChars o true)

/-- The rules of a statement with a block: its own, and those in its body. -/
def statementRules (context : Context) (depth pos : Nat) (q : Forest) (o : Lexeme) (body : Forest) :
    List Rule :=
  ((bodyOf (q.marks pos)).outline context depth (bodyStart pos q o)
    ⟨pos + q.size, blockStop pos q o body⟩ true body).rules

/-- The rules of a statement with a block and of what follows it. -/
theorem rules_block (hq : q.Flat) (ho : o.token = .opening .curly) (pos : Nat) :
    (outlineFrom context depth pos [] (q ++ .block o body true rest)).rules =
      statementRules context depth pos q o body ++
        (outlineFrom context depth (blockStop pos q o body) [] rest).rules := by
  rw [outlineFrom_block hq ho]
  simp [statementRules, bodyStart, blockStop]

/-- The offset of the body of a block, by the lexemes before it. -/
theorem byteSize_front_body (front : List Lexeme) (q : Forest) (o : Lexeme) :
    byteSize (charsOf (front ++ (q.lexemes ++ [o]))) =
      bodyStart (byteSize (charsOf front)) q o := by
  simp [bodyStart, Forest.charsOf_lexemes, Forest.byteSize_source, Nat.add_assoc]

/-- The offset of what follows a block, by the lexemes before it. -/
theorem byteSize_front_rest (front : List Lexeme) (q body : Forest)
    (ho : o.token = .opening .curly) :
    byteSize (charsOf (front ++ (q.lexemes ++ (o :: (body.lexemes ++ [closerOf .curly]))))) =
      blockStop (byteSize (charsOf front)) q o body := by
  have hbracket := o.bracket_of_curly ho
  simp [blockStop, bodyStart, Forest.charsOf_lexemes, Forest.byteSize_source, closerChars, closerOf,
    hbracket, Nat.add_assoc]

/-- A statement with a block and what follows it expose what each of them exposes. -/
theorem Forest.Sits.exposed_block (hf : (q ++ .block o body true rest).Sits cs front back within)
    (hq : q.Flat) (ho : o.token = .opening .curly) (targets : SelectorSet) (context : Context)
    (depth : Nat) :
    exposed targets (outlineFrom context depth (byteSize (charsOf front)) []
        (q ++ .block o body true rest)).rules =
      exposed targets (statementRules context depth (byteSize (charsOf front)) q o body) ++
        exposed targets (outlineFrom context depth
          (blockStop (byteSize (charsOf front)) q o body) [] rest).rules := by
  have hplaced := (hf.region context depth).placed
  rw [rules_block hq ho] at hplaced ⊢
  refine exposed_append_of_le (blockStop (byteSize (charsOf front)) q o body)
    (fun r hr => (hplaced r hr).elim fun p => p.spans_lt) (fun r hr => ?_) fun r hr => ?_
  · rcases Body.mem_rules_outline hr with ⟨lead, others, -, rfl⟩ | ⟨context', hr⟩
    · exact Nat.le_refl _
    · rw [← byteSize_front_body] at hr
      have := ((hf.body ho).region context' (depth + 1)).high r hr
      rw [byteSize_front_body] at this
      rw [blockStop]
      omega
  · rw [← byteSize_front_rest front q body ho] at hr ⊢
    exact ((hf.rest ho).region context depth).low r hr

/-- **Replaying edits over a statement with a block** that is not deleted. -/
theorem replay_block {heads bodies rests : List Edit} {pos : Nat}
    (hheads : ∀ e ∈ heads, e.span.start < e.span.stop ∧ e.span.stop ≤ pos + q.size)
    (hbodies : ∀ e ∈ bodies, bodyStart pos q o ≤ e.span.start ∧ e.span.start < e.span.stop ∧
      e.span.stop ≤ bodyStart pos q o + body.size)
    (hrests : ∀ e ∈ rests, blockStop pos q o body ≤ e.span.start) :
    Edit.replay (heads ++ bodies ++ rests) pos (q ++ .block o body true rest).source =
      Edit.replay heads pos q.source ++ (o.chars ++
        Edit.replay bodies (bodyStart pos q o) body.source ++ closerChars o true ++
        Edit.replay rests (blockStop pos q o body) rest.source) := by
  have hq := q.byteSize_source
  have hb := body.byteSize_source
  have hinside : bodyStart pos q o = pos + byteSize q.source + byteSize o.chars := by
    rw [bodyStart, hq]
  have hstop : blockStop pos q o body =
      bodyStart pos q o + byteSize body.source + byteSize (closerChars o true) := by
    rw [blockStop, hb]
  have hlater : ∀ e ∈ bodies ++ rests, bodyStart pos q o ≤ e.span.start := by
    intro e he
    rcases List.mem_append.1 he with he | he
    · exact (hbodies e he).1
    · have := hrests e he
      omega
  rw [Forest.source_append, Forest.source, List.append_assoc, List.append_assoc, List.append_assoc,
    List.append_assoc]
  -- the head and its edits, the brace, the body and its edits, the closing brace, and the rest
  rw [Edit.replay_append_append (by rwa [hq]) (fun e he => by have := hlater e he; omega),
    Edit.replay_append_of_le (by rwa [← hinside]), ← hinside,
    Edit.replay_append_append (fun e he => by have := hbodies e he; omega)
      (fun e he => by have := hrests e he; omega),
    Edit.replay_append_of_le (by rwa [← hstop]), ← hstop]
  simp only [List.append_assoc]

/-- The opening brace of a block. -/
theorem Forest.Sits.brace_eq (hf : (q ++ .block o body true rest).Sits cs front back within)
    (ho : o.token = .opening .curly) : o.chars = ['{'] := by
  obtain ⟨r, hreads⟩ := hf.reads (show o ∈ (q ++ Forest.block o body true rest).lexemes by
    simp [Forest.lexemes])
  exact hreads.chars_eq_of_mark (by rw [ho]; rfl)

/-- **A statement with a block that stays** is put together from what becomes of its parts. -/
theorem Forest.Sits.turns_block (hf : (q ++ .block o body true rest).Sits cs front back within)
    (ho : o.token = .opening .curly) {q' body' rest' : Forest} {heads bodies rests : List Edit}
    {pos : Nat}
    (hheads : ∀ e ∈ heads, e.span.start < e.span.stop ∧ e.span.stop ≤ pos + q.size)
    (hbodies : ∀ e ∈ bodies, bodyStart pos q o ≤ e.span.start ∧ e.span.start < e.span.stop ∧
      e.span.stop ≤ bodyStart pos q o + body.size)
    (hrests : ∀ e ∈ rests, blockStop pos q o body ≤ e.span.start)
    (hq : q.Turns heads pos within ('{' :: (body'.source ++ '}' :: (rest'.source ++ x))) q')
    (hbody : body.Turns bodies (bodyStart pos q o) (some .curly) ('}' :: (rest'.source ++ x)) body')
    (hrest : rest.Turns rests (blockStop pos q o body) within x rest') :
    (q ++ .block o body true rest).Turns (heads ++ bodies ++ rests) pos within x
      (q' ++ .block o body' true rest') where
  source_eq := by
    rw [replay_block hheads hbodies hrests, ← hq.source_eq, ← hbody.source_eq, ← hrest.source_eq,
      Forest.source_append, Forest.source]
  splits := by
    have hcloser : closerChars o true = ['}'] := by
      rw [closerChars, if_pos rfl, o.bracket_of_curly ho]
      rfl
    rw [Forest.lexemes_append, Forest.lexemes, splits_append]
    refine ⟨?_, .inr (hf.splits_head rfl (.inr (.inl ho)) _).2, splits_append.2 ⟨?_,
      splits_append.2 ⟨splits_closerLexemes o _, hrest.splits⟩⟩⟩
    · simpa [hf.brace_eq ho, hcloser, Forest.charsOf_lexemes] using hq.splits
    · simpa [hcloser, Forest.charsOf_lexemes] using hbody.splits
  balanced := by
    have hbracket := o.bracket_of_curly ho
    exact hq.balanced.append
      ⟨rfl, by simp [hbracket, ho, Token.opens?], by simpa [hbracket] using hbody.balanced,
        hrest.balanced⟩

section

variable (hf : (q ++ .block o body true rest).Sits cs front back within) (hq : q.Flat)
  (ho : o.token = .opening .curly)

include hf hq ho

/-- The edits of a statement with a block and of what follows it. -/
theorem Forest.Sits.editsIn_block (targets : SelectorSet) (context : Context) (depth : Nat) :
    editsIn targets cs (outlineFrom context depth (byteSize (charsOf front)) []
        (q ++ .block o body true rest)).rules =
      editsIn targets cs (statementRules context depth (byteSize (charsOf front)) q o body) ++
        editsIn targets cs (outlineFrom context depth
          (blockStop (byteSize (charsOf front)) q o body) [] rest).rules := by
  rw [editsIn, hf.exposed_block hq ho, List.filterMap_append]
  rfl

/-- What remains of a statement with a block and of what follows it. -/
theorem Forest.Sits.remaining_block (targets : SelectorSet) (context : Context) (depth : Nat) :
    remaining targets (outlineFrom context depth (byteSize (charsOf front)) []
        (q ++ .block o body true rest)).rules =
      remaining targets (statementRules context depth (byteSize (charsOf front)) q o body) ++
        remaining targets (outlineFrom context depth
          (blockStop (byteSize (charsOf front)) q o body) [] rest).rules := by
  rw [remaining, hf.exposed_block hq ho, List.filter_append, List.map_append]
  rfl

omit hq

/-- The head of a statement that no edit touches. -/
theorem Forest.Sits.turns_head (y : List Char) :
    q.Turns [] (byteSize (charsOf front)) within ('{' :: y) q where
  source_eq := (Edit.replay_eq_self (by simp) (by simp)).symm
  splits := by
    have hsplits := (hf.splits_head rfl (.inr (.inl ho)) y).1
    rwa [hf.brace_eq ho] at hsplits
  balanced := hf.balanced.of_append.1

/-- The edits of what follows a block come after it. -/
theorem Forest.Sits.blockStop_le (targets : SelectorSet) (context : Context) (depth : Nat) :
    ∀ e ∈ editsIn targets cs (outlineFrom context depth
        (blockStop (byteSize (charsOf front)) q o body) [] rest).rules,
      blockStop (byteSize (charsOf front)) q o body ≤ e.span.start ∧
        e.span.start < e.span.stop := by
  have hbounds := (hf.rest ho).bounds_editsIn targets context depth
  rw [byteSize_front_rest front q body ho] at hbounds
  exact fun e he => ⟨(hbounds e he).1, (hbounds e he).2.1⟩

/-- The edits of the body of a block stay in it. -/
theorem Forest.Sits.bodyStart_le (targets : SelectorSet) (context : Context) (depth : Nat) :
    ∀ e ∈ editsIn targets cs (outlineFrom context depth
        (bodyStart (byteSize (charsOf front)) q o) [] body).rules,
      bodyStart (byteSize (charsOf front)) q o ≤ e.span.start ∧ e.span.start < e.span.stop ∧
        e.span.stop ≤ bodyStart (byteSize (charsOf front)) q o + body.size := by
  have hbounds := (hf.body ho).bounds_editsIn targets context depth
  rwa [byteSize_front_body] at hbounds

/-- The whitespace after a deleted rule that goes with it begins what follows the rule. -/
theorem Forest.Sits.exists_trailing {r : Rule} (p : Placement cs r)
    (hstop : r.block.stop = blockStop (byteSize (charsOf front)) q o body)
    (hfull : r.fullyTargeted targets = true) (hrem : r.Removable targets cs)
    (hhigh : (extent cs r).stop ≤
      byteSize (charsOf front) + (q ++ Forest.block o body true rest).size) :
    ∃ t u, rest.source = t ++ u ∧ (∀ c ∈ t, isSpace c = true) ∧
      (extent cs r).stop = blockStop (byteSize (charsOf front)) q o body + byteSize t := by
  have htext := (hf.rest ho).text_eq
  have hsize := byteSize_front_rest front q body ho
  have hafter := p.after_eq htext (by rw [hstop, hsize])
  obtain ⟨a, b, -, hb, hextent⟩ := p.exists_extent
  have hle : byteSize (trailing p.before p.after) ≤ byteSize rest.source := by
    rw [hextent, hstop, blockStop, bodyStart] at hhigh
    simp only [Forest.size_append, Forest.size] at hhigh
    rw [Forest.byteSize_source]
    omega
  obtain ⟨u, hu, -⟩ := exists_append_of_byteSize_le (hb.symm.trans hafter) hle
  refine ⟨_, u, hu, ?_, by rw [hextent, hstop]⟩
  have hspaces := hrem.spaces hfull
  rw [hu, List.append_assoc] at htext
  have hslice := slice_append (charsOf (front ++ (q.lexemes ++ (o :: (body.lexemes ++
    [closerOf .curly]))))) (trailing p.before p.after) (u ++ charsOf back)
  rw [← htext, hsize, ← hstop] at hslice
  rw [hextent] at hspaces
  simpa only [hslice] using hspaces

include hq

/-- **A statement whose block is passed over** stays. -/
theorem prunes_skipped (hproblems : q.problems (byteSize (charsOf front)) = [])
    (hkind : bodyOf (q.marks (byteSize (charsOf front))) = .skipped)
    (hrest : rest.Prunes targets cs context depth
      (blockStop (byteSize (charsOf front)) q o body) within x) :
    (q ++ .block o body true rest).Prunes targets cs context depth (byteSize (charsOf front)) within
      x := by
  obtain ⟨rest', hturns, hshows⟩ := hrest
  have hnone : statementRules context depth (byteSize (charsOf front)) q o body = [] := by
    rw [statementRules, hkind]
    rfl
  have hbody : body.Turns [] (bodyStart (byteSize (charsOf front)) q o) (some .curly)
      ('}' :: (rest'.source ++ x)) body :=
    ⟨(Edit.replay_eq_self (by simp) (by simp)).symm, (hf.body ho).splits_of_head? rfl,
      (hf.body ho).balanced⟩
  rw [Forest.Prunes, hf.editsIn_block hq ho, hf.remaining_block hq ho, hnone]
  exact ⟨_, hf.turns_block ho (by simp) (by simp)
    (fun e he => (hf.blockStop_le ho targets context depth e he).1) (hf.turns_head ho _) hbody hturns,
    shows_skipped hq hproblems ho hkind hshows⟩

/-- **A group at-rule** stays, with what becomes of its body. -/
theorem prunes_group (hproblems : q.problems (byteSize (charsOf front)) = [])
    (hkind : bodyOf (q.marks (byteSize (charsOf front))) = .group)
    (hbody : ∀ y, body.Prunes targets cs context (depth + 1)
      (bodyStart (byteSize (charsOf front)) q o) (some .curly) ('}' :: y))
    (hrest : rest.Prunes targets cs context depth
      (blockStop (byteSize (charsOf front)) q o body) within x) :
    (q ++ .block o body true rest).Prunes targets cs context depth (byteSize (charsOf front)) within
      x := by
  obtain ⟨rest', hturns, hshows⟩ := hrest
  obtain ⟨body', hbodyTurns, hbodyShows⟩ := hbody (rest'.source ++ x)
  have hown : statementRules context depth (byteSize (charsOf front)) q o body =
      (outlineFrom context (depth + 1) (bodyStart (byteSize (charsOf front)) q o) [] body).rules := by
    rw [statementRules, hkind]
    rfl
  rw [Forest.Prunes, hf.editsIn_block hq ho, hf.remaining_block hq ho, hown]
  exact ⟨_, hf.turns_block ho (by simp) (hf.bodyStart_le ho targets context (depth + 1))
    (fun e he => (hf.blockStop_le ho targets context depth e he).1) (hf.turns_head ho _) hbodyTurns
    hturns, shows_group hq hproblems ho hkind hbodyShows hshows⟩

variable {lead : Entry} {others : List Entry}

/-- The rule of a statement, and the rules that it exposes. -/
theorem Forest.Sits.exposed_style
    (hkind : bodyOf (q.marks (byteSize (charsOf front))) = .style lead others) {r : Rule}
    (hr : r = ⟨lead, others, ⟨byteSize (charsOf front) + q.size,
      blockStop (byteSize (charsOf front)) q o body⟩, true, depth⟩) :
    Nonempty (Placement cs r) ∧
      exposed targets (statementRules context depth (byteSize (charsOf front)) q o body) =
        r :: (if r.fullyTargeted targets then [] else exposed targets (outlineFrom .declarations
          (depth + 1) (bodyStart (byteSize (charsOf front)) q o) [] body).rules) := by
  have hown : statementRules context depth (byteSize (charsOf front)) q o body =
      r :: (outlineFrom .declarations (depth + 1)
        (bodyStart (byteSize (charsOf front)) q o) [] body).rules := by
    rw [statementRules, hkind, hr]
    rfl
  have hplaced := (hf.region context depth).placed r (by
    rw [rules_block hq ho, hown]
    simp)
  have hregion := (hf.body ho).region .declarations (depth + 1)
  rw [byteSize_front_body] at hregion
  obtain ⟨p⟩ := hplaced
  refine ⟨⟨p⟩, ?_⟩
  have hsize : byteSize o.chars = 1 := by rw [hf.brace_eq ho]; rfl
  have hstart : r.block.start + 1 ≤ bodyStart (byteSize (charsOf front)) q o := by
    rw [hr, bodyStart, hsize]
  have hstop : bodyStart (byteSize (charsOf front)) q o + body.size ≤ r.block.stop := by
    rw [hr]
    exact Nat.le_add_right _ _
  rw [hown]
  -- the rules of the body lie behind the brace of the rule, and before its end
  refine exposed_cons_of_lt p.spans_lt.1 fun b hb => ?_
  obtain ⟨pb⟩ := hregion.placed b hb
  have hlow := hregion.low b hb
  have hhigh := hregion.high b hb
  exact ⟨by omega, pb.spans_lt.1, by omega⟩

/-- **The head of a rule that is not deleted** is the head of a rule with the entries that stay. -/
theorem Forest.Sits.exists_head (hproblems : q.problems (byteSize (charsOf front)) = [])
    (hkind : bodyOf (q.marks (byteSize (charsOf front))) = .style lead others) {r : Rule}
    (hlead : r.lead = lead) (hothers : r.others = others) (hrem : r.Removable targets cs)
    (hfull : r.fullyTargeted targets = false) (y : List Char) :
    ∃ q', q.Turns (editOf targets cs r).toList (byteSize (charsOf front)) within ('{' :: y) q' ∧
      q'.Flat ∧ q'.problems 0 = [] ∧
      ∃ lead' others', bodyOf (q'.marks 0) = .style lead' others' ∧
        (lead' :: others').map Entry.text =
          (r.entries.map Entry.text).filter fun s => !decide (s ∈ targets) := by
  subst hlead hothers
  -- an edit shortens the list of the rule, or none of its entries is removed
  by_cases hpart : r.partlyTargeted targets = true
  · have hlex : Sheet.lexemes cs = front ++ (q.lexemes ++ o :: (body.lexemes ++
        (closerLexemes o true ++ rest.lexemes) ++ back)) := by
      rw [hf.lexemes_eq]
      simp [Forest.lexemes]
    obtain ⟨g, hhead⟩ := exists_parted hlex ho hq hf.balanced.of_append.1 hproblems hkind
    have hedit : (editOf targets cs r).toList =
        [shortenList cs r fun s => !decide (s ∈ targets)] := by
      simp [editOf, hfull, hpart]
    rw [hedit, hhead]
    exact g.exists_shortened hrem hpart y
  · have hnone : ∀ e ∈ r.entries, e.text ∉ targets := by
      intro e he hin
      rcases Rule.targeted_cases he hin with h | h
      · simp [h] at hfull
      · exact hpart h
    have hedit : (editOf targets cs r).toList = [] := by simp [editOf, hfull, hpart]
    -- no edit: the head is read again as it is, at the start of a text
    have halike := (statement_alike (q.map_bare_marks (byteSize (charsOf front)) 0)).2
    rw [hkind] at halike
    rw [hedit]
    refine ⟨q, hf.turns_head ho y, hq, Forest.problems_eq_nil _ hproblems 0, ?_⟩
    cases hbody : bodyOf (q.marks 0) with
    | skipped => simp [hbody, Body.Alike] at halike
    | group => simp [hbody, Body.Alike] at halike
    | style lead' others' =>
        rw [hbody] at halike
        refine ⟨lead', others', rfl, ?_⟩
        have hself : (r.entries.map Entry.text).filter (fun s => !decide (s ∈ targets)) =
            r.entries.map Entry.text := by
          refine List.filter_eq_self.2 fun s hs => ?_
          obtain ⟨e, he, rfl⟩ := List.mem_map.1 hs
          simp [hnone e he]
        rw [hself]
        exact Eq.symm halike

/-- **A rule that is not deleted** stays, with what becomes of its selector list and its body. -/
theorem prunes_style (hproblems : q.problems (byteSize (charsOf front)) = [])
    (hkind : bodyOf (q.marks (byteSize (charsOf front))) = .style lead others) {r : Rule}
    (hr : r = ⟨lead, others, ⟨byteSize (charsOf front) + q.size,
      blockStop (byteSize (charsOf front)) q o body⟩, true, depth⟩)
    (hrem : r.Removable targets cs) (hfull : r.fullyTargeted targets = false)
    (hbody : ∀ y, body.Prunes targets cs .declarations (depth + 1)
      (bodyStart (byteSize (charsOf front)) q o) (some .curly) ('}' :: y))
    (hrest : rest.Prunes targets cs context depth
      (blockStop (byteSize (charsOf front)) q o body) within x) :
    (q ++ .block o body true rest).Prunes targets cs context depth (byteSize (charsOf front)) within
      x := by
  -- from the end of the text backwards, since each part is read before what follows it
  obtain ⟨rest', hturns, hshows⟩ := hrest
  obtain ⟨body', hbodyTurns, hbodyShows⟩ := hbody (rest'.source ++ x)
  obtain ⟨q', hqTurns, hflat, hclean, lead', others', hkind', htexts⟩ :=
    hf.exists_head hq ho hproblems hkind (by rw [hr]) (by rw [hr]) hrem hfull
      (body'.source ++ '}' :: (rest'.source ++ x))
  obtain ⟨⟨p⟩, hexposed⟩ := @Forest.Sits.exposed_style targets cs context depth _ _ _ _ _ _ _ hf hq
    ho lead others hkind r hr
  rw [hfull, if_neg (by decide)] at hexposed
  have hedits : editsIn targets cs (statementRules context depth (byteSize (charsOf front)) q o body) =
      (editOf targets cs r).toList ++ editsIn targets cs (outlineFrom .declarations (depth + 1)
        (bodyStart (byteSize (charsOf front)) q o) [] body).rules := by
    rw [editsIn, hexposed, List.filterMap_cons]
    cases editOf targets cs r <;> rfl
  have hremaining : remaining targets
      (statementRules context depth (byteSize (charsOf front)) q o body) =
        ((lead' :: others').map Entry.text, depth) :: remaining targets (outlineFrom .declarations
          (depth + 1) (bodyStart (byteSize (charsOf front)) q o) [] body).rules := by
    rw [remaining, hexposed, List.filter_cons_of_pos (by simp [hfull]), List.map_cons, htexts, hr]
    rfl
  -- the one edit of the head replaces the selector list, which ends where the head does
  have hheads : ∀ e ∈ (editOf targets cs r).toList, e.span.start < e.span.stop ∧
      e.span.stop ≤ byteSize (charsOf front) + q.size := by
    intro e he
    have hstart : r.block.start = byteSize (charsOf front) + q.size := by rw [hr]
    have h₁ := p.prelude_start_lt
    have h₂ := p.prelude_stop_le
    rcases editOf_eq_some_iff.1 (Option.mem_toList.1 he) with ⟨h, -⟩ | ⟨-, rfl⟩
    · simp [h] at hfull
    · exact ⟨h₁, hstart ▸ h₂⟩
  rw [Forest.Prunes, hf.editsIn_block hq ho, hf.remaining_block hq ho, hedits, hremaining]
  exact ⟨_, hf.turns_block ho hheads (hf.bodyStart_le ho targets .declarations (depth + 1))
    (fun e he => (hf.blockStop_le ho targets context depth e he).1) hqTurns hbodyTurns hturns,
    shows_style hflat hclean ho hkind' hbodyShows hshows⟩

/-- **The extent of a rule cuts its statement** into the comments and whitespace that stay, the
rule with the blanks before it, and whitespace that goes with the rule. -/
theorem Forest.Sits.exists_cut (hproblems : q.problems (byteSize (charsOf front)) = [])
    (hkind : bodyOf (q.marks (byteSize (charsOf front))) = .style lead others) {r : Rule}
    (hr : r = ⟨lead, others, ⟨byteSize (charsOf front) + q.size,
      blockStop (byteSize (charsOf front)) q o body⟩, true, depth⟩)
    (hmem : r ∈ (outlineFrom context depth (byteSize (charsOf front)) []
      (q ++ .block o body true rest)).rules)
    (hrem : r.Removable targets cs) (hfull : r.fullyTargeted targets = true) :
    ∃ left m t u, (q ++ .block o body true rest).source = charsOf left ++ (m ++ (t ++ u)) ∧
      rest.source = t ++ u ∧ (∀ l ∈ left, l.Dull ∧ l.Loose) ∧ m ≠ [] ∧
      (∀ c ∈ t, isSpace c = true) ∧
      byteSize (charsOf front) + byteSize (charsOf left) + byteSize m =
        blockStop (byteSize (charsOf front)) q o body ∧
      extent cs r = ⟨byteSize (charsOf front) + byteSize (charsOf left),
        blockStop (byteSize (charsOf front)) q o body + byteSize t⟩ := by
  obtain ⟨p⟩ := (hf.region context depth).placed r hmem
  have hedit : editOf targets cs r = some (.delete (extent cs r)) := by simp [editOf, hfull]
  obtain ⟨hlow, -, hhigh⟩ := hf.bounds_of_editOf hmem hedit
  have hlex : Sheet.lexemes cs = front ++ (q.lexemes ++ o :: (body.lexemes ++
      (closerLexemes o true ++ rest.lexemes) ++ back)) := by
    rw [hf.lexemes_eq]
    simp [Forest.lexemes]
  obtain ⟨g, hhead⟩ := exists_parted hlex ho hq hf.balanced.of_append.1 hproblems
    (r := r) (by rw [hkind, hr])
  -- the extent begins in the gap of the head and ends in the whitespace after the block
  obtain ⟨left, blanks, hgap, hleft, hstart⟩ := g.exists_cleared p (hrem.comma hfull) hlow
  obtain ⟨t, u, hrest, ht, hstop⟩ := hf.exists_trailing ho p (by rw [hr]) hfull hrem hhigh
  refine ⟨left, blanks ++ ((Part.join (g.first :: g.parts)).source ++ (o.chars ++ (body.source ++
    closerChars o true))), t, u, ?_, hrest, hleft, by simp [hf.brace_eq ho], ht, ?_, ?_⟩
  · rw [Forest.source_append, Forest.source, hhead, Forest.source_tokens, hgap, hrest]
    simp
  · have hgapSize := congrArg byteSize hgap
    have hqSize : q.size = byteSize (charsOf g.gap) +
        byteSize (Part.join (g.first :: g.parts)).source := by
      rw [hhead, ← Forest.byteSize_source, Forest.source_tokens, byteSize_append]
    rw [byteSize_append] at hgapSize
    simp only [byteSize_append, blockStop, bodyStart, hqSize, Forest.byteSize_source] at hgapSize ⊢
    omega
  · rw [← hstart, ← hstop]

omit hq in
/-- No edit of what follows a block writes anything on the whitespace right after the block. -/
theorem Forest.Sits.inserts_rest {t u : List Char} (hrest : rest.source = t ++ u)
    (ht : ∀ c ∈ t, isSpace c = true) (targets : SelectorSet) (context : Context) (depth : Nat)
    {n : Nat} (hlow : blockStop (byteSize (charsOf front)) q o body ≤ n)
    (hhigh : n < blockStop (byteSize (charsOf front)) q o body + byteSize t) :
    Edit.inserts (editsIn targets cs (outlineFrom context depth
      (blockStop (byteSize (charsOf front)) q o body) [] rest).rules) n = [] := by
  have htext := (hf.rest ho).text_eq
  have hplaced := ((hf.rest ho).region context depth).placed
  rw [byteSize_front_rest front q body ho] at hplaced
  rw [hrest, List.append_assoc] at htext
  rw [← byteSize_front_rest front q body ho] at hlow hhigh
  exact inserts_editsIn hplaced htext ht hlow hhigh

/-- **A rule that is deleted** leaves whitespace and comments, and what becomes of what follows. -/
theorem prunes_deleted (hproblems : q.problems (byteSize (charsOf front)) = [])
    (hkind : bodyOf (q.marks (byteSize (charsOf front))) = .style lead others) {r : Rule}
    (hr : r = ⟨lead, others, ⟨byteSize (charsOf front) + q.size,
      blockStop (byteSize (charsOf front)) q o body⟩, true, depth⟩)
    (hrem : r.Removable targets cs) (hfull : r.fullyTargeted targets = true)
    (hrest : rest.Prunes targets cs context depth
      (blockStop (byteSize (charsOf front)) q o body) within x) :
    (q ++ .block o body true rest).Prunes targets cs context depth (byteSize (charsOf front)) within
      x := by
  obtain ⟨rest', hturns, hshows⟩ := hrest
  obtain ⟨-, hexposed⟩ := @Forest.Sits.exposed_style targets cs context depth _ _ _ _ _ _ _ hf hq
    ho lead others hkind r hr
  rw [hfull, if_pos rfl] at hexposed
  have hedits : editsIn targets cs (statementRules context depth (byteSize (charsOf front)) q o body) =
      [.delete (extent cs r)] := by
    rw [editsIn, hexposed]
    simp [editOf, hfull]
  have hremaining : remaining targets
      (statementRules context depth (byteSize (charsOf front)) q o body) = [] := by
    rw [remaining, hexposed]
    simp [hfull]
  have hmem : r ∈ (outlineFrom context depth (byteSize (charsOf front)) []
      (q ++ .block o body true rest)).rules := by
    have hr' : r ∈ exposed targets
        (statementRules context depth (byteSize (charsOf front)) q o body) := by simp [hexposed]
    rw [rules_block hq ho]
    exact List.mem_append_left _ (mem_exposed_iff.1 hr').1
  obtain ⟨left, m, t, u, hcut, hrestSource, hleft, hm, ht, hsize, hextent⟩ :=
    hf.exists_cut hq ho hproblems hkind hr hmem hrem hfull
  -- what follows the rule, without the whitespace that goes with it
  have hins := fun n => @Forest.Sits.inserts_rest cs _ _ _ _ _ _ _ hf ho t u hrestSource ht targets
    context depth n
  have hsource := hturns.source_eq
  rw [hrestSource, Edit.replay_append] at hsource
  obtain ⟨rest'', hsource', hsplits, hbalanced, hshows'⟩ :=
    Forest.exists_trimmed hturns.balanced hturns.splits hshows hsource
      fun c hc => ht c (Edit.mem_of_mem_replay hins hc)
  rw [Forest.Prunes, hf.editsIn_block hq ho, hf.remaining_block hq ho, hedits, hremaining]
  refine ⟨.tokens left rest'', ⟨?_, ?_, hbalanced.loose fun l hl => (hleft l hl).2⟩,
    (shows_tokens_iff fun l hl => (hleft l hl).1).2 hshows'⟩
  · rw [hcut, Edit.replay_delete (by rw [hextent, hsize]) hm ?_ ?_, Forest.source_tokens, hsource',
      hsize]
    · rw [hsize]
      exact hf.blockStop_le ho targets context depth
    · rw [hsize]
      exact hins
  · rw [Forest.lexemes_tokens, splits_append]
    exact ⟨splits_free (fun l hl => (hleft l hl).2.free) _, hsplits⟩

end

/-! ## Whole texts -/

/-- **What becomes of a forest**, statement by statement. -/
theorem Forest.Sits.prunes (hf : f.Sits cs front back within)
    (hproblems : (outlineFrom context depth (byteSize (charsOf front)) [] f).problems = [])
    (hrem : ∀ r ∈ exposed targets (outlineFrom context depth (byteSize (charsOf front)) [] f).rules,
      r.Removable targets cs) (hx : x.head? = (charsOf back).head?) :
    f.Prunes targets cs context depth (byteSize (charsOf front)) within x := by
  induction f using Forest.statements generalizing context depth front back within x with
  | finish q hq => exact prunes_finish hf hq hproblems hx
  | semicolon q l rest hq hl ih =>
      rw [outlineFrom_semicolon hq hl] at hproblems hrem
      simp only [Outline.problems_append, Outline.problems_ofProblems,
        List.append_eq_nil_iff] at hproblems
      simp only [Outline.rules_append, Outline.rules_ofProblems, List.nil_append] at hrem
      obtain ⟨hhead, hend, hrest⟩ := hproblems
      have hpos := byteSize_front_body front q l
      rw [← bodyStart, ← hpos] at hrest hrem
      exact prunes_semicolon hf hq hl hhead hend (ih (hf.semicolon hl) hrest hrem hx)
  | block q o body closed rest hq ho ihb ihr =>
      obtain ⟨rfl, -⟩ := hf.balanced.of_append.2
      rw [hf.exposed_block hq ho] at hrem
      rw [outlineFrom_block hq ho] at hproblems
      simp only [Outline.problems_append, Outline.problems_ofProblems,
        List.append_eq_nil_iff] at hproblems
      obtain ⟨hhead, ⟨hbody, -⟩, hrest⟩ := hproblems
      rw [← bodyStart] at hbody hrest
      rw [← blockStop, ← byteSize_front_rest front q body ho] at hrest
      have hrestPrunes := ihr (hf.rest ho) hrest (fun r hr => hrem r (List.mem_append_right _ (by
        rwa [← byteSize_front_rest front q body ho]))) hx
      rw [byteSize_front_rest front q body ho] at hrestPrunes
      -- the body is read before its closing brace
      have hbodyPrunes : ∀ context', (outlineFrom context' (depth + 1)
          (bodyStart (byteSize (charsOf front)) q o) [] body).problems = [] →
          (∀ r ∈ exposed targets (outlineFrom context' (depth + 1)
            (bodyStart (byteSize (charsOf front)) q o) [] body).rules, r.Removable targets cs) →
          ∀ y, body.Prunes targets cs context' (depth + 1)
            (bodyStart (byteSize (charsOf front)) q o) (some .curly) ('}' :: y) := by
        intro context' hbody hrem y
        rw [← byteSize_front_body] at hbody hrem ⊢
        exact ihb (hf.body ho) hbody hrem rfl
      cases hkind : bodyOf (q.marks (byteSize (charsOf front))) with
      | skipped => exact prunes_skipped hf hq ho hhead hkind hrestPrunes
      | group =>
          rw [hkind] at hbody
          refine prunes_group hf hq ho hhead hkind (hbodyPrunes _ hbody fun r hr => ?_) hrestPrunes
          refine hrem r (List.mem_append_left _ ?_)
          rwa [statementRules, hkind]
      | style lead others =>
          rw [hkind] at hbody
          obtain ⟨-, hexposed⟩ := @exposed_style targets cs context depth _ _ _ _ _ _ _ hf hq ho
            lead others hkind _ rfl
          rw [hexposed] at hrem
          have hown := hrem _ (List.mem_append_left _ List.mem_cons_self)
          by_cases hfull : (Rule.fullyTargeted ⟨lead, others, ⟨byteSize (charsOf front) + q.size,
              blockStop (byteSize (charsOf front)) q o body⟩, true, depth⟩ targets) = true
          · exact prunes_deleted hf hq ho hhead hkind rfl hown hfull hrestPrunes
          · rw [if_neg hfull] at hrem
            refine prunes_style hf hq ho hhead hkind rfl hown (by simpa using hfull)
              (hbodyPrunes _ hbody fun r hr => ?_) hrestPrunes
            exact hrem r (List.mem_append_left _ (List.mem_cons_of_mem _ hr))

/-- Where every rule can be removed, no deletion takes more than whitespace after a rule. -/
theorem spacesAfter_of_removable {text : String}
    (hrem : ∀ r ∈ exposed targets (closedRules text), r.Removable targets text.toList) :
    SpacesAfter targets text := by
  intro r hr hfull n c hat hlow hhigh
  obtain ⟨p⟩ := placement_of_mem_closedRules (mem_exposed_iff.1 hr).1
  obtain ⟨a, u, m, v, b, htext, -, -, -, -, hstop, hextent⟩ := p.exists_cuts_extent
  have hcut : text.toList = (a ++ (u ++ m)) ++ (v ++ b) := by simp [htext]
  have hsize : byteSize (a ++ (u ++ m)) = r.block.stop := by
    simp only [byteSize_append]
    omega
  have hslice := slice_append (a ++ (u ++ m)) v b
  rw [← hcut, hsize, ← hextent] at hslice
  refine (hrem r hr).spaces hfull c ?_
  rw [hslice]
  rw [hcut] at hat
  exact hat.mem_run (by omega) (by omega)

/-- **Removal leaves what remains** of a stylesheet that is accepted, all of whose exposed rules can
be removed. -/
theorem exists_text_remaining (targets : SelectorSet) {text : String}
    (haccepted : ∃ selectors, declared? text = .ok selectors)
    (hrem : ∀ r ∈ exposed targets (Outline.ofText text).rules, r.Removable targets text.toList) :
    ∃ text', Edit.applyAll (planRemoval targets text) text = .ok text' ∧
      (∃ selectors, declared? text' = .ok selectors) ∧
      (Outline.ofText text').rules.map (fun r => (r.entries.map Entry.text, r.depth)) =
        remaining targets (Outline.ofText text).rules := by
  have hproblems : (outlineFrom .ruleList 0 0 [] (.ofText text.toList)).problems = [] :=
    exists_declared?_iff.1 haccepted
  have hclosed : closedRules text = (Outline.ofText text).rules :=
    List.filter_eq_self.2 fun r hr => (mem_closedRules.1 (mem_closedRules_of_accepted haccepted hr)).2
  have hf : (Forest.ofText text.toList).Sits text.toList [] [] none :=
    ⟨by simp [Forest.lexemes_ofText], (Forest.nested_ofText _).balanced hproblems, by simp, by simp⟩
  obtain ⟨f', ⟨hsource, hsplits, hbalanced⟩, hshows⟩ := hf.prunes (x := []) hproblems hrem rfl
  have houtline := Outline.ofChars_source hsplits hbalanced.nested
  rw [Forest.source_ofText] at hsource
  have happly := applyAll_eq_exposedEdits (spacesAfter_of_removable (by rwa [hclosed]))
  rw [exposedEdits, hclosed] at happly
  refine ⟨String.ofList f'.source, ?_, ?_, ?_⟩
  · rw [happly, hsource]
    rfl
  · rw [exists_declared?_iff, Outline.ofText, String.toList_ofList, houtline]
    exact (hshows 0).1
  · rw [Outline.ofText, String.toList_ofList, houtline]
    exact (hshows 0).2

/-- **Removal is exact.** From a stylesheet that is accepted, all of whose exposed rules can be
removed, removing selectors gives a stylesheet that is accepted, and whose rules are those that are
neither targeted as a whole nor inside such a rule, in order and with the depths that they had, each
with the selectors that are not targeted. -/
theorem removal_exact (targets : SelectorSet) {text : String}
    (haccepted : ∃ selectors, declared? text = .ok selectors)
    (hrem : ∀ r ∈ exposed targets (Outline.ofText text).rules, r.Removable targets text.toList) :
    ∃ text', Edit.applyAll (planRemoval targets text) text = .ok text' ∧
      (∃ selectors, declared? text' = .ok selectors) ∧
      (Outline.ofText text').rules.map (fun r => (r.entries.map Entry.text, r.depth)) =
        ((exposed targets (Outline.ofText text).rules).filter
          fun r => !r.fullyTargeted targets).map fun r =>
            ((r.entries.map Entry.text).filter fun s => !decide (s ∈ targets), r.depth) := by
  obtain ⟨text', happly, haccepted', hrules⟩ := exists_text_remaining targets haccepted hrem
  exact ⟨text', happly, haccepted', hrules⟩

/-- A rule with its nested rule goes, a list loses its first entry, and the rules in its block that
are not targeted stay. -/
theorem removal_exact_nested :
    (∀ r ∈ exposed (.ofList [".a", "p"])
        (Outline.ofText ".a { b {} }\np, .c { .a {} u {} }\n").rules,
      r.Removable (.ofList [".a", "p"])
        ".a { b {} }\np, .c { .a {} u {} }\n".toList) ∧
      ∃ text', Edit.applyAll (planRemoval (.ofList [".a", "p"])
          ".a { b {} }\np, .c { .a {} u {} }\n")
          ".a { b {} }\np, .c { .a {} u {} }\n" = .ok text' ∧
        (∃ selectors, declared? text' = .ok selectors) ∧
        (Outline.ofText text').rules.map (fun r => (r.entries.map Entry.text, r.depth)) =
          [([".c"], 0), (["u"], 1)] := by
  have hrem : ∀ r ∈ exposed (.ofList [".a", "p"])
      (Outline.ofText ".a { b {} }\np, .c { .a {} u {} }\n").rules,
      r.Removable (.ofList [".a", "p"]) ".a { b {} }\np, .c { .a {} u {} }\n".toList := by
    decide +kernel
  obtain ⟨text', happly, haccepted, hrules⟩ :=
    removal_exact (.ofList [".a", "p"]) (exists_declared?_iff.2 (by decide +kernel)) hrem
  refine ⟨hrem, text', happly, haccepted, hrules.trans ?_⟩
  decide +kernel

/-- Four stylesheets that are accepted, one for each thing that keeps a rule from being removed:
edits overlap on a blank that is a selector of the next rule, a comma is left alone, a list becomes a
custom property, and a selector ends with a backslash that now escapes a blank. -/
theorem removal_not_exact :
    ((∃ selectors, declared? ".a{}\u00a0b, c{}" = .ok selectors) ∧
      Edit.applyAll (planRemoval (.ofList [".a", "c"]) ".a{}\u00a0b, c{}") ".a{}\u00a0b, c{}" =
        .error (.overlap ⟨0, 6⟩ ⟨4, 10⟩)) ∧
    ((∃ selectors, declared? ",.a{}" = .ok selectors) ∧
      Edit.applyAll (planRemoval (.ofList [".a"]) ",.a{}") ",.a{}" = .ok "," ∧
      ¬∃ selectors, declared? "," = .ok selectors) ∧
    ((∃ selectors, declared? ".a, --x {}" = .ok selectors) ∧
      Edit.applyAll (planRemoval (.ofList [".a"]) ".a, --x {}") ".a, --x {}" = .ok "--x {}" ∧
      (Outline.ofText "--x {}").rules = []) ∧
    ((∃ selectors, declared? "b, a\\\n, c {}" = .ok selectors) ∧
      Edit.applyAll (planRemoval (.ofList ["c"]) "b, a\\\n, c {}") "b, a\\\n, c {}" =
        .ok "b, a\\ {}" ∧
      (Outline.ofText "b, a\\\n, c {}").rules.map (·.entries.map Entry.text) =
        [["b", "a\\", "c"]] ∧
      (Outline.ofText "b, a\\ {}").rules.map (·.entries.map Entry.text) = [["b", "a\\ "]]) := by
  refine ⟨⟨?_, ?_⟩, ⟨?_, ?_, ?_⟩, ⟨?_, ?_, ?_⟩, ?_, ?_, ?_, ?_⟩
  · exact exists_declared?_iff.2 (by decide +kernel)
  · cbv
  · exact exists_declared?_iff.2 (by decide +kernel)
  · cbv
  · exact fun h => absurd (exists_declared?_iff.1 h) (by decide +kernel)
  · exact exists_declared?_iff.2 (by decide +kernel)
  · cbv
  · decide +kernel
  · exact exists_declared?_iff.2 (by decide +kernel)
  · cbv
  · decide +kernel
  · decide +kernel

end StyleAudit.Sheet
