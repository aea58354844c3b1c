import Mathlib
import StyleAudit.Proofs.Sheet.Nesting
import StyleAudit.Proofs.Sheet.Origin

/-! # What a stylesheet is refused for

A stylesheet is accepted when its token tree has no fault outside the blocks that are passed over.
Which blocks are passed over is said here by rules that lead from one statement to the next, without
the walk that makes an outline; the walk records problems, and the first of them is where the first
fault is.

* **`Forest.nodes`** — the tokens of a token tree at every depth.
* **`Site.Leads`** — the statements that are read, from the first one on.
* **`Opaque`** — the offsets inside blocks that are passed over.
* **`Fault`** — what a stylesheet is refused for.
* **`Agree`** — problems and faults that have the same least offset.
* **`declared?_eq_ok_iff_and_isLeast`** — a stylesheet is accepted exactly when it has no fault, and
  otherwise refused for the first one. -/

namespace StyleAudit.Sheet

open Text

/-! ## The tokens of a token tree -/

/-- A token of a token tree: one that is no bracket of a block, or one that opens a block. -/
inductive Node where
  | token (t : Token)
  /-- A token that opens a block, and whether a closer ends the block. -/
  | opener (t : Token) (closed : Bool)
  deriving DecidableEq, Repr

/-- A comment without an end, a bad string or url, a closer that closes nothing, or a token that
opens a block without an end. -/
def Node.IsFlawed : Node → Prop
  | .token t => t = .comment false ∨ t = .badString ∨ t = .badUrl ∨ ∃ b, t = .closing b
  | .opener _ closed => closed = false

namespace Forest

/-- The tokens of a token tree that begins at `pos`, at every depth, with their offsets. The closers
of blocks are left out. -/
def nodes (pos : Nat) : Forest → List (Node × Nat)
  | .nil => []
  | .token l rest => (.token l.token, pos) :: rest.nodes (pos + byteSize l.chars)
  | .block o body closed rest =>
      (.opener o.token closed, pos) :: (body.nodes (pos + byteSize o.chars) ++
        rest.nodes (pos + byteSize o.chars + body.size + byteSize (closerChars o closed)))

/-- What a statement that begins at `pos` begins with: the first token other than whitespace and
comments, and its offset. -/
def first? (pos : Nat) : Forest → Option (Node × Nat)
  | .nil => none
  | .token l rest =>
      match l.token with
      | .whitespace | .comment _ => rest.first? (pos + byteSize l.chars)
      | t => some (.token t, pos)
  | .block o _ closed _ => some (.opener o.token closed, pos)

/-- A flawed token stands at offset `n` of a token tree that begins at `pos`. -/
def HasFlaw (f : Forest) (pos n : Nat) : Prop := ∃ x, (x, n) ∈ f.nodes pos ∧ x.IsFlawed

/-- The tokens of two forests. -/
theorem nodes_append (f g : Forest) (pos : Nat) :
    (f ++ g).nodes pos = f.nodes pos ++ g.nodes (pos + f.size) := by
  induction f generalizing pos with
  | nil => rfl
  | token l rest ih => simp [nodes, size, ih, Nat.add_assoc]
  | block o body closed rest _ ih => simp [nodes, size, ih, Nat.add_assoc]

/-- The tokens of a forest stand inside it. -/
theorem bounds_of_mem_nodes {f : Forest} (h : ∀ l ∈ f.lexemes, l.chars ≠ []) {pos n : Nat} {x : Node}
    (hx : (x, n) ∈ f.nodes pos) : pos ≤ n ∧ n < pos + f.size := by
  induction f generalizing pos with
  | nil => simp [nodes] at hx
  | token l rest ih =>
      have hl := byteSize_pos_of_ne_nil (h l (by simp [lexemes]))
      rw [size]
      rcases List.mem_cons.1 hx with hx | hx
      · obtain ⟨-, rfl⟩ := Prod.mk.inj hx
        omega
      · have := ih (fun k hk => h k (by simp [lexemes, hk])) hx
        omega
  | block o body closed rest ihb ihr =>
      have ho := byteSize_pos_of_ne_nil (h o (by simp [lexemes]))
      rw [size]
      rcases List.mem_cons.1 hx with hx | hx
      -- the opening token, a token of the body, or one after the block
      · obtain ⟨-, rfl⟩ := Prod.mk.inj hx
        omega
      · rcases List.mem_append.1 hx with hx | hx
        · have := ihb (fun k hk => h k (by simp [lexemes, hk])) hx
          omega
        · have := ihr (fun k hk => h k (by simp [lexemes, hk])) hx
          omega

end Forest

/-! ## The statements that are read -/

/-- The block after the given marks is read, as one that stands in `context`: it holds rules like
the block around it, or declarations. -/
inductive Opens (context : Context) (head : List Mark) : Context → Prop
  | group {name : List Char} (hat : atRule? head = some name) (hname : name ∈ groupAtRules) :
      Opens context head context
  | style {lead : Entry} {others : List Entry} (hat : atRule? head = none)
      (hentries : entries head = lead :: others)
      (hlead : startsWith ['-', '-'] lead.text.toList = false) : Opens context head .declarations

/-- The block after the given marks is passed over: it belongs to an at-rule that groups no rules, it
has no selector, or its first selector begins with two hyphens. -/
inductive Skips (head : List Mark) : Prop
  | atRule {name : List Char} (hat : atRule? head = some name) (hname : name ∉ groupAtRules)
  | bare (hat : atRule? head = none) (hentries : entries head = [])
  | custom {lead : Entry} {others : List Entry} (hat : atRule? head = none)
      (hentries : entries head = lead :: others)
      (hlead : startsWith ['-', '-'] lead.text.toList = true)

/-- The place of a statement: the block that it stands in, where it begins, and what stands from
there to the end of the block. -/
structure Site where
  context : Context
  start : Nat
  rest : Forest

namespace Site

/-- The first statement of a text. -/
def sheet (text : String) : Site := ⟨.ruleList, 0, .ofText text.toList⟩

/-- One statement leads to another: to the next one in its block, or to the first one of its own
block. -/
inductive Leads : Site → Site → Prop
  | here (s : Site) : Leads s s
  | semicolon {c : Context} {n : Nat} {q : Forest} {l : Lexeme} {rest : Forest} {s : Site}
      (hq : q.Flat) (hl : l.token = .semicolon)
      (h : Leads ⟨c, n + q.size + byteSize l.chars, rest⟩ s) : Leads ⟨c, n, q ++ .token l rest⟩ s
  | after {c : Context} {n : Nat} {q : Forest} {o : Lexeme} {body : Forest} {closed : Bool}
      {rest : Forest} {s : Site} (hq : q.Flat) (ho : o.token = .opening .curly)
      (h : Leads ⟨c, n + q.size + byteSize o.chars + body.size + byteSize (closerChars o closed),
        rest⟩ s) : Leads ⟨c, n, q ++ .block o body closed rest⟩ s
  | inside {c c' : Context} {n : Nat} {q : Forest} {o : Lexeme} {body : Forest} {closed : Bool}
      {rest : Forest} {s : Site} (hq : q.Flat) (ho : o.token = .opening .curly)
      (hopens : Opens c (q.marks n) c') (h : Leads ⟨c', n + q.size + byteSize o.chars, body⟩ s) :
      Leads ⟨c, n, q ++ .block o body closed rest⟩ s

end Site

/-- The offset `n` lies in a block that is passed over. -/
def Opaque (s : Site) (n : Nat) : Prop :=
  ∃ (c : Context) (p : Nat) (q : Forest) (o : Lexeme) (body : Forest) (closed : Bool)
    (rest : Forest), s.Leads ⟨c, p, q ++ .block o body closed rest⟩ ∧ q.Flat ∧
      o.token = .opening .curly ∧ Skips (q.marks p) ∧
      p + q.size + byteSize o.chars ≤ n ∧ n < p + q.size + byteSize o.chars + body.size

/-- The statement `q` at offset `pos`, which ends without a block, misses one from its first token at
`n` on: only rules may stand there, and it is no at-rule. -/
def Misses (context : Context) (q : Forest) (pos n : Nat) : Prop :=
  context = .ruleList ∧
    ∃ x, q.first? pos = some (x, n) ∧ ∀ name, x ≠ .token (.atKeyword name)

/-- What a stylesheet is refused for at offset `n`. -/
inductive Fault (s : Site) (n : Nat) : Prop
  /-- A flawed token outside the blocks that are passed over. -/
  | node (h : s.rest.HasFlaw s.start n) (hn : ¬ Opaque s n)
  /-- A statement that misses its block: it ends with the block that it stands in. -/
  | finish {c : Context} {p : Nat} {q : Forest} (h : s.Leads ⟨c, p, q⟩) (hq : q.Flat)
      (hn : Misses c q p n)
  /-- A statement that misses its block: it ends with a semicolon. -/
  | semicolon {c : Context} {p : Nat} {q : Forest} {l : Lexeme} {rest : Forest}
      (h : s.Leads ⟨c, p, q ++ .token l rest⟩) (hq : q.Flat) (hl : l.token = .semicolon)
      (hn : Misses c q p n)

/-! ## How a block is read -/

/-- The context that a block is read in, if it is read. -/
def Body.context? (context : Context) : Body → Option Context
  | .group => some context
  | .skipped => none
  | .style _ _ => some .declarations

/-- A block is read as `bodyOf` says. -/
theorem opens_iff {c c' : Context} {ms : List Mark} :
    Opens c ms c' ↔ (bodyOf ms).context? c = some c' := by
  constructor
  · intro h
    cases h with
    | group hat hname => simp [bodyOf, hat, hname, Body.context?]
    | style hat hentries hlead => simp [bodyOf, hat, hentries, hlead, Body.context?]
  · intro h
    rw [bodyOf] at h
    split at h
    · rename_i name hat
      by_cases hname : name ∈ groupAtRules
      · rw [if_pos hname, Body.context?, Option.some.injEq] at h
        exact h ▸ .group hat hname
      · simp [hname, Body.context?] at h
    · rename_i hat
      split at h
      · simp [Body.context?] at h
      · rename_i lead others hentries
        cases hlead : startsWith ['-', '-'] lead.text.toList with
        | true => simp [hlead, Body.context?] at h
        | false =>
            rw [hlead, if_neg Bool.false_ne_true, Body.context?, Option.some.injEq] at h
            exact h ▸ .style hat hentries hlead

/-- A block is passed over when it is not read. -/
theorem skips_iff (c : Context) {ms : List Mark} : Skips ms ↔ (bodyOf ms).context? c = none := by
  constructor
  · intro h
    cases h with
    | atRule hat hname => simp [bodyOf, hat, hname, Body.context?]
    | bare hat hentries => simp [bodyOf, hat, hentries, Body.context?]
    | custom hat hentries hlead => simp [bodyOf, hat, hentries, hlead, Body.context?]
  -- the tests of the walk, one by one, leave the three reasons
  · intro h
    rw [bodyOf] at h
    split at h
    · rename_i name hat
      by_cases hname : name ∈ groupAtRules
      · simp [hname, Body.context?] at h
      · exact .atRule hat hname
    · rename_i hat
      split at h
      · rename_i hentries
        exact .bare hat hentries
      · rename_i lead others hentries
        cases hlead : startsWith ['-', '-'] lead.text.toList with
        | true => exact .custom hat hentries hlead
        | false => simp [hlead, Body.context?] at h

/-! ## One statement at a time -/

/-- The forest begins with what ends a statement, or is empty. -/
def Forest.Ends : Forest → Prop
  | .nil => True
  | .token l _ => l.token = .semicolon
  | .block o _ _ _ => o.token = .opening .curly

/-- A forest has one first statement. -/
theorem Forest.Flat.append_inj {q q' g g' : Forest} (hq : q.Flat) (hq' : q'.Flat)
    (h : q ++ g = q' ++ g') (hg : g.Ends) (hg' : g'.Ends) : q = q' ∧ g = g' := by
  -- a head that is longer than the other would hold what ends the other
  have hshort : ∀ {a b : Forest}, a.Flat → b.Ends → ∀ {g : Forest}, a ++ g = b → a = .nil := by
    intro a b ha hb g hab
    cases a with
    | nil => rfl
    | token l rest =>
        rw [token_append] at hab
        rw [← hab] at hb
        exact absurd hb ha.1
    | block o body closed rest =>
        rw [block_append] at hab
        rw [← hab] at hb
        exact absurd hb ha.1
  induction q generalizing q' with
  | nil =>
      have hnil := hshort hq' hg h.symm
      subst hnil
      exact ⟨rfl, h⟩
  | token l rest ih =>
      cases q' with
      | nil => exact absurd (hshort hq hg' h) (by simp)
      | token l' rest' =>
          simp only [token_append, Forest.token.injEq] at h
          obtain ⟨rfl, rfl⟩ := ih hq.2 hq'.2 h.2
          exact ⟨by rw [h.1], rfl⟩
      | block => simp at h
  | block o body closed rest _ ih =>
      cases q' with
      | nil => exact absurd (hshort hq hg' h) (by simp)
      | token => simp at h
      | block o' body' closed' rest' =>
          simp only [block_append, Forest.block.injEq] at h
          obtain ⟨rfl, rfl⟩ := ih hq.2 hq'.2 h.2.2.2
          exact ⟨by rw [h.1, h.2.1, h.2.2.1], rfl⟩

section Steps

variable {c : Context} {n p : Nat} {q body rest : Forest} {l o : Lexeme} {closed : Bool} {s : Site}

/-- The last statement of a block leads nowhere else. -/
theorem Site.leads_finish (hq : q.Flat) : Leads ⟨c, p, q⟩ s ↔ s = ⟨c, p, q⟩ := by
  refine ⟨fun h => ?_, fun h => h ▸ .here _⟩
  -- what ends another statement does not stand in a head
  have hnot : ∀ {a g : Forest}, a.Flat → q = a ++ g → g.Ends → g = .nil := by
    intro a g ha heq hg
    exact ((hq.append_inj ha ((Forest.append_nil q).trans heq) trivial hg).2).symm
  generalize hroot : (⟨c, p, q⟩ : Site) = root at h
  cases h with
  | here => rfl
  | semicolon ha hl => exact absurd (hnot ha (Site.mk.inj hroot).2.2 hl) (by simp)
  | after ha ho => exact absurd (hnot ha (Site.mk.inj hroot).2.2 ho) (by simp)
  | inside ha ho => exact absurd (hnot ha (Site.mk.inj hroot).2.2 ho) (by simp)

/-- A statement that ends with a semicolon leads to what follows it. -/
theorem Site.leads_semicolon (hq : q.Flat) (hl : l.token = .semicolon) :
    Leads ⟨c, p, q ++ .token l rest⟩ s ↔
      s = ⟨c, p, q ++ .token l rest⟩ ∨ Leads ⟨c, p + q.size + byteSize l.chars, rest⟩ s := by
  constructor
  · intro h
    generalize hroot : (⟨c, p, q ++ .token l rest⟩ : Site) = root at h
    cases h with
    | here => exact .inl rfl
    | semicolon ha hk h =>
        obtain ⟨rfl, rfl, heq⟩ := Site.mk.inj hroot
        obtain ⟨rfl, htail⟩ := hq.append_inj ha heq hl hk
        obtain ⟨rfl, rfl⟩ := Forest.token.inj htail
        exact .inr h
    | after ha ho => simpa using (hq.append_inj ha (Site.mk.inj hroot).2.2 hl ho).2
    | inside ha ho => simpa using (hq.append_inj ha (Site.mk.inj hroot).2.2 hl ho).2
  · rintro (rfl | h)
    · exact .here _
    · exact .semicolon hq hl h

/-- A statement with a block leads into it, if the block is read, and to what follows it. -/
theorem Site.leads_block (hq : q.Flat) (ho : o.token = .opening .curly) :
    Leads ⟨c, p, q ++ .block o body closed rest⟩ s ↔
      s = ⟨c, p, q ++ .block o body closed rest⟩ ∨
      (∃ c', Opens c (q.marks p) c' ∧ Leads ⟨c', p + q.size + byteSize o.chars, body⟩ s) ∨
      Leads ⟨c, p + q.size + byteSize o.chars + body.size + byteSize (closerChars o closed),
        rest⟩ s := by
  constructor
  · intro h
    -- the head of a statement is told by where it ends, so that only one way leads on from here
    generalize hroot : (⟨c, p, q ++ .block o body closed rest⟩ : Site) = root at h
    cases h with
    | here => exact .inl rfl
    | semicolon ha hk => simpa using (hq.append_inj ha (Site.mk.inj hroot).2.2 ho hk).2
    | after ha hk h =>
        obtain ⟨rfl, rfl, heq⟩ := Site.mk.inj hroot
        obtain ⟨rfl, htail⟩ := hq.append_inj ha heq ho hk
        obtain ⟨rfl, rfl, rfl, rfl⟩ := Forest.block.inj htail
        exact .inr (.inr h)
    | inside ha hk hopens h =>
        obtain ⟨rfl, rfl, heq⟩ := Site.mk.inj hroot
        obtain ⟨rfl, htail⟩ := hq.append_inj ha heq ho hk
        obtain ⟨rfl, rfl, rfl, rfl⟩ := Forest.block.inj htail
        exact .inr (.inl ⟨_, hopens, h⟩)
  · rintro (rfl | ⟨c', hopens, h⟩ | h)
    · exact .here _
    · exact .inside hq ho hopens h
    · exact .after hq ho h

/-- Nothing in a head is passed over. -/
theorem not_opaque_finish (hq : q.Flat) : ¬ Opaque ⟨c, p, q⟩ n := by
  rintro ⟨c', p', q', o', body', closed', rest', h, hq', ho', -⟩
  have hsite := (Site.leads_finish hq).1 h
  have heq := (Site.mk.inj hsite).2.2
  have htail := (hq'.append_inj hq (heq.trans (Forest.append_nil q).symm) ho' trivial).2
  simp at htail

/-- What is passed over after a statement that ends with a semicolon. -/
theorem opaque_semicolon (hq : q.Flat) (hl : l.token = .semicolon) :
    Opaque ⟨c, p, q ++ .token l rest⟩ n ↔
      Opaque ⟨c, p + q.size + byteSize l.chars, rest⟩ n := by
  constructor
  · rintro ⟨c', p', q', o', body', closed', rest', h, hq', ho', hskip⟩
    rcases (Site.leads_semicolon hq hl).1 h with heq | h
    · have htail := (hq'.append_inj hq (Site.mk.inj heq).2.2 ho' hl).2
      simp at htail
    · exact ⟨c', p', q', o', body', closed', rest', h, hq', ho', hskip⟩
  · rintro ⟨c', p', q', o', body', closed', rest', h, hskip⟩
    exact ⟨c', p', q', o', body', closed', rest', .semicolon hq hl h, hskip⟩

/-- What is passed over in and after a statement with a block. -/
theorem opaque_block (hq : q.Flat) (ho : o.token = .opening .curly) :
    Opaque ⟨c, p, q ++ .block o body closed rest⟩ n ↔
      (Skips (q.marks p) ∧ p + q.size + byteSize o.chars ≤ n ∧
        n < p + q.size + byteSize o.chars + body.size) ∨
      (∃ c', Opens c (q.marks p) c' ∧ Opaque ⟨c', p + q.size + byteSize o.chars, body⟩ n) ∨
      Opaque ⟨c, p + q.size + byteSize o.chars + body.size + byteSize (closerChars o closed),
        rest⟩ n := by
  constructor
  · rintro ⟨c', p', q', o', body', closed', rest', h, hq', ho', hskip⟩
    rcases (Site.leads_block hq ho).1 h with heq | ⟨d, hopens, h⟩ | h
    -- the block that is passed over is the one of the statement
    · obtain ⟨rfl, rfl, hforest⟩ := Site.mk.inj heq
      obtain ⟨rfl, htail⟩ := hq'.append_inj hq hforest ho' ho
      obtain ⟨rfl, rfl, rfl, rfl⟩ := Forest.block.inj htail
      exact .inl hskip
    · exact .inr (.inl ⟨d, hopens, c', p', q', o', body', closed', rest', h, hq', ho', hskip⟩)
    · exact .inr (.inr ⟨c', p', q', o', body', closed', rest', h, hq', ho', hskip⟩)
  · rintro (hskip | ⟨d, hopens, c', p', q', o', body', closed', rest', h, hskip⟩ |
      ⟨c', p', q', o', body', closed', rest', h, hskip⟩)
    · exact ⟨c, p, q, o, body, closed, rest, .here _, hq, ho, hskip⟩
    · exact ⟨c', p', q', o', body', closed', rest', .inside hq ho hopens h, hskip⟩
    · exact ⟨c', p', q', o', body', closed', rest', .after hq ho h, hskip⟩

end Steps

/-- What is passed over lies in the forest. -/
theorem Opaque.bounds {c : Context} {f : Forest} {p n : Nat} (h : Opaque ⟨c, p, f⟩ n) :
    p ≤ n ∧ n < p + f.size := by
  induction f using Forest.statements generalizing c p with
  | finish q hq => exact absurd h (not_opaque_finish hq)
  | semicolon q l rest hq hl ih =>
      have := ih ((opaque_semicolon hq hl).1 h)
      rw [Forest.size_append, Forest.size]
      omega
  | block q o body closed rest hq ho ihb ihr =>
      rw [Forest.size_append, Forest.size]
      rcases (opaque_block hq ho).1 h with ⟨-, hlow, hhigh⟩ | ⟨d, -, h⟩ | h
      · omega
      · have := ihb h
        omega
      · have := ihr h
        omega

/-! ## The faults of one statement -/

section Steps

variable {c : Context} {n p : Nat} {q body rest : Forest} {l o : Lexeme} {closed : Bool}

/-- The faults of the last statement of a block. -/
theorem fault_finish (hq : q.Flat) :
    Fault ⟨c, p, q⟩ n ↔ q.HasFlaw p n ∨ Misses c q p n := by
  constructor
  · intro h
    cases h with
    | node h => exact .inl h
    | finish h hq' hn =>
        obtain ⟨rfl, rfl, rfl⟩ := Site.mk.inj ((Site.leads_finish hq).1 h)
        exact .inr hn
    | semicolon h hq' hl =>
        have heq := (Site.mk.inj ((Site.leads_finish hq).1 h)).2.2
        have htail := (hq'.append_inj hq (heq.trans (Forest.append_nil q).symm) hl trivial).2
        simp at htail
  · rintro (h | h)
    · exact .node h (not_opaque_finish hq)
    · exact .finish (.here _) hq h

/-- The faults of a statement that ends with a semicolon, and of what follows it. -/
theorem fault_semicolon (hq : q.Flat) (hl : l.token = .semicolon)
    (hne : ∀ k ∈ (q ++ Forest.token l rest).lexemes, k.chars ≠ []) :
    Fault ⟨c, p, q ++ .token l rest⟩ n ↔
      (q.HasFlaw p n ∨ Misses c q p n) ∨ Fault ⟨c, p + q.size + byteSize l.chars, rest⟩ n := by
  simp only [Forest.lexemes_append, Forest.lexemes, List.mem_append, List.mem_cons] at hne
  constructor
  · intro h
    cases h with
    | node h hn =>
        obtain ⟨x, hx, hflaw⟩ := h
        rw [Forest.nodes_append, Forest.nodes, List.mem_append, List.mem_cons] at hx
        rcases hx with hx | hx | hx
        · exact .inl (.inl ⟨x, hx, hflaw⟩)
        · obtain ⟨rfl, -⟩ := Prod.mk.inj hx
          simp [Node.IsFlawed, hl] at hflaw
        · exact .inr (.node ⟨x, hx, hflaw⟩ fun h => hn ((opaque_semicolon hq hl).2 h))
    | finish h hq' hn =>
        -- the statement that ends the text is not this one, since it has a semicolon
        rcases (Site.leads_semicolon hq hl).1 h with heq | h
        · have htail := (hq.append_inj hq'
            ((Site.mk.inj heq).2.2.symm.trans (Forest.append_nil _).symm) hl trivial).2
          simp at htail
        · exact .inr (.finish h hq' hn)
    | semicolon h hq' hl' hn =>
        rcases (Site.leads_semicolon hq hl).1 h with heq | h
        · obtain ⟨rfl, rfl, hforest⟩ := Site.mk.inj heq
          obtain ⟨rfl, -⟩ := hq'.append_inj hq hforest hl' hl
          exact .inl (.inr hn)
        · exact .inr (.semicolon h hq' hl' hn)
  · rintro ((⟨x, hx, hflaw⟩ | h) | h)
    · refine .node ⟨x, ?_, hflaw⟩ fun hopaque => ?_
      · rw [Forest.nodes_append]
        exact List.mem_append_left _ hx
      · -- what is opaque in the rest lies behind the semicolon
        have h₁ := ((opaque_semicolon hq hl).1 hopaque).bounds
        have h₂ := Forest.bounds_of_mem_nodes (fun k hk => hne k (.inl hk)) hx
        omega
    · exact .semicolon (.here _) hq hl h
    · cases h with
      | node h hn =>
          obtain ⟨x, hx, hflaw⟩ := h
          refine .node ⟨x, ?_, hflaw⟩ fun hopaque => hn ((opaque_semicolon hq hl).1 hopaque)
          rw [Forest.nodes_append, Forest.nodes]
          exact List.mem_append_right _ (List.mem_cons_of_mem _ hx)
      | finish h hq' hn => exact .finish (.semicolon hq hl h) hq' hn
      | semicolon h hq' hl' hn => exact .semicolon (.semicolon hq hl h) hq' hl' hn

/-- What is passed over in a statement with a block stands after the head and its brace. -/
theorem le_of_opaque_block (hq : q.Flat) (ho : o.token = .opening .curly)
    (h : Opaque ⟨c, p, q ++ .block o body closed rest⟩ n) :
    p + q.size + byteSize o.chars ≤ n := by
  rcases (opaque_block hq ho).1 h with ⟨-, h, -⟩ | ⟨c', -, h⟩ | h
  · exact h
  · exact h.bounds.1
  · have := h.bounds.1
    omega

section Blocks

variable (hq : q.Flat) (ho : o.token = .opening .curly)
  (hne : ∀ k ∈ (q ++ Forest.block o body closed rest).lexemes, k.chars ≠ [])

include hq ho hne

/-- A fault of a statement with a block is one of its head, a block without an end, one in the block
if it is read, or one of what follows. -/
theorem fault_block_cases (h : Fault ⟨c, p, q ++ .block o body closed rest⟩ n) :
    q.HasFlaw p n ∨ (closed = false ∧ n = p + q.size) ∨
      (∃ c', Opens c (q.marks p) c' ∧ Fault ⟨c', p + q.size + byteSize o.chars, body⟩ n) ∨
      Fault ⟨c, p + q.size + byteSize o.chars + body.size + byteSize (closerChars o closed),
        rest⟩ n := by
  cases h with
  | node h hn =>
      obtain ⟨x, hx, hflaw⟩ := h
      rw [Forest.nodes_append, Forest.nodes, List.mem_append, List.mem_cons,
        List.mem_append] at hx
      rw [opaque_block hq ho, not_or, not_or] at hn
      rcases hx with hx | hx | hx | hx
      · exact .inl ⟨x, hx, hflaw⟩
      · obtain ⟨rfl, rfl⟩ := Prod.mk.inj hx
        exact .inr (.inl ⟨hflaw, rfl⟩)
      · -- the block is read, for it would hide the token otherwise
        have hbounds := Forest.bounds_of_mem_nodes
          (fun k hk => hne k (by simp [Forest.lexemes, hk])) hx
        cases hcontext : (bodyOf (q.marks p)).context? c with
        | none => exact absurd ⟨(skips_iff c).2 hcontext, hbounds⟩ hn.1
        | some c' =>
            have hopens := opens_iff.2 hcontext
            exact .inr (.inr (.inl ⟨c', hopens, .node ⟨x, hx, hflaw⟩ fun h =>
              hn.2.1 ⟨c', hopens, h⟩⟩))
      · exact .inr (.inr (.inr (.node ⟨x, hx, hflaw⟩ hn.2.2)))
  | finish h hq' hn =>
      rcases (Site.leads_block hq ho).1 h with heq | ⟨c', hopens, h⟩ | h
      · have htail := (hq.append_inj hq'
          ((Site.mk.inj heq).2.2.symm.trans (Forest.append_nil _).symm) ho trivial).2
        simp at htail
      · exact .inr (.inr (.inl ⟨c', hopens, .finish h hq' hn⟩))
      · exact .inr (.inr (.inr (.finish h hq' hn)))
  | semicolon h hq' hl' hn =>
      rcases (Site.leads_block hq ho).1 h with heq | ⟨c', hopens, h⟩ | h
      · have htail := (hq'.append_inj hq (Site.mk.inj heq).2.2 hl' ho).2
        simp at htail
      · exact .inr (.inr (.inl ⟨c', hopens, .semicolon h hq' hl' hn⟩))
      · exact .inr (.inr (.inr (.semicolon h hq' hl' hn)))

/-- A fault in a block that is read is a fault of its statement. -/
theorem fault_block_inside {c' : Context} (hopens : Opens c (q.marks p) c')
    (h : Fault ⟨c', p + q.size + byteSize o.chars, body⟩ n) :
    Fault ⟨c, p, q ++ .block o body closed rest⟩ n := by
  cases h with
  | node h hn =>
      obtain ⟨x, hx, hflaw⟩ := h
      have hbounds := Forest.bounds_of_mem_nodes
        (fun k hk => hne k (by simp [Forest.lexemes, hk])) hx
      refine .node ⟨x, ?_, hflaw⟩ fun hopaque => ?_
      · rw [Forest.nodes_append, Forest.nodes]
        exact List.mem_append_right _ (List.mem_cons_of_mem _ (List.mem_append_left _ hx))
      -- what is passed over in the whole is passed over in the block, which is read
      · rcases (opaque_block hq ho).1 hopaque with ⟨hskip, -⟩ | ⟨d, hd, h⟩ | h
        · rw [skips_iff c, opens_iff.1 hopens] at hskip
          simp at hskip
        · rw [opens_iff, opens_iff.1 hopens, Option.some.injEq] at hd
          exact hn (hd ▸ h)
        · have := h.bounds.1
          simp only at hbounds
          omega
  | finish h hq' hn => exact .finish (.inside hq ho hopens h) hq' hn
  | semicolon h hq' hl' hn => exact .semicolon (.inside hq ho hopens h) hq' hl' hn

/-- A fault of what follows a block is a fault of the whole. -/
theorem fault_block_after
    (h : Fault ⟨c, p + q.size + byteSize o.chars + body.size + byteSize (closerChars o closed),
      rest⟩ n) : Fault ⟨c, p, q ++ .block o body closed rest⟩ n := by
  cases h with
  | node h hn =>
      obtain ⟨x, hx, hflaw⟩ := h
      have hbounds := (Forest.bounds_of_mem_nodes
        (fun k hk => hne k (by simp [Forest.lexemes, hk])) hx).1
      refine .node ⟨x, ?_, hflaw⟩ fun hopaque => ?_
      · rw [Forest.nodes_append, Forest.nodes]
        exact List.mem_append_right _ (List.mem_cons_of_mem _ (List.mem_append_right _ hx))
      · simp only at hbounds
        rcases (opaque_block hq ho).1 hopaque with ⟨-, -, h⟩ | ⟨d, -, h⟩ | h
        · omega
        · have := h.bounds.2
          omega
        · exact hn h
  | finish h hq' hn => exact .finish (.after hq ho h) hq' hn
  | semicolon h hq' hl' hn => exact .semicolon (.after hq ho h) hq' hl' hn

/-- The faults of a statement with a block: those of its head, that the block has no end, those in
the block if it is read, and those of what follows. -/
theorem fault_block :
    Fault ⟨c, p, q ++ .block o body closed rest⟩ n ↔
      q.HasFlaw p n ∨ (closed = false ∧ n = p + q.size) ∨
      (∃ c', Opens c (q.marks p) c' ∧ Fault ⟨c', p + q.size + byteSize o.chars, body⟩ n) ∨
      Fault ⟨c, p + q.size + byteSize o.chars + body.size + byteSize (closerChars o closed),
        rest⟩ n := by
  refine ⟨fault_block_cases hq ho hne, ?_⟩
  have hsize := byteSize_pos_of_ne_nil (hne o (by simp [Forest.lexemes]))
  rintro (⟨x, hx, hflaw⟩ | ⟨rfl, rfl⟩ | ⟨c', hopens, h⟩ | h)
  -- nothing is passed over before the block begins
  · refine .node ⟨x, ?_, hflaw⟩ fun hopaque => ?_
    · rw [Forest.nodes_append]
      exact List.mem_append_left _ hx
    · have h₁ := le_of_opaque_block hq ho hopaque
      have h₂ := Forest.bounds_of_mem_nodes (fun k hk => hne k (by simp [hk])) hx
      omega
  · refine .node ⟨.opener o.token false, ?_, rfl⟩ fun hopaque => ?_
    · rw [Forest.nodes_append, Forest.nodes]
      exact List.mem_append_right _ List.mem_cons_self
    · have := le_of_opaque_block hq ho hopaque
      omega
  · exact fault_block_inside hq ho hne hopens h
  · exact fault_block_after hq ho hne h

end Blocks

end Steps

/-! ## Problems and faults -/

/-- Every problem stands at or after a fault, and every fault at or after a problem: there are
problems when there are faults, and the first of both have one offset. -/
structure Agree (ps : List Problem) (F : Nat → Prop) : Prop where
  fault_le : ∀ pr ∈ ps, ∃ n, F n ∧ n ≤ pr.offset
  problem_le : ∀ n, F n → ∃ pr ∈ ps, pr.offset ≤ n

namespace Agree

variable {ps qs : List Problem} {F G : Nat → Prop}

/-- Agreement is kept when problems are put together. -/
theorem append (h : Agree ps F) (h' : Agree qs G) : Agree (ps ++ qs) fun n => F n ∨ G n where
  fault_le pr hpr := by
    rcases List.mem_append.1 hpr with hpr | hpr
    · obtain ⟨n, hn, hle⟩ := h.fault_le pr hpr
      exact ⟨n, .inl hn, hle⟩
    · obtain ⟨n, hn, hle⟩ := h'.fault_le pr hpr
      exact ⟨n, .inr hn, hle⟩
  problem_le n hn := by
    rcases hn with hn | hn
    · obtain ⟨pr, hpr, hle⟩ := h.problem_le n hn
      exact ⟨pr, List.mem_append_left _ hpr, hle⟩
    · obtain ⟨pr, hpr, hle⟩ := h'.problem_le n hn
      exact ⟨pr, List.mem_append_right _ hpr, hle⟩

/-- Agreement depends on the offsets of the faults only. -/
theorem congr (h : Agree ps F) (hF : ∀ n, G n ↔ F n) : Agree ps G := by
  have hFG : G = F := funext fun n => propext (hF n)
  exact hFG ▸ h

/-- A fault may be left out where another one stands at or before it. -/
theorem weaken (h : Agree ps F) (hG : ∀ n, G n → F n) (hF : ∀ n, F n → ∃ m, G m ∧ m ≤ n) :
    Agree ps G where
  fault_le pr hpr := by
    obtain ⟨n, hn, hle⟩ := h.fault_le pr hpr
    obtain ⟨m, hm, hmn⟩ := hF n hn
    exact ⟨m, hm, hmn.trans hle⟩
  problem_le n hn := h.problem_le n (hG n hn)

/-- Nothing agrees with nothing. -/
theorem nil (h : ∀ n, ¬ F n) : Agree [] F := ⟨by simp, fun n hn => absurd hn (h n)⟩

/-- One problem agrees with faults that all stand where it does. -/
theorem singleton {pr : Problem} (h : ∀ n, F n ↔ n = pr.offset) : Agree [pr] F where
  fault_le qr hqr := ⟨pr.offset, (h _).2 rfl, by rw [List.mem_singleton.1 hqr]⟩
  problem_le n hn := ⟨pr, by simp, ((h n).1 hn).ge⟩

/-- Without problems there is no fault, and the other way round. -/
theorem eq_nil_iff (h : Agree ps F) : ps = [] ↔ ∀ n, ¬ F n := by
  constructor
  · rintro rfl n hn
    obtain ⟨pr, hpr, -⟩ := h.problem_le n hn
    simp at hpr
  · intro hF
    by_contra hne
    obtain ⟨pr, hpr⟩ := List.exists_mem_of_ne_nil ps hne
    obtain ⟨n, hn, -⟩ := h.fault_le pr hpr
    exact hF n hn

end Agree

/-- There is a first problem unless there is none. -/
theorem Problem.first?_eq_none_iff {ps : List Problem} : Problem.first? ps = none ↔ ps = [] := by
  cases ps with
  | nil => simp [first?]
  | cons p ps =>
      rw [first?]
      split
      · split <;> simp
      · simp

/-- The first problem is one with the least offset. -/
theorem Problem.le_of_first? {ps : List Problem} {p : Problem} (h : Problem.first? ps = some p) :
    p ∈ ps ∧ ∀ q ∈ ps, p.offset ≤ q.offset := by
  induction ps generalizing p with
  | nil => simp [first?] at h
  | cons r ps ih =>
      rw [first?] at h
      split at h
      · rename_i q hq
        obtain ⟨hmem, hle⟩ := ih hq
        split at h
        · rename_i hlt
          obtain rfl := Option.some.inj h
          refine ⟨List.mem_cons_of_mem _ hmem, fun s hs => ?_⟩
          rcases List.mem_cons.1 hs with rfl | hs
          · exact hlt.le
          · exact hle s hs
        · -- the first one of two at the same offset is kept
          rename_i hge
          obtain rfl := Option.some.inj h
          refine ⟨List.mem_cons_self, fun s hs => ?_⟩
          rcases List.mem_cons.1 hs with rfl | hs
          · exact le_rfl
          · exact (Nat.le_of_not_lt hge).trans (hle s hs)
      · rename_i hnone
        obtain rfl := Option.some.inj h
        rw [first?_eq_none_iff.1 hnone]
        simp

/-- A stylesheet is accepted when it has no problem, and then declares what its outline does. -/
theorem declared?_eq_ok_iff {text : String} {selectors : SelectorSet} :
    declared? text = .ok selectors ↔
      (Outline.ofText text).problems = [] ∧ (Outline.ofText text).declared = selectors := by
  rw [← Problem.first?_eq_none_iff, declared?, Outline.error?]
  cases Problem.first? (Outline.ofText text).problems <;> simp

/-- A stylesheet is accepted when it has no problem. -/
theorem exists_declared?_iff {text : String} :
    (∃ selectors, declared? text = .ok selectors) ↔ (Outline.ofText text).problems = [] := by
  simp [declared?_eq_ok_iff]

/-- Every rule of a stylesheet that is accepted is closed. -/
theorem mem_closedRules_of_accepted {text : String} {r : Rule}
    (h : ∃ selectors, declared? text = .ok selectors) (hr : r ∈ (Outline.ofText text).rules) :
    r ∈ closedRules text :=
  mem_closedRules.2 ⟨hr, closed_of_problems_eq_nil (exists_declared?_iff.1 h) hr⟩

/-- The first problem stands at the first fault. -/
theorem Agree.isLeast {ps : List Problem} {F : Nat → Prop} (h : Agree ps F) {p : Problem}
    (hp : Problem.first? ps = some p) : IsLeast {n | F n} p.offset := by
  obtain ⟨hmem, hle⟩ := Problem.le_of_first? hp
  have hlower : ∀ n, F n → p.offset ≤ n := by
    intro n hn
    obtain ⟨q, hq, hqn⟩ := h.problem_le n hn
    exact (hle q hq).trans hqn
  obtain ⟨n, hn, hnp⟩ := h.fault_le p hmem
  have heq : n = p.offset := le_antisymm hnp (hlower n hn)
  exact ⟨heq ▸ hn, hlower⟩

/-- The problems of a block are that it has no end. -/
theorem agree_blockProblems (closed : Bool) (pos : Nat) :
    Agree (blockProblems closed pos) fun n => closed = false ∧ n = pos := by
  cases closed with
  | true => exact .nil (by simp)
  | false => exact .singleton (by simp)

/-- The problem of a token is that it is flawed. -/
theorem agree_problems_token (t : Token) (pos : Nat) :
    Agree (t.problems pos) fun n => (Node.token t).IsFlawed ∧ n = pos := by
  cases t with
  | comment terminated =>
      cases terminated with
      | true => exact .nil (by simp [Node.IsFlawed])
      | false => exact .singleton (by simp [Node.IsFlawed])
  | badString => exact .singleton (by simp [Node.IsFlawed])
  | badUrl => exact .singleton (by simp [Node.IsFlawed])
  | closing b => exact .singleton (by simp [Node.IsFlawed])
  | _ => exact .nil (by simp [Node.IsFlawed])

/-- A flaw is the first token of a sequence or stands after it. -/
theorem exists_flawed_cons {x : Node} {pos n : Nat} {xs : List (Node × Nat)} :
    (∃ y, (y, n) ∈ (x, pos) :: xs ∧ y.IsFlawed) ↔
      (x.IsFlawed ∧ n = pos) ∨ ∃ y, (y, n) ∈ xs ∧ y.IsFlawed := by
  constructor
  · rintro ⟨y, hy, hflaw⟩
    rcases List.mem_cons.1 hy with hy | hy
    · obtain ⟨rfl, rfl⟩ := Prod.mk.inj hy
      exact .inl ⟨hflaw, rfl⟩
    · exact .inr ⟨y, hy, hflaw⟩
  · rintro (⟨hflaw, rfl⟩ | ⟨y, hy, hflaw⟩)
    · exact ⟨x, List.mem_cons_self, hflaw⟩
    · exact ⟨y, List.mem_cons_of_mem _ hy, hflaw⟩

/-- The problems of a head are its flawed tokens, at every depth. -/
theorem Forest.agree_problems (f : Forest) (pos : Nat) : Agree (f.problems pos) (f.HasFlaw pos) := by
  induction f generalizing pos with
  | nil => exact .nil (by simp [HasFlaw, nodes])
  | token l rest ih =>
      refine ((agree_problems_token l.token pos).append (ih _)).congr fun n => ?_
      exact exists_flawed_cons
  | block o body closed rest ihb ihr =>
      -- an outer block is recorded after what it holds
      have hagree := ((ihb (pos + byteSize o.chars)).append (agree_blockProblems closed pos)).append
        (ihr (pos + byteSize o.chars + body.size + byteSize (closerChars o closed)))
      refine hagree.congr fun n => ?_
      rw [HasFlaw, nodes, exists_flawed_cons, or_assoc, or_left_comm]
      refine or_congr Iff.rfl ?_
      simp only [HasFlaw, List.mem_append, or_and_right, exists_or]

/-! ## Statements without a block -/

/-- The problem of a missing block stands at the first solid mark. -/
theorem missingBlock_cons {m : Mark} {ms : List Mark} (h : m.isSolid = true) :
    ∃ cause, missingBlock (m :: ms) = [⟨cause, m.start⟩] := by
  have hdrop : (m :: ms).dropWhile (!·.isSolid) = m :: ms := by
    simp [h]
  -- the first mark stays when the end is cut off, since it is solid
  obtain ⟨xs, hxs⟩ : ∃ xs, solidRun (m :: ms) = m :: xs := by
    rw [solidRun, hdrop, List.reverse_cons, List.dropWhile_append]
    split
    · exact ⟨[], by simp [h]⟩
    · exact ⟨_, by rw [List.reverse_append]; rfl⟩
  rw [missingBlock, hxs]
  exact ⟨_, rfl⟩

/-- The problem of a statement without a block stands at its first solid mark, unless that is an
at-keyword. -/
theorem endProblems_cons {m : Mark} {ms : List Mark} (context : Context) (h : m.isSolid = true) :
    (∃ name, m.kind = .atKeyword name) ∧ endProblems context (m :: ms) = [] ∨
      (∀ name, m.kind ≠ .atKeyword name) ∧ ∃ cause, endProblems context (m :: ms) =
        if context = .ruleList then [⟨cause, m.start⟩] else [] := by
  have hfind : (m :: ms).find? Mark.isSolid = some m := by simp [h]
  cases hkind : m.kind with
  | atKeyword name =>
      refine .inl ⟨⟨name, rfl⟩, ?_⟩
      simp [endProblems, atRule?, hfind, hkind]
  | _ =>
      obtain ⟨cause, hcause⟩ := @missingBlock_cons m ms h
      refine .inr ⟨by simp, cause, ?_⟩
      simp [endProblems, atRule?, hfind, hkind, hcause]

/-- A statement begins at or after its offset. -/
theorem Forest.le_of_first? {q : Forest} {pos n : Nat} {x : Node} (h : q.first? pos = some (x, n)) :
    pos ≤ n := by
  induction q generalizing pos with
  | nil => simp [first?] at h
  | token l rest ih =>
      rw [first?] at h
      split at h
      · exact Nat.le_of_add_right_le (ih h)
      · exact Nat.le_of_add_right_le (ih h)
      · simp only [Option.some.injEq, Prod.mk.injEq] at h
        exact h.2.le
  | block o body closed rest =>
      simp only [first?, Option.some.injEq, Prod.mk.injEq] at h
      exact h.2.le

/-- What a statement begins with, by its first token: a token that does not show is whitespace, a
comment, or flawed. -/
theorem first?_token (l : Lexeme) (rest : Forest) (pos : Nat) :
    ((Mark.ofLexeme l pos).isSolid = false ∧
        (Forest.token l rest).first? pos = rest.first? (pos + byteSize l.chars)) ∨
      ((Forest.token l rest).first? pos = some (.token l.token, pos) ∧
        ((Mark.ofLexeme l pos).isSolid = false → (Node.token l.token).IsFlawed)) := by
  cases ht : l.token <;>
    simp [Forest.first?, Mark.isSolid, Mark.ofLexeme, Mark.Kind.ofToken, Token.isVisible,
      Node.IsFlawed, ht]

/-- A statement that begins with a solid mark. -/
theorem agree_endProblems_cons (context : Context) {m : Mark} {ms : List Mark} {x : Node}
    (hm : m.isSolid = true) (hx : ∀ name, m.kind = .atKeyword name ↔ x = .token (.atKeyword name)) :
    Agree (endProblems context (m :: ms)) fun n => context = .ruleList ∧
      ∃ y, some (x, m.start) = some (y, n) ∧ ∀ name, y ≠ .token (.atKeyword name) := by
  rcases endProblems_cons context hm with ⟨⟨name, hkind⟩, hend⟩ | ⟨hkind, cause, hend⟩
  · rw [hend]
    refine .nil ?_
    rintro n ⟨-, y, hy, hne⟩
    obtain ⟨rfl, -⟩ := Prod.mk.inj (Option.some.inj hy)
    exact hne name ((hx name).1 hkind)
  · have hne : ∀ name, x ≠ .token (.atKeyword name) := fun name h => hkind name ((hx name).2 h)
    rw [hend]
    by_cases hcontext : context = .ruleList
    · rw [if_pos hcontext]
      refine .singleton fun n => ?_
      constructor
      · rintro ⟨-, y, hy, -⟩
        exact (Prod.mk.inj (Option.some.inj hy)).2.symm
      · rintro rfl
        exact ⟨hcontext, x, rfl, hne⟩
    · rw [if_neg hcontext]
      exact .nil fun n h => hcontext h.1

/-- **The problems of a statement without a block** agree with its flawed tokens and with where it
misses a block. -/
theorem agree_endProblems (context : Context) (q : Forest) (pos : Nat) :
    Agree (q.problems pos ++ endProblems context (q.marks pos)) fun n =>
      q.HasFlaw pos n ∨ Misses context q pos n := by
  induction q generalizing pos with
  | nil =>
      have hend : endProblems context [] = [] := by
        rw [endProblems]
        split <;> rfl
      rw [Forest.problems, Forest.marks, hend]
      exact .nil (by simp [Forest.HasFlaw, Forest.nodes, Misses, Forest.first?])
  | token l rest ih =>
      by_cases hsolid : (Mark.ofLexeme l pos).isSolid = true
      · refine ((Forest.token l rest).agree_problems pos).append ?_
        obtain ⟨hdull, -⟩ | ⟨hfirst, -⟩ := first?_token l rest pos
        · simp [hsolid] at hdull
        · rw [Forest.marks]
          refine (agree_endProblems_cons context hsolid (x := .token l.token) ?_).congr fun n => ?_
          · intro name
            cases ht : l.token <;>
              simp [Mark.ofLexeme, Mark.Kind.ofToken, Token.isVisible, ht]
          · rw [Misses, hfirst]
            rfl
      · -- the mark of the token does not count, but the token may be flawed
        rw [Bool.not_eq_true] at hsolid
        have hend := ((show Dull [Mark.ofLexeme l pos] by simpa [Dull] using hsolid).statement_eq
          (rest.marks (pos + byteSize l.chars))).1 context
        rw [List.singleton_append] at hend
        rw [Forest.problems, Forest.marks, List.append_assoc, hend]
        have hagree := (agree_problems_token l.token pos).append (ih (pos + byteSize l.chars))
        have hflaw : ∀ n, (Forest.token l rest).HasFlaw pos n ↔ _ := fun n => exists_flawed_cons
        obtain ⟨-, hfirst⟩ | ⟨hfirst, hflawed⟩ := first?_token l rest pos
        · refine hagree.congr fun n => ?_
          rw [hflaw, Misses, hfirst, or_assoc]
          rfl
        · have hflawed := hflawed hsolid
          refine hagree.weaken (fun n hn => ?_) fun n hn => ?_
          · rcases hn with hn | ⟨-, y, hy, -⟩
            · exact ((hflaw n).1 hn).imp_right .inl
            · rw [hfirst, Option.some.injEq, Prod.mk.injEq] at hy
              exact .inl ⟨hflawed, hy.2.symm⟩
          · rcases hn with hn | hn | ⟨-, y, hy, -⟩
            · exact ⟨n, .inl ((hflaw n).2 (.inl hn)), le_rfl⟩
            · exact ⟨n, .inl ((hflaw n).2 (.inr hn)), le_rfl⟩
            · exact ⟨pos, .inl ((hflaw pos).2 (.inl ⟨hflawed, rfl⟩)),
                Nat.le_of_add_right_le (Forest.le_of_first? hy)⟩
  | block o body closed rest =>
      refine ((Forest.block o body closed rest).agree_problems pos).append ?_
      exact agree_endProblems_cons context rfl (by simp [Mark.ofBlock])

/-- **The problems of an outline agree with the faults.** -/
theorem agree_outlineFrom {f : Forest} (hne : ∀ l ∈ f.lexemes, l.chars ≠ []) (c : Context)
    (depth pos : Nat) : Agree (outlineFrom c depth pos [] f).problems (Fault ⟨c, pos, f⟩) := by
  induction f using Forest.statements generalizing c depth pos with
  | finish q hq =>
      rw [outlineFrom_finish hq]
      exact (agree_endProblems c q pos).congr fun n => fault_finish hq
  | semicolon q l rest hq hl ih =>
      have hrest : ∀ k ∈ rest.lexemes, k.chars ≠ [] := fun k hk =>
        hne k (by simp [Forest.lexemes, hk])
      rw [outlineFrom_semicolon hq hl, Outline.ofProblems_append]
      exact ((agree_endProblems c q pos).append (ih hrest c depth _)).congr fun n =>
        fault_semicolon hq hl hne
  | block q o body closed rest hq ho ihb ihr =>
      have hbody : ∀ k ∈ body.lexemes, k.chars ≠ [] := fun k hk =>
        hne k (by simp [Forest.lexemes, hk])
      have hrest : ∀ k ∈ rest.lexemes, k.chars ≠ [] := fun k hk =>
        hne k (by simp [Forest.lexemes, hk])
      -- the block adds its own problems when it is read
      have hinner : ∀ block, Agree ((bodyOf (q.marks pos)).outline c depth
          (pos + q.size + byteSize o.chars) block closed body).problems fun n =>
            ∃ c', Opens c (q.marks pos) c' ∧
              Fault ⟨c', pos + q.size + byteSize o.chars, body⟩ n := by
        intro block
        simp only [opens_iff]
        cases bodyOf (q.marks pos) with
        | skipped => exact .nil (by simp [Body.context?])
        | group => exact (ihb hbody c _ _).congr (by simp [Body.context?])
        | style lead others =>
            have h : Agree ((Body.style lead others).outline c depth
                (pos + q.size + byteSize o.chars) block closed body).problems _ :=
              ihb hbody .declarations (depth + 1) (pos + q.size + byteSize o.chars)
            exact h.congr (by simp [Body.context?])
      rw [outlineFrom_block hq ho]
      refine ((q.agree_problems pos).append (((hinner _).append
        (agree_blockProblems closed (pos + q.size))).append (ihr hrest c depth _))).congr fun n => ?_
      rw [fault_block hq ho hne]
      -- an outer block is recorded after what it holds
      exact or_congr Iff.rfl (by rw [or_assoc, or_left_comm])

/-- **What a stylesheet is refused for.** It is accepted exactly when it has no fault; otherwise the
error is about the first fault. -/
theorem declared?_eq_ok_iff_and_isLeast (text : String) :
    ((∃ selectors, declared? text = .ok selectors) ↔ ∀ n, ¬ Fault (.sheet text) n) ∧
      ∀ e, declared? text = .error e → IsLeast {n | Fault (.sheet text) n} e.offset := by
  have hne : ∀ l ∈ (Forest.ofText text.toList).lexemes, l.chars ≠ [] := by
    intro l hl
    rw [Forest.lexemes_ofText] at hl
    obtain ⟨r, hr⟩ := reads_of_mem_lexemes hl
    exact hr.chars_ne_nil
  have hagree := agree_outlineFrom hne .ruleList 0 0
  change Agree (Outline.ofText text).problems (Fault (.sheet text)) at hagree
  refine ⟨by rw [exists_declared?_iff, hagree.eq_nil_iff], fun e he => ?_⟩
  rw [declared?, Outline.error?] at he
  cases hfirst : Problem.first? (Outline.ofText text).problems with
  | none => simp [hfirst] at he
  | some p =>
      simp only [hfirst, Option.map_some, Except.error.injEq] at he
      rw [← he]
      exact hagree.isLeast hfirst

end StyleAudit.Sheet
