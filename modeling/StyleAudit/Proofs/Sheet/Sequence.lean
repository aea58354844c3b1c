import Mathlib
import StyleAudit.Proofs.Sheet.Faults
import StyleAudit.Proofs.Sheet.Relocation
import StyleAudit.Proofs.Sheet.Seams

/-! # One stylesheet after another

A stylesheet that ends with a whole statement can be followed by any text. No token, no statement and
no block goes on across the seam, so the outline of both is that of the first one and, further on in
the text, that of the second one.

* **`Forest.endsWhole`** — only whitespace and comments follow the last statement that has an end.
* **`EndsFenced`** — the last lexeme that is neither of them ends a statement.
* **`splits_of_endsWhole`** — the lexemes of such a stylesheet do not depend on what follows.
* **`outlineFrom_append`** — no statement goes on across the seam.
* **`outline_append`** — the outline of one stylesheet after another. -/

namespace StyleAudit.Sheet

open Text

/-- Whether only whitespace and comments follow the last semicolon and the last block between braces
at the top; `begun` says that something else has come before. -/
def Forest.endsWhole : (begun : Bool) → Forest → Bool
  | begun, .nil => !begun
  | begun, .token l rest =>
      match l.token with
      | .semicolon => rest.endsWhole false
      | .whitespace | .comment _ => rest.endsWhole begun
      | _ => rest.endsWhole true
  | _, .block o _ _ rest => rest.endsWhole (o.token != .opening .curly)

/-- What a token does to the statement that is being read: it ends it, it does not show in it, or it
belongs to it. -/
theorem Forest.endsWhole_token_cases (l : Lexeme) (rest : Forest) (begun : Bool) :
    (l.token = .semicolon ∧ (Forest.token l rest).endsWhole begun = rest.endsWhole false) ∨
      ((l.token = .whitespace ∨ ∃ ended, l.token = .comment ended) ∧
        (Forest.token l rest).endsWhole begun = rest.endsWhole begun) ∨
      (l.token ≠ .semicolon ∧ (Forest.token l rest).endsWhole begun = rest.endsWhole true) := by
  rw [endsWhole]
  split
  · rename_i hl
    exact .inl ⟨hl, rfl⟩
  · rename_i hl
    exact .inr (.inl ⟨.inl hl, rfl⟩)
  · rename_i ended hl
    exact .inr (.inl ⟨.inr ⟨ended, hl⟩, rfl⟩)
  · rename_i hsemicolon _ _
    exact .inr (.inr ⟨hsemicolon, rfl⟩)

/-! ## No token goes on across the seam -/

variable {f : Forest} {begun : Bool} {context : Context} {depth pos : Nat} {seen : List Mark}

/-- The lexemes end with a fence and with whitespace and comments after it, or they are whitespace and
comments and no statement has begun before them. -/
def EndsFenced (begun : Bool) (ls : List Lexeme) : Prop :=
  ∃ front back, ls = front ++ back ∧ (∀ l ∈ back, l.Dull) ∧
    ((front = [] ∧ begun = false) ∨ ∃ ks l, front = ks ++ [l] ∧ l.IsFence)

namespace EndsFenced

variable {ls : List Lexeme} {l : Lexeme}

/-- A fence ends a statement. -/
theorem fence (h : EndsFenced false ls) (hl : l.IsFence) : EndsFenced begun (l :: ls) := by
  obtain ⟨front, back, rfl, hback, hfront⟩ := h
  refine ⟨l :: front, back, rfl, hback, .inr ?_⟩
  rcases hfront with ⟨rfl, -⟩ | ⟨ks, k, rfl, hk⟩
  · exact ⟨[], l, rfl, hl⟩
  · exact ⟨l :: ks, k, rfl, hk⟩

/-- Whitespace and comments begin no statement. -/
theorem dull (h : EndsFenced begun ls) (hl : l.Dull) : EndsFenced begun (l :: ls) := by
  obtain ⟨front, back, rfl, hback, hfront⟩ := h
  rcases hfront with ⟨rfl, hbegun⟩ | ⟨ks, k, rfl, hk⟩
  · exact ⟨[], l :: back, rfl, List.forall_mem_cons.2 ⟨hl, hback⟩, .inl ⟨rfl, hbegun⟩⟩
  · exact ⟨l :: (ks ++ [k]), back, rfl, hback, .inr ⟨l :: ks, k, rfl, hk⟩⟩

/-- Anything may stand in a statement that has an end. -/
theorem prepend (ks : List Lexeme) (h : EndsFenced true ls) : EndsFenced begun (ks ++ ls) := by
  obtain ⟨front, back, rfl, hback, hfront⟩ := h
  rcases hfront with ⟨-, hbegun⟩ | ⟨ks', k, rfl, hk⟩
  · exact absurd hbegun (by decide)
  · exact ⟨ks ++ (ks' ++ [k]), back, by simp, hback, .inr ⟨ks ++ ks', k, by simp, hk⟩⟩

end EndsFenced

/-- **The lexemes after the last statement that has an end** are whitespace and comments. -/
theorem endsFenced_of_endsWhole (hends : f.endsWhole begun = true) (hf : f.Balanced none)
    (hproblems : (outlineFrom context depth pos seen f).problems = []) :
    EndsFenced begun f.lexemes := by
  induction f generalizing begun pos seen with
  | nil => exact ⟨[], [], rfl, by simp, .inl ⟨rfl, by simpa [Forest.endsWhole] using hends⟩⟩
  | token l rest ih =>
      rw [Forest.lexemes]
      rcases Forest.endsWhole_token_cases l rest begun with ⟨hl, heq⟩ | ⟨hl, heq⟩ | ⟨hl, heq⟩
      · -- a semicolon
        rw [heq] at hends
        rw [outlineFrom, if_pos hl, Outline.problems_append, List.append_eq_nil_iff] at hproblems
        exact (ih hends hf.2.2 hproblems.2).fence (.inl hl)
      · -- whitespace, or a comment that is closed
        rw [heq] at hends
        have hsemicolon : l.token ≠ .semicolon := by
          rcases hl with hl | ⟨ended, hl⟩ <;> simp [hl]
        rw [outlineFrom, if_neg hsemicolon, Outline.problems_append, List.append_eq_nil_iff]
          at hproblems
        refine (ih hends hf.2.2 hproblems.2).dull ?_
        rcases hl with hl | ⟨_ | _, hl⟩
        · exact .inl hl
        · exact absurd (Token.problems_eq_nil_iff.1 hproblems.1) (by simp [hl, Token.cause?])
        · exact .inr hl
      · -- any other token
        rw [heq] at hends
        rw [outlineFrom, if_neg hl, Outline.problems_append, List.append_eq_nil_iff] at hproblems
        exact (ih hends hf.2.2 hproblems.2).prepend [l]
  | block o body closed rest _ ih =>
      obtain ⟨rfl, -, -, hrest⟩ := hf
      rw [Forest.endsWhole] at hends
      obtain ⟨seen', hrestProblems⟩ : ∃ seen', (outlineFrom context depth
          (pos + byteSize o.chars + body.size + byteSize (closerChars o true)) seen' rest).problems =
            [] := by
        rw [outlineFrom] at hproblems
        simp only at hproblems
        split at hproblems
        all_goals
          rw [Outline.problems_append, List.append_eq_nil_iff] at hproblems
          exact ⟨_, hproblems.2⟩
      have hfenced := ih hends hrest hrestProblems
      rw [Forest.lexemes, closerLexemes, if_pos rfl]
      by_cases ho : o.token = .opening .curly
      · -- the closing brace is a fence
        rw [ho] at hfenced
        rw [o.bracket_of_curly ho]
        have hclosed : EndsFenced true (closerOf .curly :: rest.lexemes) :=
          hfenced.fence (.inr (.inr rfl))
        exact hclosed.prepend (o :: body.lexemes)
      · have hbegun : (o.token != .opening .curly) = true := by simpa using ho
        rw [hbegun] at hfenced
        have h : EndsFenced begun _ := hfenced.prepend (o :: (body.lexemes ++ [closerOf o.bracket]))
        simpa using h

/-- **The lexemes of a stylesheet that ends with a whole statement** do not depend on what follows. -/
theorem splits_of_endsWhole (hends : f.endsWhole false = true) (hf : f.Balanced none)
    (hproblems : (outlineFrom context depth pos seen f).problems = []) (h : Splits f.lexemes [])
    (r : List Char) : Splits f.lexemes r := by
  obtain ⟨front, back, hlex, hback, hfront⟩ := endsFenced_of_endsWhole hends hf hproblems
  rw [hlex, splits_append] at h ⊢
  have hfree : ∀ l ∈ back, l.Free := fun l hl =>
    (loose_of_kind (isSpace_or_reads_of_splits h.2 hl) (.inl (hback l hl))).free
  refine ⟨?_, splits_free hfree r⟩
  rcases hfront with ⟨rfl, -⟩ | ⟨ls, l, rfl, hl⟩
  · trivial
  · exact splits_through_fence hl h.1 _

/-! ## No statement goes on across the seam -/

/-- **The outline of two forests** of which the first one ends with a whole statement. -/
theorem outlineFrom_append (hends : f.endsWhole begun = true) (hseen : begun = false → Dull seen)
    (context : Context) (depth pos : Nat) (g : Forest) :
    outlineFrom context depth pos seen (f ++ g) =
      outlineFrom context depth pos seen f ++ outlineFrom context depth (pos + f.size) [] g := by
  induction f generalizing begun pos seen with
  | nil =>
      -- nothing has begun: the marks that were seen say nothing about what follows
      have hdull : Dull seen := hseen (by simpa [Forest.endsWhole] using hends)
      have hreverse : Dull seen.reverse := fun m hm => hdull m (List.mem_reverse.1 hm)
      have hend := (hreverse.statement_eq []).1 context
      have hwalk := outlineFrom_dull hdull context depth pos [] g
      rw [List.append_nil] at hend
      rw [List.nil_append] at hwalk
      rw [Forest.nil_append, hwalk, outlineFrom, hend]
      cases context <;> rfl
  | token l rest ih =>
      rw [Forest.token_append, outlineFrom, outlineFrom, Forest.size, ← Nat.add_assoc]
      rcases Forest.endsWhole_token_cases l rest begun with ⟨hl, heq⟩ | ⟨hl, heq⟩ | ⟨hl, heq⟩
      · rw [if_pos hl, if_pos hl, ih (heq ▸ hends) (fun _ => by simp [Dull]), append_assoc_outline]
      · have hsemicolon : l.token ≠ .semicolon := by
          rcases hl with hl | ⟨ended, hl⟩ <;> simp [hl]
        have hmark : (Mark.ofLexeme l pos).isSolid = false := by
          rcases hl with hl | ⟨ended, hl⟩ <;>
            simp [Mark.isSolid, Mark.ofLexeme, Mark.Kind.ofToken, hl, Token.isVisible]
        rw [if_neg hsemicolon, if_neg hsemicolon, ih (heq ▸ hends) (fun hbegun => ?_),
          append_assoc_outline]
        intro m hm
        rcases List.mem_cons.1 hm with rfl | hm
        · exact hmark
        · exact hseen hbegun m hm
      · rw [if_neg hl, if_neg hl, ih (heq ▸ hends) (by simp), append_assoc_outline]
  | block o body closed rest _ ih =>
      rw [Forest.endsWhole] at hends
      have hsize : pos + (Forest.block o body closed rest).size =
          pos + byteSize o.chars + body.size + byteSize (closerChars o closed) + rest.size := by
        simp only [Forest.size]
        omega
      rw [Forest.block_append, hsize]
      by_cases ho : o.token = .opening .curly
      · rw [outlineFrom_curly ho, outlineFrom_curly ho, ih hends (fun _ => by simp [Dull])]
        exact (append_assoc_outline _ _ _).symm
      · have hbegun : (o.token != .opening .curly) = true := by simpa using ho
        rw [outlineFrom, outlineFrom, if_neg ho, if_neg ho, ih hends (by simp [hbegun]),
          append_assoc_outline]

/-! ## One stylesheet after another -/

/-- The blocks of a balanced forest and of what follows it. -/
theorem Forest.ofLexemes_append (hf : f.Balanced none) (ls : List Lexeme) :
    ofLexemes (f.lexemes ++ ls) = f ++ ofLexemes ls := by
  obtain ⟨level, levels, heq⟩ := exists_readLevels [] ls
  have hread := @readLevels_lexemes_append f [] _ _ _ hf heq
  rw [ofLexemes, ofLexemes, hread, heq]

/-- The outline of a forest further on in a text. -/
theorem outlineFrom_add (context : Context) (depth pos : Nat) (f : Forest) :
    outlineFrom context depth pos [] f =
      ⟨(outlineFrom context depth 0 [] f).rules.map (Rule.relocate (· + pos)),
        (outlineFrom context depth 0 [] f).problems.map (Problem.relocate (· + pos))⟩ := by
  have hfollows : f.Follows True (· + pos) 0 pos f := .refl f fun n _ => by omega
  have h := outlineFrom_reruns (hfollows.reruns []) .nil context depth
  rw [← h.rules_eq, ← relocate_of_follows h.problems]

/-- The selectors that two outlines declare together. -/
theorem Outline.declared_append (a b : Outline) : (a ++ b).declared = a.declared.union b.declared := by
  ext selector
  simp [declared, entries, List.flatMap_append]

/-- **One stylesheet after another.** After a stylesheet that is accepted and that ends with a whole
statement, any text is outlined as it is on its own, further on: the rules of both follow each other,
the problems are those of the second one, and so both together are accepted exactly when the second
one is, and declare what each of them declares. -/
theorem outline_append {t₁ t₂ : String} (haccepted : ∃ selectors, declared? t₁ = .ok selectors)
    (hends : (Forest.ofText t₁.toList).endsWhole false = true) :
    (Outline.ofText (t₁ ++ t₂)).rules = (Outline.ofText t₁).rules ++
        (Outline.ofText t₂).rules.map (Rule.relocate (· + byteSize t₁.toList)) ∧
      (Outline.ofText (t₁ ++ t₂)).problems =
        (Outline.ofText t₂).problems.map (Problem.relocate (· + byteSize t₁.toList)) ∧
      ((∃ selectors, declared? (t₁ ++ t₂) = .ok selectors) ↔
        ∃ selectors, declared? t₂ = .ok selectors) ∧
      ∀ selectors₁ selectors₂, declared? t₁ = .ok selectors₁ → declared? t₂ = .ok selectors₂ →
        declared? (t₁ ++ t₂) = .ok (selectors₁.union selectors₂) := by
  have hproblems : (outlineFrom .ruleList 0 0 [] (.ofText t₁.toList)).problems = [] :=
    exists_declared?_iff.1 haccepted
  have hbalanced := (Forest.nested_ofText t₁.toList).balanced hproblems
  have hfirst := splits_lexemes t₁.toList
  rw [← Forest.lexemes_ofText] at hfirst
  have hsplits : Splits ((Forest.ofText t₁.toList).lexemes ++ lexemes t₂.toList) [] :=
    splits_append.2
      ⟨splits_of_endsWhole hends hbalanced hproblems hfirst _, splits_lexemes t₂.toList⟩
  have hchars : (t₁ ++ t₂).toList =
      charsOf ((Forest.ofText t₁.toList).lexemes ++ lexemes t₂.toList) := by
    rw [Forest.lexemes_ofText, charsOf_append, charsOf_lexemes, charsOf_lexemes,
      String.toList_append]
  have hsize : (Forest.ofText t₁.toList).size = byteSize t₁.toList := by
    rw [← Forest.byteSize_source, Forest.source_ofText]
  have houtline : Outline.ofText (t₁ ++ t₂) = Outline.ofText t₁ ++
      ⟨(Outline.ofText t₂).rules.map (Rule.relocate (· + byteSize t₁.toList)),
        (Outline.ofText t₂).problems.map (Problem.relocate (· + byteSize t₁.toList))⟩ := by
    rw [Outline.ofText, hchars, Outline.ofChars_charsOf hsplits, Forest.ofLexemes_append hbalanced,
      outlineFrom_append hends (fun _ => by simp [Dull]), outlineFrom_add _ _ (0 + _), hsize,
      Nat.zero_add]
    rfl
  have hrules := congrArg Outline.rules houtline
  have hrest := congrArg Outline.problems houtline
  rw [Outline.rules_append] at hrules
  rw [Outline.problems_append, show (Outline.ofText t₁).problems = [] from hproblems,
    List.nil_append] at hrest
  refine ⟨hrules, hrest, ?_, fun selectors₁ selectors₂ h₁ h₂ => ?_⟩
  · rw [exists_declared?_iff, exists_declared?_iff, hrest, List.map_eq_nil_iff]
  · rw [declared?_eq_ok_iff] at h₁ h₂ ⊢
    refine ⟨by rw [hrest, h₂.1]; rfl, ?_⟩
    rw [houtline, Outline.declared_append, h₁.2, Outline.declared_of_relocate rfl, h₂.2]

/-- A stylesheet that ends with a comment, and one that begins with a slash and is refused. -/
theorem outline_append_slash :
    (∃ selectors, declared? "p, .a { u { } } /**/" = .ok selectors) ∧
      (Forest.ofText "p, .a { u { } } /**/".toList).endsWhole false = true ∧
      (Outline.ofText ("p, .a { u { } } /**/" ++ "/b { } c")).rules.map
        (fun r => (r.entries.map Entry.text, r.depth)) =
          [(["p", ".a"], 0), (["u"], 1), (["/b"], 0)] ∧
      (Outline.ofText ("p, .a { u { } } /**/" ++ "/b { } c")).problems =
        [⟨.missingBlock ['c'], 27⟩] := by
  have haccepted : ∃ selectors, declared? "p, .a { u { } } /**/" = .ok selectors :=
    exists_declared?_iff.2 (by decide +kernel)
  have hends : (Forest.ofText "p, .a { u { } } /**/".toList).endsWhole false = true := by
    decide +kernel
  obtain ⟨hrules, hproblems, -⟩ := @outline_append _ "/b { } c" haccepted hends
  refine ⟨haccepted, hends, ?_, ?_⟩
  · rw [hrules]
    decide +kernel
  · rw [hproblems]
    decide +kernel

end StyleAudit.Sheet
