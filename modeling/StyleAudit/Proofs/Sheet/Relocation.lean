import Mathlib
import StyleAudit.Proofs.Sheet.Statement

/-! # Outlines under a change of offsets

Two token trees may be read alike although the second one stands elsewhere, has other comments, or
holds something else in blocks that are passed over. Where every offset that an outline could keep of
the first one is sent to its counterpart in the second one, so is the whole outline.

* **`Rule.relocate φ`** — a rule with its offsets sent through `φ`.
* **`Mark.Follows`, `Problem.Follows`** — a mark or a problem and its counterpart.
* **`Forest.Follows`** — two token trees with the same tokens, comments apart.
* **`Forest.Reruns`** — two token trees that are read alike, statement by statement.
* **`outlineFrom_reruns`** — their outlines are the same up to offsets. -/

namespace StyleAudit

/-- A span with its ends sent through `φ`. -/
def Span.relocate (φ : Nat → Nat) (s : Span) : Span := ⟨φ s.start, φ s.stop⟩

namespace Sheet

open Text

/-! ## Offsets sent elsewhere -/

/-- An entry with its span sent through `φ`. -/
def Entry.relocate (φ : Nat → Nat) (e : Entry) : Entry := ⟨e.text, e.span.relocate φ⟩

/-- A rule with its offsets sent through `φ`. -/
def Rule.relocate (φ : Nat → Nat) (r : Rule) : Rule :=
  ⟨r.lead.relocate φ, r.others.map (Entry.relocate φ), r.block.relocate φ, r.closed, r.depth⟩

/-- A problem with its offset sent through `φ`. -/
def Problem.relocate (φ : Nat → Nat) (p : Problem) : Problem := ⟨p.cause, φ p.offset⟩

/-- The way that a block is read, with the offsets of its selector list sent through `φ`. -/
def Body.relocate (φ : Nat → Nat) : Body → Body
  | .group => .group
  | .skipped => .skipped
  | .style lead others => .style (lead.relocate φ) (others.map (Entry.relocate φ))

@[simp] theorem Entry.text_relocate (φ : Nat → Nat) (e : Entry) : (e.relocate φ).text = e.text := rfl

/-- The selector list of a rule, sent elsewhere. -/
@[simp] theorem Rule.entries_relocate (φ : Nat → Nat) (r : Rule) :
    (r.relocate φ).entries = r.entries.map (Entry.relocate φ) := rfl

/-- Selectors are declared alike wherever they stand. -/
theorem Outline.declared_of_relocate {o o' : Outline} {φ : Nat → Nat}
    (h : o'.rules = o.rules.map (Rule.relocate φ)) : o'.declared = o.declared := by
  simp [declared, entries, h, List.map_flatMap, List.flatMap_map, Function.comp_def]

/-- A cause without the text that it quotes. -/
def Cause.bare : Cause → Cause
  | .missingBlock _ => .missingBlock []
  | c => c

/-! ## Counterparts -/

variable {exact : Prop} {φ : Nat → Nat}

/-- The mark `m'` says what `m` says, at the offsets that `φ` sends those of `m` to; an `exact`
counterpart has the same characters. -/
structure Mark.Follows (exact : Prop) (φ : Nat → Nat) (m m' : Mark) : Prop where
  kind_eq : m'.kind = m.kind
  text_eq : m'.text = m.text
  start_eq : m'.start = φ m.start
  stop_eq : m'.stop = φ m.stop
  chars_eq : exact → m'.chars = m.chars

/-- The problem `p'` is `p`, at the offset that `φ` sends that of `p` to; only an `exact` counterpart
quotes the same text. -/
structure Problem.Follows (exact : Prop) (φ : Nat → Nat) (p p' : Problem) : Prop where
  offset_eq : p'.offset = φ p.offset
  bare_eq : p'.cause.bare = p.cause.bare
  cause_eq : exact → p'.cause = p.cause

/-- The outline `o'` has the rules of `o`, sent through `φ`, and counterparts of its problems. -/
structure Outline.Follows (exact : Prop) (φ : Nat → Nat) (o o' : Outline) : Prop where
  rules_eq : o'.rules = o.rules.map (Rule.relocate φ)
  problems : List.Forall₂ (Problem.Follows exact φ) o.problems o'.problems

/-- Exact counterparts of problems are the problems, sent through `φ`. -/
theorem relocate_of_follows {ps ps' : List Problem}
    (h : List.Forall₂ (Problem.Follows True φ) ps ps') : ps' = ps.map (Problem.relocate φ) := by
  induction h with
  | nil => rfl
  | @cons p p' ps ps' hp _ ih =>
      have hp' : p' = p.relocate φ := by
        rw [Problem.relocate, ← hp.cause_eq trivial, ← hp.offset_eq]
      rw [List.map_cons, hp', ih]

/-- Counterparts one after the other. -/
theorem Outline.Follows.append {a a' b b' : Outline} (ha : a.Follows exact φ a')
    (hb : b.Follows exact φ b') : (a ++ b).Follows exact φ (a' ++ b') where
  rules_eq := by rw [rules_append, rules_append, List.map_append, ha.rules_eq, hb.rules_eq]
  problems := List.rel_append ha.problems hb.problems

/-- Problems and their counterparts, as outlines. -/
theorem Outline.follows_ofProblems {ps ps' : List Problem}
    (h : List.Forall₂ (Problem.Follows exact φ) ps ps') :
    (ofProblems ps).Follows exact φ (ofProblems ps') := ⟨rfl, h⟩

/-- The problem that a token is in itself stays where the token is. -/
theorem follows_problems {t : Token} {pos pos' : Nat} (hpos : pos' = φ pos) :
    List.Forall₂ (Problem.Follows exact φ) (t.problems pos) (t.problems pos') := by
  rw [Token.problems, Token.problems]
  cases t.cause? with
  | none => exact .nil
  | some cause => exact .cons ⟨hpos, rfl, fun _ => rfl⟩ .nil

/-- The problem that a block is in itself stays where the block is. -/
theorem follows_blockProblems (closed : Bool) {pos pos' : Nat} (hpos : pos' = φ pos) :
    List.Forall₂ (Problem.Follows exact φ) (blockProblems closed pos)
      (blockProblems closed pos') := by
  cases closed with
  | true => exact .nil
  | false => exact .cons ⟨hpos, rfl, fun _ => rfl⟩ .nil

/-! ## Statements -/

section Marks

variable {m m' : Mark} {ms ms' : List Mark}

/-- A mark is as solid as its counterpart. -/
theorem Mark.Follows.isSolid_eq (h : m.Follows exact φ m') : m'.isSolid = m.isSolid := by
  simp only [Mark.isSolid, h.kind_eq]

/-- Counterparts of marks are the same at-rule. -/
theorem atRule?_follows (h : List.Forall₂ (Mark.Follows exact φ) ms ms') :
    atRule? ms' = atRule? ms := by
  induction h with
  | nil => rfl
  | @cons m m' ms ms' hm hms ih =>
      simp only [atRule?, List.find?_cons, hm.isSolid_eq] at ih ⊢
      cases m.isSolid with
      | true => simp only [hm.kind_eq]
      | false => exact ih

/-- Counterparts are cut at the same commas. -/
theorem splitCommas_follows (h : List.Forall₂ (Mark.Follows exact φ) ms ms') :
    List.Forall₂ (List.Forall₂ (Mark.Follows exact φ)) (splitCommas ms) (splitCommas ms') := by
  induction h with
  | nil => exact .cons .nil .nil
  | @cons m m' ms ms' hm hms ih =>
      rw [splitCommas, splitCommas, hm.kind_eq]
      split
      · exact .cons .nil ih
      · generalize splitCommas ms = groups at ih ⊢
        generalize splitCommas ms' = groups' at ih ⊢
        cases ih with
        | nil => exact .cons (.cons hm .nil) .nil
        | cons hgroup hgroups => exact .cons (.cons hm hgroup) hgroups

/-- Counterparts have the same text. -/
theorem marksText_follows (h : List.Forall₂ (Mark.Follows exact φ) ms ms') (started gap : Bool) :
    marksText started gap ms' = marksText started gap ms := by
  induction h generalizing started gap with
  | nil => rfl
  | cons hm hms ih => simp only [marksText, hm.kind_eq, hm.isSolid_eq, hm.text_eq, ih]

/-- The last one of some counterparts. -/
theorem getLast_follows (h : List.Forall₂ (Mark.Follows exact φ) ms ms')
    (hm : m.Follows exact φ m') :
    (ms.getLast?.getD m).Follows exact φ (ms'.getLast?.getD m') := by
  induction h generalizing m m' with
  | nil => exact hm
  | cons hhead htail ih =>
      rw [List.getLast?_cons, List.getLast?_cons, Option.getD_some, Option.getD_some]
      exact ih hhead

/-- The entry that counterparts spell. -/
theorem entry?_follows (h : List.Forall₂ (Mark.Follows exact φ) ms ms') :
    entry? ms' = ( entry? ms).map (Entry.relocate φ) := by
  have hsolid : List.Forall₂ (Mark.Follows exact φ) (ms.filter Mark.isSolid)
      (ms'.filter Mark.isSolid) := by
    refine List.rel_filter ?_ h
    intro m m' hm
    simp only [hm.isSolid_eq]
  rw [ entry?, entry?, marksText_follows h]
  generalize ms.filter Mark.isSolid = solid at hsolid ⊢
  generalize ms'.filter Mark.isSolid = solid' at hsolid ⊢
  cases hsolid with
  | nil => rfl
  | cons hfirst hrest =>
      have hlast := getLast_follows hrest hfirst
      simp only [Option.map_some, Entry.relocate, Span.relocate, hfirst.start_eq, hlast.stop_eq]

/-- The selector list that counterparts spell. -/
theorem entries_follows (h : List.Forall₂ (Mark.Follows exact φ) ms ms') :
    entries ms' = (entries ms).map (Entry.relocate φ) := by
  have hgroups := splitCommas_follows h
  rw [entries, entries]
  generalize splitCommas ms = groups at hgroups ⊢
  generalize splitCommas ms' = groups' at hgroups ⊢
  induction hgroups with
  | nil => rfl
  | cons hgroup hgroups ih =>
      rw [List.filterMap_cons, List.filterMap_cons, entry?_follows hgroup]
      cases entry? _ with
      | none => exact ih
      | some e => simp only [Option.map_some, List.map_cons, ih]

/-- The block after counterparts is read in the same way. -/
theorem bodyOf_follows (h : List.Forall₂ (Mark.Follows exact φ) ms ms') :
    bodyOf ms' = (bodyOf ms).relocate φ := by
  rw [bodyOf, bodyOf, atRule?_follows h, entries_follows h]
  cases atRule? ms with
  | some name =>
      simp only
      split <;> rfl
  | none =>
      cases entries ms with
      | nil => rfl
      | cons lead others =>
          have hname : startsWith ['-', '-'] (lead.relocate φ).text.toList =
              startsWith ['-', '-'] lead.text.toList := rfl
          simp only [List.map_cons, hname]
          split <;> rfl

/-- What follows the marks at the start that are not solid. -/
theorem dropWhile_follows (h : List.Forall₂ (Mark.Follows exact φ) ms ms') :
    List.Forall₂ (Mark.Follows exact φ) (ms.dropWhile (!·.isSolid))
      (ms'.dropWhile (!·.isSolid)) := by
  induction h with
  | nil => exact .nil
  | cons hm hms ih =>
      rw [List.dropWhile_cons, List.dropWhile_cons, hm.isSolid_eq]
      split
      · exact ih
      · exact .cons hm hms

/-- Exact counterparts have the same characters. -/
theorem flatMap_chars_follows (h : List.Forall₂ (Mark.Follows exact φ) ms ms') (hexact : exact) :
    ms'.flatMap (·.chars) = ms.flatMap (·.chars) := by
  induction h with
  | nil => rfl
  | cons hm hms ih => rw [List.flatMap_cons, List.flatMap_cons, hm.chars_eq hexact, ih]

/-- The end of a statement is a problem for counterparts alike. -/
theorem endProblems_follows (h : List.Forall₂ (Mark.Follows exact φ) ms ms') (context : Context) :
    List.Forall₂ (Problem.Follows exact φ) (endProblems context ms) (endProblems context ms') := by
  have hrun : List.Forall₂ (Mark.Follows exact φ) (solidRun ms) (solidRun ms') :=
    List.rel_reverse (dropWhile_follows (List.rel_reverse (dropWhile_follows h)))
  rw [endProblems, endProblems, atRule?_follows h]
  split
  · rw [missingBlock, missingBlock]
    generalize solidRun ms = run at hrun ⊢
    generalize solidRun ms' = run' at hrun ⊢
    cases hrun with
    | nil => exact .nil
    | cons hfirst hrest =>
        refine .cons ⟨hfirst.start_eq, rfl, fun hexact => ?_⟩ .nil
        rw [flatMap_chars_follows (.cons hfirst hrest) hexact]
  · exact .nil

end Marks

/-! ## Token trees with the same tokens -/

/-- The tree `f'`, which begins at `pos'`, has the tokens of `f`, which begins at `pos`, each one from
and to the offsets that `φ` sends those of `f` to. A comment may have other characters, and without
`exact` any token may. -/
inductive Forest.Follows (exact : Prop) (φ : Nat → Nat) : (pos pos' : Nat) → Forest → Forest → Prop
  | nil {pos pos' : Nat} : Follows exact φ pos pos' .nil .nil
  | token {pos pos' : Nat} {l l' : Lexeme} {rest rest' : Forest} (token_eq : l'.token = l.token)
      (chars_eq : exact → l'.chars = l.chars) (start_eq : pos' = φ pos)
      (stop_eq : pos' + byteSize l'.chars = φ (pos + byteSize l.chars))
      (follows : Follows exact φ (pos + byteSize l.chars) (pos' + byteSize l'.chars) rest rest') :
      Follows exact φ pos pos' (.token l rest) (.token l' rest')
  | block {pos pos' : Nat} {o : Lexeme} {body body' : Forest} {closed : Bool} {rest rest' : Forest}
      (start_eq : pos' = φ pos)
      (inner : Follows exact φ (pos + byteSize o.chars) (pos' + byteSize o.chars) body body')
      (stop_eq : pos' + byteSize o.chars + body'.size + byteSize (closerChars o closed) =
        φ (pos + byteSize o.chars + body.size + byteSize (closerChars o closed)))
      (follows : Follows exact φ
        (pos + byteSize o.chars + body.size + byteSize (closerChars o closed))
        (pos' + byteSize o.chars + body'.size + byteSize (closerChars o closed)) rest rest') :
      Follows exact φ pos pos' (.block o body closed rest) (.block o body' closed rest')

namespace Forest.Follows

variable {pos pos' : Nat} {f f' : Forest}

/-- The same tree elsewhere. -/
theorem refl (f : Forest) (h : ∀ n ≤ f.size, φ (pos + n) = pos' + n) :
    f.Follows exact φ pos pos' f := by
  have hstart : pos' = φ pos := (h 0 (Nat.zero_le _)).symm
  induction f generalizing pos pos' with
  | nil => exact .nil
  | token l rest ih =>
      rw [size] at h
      refine .token rfl (fun _ => rfl) hstart (h _ (by omega)).symm (ih ?_ (h _ (by omega)).symm)
      intro n hn
      rw [Nat.add_assoc, Nat.add_assoc]
      exact h _ (by omega)
  | block o body closed rest ihb ihr =>
      rw [size] at h
      have hstop := h (byteSize o.chars + body.size + byteSize (closerChars o closed)) (by omega)
      simp only [← Nat.add_assoc] at hstop
      refine .block hstart (ihb ?_ (h _ (by omega)).symm) hstop.symm (ihr ?_ hstop.symm)
      · intro n hn
        rw [Nat.add_assoc, Nat.add_assoc]
        exact h _ (by omega)
      · intro n hn
        have hn' := h (byteSize o.chars + body.size + byteSize (closerChars o closed) + n) (by omega)
        simpa only [← Nat.add_assoc] using hn'

/-- The same text in normal form. -/
theorem textFrom_eq (h : f.Follows exact φ pos pos' f') (started gap : Bool) :
    f'.textFrom started gap = f.textFrom started gap := by
  induction h generalizing started gap with
  | nil => rfl
  | token htoken _ _ _ _ ih => simp only [textFrom, htoken, ih]
  | block _ _ _ _ ihb ihr => simp only [textFrom, ihb, ihr]

/-- An exact counterpart has the same characters. -/
theorem source_eq (h : f.Follows exact φ pos pos' f') (hexact : exact) : f'.source = f.source := by
  induction h with
  | nil => rfl
  | token _ hchars _ _ _ ih => rw [source, source, hchars hexact, ih]
  | block _ _ _ _ ihb ihr => rw [source, source, ihb, ihr]

/-- The problems stay where the tokens are. -/
theorem problems (h : f.Follows exact φ pos pos' f') :
    List.Forall₂ (Problem.Follows exact φ) (f.problems pos) (f'.problems pos') := by
  induction h with
  | nil => exact .nil
  | @token _ _ l l' _ _ htoken _ hstart _ _ ih =>
      rw [Forest.problems, Forest.problems, htoken]
      exact List.rel_append (follows_problems hstart) ih
  | block hstart _ _ _ ihb ihr =>
      rw [Forest.problems, Forest.problems]
      exact List.rel_append (List.rel_append ihb (follows_blockProblems _ hstart)) ihr

end Forest.Follows

/-- A token and its counterpart, as marks. -/
theorem follows_ofLexeme {l l' : Lexeme} {pos pos' : Nat} (htoken : l'.token = l.token)
    (hchars : exact → l'.chars = l.chars) (hstart : pos' = φ pos)
    (hstop : pos' + byteSize l'.chars = φ (pos + byteSize l.chars)) :
    (Mark.ofLexeme l pos).Follows exact φ (.ofLexeme l' pos') where
  kind_eq := by simp only [Mark.ofLexeme, htoken]
  text_eq := by simp only [Mark.ofLexeme, htoken]
  start_eq := hstart
  stop_eq := hstop
  chars_eq := hchars

/-- Brackets and their counterpart, as marks. -/
theorem follows_ofBlock {o : Lexeme} {body body' : Forest} {closed : Bool} {pos pos' : Nat}
    (hstart : pos' = φ pos)
    (hbody : body.Follows exact φ (pos + byteSize o.chars) (pos' + byteSize o.chars) body')
    (hstop : pos' + byteSize o.chars + body'.size + byteSize (closerChars o closed) =
      φ (pos + byteSize o.chars + body.size + byteSize (closerChars o closed))) :
    (Mark.ofBlock o body closed pos).Follows exact φ (.ofBlock o body' closed pos') where
  kind_eq := rfl
  text_eq := by simp only [Mark.ofBlock, blockText, hbody.textFrom_eq]
  start_eq := hstart
  stop_eq := by
    simpa only [Mark.stop, Mark.ofBlock, byteSize_append, Forest.byteSize_source, ← Nat.add_assoc]
      using hstop
  chars_eq := fun hexact => by simp only [Mark.ofBlock, hbody.source_eq hexact]

/-! ## Token trees that are read alike -/

/-- The tree `f'` is read as `f` is, with the marks of the statement that is being read `seen`, last
one first: its tokens are those of `f`, except in blocks between braces that are passed over. -/
inductive Forest.Reruns (exact : Prop) (φ : Nat → Nat) :
    (seen : List Mark) → (pos pos' : Nat) → Forest → Forest → Prop
  | nil {seen : List Mark} {pos pos' : Nat} : Reruns exact φ seen pos pos' .nil .nil
  | semicolon {seen : List Mark} {pos pos' : Nat} {l l' : Lexeme} {rest rest' : Forest}
      (hl : l.token = .semicolon) (token_eq : l'.token = l.token)
      (reruns : Reruns exact φ [] (pos + byteSize l.chars) (pos' + byteSize l'.chars) rest rest') :
      Reruns exact φ seen pos pos' (.token l rest) (.token l' rest')
  | token {seen : List Mark} {pos pos' : Nat} {l l' : Lexeme} {rest rest' : Forest}
      (hl : l.token ≠ .semicolon) (token_eq : l'.token = l.token)
      (chars_eq : exact → l'.chars = l.chars) (start_eq : pos' = φ pos)
      (stop_eq : pos' + byteSize l'.chars = φ (pos + byteSize l.chars))
      (reruns : Reruns exact φ (.ofLexeme l pos :: seen) (pos + byteSize l.chars)
        (pos' + byteSize l'.chars) rest rest') :
      Reruns exact φ seen pos pos' (.token l rest) (.token l' rest')
  | brackets {seen : List Mark} {pos pos' : Nat} {o : Lexeme} {body body' : Forest} {closed : Bool}
      {rest rest' : Forest} (ho : o.token ≠ .opening .curly) (start_eq : pos' = φ pos)
      (inner : body.Follows exact φ (pos + byteSize o.chars) (pos' + byteSize o.chars) body')
      (stop_eq : pos' + byteSize o.chars + body'.size + byteSize (closerChars o closed) =
        φ (pos + byteSize o.chars + body.size + byteSize (closerChars o closed)))
      (reruns : Reruns exact φ (.ofBlock o body closed pos :: seen)
        (pos + byteSize o.chars + body.size + byteSize (closerChars o closed))
        (pos' + byteSize o.chars + body'.size + byteSize (closerChars o closed)) rest rest') :
      Reruns exact φ seen pos pos' (.block o body closed rest) (.block o body' closed rest')
  | skipped {seen : List Mark} {pos pos' : Nat} {o : Lexeme} {body body' : Forest} {closed : Bool}
      {rest rest' : Forest} (ho : o.token = .opening .curly)
      (hseen : bodyOf seen.reverse = .skipped) (start_eq : pos' = φ pos)
      (reruns : Reruns exact φ []
        (pos + byteSize o.chars + body.size + byteSize (closerChars o closed))
        (pos' + byteSize o.chars + body'.size + byteSize (closerChars o closed)) rest rest') :
      Reruns exact φ seen pos pos' (.block o body closed rest) (.block o body' closed rest')
  | block {seen : List Mark} {pos pos' : Nat} {o : Lexeme} {body body' : Forest} {closed : Bool}
      {rest rest' : Forest} (ho : o.token = .opening .curly) (start_eq : pos' = φ pos)
      (inner : Reruns exact φ [] (pos + byteSize o.chars) (pos' + byteSize o.chars) body body')
      (stop_eq : pos' + byteSize o.chars + body'.size + byteSize (closerChars o closed) =
        φ (pos + byteSize o.chars + body.size + byteSize (closerChars o closed)))
      (reruns : Reruns exact φ []
        (pos + byteSize o.chars + body.size + byteSize (closerChars o closed))
        (pos' + byteSize o.chars + body'.size + byteSize (closerChars o closed)) rest rest') :
      Reruns exact φ seen pos pos' (.block o body closed rest) (.block o body' closed rest')

/-- A tree with the same tokens is read alike. -/
theorem Forest.Follows.reruns {pos pos' : Nat} {f f' : Forest} (h : f.Follows exact φ pos pos' f')
    (seen : List Mark) : Forest.Reruns exact φ seen pos pos' f f' := by
  induction h generalizing seen with
  | nil => exact .nil
  | @token _ _ l _ _ _ htoken hchars hstart hstop _ ih =>
      by_cases hl : l.token = .semicolon
      · exact .semicolon hl htoken (ih _)
      · exact .token hl htoken hchars hstart hstop (ih _)
  | @block _ _ o _ _ _ _ _ hstart hinner hstop _ ihb ihr =>
      by_cases ho : o.token = .opening .curly
      · exact .block ho hstart (ihb _) hstop (ihr _)
      · exact .brackets ho hstart hinner hstop (ihr _)

/-- **Trees that are read alike** have the same outline up to offsets. -/
theorem outlineFrom_reruns {seen seen' : List Mark} {pos pos' : Nat} {f f' : Forest}
    (h : Forest.Reruns exact φ seen pos pos' f f')
    (hseen : List.Forall₂ (Mark.Follows exact φ) seen seen') (context : Context) (depth : Nat) :
    (outlineFrom context depth pos seen f).Follows exact φ
      (outlineFrom context depth pos' seen' f') := by
  induction h generalizing seen' context depth with
  | nil =>
      rw [outlineFrom, outlineFrom]
      exact Outline.follows_ofProblems (endProblems_follows (List.rel_reverse hseen) context)
  | semicolon hl htoken _ ih =>
      rw [outlineFrom, outlineFrom, if_pos hl, if_pos (htoken.trans hl)]
      exact (Outline.follows_ofProblems (endProblems_follows (List.rel_reverse hseen) context)).append
        (ih .nil context depth)
  | token hl htoken hchars hstart hstop _ ih =>
      rw [outlineFrom, outlineFrom, if_neg hl, if_neg (htoken ▸ hl), htoken]
      exact (Outline.follows_ofProblems (follows_problems hstart)).append
        (ih (.cons (follows_ofLexeme htoken hchars hstart hstop) hseen) context depth)
  | brackets ho hstart hinner hstop _ ih =>
      rw [outlineFrom, outlineFrom, if_neg ho, if_neg ho]
      exact (Outline.follows_ofProblems
          (List.rel_append hinner.problems (follows_blockProblems _ hstart))).append
        (ih (.cons (follows_ofBlock hstart hinner hstop) hseen) context depth)
  | skipped ho hskip hstart _ ih =>
      -- the marks of the head agree but for their places, and so does what is read of the block
      have hbody := bodyOf_follows (List.rel_reverse hseen)
      rw [hskip] at hbody
      rw [outlineFrom_curly ho, outlineFrom_curly ho, hskip, hbody]
      refine Outline.Follows.append (Outline.Follows.append ⟨rfl, .nil⟩ ?_) (ih .nil context depth)
      exact Outline.follows_ofProblems (follows_blockProblems _ hstart)
  | @block seen pos pos' _ _ _ _ _ _ ho hstart _ hstop _ ihb ihr =>
      have hbody := bodyOf_follows (List.rel_reverse hseen)
      rw [outlineFrom_curly ho, outlineFrom_curly ho, hbody]
      refine Outline.Follows.append (Outline.Follows.append ?_
        (Outline.follows_ofProblems (follows_blockProblems _ hstart))) (ihr .nil context depth)
      cases bodyOf seen.reverse with
      | group => exact ihb .nil context (depth + 1)
      | skipped => exact ⟨rfl, .nil⟩
      | style lead others =>
          refine Outline.Follows.append ⟨?_, .nil⟩ (ihb .nil .declarations (depth + 1))
          simp only [List.map_cons, List.map_nil, Rule.relocate, Span.relocate, ← hstart, ← hstop]

end Sheet

end StyleAudit
