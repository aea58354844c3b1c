import Mathlib
import StyleAudit.Proofs.Markup.Forest
import StyleAudit.Proofs.Markup.Rules
import StyleAudit.Proofs.Text.Words

/-! # The names of elements

An element of a text is named by a tag of it, or by a word of the rules. The name of a tag begins with
a letter and ends where a blank of markup, a slash or the end of the tag stands. Other blanks are
part of it.

* **`IsTag`** — what the name of an element is like.
* **`scanTag_name`** — the name of a tag.
* **`isTag_of_occurs`** — the names of the elements of a text are of this kind. -/

namespace StyleAudit.Markup

/-- A name that is not empty, and of which each blank is no blank of markup and stands in the
text. -/
def IsTag (text : List Char) (name : String) : Prop :=
  name ≠ "" ∧ ∀ c ∈ name.toList, Text.isBlank c = true → isBlank c = false ∧ c ∈ text

/-- A name without blanks is of this kind in any text. -/
theorem isTag_of_isName {name : String} (h : Text.isName name.toList = true) (text : List Char) :
    IsTag text name := by
  obtain ⟨hne, hblank⟩ := Text.isName_iff.1 h
  refine ⟨fun hempty => hne (by rw [hempty]; rfl), fun c hc hc' => ?_⟩
  rw [hblank c hc] at hc'
  cases hc'

/-- A name keeps its kind in a text that has the blanks of the other one but for line feeds. -/
theorem IsTag.of_subset {text text' : List Char} {name : String} (h : IsTag text name)
    (htext : ∀ c ∈ text, c = '\n' ∨ c ∈ text') : IsTag text' name := by
  refine ⟨h.1, fun c hc hblank => ?_⟩
  obtain ⟨hmarkup, hc⟩ := h.2 c hc hblank
  rcases htext c hc with rfl | hc
  · exact absurd hmarkup (by decide)
  · exact ⟨hmarkup, hc⟩

/-- What holds of the entries of a list and of a value holds of the entry that is found, or else of
the value. -/
theorem of_getD_find? {α : Type} {Q : α → Prop} {l : List α} {p : α → Bool} {a : α}
    (hl : ∀ b ∈ l, Q b) (ha : Q a) : Q ((l.find? p).getD a) := by
  cases hfind : l.find? p with
  | none => exact ha
  | some b => exact hl b (List.mem_of_find?_eq_some hfind)

/-- The names that rules put in are words, and so are the corrected spellings. -/
theorem admits_isTag (text : List Char) : Admits (IsTag text) where
  implied := by
    refine fun name hname => isTag_of_isName ?_ text
    revert name
    decide
  drawing name hname := by
    unfold drawingName
    refine of_getD_find? (fun spelling hspelling => isTag_of_isName ?_ text) hname
    revert spelling
    decide

/-! ## Tags -/

/-- A letter in lower case is no blank, so a blank that is kept is the character itself. -/
theorem keepChar_toLower_of_isBlank {c : Char} (h : Text.isBlank (keepChar c.toLower) = true) :
    keepChar c.toLower = c := by
  have hlower : Text.isBlank c.toLower = true → c.toLower = c := by
    intro hblank
    unfold Char.toLower at hblank ⊢
    split
    · next hupper =>
      rw [dif_pos hupper] at hblank
      have hrange : 65 ≤ c.val.toNat ∧ c.val.toNat ≤ 90 := hupper
      have hvalue : (c.val + ('a'.val - 'A'.val)).toNat = c.val.toNat + 32 := by
        have hshift : ('a'.val - 'A'.val).toNat = 32 := rfl
        rw [UInt32.toNat_add, hshift]
        omega
      -- a capital letter becomes a letter, which is visible
      have hvisible : ∀ h, Text.isBlank ⟨c.val + ('a'.val - 'A'.val), h⟩ = false := fun h =>
        Text.isBlank_eq_false (show 0x20 < (c.val + ('a'.val - 'A'.val)).toNat by omega)
          (show (c.val + ('a'.val - 'A'.val)).toNat < 0x7F by omega)
      rw [hvisible] at hblank
      cases hblank
    · rfl
  unfold keepChar at h ⊢
  split
  · next hnull =>
    rw [if_pos hnull] at h
    exact absurd h (by decide)
  · next hnull =>
    rw [if_neg hnull] at h
    exact hlower h

namespace TagSoFar

/-- What is read of an attribute is no part of the name. -/
@[simp] theorem name_finishAttribute (t : TagSoFar) : t.finishAttribute.name = t.name := rfl

@[simp] theorem name_beginAttribute (t : TagSoFar) (c : Char) : (t.beginAttribute c).name = t.name :=
  rfl

@[simp] theorem name_finish (t : TagSoFar) : t.finish.name = t.name := by
  unfold finish
  split <;> rfl

/-- What one character adds to the name of a tag. -/
theorem step_name {t u : TagSoFar} {c : Char} (h : t.step c = some u) :
    u.name = t.name ∨ (isBlank c = false ∧ u.name = keepChar c.toLower :: t.name) := by
  unfold step at h
  split at h
  case h_1 =>
    -- the only state in which the name grows
    split at h
    · cases h
    · split at h
      · cases h
        exact .inl rfl
      · next hblank =>
        split at h
        · cases h
          exact .inl rfl
        · cases h
          exact .inr ⟨by simpa using hblank, rfl⟩
  all_goals
    refine .inl ?_
    repeat' split at h
    all_goals
      cases h
    all_goals rfl

end TagSoFar

/-- **The name of a tag** holds what it held before and characters of the text that are no blanks of
markup. -/
theorem scanTag_name {t u : TagSoFar} {cs : List Char} {n : Nat} (h : scanTag t cs = (some u, n)) :
    (∀ d ∈ u.name, d ∈ t.name ∨ ∃ c ∈ cs, isBlank c = false ∧ d = keepChar c.toLower) ∧
      (t.name ≠ [] → u.name ≠ []) := by
  induction cs generalizing t n with
  | nil => cases h
  | cons c cs ih =>
      unfold scanTag at h
      split at h
      · next t' hstep =>
        obtain ⟨hold, hne⟩ := ih (t := t') (n := (scanTag t' cs).2) (by
          rw [← (Prod.mk.inj h).1])
        have hname := TagSoFar.step_name hstep
        refine ⟨fun d hd => ?_, fun hne' => hne ?_⟩
        · -- from the rest of the text, or held before, perhaps from this character
          rcases hold d hd with hd | ⟨c', hc', hd⟩
          · rcases hname with hname | ⟨hc, hname⟩
            · exact .inl (hname ▸ hd)
            · rw [hname] at hd
              rcases List.mem_cons.1 hd with rfl | hd
              · exact .inr ⟨c, List.mem_cons_self, hc, rfl⟩
              · exact .inl hd
          · exact .inr ⟨c', List.mem_cons_of_mem _ hc', hd⟩
        · rcases hname with hname | ⟨-, hname⟩
          · rwa [hname]
          · simp [hname]
      · cases h
        rw [TagSoFar.name_finish]
        exact ⟨fun d hd => .inl hd, id⟩

/-- A letter begins the name of a tag. -/
theorem step_start {c : Char} (hc : c.isAlpha = true) :
    TagSoFar.start.step c = some { TagSoFar.start with name := [keepChar c.toLower] } := by
  have hend : c ≠ '>' := by
    rintro rfl
    simp at hc
  have hslash : c ≠ '/' := by
    rintro rfl
    simp at hc
  have hblank : isBlank c = false := by
    cases h : isBlank c with
    | false => rfl
    | true =>
        simp only [isBlank, Bool.or_eq_true, beq_iff_eq] at h
        rcases h with ((rfl | rfl) | rfl) | rfl <;> simp at hc
  simp [TagSoFar.step, TagSoFar.start, hend, hslash, hblank]

/-- The name of a start tag whose first character is a letter. -/
theorem isTag_of_scanOpening {text cs : List Char} {c : Char} (hc : c.isAlpha = true)
    (htext : ∀ d ∈ c :: cs, d ∈ text) : (scanOpening (c :: cs)).1.Named (IsTag text) := by
  unfold scanOpening
  rcases hscan : scanTag .start (c :: cs) with ⟨t?, n⟩
  cases t? with
  | none => trivial
  | some t =>
      obtain ⟨hold, -⟩ := scanTag_name hscan
      have hne : t.name ≠ [] := by
        unfold scanTag at hscan
        simp only [step_start hc] at hscan
        exact (scanTag_name (Prod.ext (Prod.mk.inj hscan).1 rfl)).2 (List.cons_ne_nil _ _)
      refine ⟨?_, fun d hd hblank => ?_⟩
      · intro hempty
        apply hne
        simpa [TagSoFar.textOf] using hempty
      · have hd : d ∈ t.name := by simpa [TagSoFar.textOf] using hd
        rcases hold d hd with hd | ⟨c', hc', hmarkup, rfl⟩
        · cases hd
        · -- a blank was not changed when it was read
          rw [keepChar_toLower_of_isBlank hblank]
          exact ⟨hmarkup, htext c' hc'⟩

/-- An end tag names no element. -/
theorem named_scanClosing (P : String → Prop) (cs : List Char) : (scanClosing cs).1.Named P := by
  unfold scanClosing
  split <;> trivial

/-- A doctype names no element. -/
theorem named_scanDoctype (P : String → Prop) (cs : List Char) : (scanDoctype cs).1.Named P := by
  unfold scanDoctype
  extract_lets written
  split <;> trivial

/-- A comment, a doctype or a section of plain characters names no element. -/
theorem named_scanDeclaration (P : String → Prop) (foreign : Bool) (cs : List Char) :
    (scanDeclaration foreign cs).1.Named P := by
  unfold scanDeclaration
  split
  · trivial
  · split
    · exact named_scanDoctype P _
    · split
      · extract_lets size visible
        cases visible <;> trivial
      · trivial

/-- What a `<` begins. -/
theorem isTag_scanMarkup {text cs : List Char} (htext : ∀ d ∈ cs, d ∈ text) (foreign : Bool) :
    (scanMarkup foreign cs).1.Named (IsTag text) := by
  unfold scanMarkup
  split
  · trivial
  · split
    · exact named_scanDeclaration _ foreign _
    · split
      · trivial
      · split
        · split
          · trivial
          · split
            · exact named_scanClosing _ _
            · trivial
        · split
          · next halpha => exact isTag_of_scanOpening halpha htext
          · trivial

/-- The next token of a text. -/
theorem isTag_nextToken {text cs : List Char} (htext : ∀ d ∈ cs, d ∈ text) (c : Char)
    (mode : TextMode) (foreign : Bool) : (nextToken mode foreign c cs).1.Named (IsTag text) := by
  unfold nextToken
  cases mode with
  | plain => trivial
  | raw name =>
      dsimp only
      split
      · exact named_scanClosing _ _
      · trivial
  | script state =>
      dsimp only
      split <;> split
      · exact named_scanClosing _ _
      · trivial
      · exact named_scanClosing _ _
      · trivial
  | data =>
      dsimp only
      split
      · exact isTag_scanMarkup htext foreign
      · split
        · split <;> trivial
        · trivial

/-! ## Documents -/

/-- **A text keeps the names**: every element that is made of it has a name of a tag. -/
theorem Builder.Named.build {text cs : List Char} (htext : ∀ d ∈ cs, d ∈ text) (skip : Nat)
    {b : Builder} (h : b.Named (IsTag text)) : (build skip b cs).Named (IsTag text) := by
  have hadmits := admits_isTag text
  induction cs generalizing skip b with
  | nil =>
      cases skip <;> exact @process (IsTag text) b hadmits .done trivial _ h
  | cons c cs ih =>
      have hrest : ∀ d ∈ cs, d ∈ text := fun d hd => htext d (List.mem_cons_of_mem _ hd)
      cases skip with
      | succ skip => exact ih hrest skip h
      | zero =>
          have htoken := isTag_nextToken hrest c b.reading b.inForeign
          unfold Markup.build
          rcases hnext : nextToken b.reading b.inForeign c cs with ⟨token, size, reading⟩
          rw [hnext] at htoken
          dsimp -zeta only at htoken ⊢
          extract_lets b'
          have hb' : b'.Named (IsTag text) := h.same rfl rfl rfl rfl
          split
          · exact ih hrest size hb'
          · exact ih hrest size (hb'.process hadmits htoken _)

/-- Before the first tag there is nothing. -/
theorem named_start (P : String → Prop) : Builder.start.Named P where
  dom id c hc := by
    have hnone : (Builder.start.dom.node id).children = [] := by
      simp only [Builder.start, Dom.empty, Dom.node]
      rcases id with _ | id <;> simp
    rw [hnone] at hc
    cases hc
  stack := by simp [Builder.start]
  formatting := by simp [Builder.start]
  head := by simp [Builder.start]

/-- What child links lead to has a name like every child. -/
theorem Dom.Named.of_below {P : String → Prop} {d : Dom} (h : d.Named P) {depth id : ℕ}
    (hbelow : d.Below depth id) : d.HasName P id := by
  cases hbelow with
  | child hid => exact h root id hid
  | @inside depth parent id _ hid => exact h parent id hid

/-- Line ends are the only characters that reading a text changes. -/
theorem mem_of_mem_normalizeLines {cs : List Char} :
    ∀ c ∈ normalizeLines cs, c = '\n' ∨ c ∈ cs := by
  induction cs using normalizeLines.induct with
  | case1 cs ih =>
      intro c hc
      rw [normalizeLines, List.mem_cons] at hc
      rcases hc with rfl | hc
      · exact .inl rfl
      · exact (ih c hc).imp_right fun h => List.mem_cons_of_mem _ (List.mem_cons_of_mem _ h)
  | case2 cs hfeed ih =>
      intro c hc
      rw [normalizeLines, List.mem_cons] at hc
      · rcases hc with rfl | hc
        · exact .inl rfl
        · exact (ih c hc).imp_right (List.mem_cons_of_mem _)
      · exact hfeed
  | case3 d cs hfeed hreturn ih =>
      intro c hc
      rw [normalizeLines, List.mem_cons] at hc
      · rcases hc with rfl | hc
        · exact .inr List.mem_cons_self
        · exact (ih c hc).imp_right (List.mem_cons_of_mem _)
      · exact hfeed
      · exact hreturn
  | case4 => simp [normalizeLines]

/-- **The names of the elements of a text.** They are not empty, and each blank in them is no blank
of markup and stands in the text. -/
theorem isTag_of_occurs {text : String} {e : Element} (he : Occurs (elementsOf text) e) :
    IsTag text.toList e.name := by
  unfold elementsOf at he
  extract_lets cs at he
  have hbuilt := (named_start (IsTag (normalizeLines cs))).build (fun d hd => hd) 0
  have htag : IsTag (normalizeLines cs) e.name := by
    obtain ⟨fuel, depth, id, rfl, hbelow⟩ := Dom.below_of_occurs he
    cases fuel <;> exact (hbuilt.dom.of_below hbelow).2
  refine htag.of_subset fun c hc => ?_
  rcases mem_of_mem_normalizeLines c hc with hc | hc
  · exact .inl hc
  · -- a mark in front of the text is passed over
    refine .inr ?_
    unfold cs at hc
    split at hc
    · next cs' hmark =>
      rw [hmark]
      exact List.mem_cons_of_mem _ hc
    · exact hc

end StyleAudit.Markup
