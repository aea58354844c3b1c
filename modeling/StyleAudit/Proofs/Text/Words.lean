import Mathlib
import StyleAudit.Text.Blank

/-! # Words of a text

The words of a text are its pieces without blanks that no character can be added to. A text of one
word is what is left of it once the blanks around it are taken away.

* **`IsPiece`** — a maximal piece without blanks.
* **`mem_words_iff`** — the words of a text are these pieces.
* **`words_append_blank`** — a blank separates words.
* **`isName_trim_iff`**, **`trim_eq_of_words`** — texts of one word. -/

namespace StyleAudit.Text

/-! ## Names -/

/-- A name is not empty, and none of its characters is a blank. -/
theorem isName_iff {cs : List Char} :
    isName cs = true ↔ cs ≠ [] ∧ ∀ c ∈ cs, isBlank c = false := by
  simp [isName]

/-- What a name is followed by begins with a blank, so that the name ends there. -/
def EndsWord (after : List Char) : Prop := ∀ c ∈ after.head?, isBlank c = true

/-- The piece `w` of a text cannot be made longer without a blank in it. -/
def IsPiece (cs w : List Char) : Prop :=
  ∃ before after, cs = before ++ w ++ after ∧ isName w = true ∧
    (∀ c ∈ before.getLast?, isBlank c = true) ∧ EndsWord after

/-! ## One step -/

/-- The words of a text are the one that it begins with, unless that is empty, and the others. -/
theorem words_eq (cs : List Char) : words cs =
    if (wordsFrom cs).1.isEmpty then (wordsFrom cs).2 else (wordsFrom cs).1 :: (wordsFrom cs).2 :=
  rfl

/-- A text that begins with a blank has no first word. -/
theorem wordsFrom_cons_blank {c : Char} {cs : List Char} (h : isBlank c = true) :
    wordsFrom (c :: cs) = ([], words cs) := by
  simp only [wordsFrom, h, if_true]
  rfl

/-- A blank in front adds no word. -/
theorem words_cons_blank {c : Char} {cs : List Char} (h : isBlank c = true) :
    words (c :: cs) = words cs := by
  rw [words_eq, wordsFrom_cons_blank h]
  rfl

/-- A character that is no blank belongs to the first word. -/
theorem wordsFrom_cons {c : Char} {cs : List Char} (h : isBlank c = false) :
    wordsFrom (c :: cs) = (c :: (wordsFrom cs).1, (wordsFrom cs).2) := by
  simp [wordsFrom, h]

/-- A word is the one that a text begins with or one of the others. -/
theorem mem_words {cs w : List Char} :
    w ∈ words cs ↔ (w = (wordsFrom cs).1 ∧ w ≠ []) ∨ w ∈ (wordsFrom cs).2 := by
  rw [words_eq]
  cases hfirst : (wordsFrom cs).1 with
  | nil => simp +contextual
  | cons c first =>
      simp only [List.isEmpty_cons, Bool.false_eq_true, if_false, List.mem_cons]
      constructor
      · rintro (rfl | h)
        · exact .inl ⟨rfl, List.cons_ne_nil _ _⟩
        · exact .inr h
      · rintro (⟨h, -⟩ | h)
        · exact .inl h
        · exact .inr h

/-- What a text begins with up to a blank is its first word. -/
theorem wordsFrom_append {w after : List Char} (hw : ∀ c ∈ w, isBlank c = false)
    (hafter : EndsWord after) : wordsFrom (w ++ after) = (w, words after) := by
  induction w with
  | nil =>
      cases after with
      | nil => rfl
      | cons c after =>
          have hc : isBlank c = true := hafter c rfl
          rw [List.nil_append, wordsFrom_cons_blank hc, words_cons_blank hc]
  | cons c w ih =>
      have hrest := ih fun d hd => hw d (List.mem_cons_of_mem _ hd)
      rw [List.cons_append, wordsFrom_cons (hw c List.mem_cons_self), hrest]

/-- The first word of a text, and what follows it. -/
theorem exists_wordsFrom (cs : List Char) :
    ∃ after, cs = (wordsFrom cs).1 ++ after ∧ EndsWord after ∧
      ∀ c ∈ (wordsFrom cs).1, isBlank c = false := by
  induction cs with
  | nil => exact ⟨[], rfl, by simp [EndsWord], by simp [wordsFrom]⟩
  | cons c cs ih =>
      cases hblank : isBlank c with
      | true =>
          rw [wordsFrom_cons_blank hblank]
          exact ⟨c :: cs, rfl, by simpa [EndsWord] using hblank, by simp⟩
      | false =>
          obtain ⟨after, hcs, hafter, hword⟩ := ih
          rw [wordsFrom_cons hblank]
          refine ⟨after, by rw [List.cons_append, ← hcs], hafter, ?_⟩
          exact List.forall_mem_cons.2 ⟨hblank, hword⟩

/-- A name up to a blank is the first word. -/
theorem words_append {w after : List Char} (hw : isName w = true) (hafter : EndsWord after) :
    words (w ++ after) = w :: words after := by
  obtain ⟨hne, hblank⟩ := isName_iff.1 hw
  rw [words, wordsFrom_append hblank hafter]
  simp [hne]

/-- A name is its only word. -/
theorem words_of_isName {w : List Char} (hw : isName w = true) : words w = [w] := by
  have h := @words_append w [] hw (by simp [EndsWord])
  rwa [List.append_nil] at h

/-! ## The pieces of a text -/

/-- The words after the first one are the pieces that have a blank in front of them. -/
theorem mem_wordsFrom_snd {cs w : List Char} :
    w ∈ (wordsFrom cs).2 ↔ ∃ before c after, cs = before ++ c :: (w ++ after) ∧
      isBlank c = true ∧ isName w = true ∧ EndsWord after := by
  induction cs with
  | nil => simp [wordsFrom]
  | cons d cs ih =>
      cases hblank : isBlank d with
      | true =>
          rw [wordsFrom_cons_blank hblank, mem_words, ih]
          constructor
          · -- behind a blank the first word of the rest is one more of them
            rintro (⟨hfirst, hne⟩ | ⟨before, c, after, rfl, h⟩)
            · obtain ⟨after, hcs, hafter, hword⟩ := exists_wordsFrom cs
              rw [← hfirst] at hcs hword
              exact ⟨[], d, after, by rw [← hcs]; rfl, hblank, isName_iff.2 ⟨hne, hword⟩, hafter⟩
            · exact ⟨d :: before, c, after, rfl, h⟩
          · rintro ⟨before, c, after, heq, hc, hw, hafter⟩
            cases before with
            | nil =>
                obtain ⟨rfl, rfl⟩ := List.cons.inj heq
                obtain ⟨hne, hword⟩ := isName_iff.1 hw
                rw [wordsFrom_append hword hafter]
                exact .inl ⟨rfl, hne⟩
            | cons b before =>
                obtain ⟨rfl, rfl⟩ := List.cons.inj heq
                exact .inr ⟨before, c, after, rfl, hc, hw, hafter⟩
      | false =>
          rw [wordsFrom_cons hblank, ih]
          constructor
          · rintro ⟨before, c, after, rfl, h⟩
            exact ⟨d :: before, c, after, rfl, h⟩
          · rintro ⟨before, c, after, heq, hc, h⟩
            cases before with
            | nil =>
                obtain ⟨rfl, -⟩ := List.cons.inj heq
                rw [hc] at hblank
                cases hblank
            | cons b before =>
                obtain ⟨rfl, rfl⟩ := List.cons.inj heq
                exact ⟨before, c, after, rfl, hc, h⟩

/-- **The words of a text are its maximal pieces without blanks.** -/
theorem mem_words_iff {cs w : List Char} : w ∈ words cs ↔ IsPiece cs w := by
  rw [mem_words, mem_wordsFrom_snd]
  constructor
  · rintro (⟨hfirst, hne⟩ | ⟨before, c, after, rfl, hc, hw, hafter⟩)
    · obtain ⟨after, hcs, hafter, hword⟩ := exists_wordsFrom cs
      rw [← hfirst] at hcs hword
      exact ⟨[], after, hcs, isName_iff.2 ⟨hne, hword⟩, by simp, hafter⟩
    · exact ⟨before ++ [c], after, by simp, hw, by simpa using hc, hafter⟩
  · rintro ⟨before, after, rfl, hw, hbefore, hafter⟩
    obtain ⟨hne, hword⟩ := isName_iff.1 hw
    rcases List.eq_nil_or_concat before with rfl | ⟨before, c, rfl⟩
    · rw [List.nil_append, wordsFrom_append hword hafter]
      exact .inl ⟨rfl, hne⟩
    · exact .inr ⟨before, c, after, by simp, hbefore c (by simp), hw, hafter⟩

/-- A word is a name. -/
theorem isName_of_mem_words {cs w : List Char} (h : w ∈ words cs) : isName w = true := by
  obtain ⟨-, -, -, hw, -⟩ := mem_words_iff.1 h
  exact hw

/-! ## Texts of one word -/

/-- A blank separates the words on both sides of it. -/
theorem words_append_blank {c : Char} (hc : isBlank c = true) (xs ys : List Char) :
    words (xs ++ c :: ys) = words xs ++ words ys := by
  have hfrom : wordsFrom (xs ++ c :: ys) = ((wordsFrom xs).1, (wordsFrom xs).2 ++ words ys) := by
    induction xs with
    | nil => exact wordsFrom_cons_blank hc
    | cons x xs ih =>
        cases hx : isBlank x with
        | true =>
            rw [List.cons_append, wordsFrom_cons_blank hx, wordsFrom_cons_blank hx, words_eq, ih,
              words_eq xs]
            cases (wordsFrom xs).1 <;> rfl
        | false => rw [List.cons_append, wordsFrom_cons hx, wordsFrom_cons hx, ih]
  rw [words_eq, hfrom, words_eq xs]
  cases (wordsFrom xs).1 <;> rfl

/-- A text without words is blank. -/
theorem isBlank_of_words_eq_nil {cs : List Char} (h : words cs = []) :
    ∀ c ∈ cs, isBlank c = true := by
  induction cs with
  | nil => simp
  | cons c cs ih =>
      cases hc : isBlank c with
      | true =>
          rw [words_cons_blank hc] at h
          exact List.forall_mem_cons.2 ⟨hc, ih h⟩
      | false =>
          rw [words, wordsFrom_cons hc] at h
          simp at h

/-- Without the blanks around it, a name is left. -/
theorem trim_of_blank_around {before w after : List Char} (hw : isName w = true)
    (hbefore : ∀ c ∈ before, isBlank c = true) (hafter : ∀ c ∈ after, isBlank c = true) :
    trim (before ++ w ++ after) = w := by
  obtain ⟨hne, hword⟩ := isName_iff.1 hw
  have hstart : trimStart (before ++ w ++ after) = w ++ after := by
    rw [trimStart, List.append_assoc, List.dropWhile_append_of_pos hbefore]
    cases w with
    | nil => exact absurd rfl hne
    | cons c w => simp [hword c List.mem_cons_self]
  have hend : w.reverse.dropWhile isBlank = w.reverse := by
    cases hreverse : w.reverse with
    | nil => rfl
    | cons c cs =>
        have hc : c ∈ w := List.mem_reverse.1 (hreverse ▸ List.mem_cons_self)
        simp [hword c hc]
  have hafter' : ∀ c ∈ after.reverse, isBlank c = true := fun c hc => hafter c (List.mem_reverse.1 hc)
  rw [trim, hstart, trimEnd, List.reverse_append, List.dropWhile_append_of_pos hafter', hend,
    List.reverse_reverse]

/-- **The one word of a text is what is left without the blanks around it.** -/
theorem trim_eq_of_words {cs w : List Char} (h : words cs = [w]) : trim cs = w := by
  obtain ⟨before, after, rfl, hw, hbefore, hafter⟩ :=
    mem_words_iff.1 (h ▸ List.mem_singleton_self w : w ∈ words cs)
  have hafterNil : words after = [] ∧ ∀ c ∈ before, isBlank c = true := by
    rcases List.eq_nil_or_concat before with rfl | ⟨before, c, rfl⟩
    · rw [List.nil_append, words_append hw hafter] at h
      exact ⟨(List.cons.inj h).2, by simp⟩
    · have hc : isBlank c = true := hbefore c (by simp)
      rw [List.concat_eq_append, List.append_assoc, List.append_assoc, List.singleton_append,
        words_append_blank hc, words_append hw hafter] at h
      -- the word itself is the only one, so there is none on either side
      have hlength := congrArg List.length h
      simp only [List.length_append, List.length_cons, List.length_nil] at hlength
      have hnil : words before = [] := List.length_eq_zero_iff.1 (by omega)
      have hblank := isBlank_of_words_eq_nil hnil
      refine ⟨List.length_eq_zero_iff.1 (by omega), fun d hd => ?_⟩
      rw [List.concat_eq_append, List.mem_append, List.mem_singleton] at hd
      rcases hd with hd | rfl
      · exact hblank d hd
      · exact hc
  exact trim_of_blank_around hw hafterNil.2 (isBlank_of_words_eq_nil hafterNil.1)

/-- A text is a run of blanks, what is left without the blanks around it, and a run of blanks. -/
theorem exists_blank_around (cs : List Char) : ∃ before after, cs = before ++ trim cs ++ after ∧
    (∀ c ∈ before, isBlank c = true) ∧ ∀ c ∈ after, isBlank c = true := by
  refine ⟨cs.takeWhile isBlank, ((trimStart cs).reverse.takeWhile isBlank).reverse, ?_,
    fun c hc => List.mem_takeWhile_imp hc,
    fun c hc => List.mem_takeWhile_imp (List.mem_reverse.1 hc)⟩
  rw [List.append_assoc, trim, trimEnd, ← List.reverse_append, List.takeWhile_append_dropWhile,
    List.reverse_reverse, trimStart, List.takeWhile_append_dropWhile]

/-- **A text is a name with blanks around it if it has one word**, which is the name. -/
theorem isName_trim_iff {cs : List Char} : isName (trim cs) = true ↔ words cs = [trim cs] := by
  constructor
  · intro h
    obtain ⟨before, after, hcs, hbefore, hafter⟩ := exists_blank_around cs
    have hends : EndsWord after := fun c hc => hafter c (List.mem_of_mem_head? hc)
    have hnil : words after = [] := by
      clear hcs hends
      induction after with
      | nil => rfl
      | cons c after ih =>
          rw [words_cons_blank (hafter c List.mem_cons_self)]
          exact ih fun d hd => hafter d (List.mem_cons_of_mem _ hd)
    have hwords : words (before ++ (trim cs ++ after)) = words (trim cs ++ after) := by
      clear hcs
      induction before with
      | nil => rfl
      | cons c before ih =>
          rw [List.cons_append, words_cons_blank (hbefore c List.mem_cons_self)]
          exact ih fun d hd => hbefore d (List.mem_cons_of_mem _ hd)
    rw [List.append_assoc] at hcs
    calc words cs = words (before ++ (trim cs ++ after)) := congrArg words hcs
      _ = words (trim cs ++ after) := hwords
      _ = [trim cs] := by rw [words_append h hends, hnil]
  · intro h
    exact isName_of_mem_words (h ▸ List.mem_singleton_self _)

end StyleAudit.Text
