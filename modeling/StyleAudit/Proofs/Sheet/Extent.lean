import Mathlib
import StyleAudit.Proofs.Sheet.Geometry
import StyleAudit.Proofs.Text.Cover
import StyleAudit.Proofs.Text.Offset
import StyleAudit.Sheet.Extent

/-! # What the deletion of a rule takes with it

The extent of a rule is its span together with a run of blanks on each side. What stops the two runs
are characters that are no blanks, and every rule has three of them: an opening brace, a closing
one, and the first character of its selector list as long as the blanks of the text are whitespace.

* **`leading before`, `trailing before after`** — the blanks that go with a rule.
* **`exists_extent`** — the extent in terms of the pieces of a rule.
* **`blankAt_of_covers_extent`** — what the extent adds to the rule is blank.
* **`extent_subset_block`** — the extent of a nested rule stays inside the block around it. -/

namespace StyleAudit.Sheet

open Text

/-! ## The runs of blanks around a rule -/

/-- The blanks before a rule that go with it. -/
def leading (before : List Char) : List Char :=
  if (lastLine before).all isBlank then lastLine before else trailingSpaces before

/-- The blanks after a rule that go with it. -/
def trailing (before after : List Char) : List Char :=
  if (lastLine before).all isBlank then blankTail after else []

/-- The blanks before a rule end the text before it. -/
theorem exists_append_leading (before : List Char) : ∃ a, before = a ++ leading before := by
  rw [leading]
  split
  · exact exists_append_takeWhile_reverse _ before
  · exact exists_append_takeWhile_reverse _ before

/-- The blanks before a rule are blank. -/
theorem isBlank_of_mem_leading {before : List Char} {c : Char} (h : c ∈ leading before) :
    isBlank c = true := by
  rw [leading] at h
  split at h
  · rename_i hall
    exact List.all_eq_true.1 hall c h
  · have hc := List.mem_takeWhile_imp (List.mem_reverse.1 h)
    simp only [Bool.or_eq_true, beq_iff_eq] at hc
    rcases hc with rfl | rfl <;> decide

/-- The blanks through the last newline begin the blanks of a text. -/
theorem exists_blankTail_append (cs : List Char) :
    ∃ b, cs.takeWhile isBlank = blankTail cs ++ b := by
  rw [blankTail]
  split
  · refine ⟨((cs.takeWhile isBlank).reverse.takeWhile (· != '\n')).reverse, ?_⟩
    rw [← List.reverse_append, List.takeWhile_append_dropWhile, List.reverse_reverse]
  · exact ⟨[], (List.append_nil _).symm⟩

/-- The blanks after a rule begin the text after it. -/
theorem exists_trailing_append (before after : List Char) :
    ∃ b, after = trailing before after ++ b := by
  rw [trailing]
  split
  · obtain ⟨b, hb⟩ := exists_blankTail_append after
    refine ⟨b ++ after.dropWhile isBlank, ?_⟩
    rw [← List.append_assoc, ← hb, List.takeWhile_append_dropWhile]
  · exact ⟨after, rfl⟩

/-- The blanks after a rule are blank. -/
theorem isBlank_of_mem_trailing {before after : List Char} {c : Char}
    (h : c ∈ trailing before after) : isBlank c = true := by
  rw [trailing] at h
  split at h
  · obtain ⟨b, hb⟩ := exists_blankTail_append after
    have hmem : c ∈ after.takeWhile isBlank := by
      rw [hb]
      exact List.mem_append_left b h
    exact List.mem_takeWhile_imp hmem
  · simp at h

/-! ## Landmarks of a rule -/

namespace Placement

variable {text : List Char} {r : Rule}

/-- The selector list is not empty. -/
theorem prelude_start_lt (p : Placement text r) : r.prelude.start < r.prelude.stop := by
  obtain ⟨c, cs, hlist, -⟩ := p.starts
  have := byteSize_pos_of_ne_nil (show p.list ≠ [] by simp [hlist])
  rw [p.prelude_eq]
  simp only
  omega

/-- The block begins no earlier than the selector list ends. -/
theorem prelude_stop_le (p : Placement text r) : r.prelude.stop ≤ r.block.start := by
  rw [p.prelude_eq, p.block_eq]
  simp only
  omega

/-- The block holds its opening brace, and its closing one if there is one. -/
theorem block_start_lt (p : Placement text r) :
    r.block.start + 1 + (if r.closed then 1 else 0) ≤ r.block.stop := by
  have hclose : byteSize p.close = if r.closed then 1 else 0 := by
    rw [p.close_eq]
    split <;> rfl
  rw [p.block_eq]
  simp only
  omega

/-- The block of a rule begins with a brace. -/
theorem at_brace (p : Placement text r) : At text r.block.start '{' := by
  refine ⟨p.before ++ (p.list ++ p.gap), p.body ++ (p.close ++ p.after), ?_, ?_⟩
  · refine p.text_eq.trans ?_
    simp
  · rw [p.block_eq]
    simp only [byteSize_append]
    omega

/-- The block of a closed rule ends with a brace. -/
theorem at_close (p : Placement text r) (hclosed : r.closed = true) :
    At text (r.block.stop - 1) '}' := by
  have hclose : p.close = ['}'] := by rw [p.close_eq, if_pos hclosed]
  refine ⟨p.before ++ (p.list ++ (p.gap ++ '{' :: p.body)), p.after, ?_, ?_⟩
  · refine p.text_eq.trans ?_
    simp [hclose]
  · rw [p.block_eq, hclose]
    simp only [byteSize_append, byteSize_cons, byteSize_nil, utf8Size_brace,
      show '}'.utf8Size = 1 from rfl]
    omega

/-- The selector list begins with a character that is no whitespace. -/
theorem at_start (p : Placement text r) :
    ∃ c, At text r.prelude.start c ∧ isSpace c = false := by
  obtain ⟨c, cs, hlist, hc⟩ := p.starts
  refine ⟨c, ⟨p.before, cs ++ (p.gap ++ '{' :: (p.body ++ (p.close ++ p.after))), ?_, ?_⟩, hc⟩
  · refine p.text_eq.trans ?_
    simp [hlist]
  · rw [p.prelude_eq]

/-- What stands before the selector list is determined by its offset. -/
theorem before_eq (p : Placement text r) {a b : List Char} (htext : text = a ++ b)
    (h : r.prelude.start = byteSize a) : p.before = a := by
  rw [p.prelude_eq] at h
  exact (append_inj_of_byteSize_eq (p.text_eq.symm.trans htext) h).1

/-- What stands after the block is determined by its offset. -/
theorem after_eq (p : Placement text r) {a b : List Char} (htext : text = a ++ b)
    (h : r.block.stop = byteSize a) : p.after = b := by
  have hcut : (p.before ++ (p.list ++ (p.gap ++ '{' :: (p.body ++ p.close)))) ++ p.after =
      a ++ b := by
    rw [← htext]
    refine Eq.trans ?_ p.text_eq.symm
    simp
  refine (append_inj_of_byteSize_eq hcut ?_).2
  rw [← h, p.block_eq]
  simp only [byteSize_append, byteSize_cons, utf8Size_brace]
  omega

/-! ## The extent of a rule -/

/-- The text before the selector list. -/
theorem takeBytes_prelude_start (p : Placement text r) :
    takeBytes r.prelude.start text = p.before := by
  have hcut := takeBytes_append p.before
    (p.list ++ (p.gap ++ '{' :: (p.body ++ (p.close ++ p.after))))
  rwa [← p.text_eq, show byteSize p.before = r.prelude.start by rw [p.prelude_eq]] at hcut

/-- The text after the block. -/
theorem dropBytes_block_stop (p : Placement text r) : dropBytes r.block.stop text = p.after := by
  have hstop : r.block.stop =
      byteSize (p.before ++ (p.list ++ (p.gap ++ '{' :: (p.body ++ p.close)))) := by
    rw [p.block_eq]
    simp only [byteSize_append, byteSize_cons, utf8Size_brace]
    omega
  have hcut := dropBytes_append
    (p.before ++ (p.list ++ (p.gap ++ '{' :: (p.body ++ p.close)))) p.after
  rw [← hstop] at hcut
  simp only [List.append_assoc, List.cons_append] at hcut
  rwa [← p.text_eq] at hcut

/-- The line of a rule begins with the last line of the text before it. -/
theorem exists_line (p : Placement text r) :
    ∃ front, p.before = front ++ lastLine p.before ∧
      lineStart r.prelude.start text = byteSize front ∧
      slice (lineStart r.prelude.start text) r.prelude.start text = lastLine p.before := by
  obtain ⟨front, hfront⟩ := exists_append_takeWhile_reverse (· != '\n') p.before
  change p.before = front ++ lastLine p.before at hfront
  have hstart : r.prelude.start = byteSize p.before := by rw [p.prelude_eq]
  have hline : lineStart r.prelude.start text = byteSize front := by
    have hcut := lineStart_append p.before
      (p.list ++ (p.gap ++ '{' :: (p.body ++ (p.close ++ p.after))))
    rw [← p.text_eq] at hcut
    have := congrArg byteSize hfront
    rw [byteSize_append] at this
    rw [hstart, hcut]
    omega
  have hcut := slice_append front (lastLine p.before)
    (p.list ++ (p.gap ++ '{' :: (p.body ++ (p.close ++ p.after))))
  rw [← byteSize_append, ← List.append_assoc, ← hfront, ← p.text_eq] at hcut
  exact ⟨front, hfront, hline, by rw [hline, hstart, hcut]⟩

/-- **The extent in terms of the pieces of a rule.** -/
theorem exists_extent (p : Placement text r) :
    ∃ a b, p.before = a ++ leading p.before ∧ p.after = trailing p.before p.after ++ b ∧
      extent text r = ⟨byteSize a, r.block.stop + byteSize (trailing p.before p.after)⟩ := by
  obtain ⟨a, ha⟩ := exists_append_leading p.before
  obtain ⟨b, hb⟩ := exists_trailing_append p.before p.after
  obtain ⟨front, hfront, hline, hslice⟩ := p.exists_line
  have hsize : byteSize p.before = byteSize a + byteSize (leading p.before) := by
    rw [← byteSize_append, ← ha]
  have hfrontSize : byteSize p.before = byteSize front + byteSize (lastLine p.before) := by
    rw [← byteSize_append, ← hfront]
  have hstart : r.prelude.start = byteSize p.before := by rw [p.prelude_eq]
  refine ⟨a, b, ha, hb, ?_⟩
  simp only [extent, hslice, p.dropBytes_block_stop, p.takeBytes_prelude_start]
  -- blanks alone on the line before the rule: all of them go, and the blank lines after the rule
  by_cases hall : (lastLine p.before).all isBlank = true
  · have hlead : leading p.before = lastLine p.before := by rw [leading, if_pos hall]
    have htrail : trailing p.before p.after = blankTail p.after := by rw [trailing, if_pos hall]
    rw [if_pos hall, hline, htrail, Span.mk.injEq]
    rw [hlead] at hsize
    exact ⟨by omega, rfl⟩
  · have hlead : leading p.before = trailingSpaces p.before := by rw [leading, if_neg hall]
    have htrail : trailing p.before p.after = [] := by rw [trailing, if_neg hall]
    rw [if_neg hall, htrail, hstart, Span.mk.injEq]
    rw [hlead] at hsize
    exact ⟨by omega, rfl⟩

/-- The text as the extent of a rule cuts it: a run of blanks, the rule, and a run of blanks. -/
theorem exists_cuts_extent (p : Placement text r) :
    ∃ a u m v b, text = a ++ (u ++ (m ++ (v ++ b))) ∧ (∀ c ∈ u, isBlank c = true) ∧
      (∀ c ∈ v, isBlank c = true) ∧ (extent text r).start = byteSize a ∧
      r.prelude.start = byteSize a + byteSize u ∧
      r.block.stop = byteSize a + byteSize u + byteSize m ∧
      (extent text r).stop = r.block.stop + byteSize v := by
  obtain ⟨a, b, ha, hb, hextent⟩ := p.exists_extent
  have hsize : byteSize p.before = byteSize a + byteSize (leading p.before) := by
    rw [← byteSize_append, ← ha]
  refine ⟨a, leading p.before, p.list ++ (p.gap ++ '{' :: (p.body ++ p.close)),
    trailing p.before p.after, b, ?_, fun c => isBlank_of_mem_leading,
    fun c => isBlank_of_mem_trailing, ?_, ?_, ?_, ?_⟩
  · refine p.text_eq.trans ?_
    rw [← List.append_assoc a, ← ha, ← hb]
    simp
  · rw [hextent]
  · rw [p.prelude_eq]
    exact hsize
  · rw [p.block_eq]
    simp only [byteSize_append, byteSize_cons, utf8Size_brace]
    omega
  · rw [hextent]

/-- The extent begins no later than the rule. -/
theorem extent_start_le (p : Placement text r) : (extent text r).start ≤ r.prelude.start := by
  obtain ⟨a, u, m, v, b, -, -, -, h₁, h₂, -, -⟩ := p.exists_cuts_extent
  omega

/-- The extent ends no earlier than the rule. -/
theorem le_extent_stop (p : Placement text r) : r.block.stop ≤ (extent text r).stop := by
  obtain ⟨a, u, m, v, b, -, -, -, -, -, -, h⟩ := p.exists_cuts_extent
  omega

/-- A rule begins before its block, which is not empty. -/
theorem spans_lt (p : Placement text r) :
    r.prelude.start < r.block.start ∧ r.block.start < r.block.stop :=
  ⟨p.prelude_start_lt.trans_le p.prelude_stop_le, by have := p.block_start_lt; omega⟩

/-- A rule is not empty. -/
theorem start_lt_stop (p : Placement text r) : r.prelude.start < r.block.stop := by
  have h₁ := p.prelude_start_lt
  have h₂ := p.prelude_stop_le
  have h₃ := p.block_start_lt
  omega

/-- The extent cuts no character. -/
theorem isBoundary_extent (p : Placement text r) :
    isBoundary (extent text r).start text = true ∧ isBoundary (extent text r).stop text = true := by
  obtain ⟨a, u, m, v, b, htext, -, -, h₁, -, h₃, h₄⟩ := p.exists_cuts_extent
  constructor
  · exact isBoundary_iff.2 ⟨a, _, htext, h₁.symm⟩
  · refine isBoundary_iff.2 ⟨a ++ (u ++ (m ++ v)), b, by simp [htext], ?_⟩
    simp only [byteSize_append]
    omega

/-- A character of the extent before the rule is blank. -/
theorem isBlank_of_at_before (p : Placement text r) {n : Nat} {c : Char} (hat : At text n c)
    (hlow : (extent text r).start ≤ n) (hhigh : n < r.prelude.start) : isBlank c = true := by
  obtain ⟨a, u, m, v, b, htext, hu, -, h₁, h₂, -, -⟩ := p.exists_cuts_extent
  exact hu c ((htext ▸ hat).mem_run (by omega) (by omega))

/-- A character of the extent after the rule is blank. -/
theorem isBlank_of_at_after (p : Placement text r) {n : Nat} {c : Char} (hat : At text n c)
    (hlow : r.block.stop ≤ n) (hhigh : n < (extent text r).stop) : isBlank c = true := by
  obtain ⟨a, u, m, v, b, htext, -, hv, -, -, h₃, h₄⟩ := p.exists_cuts_extent
  have hat' : At ((a ++ (u ++ m)) ++ (v ++ b)) n c := by
    rw [htext] at hat
    simpa using hat
  refine hv c (hat'.mem_run ?_ ?_) <;> simp only [byteSize_append] <;> omega

/-- **What the extent adds to the rule is blank.** -/
theorem blankAt_of_covers_extent (p : Placement text r) {n : Nat}
    (h : (extent text r).Covers n) :
    (r.prelude.start ≤ n ∧ n < r.block.stop) ∨ BlankAt text n := by
  obtain ⟨a, u, m, v, b, htext, hu, hv, h₁, h₂, h₃, h₄⟩ := p.exists_cuts_extent
  obtain ⟨hlow, hhigh⟩ := h
  by_cases hbefore : n < r.prelude.start
  · refine .inr ?_
    rw [htext]
    exact blankAt_of_run hu (by omega) (by omega)
  · by_cases hafter : n < r.block.stop
    · exact .inl ⟨by omega, hafter⟩
    · refine .inr ?_
      have hblank : BlankAt ((a ++ (u ++ m)) ++ (v ++ b)) n := by
        refine blankAt_of_run hv ?_ ?_ <;> simp only [byteSize_append] <;> omega
      simpa [htext] using hblank

/-- **The extent of a nested rule** stays between the braces of a closed block around it. -/
theorem extent_subset_block {f : Rule} (p : Placement text r) (q : Placement text f)
    (hclosed : f.closed = true) (hstart : f.block.start < r.prelude.start)
    (hstop : r.block.stop < f.block.stop) :
    f.block.start < (extent text r).start ∧ (extent text r).stop < f.block.stop := by
  constructor
  · by_contra hle
    have := p.isBlank_of_at_before q.at_brace (by omega) hstart
    exact absurd this (by decide)
  · by_contra hle
    have := p.isBlank_of_at_after (q.at_close hclosed) (by omega) (by omega)
    exact absurd this (by decide)

end Placement

end StyleAudit.Sheet
