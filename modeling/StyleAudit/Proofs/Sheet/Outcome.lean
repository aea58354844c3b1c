import Mathlib
import StyleAudit.Proofs.Sheet.Removal

/-! # What a plan makes of a text

A plan merges the extents of deleted rules, leaves out the selector lists that a deletion holds, and
sorts what is left. Replaying a plan does not see any of this: it gives what one edit for each
exposed rule gives, in the order of the rules.

* **`editOf targets text r`** — the edit of a rule.
* **`exposedEdits targets text`** — the edits of the exposed rules.
* **`applyAll_eq_exposedEdits`** — applying a plan is replaying the edits of the exposed rules. -/

namespace StyleAudit.Sheet

open Text

/-- The edit of a rule: its deletion, or its selector list without what is targeted. -/
def editOf (targets : SelectorSet) (text : List Char) (r : Rule) : Option Edit :=
  if r.fullyTargeted targets then some (.delete (extent text r))
  else if r.partlyTargeted targets then
    some (shortenList text r fun x => !decide (x ∈ targets))
  else none

/-- The edits of the exposed rules of a text. -/
def exposedEdits (targets : SelectorSet) (text : String) : List Edit :=
  (exposed targets (closedRules text)).filterMap (editOf targets text.toList)

variable {targets : SelectorSet} {text : String}

/-- The edit of a rule is a deletion or a shortened list. -/
theorem editOf_eq_some_iff {cs : List Char} {r : Rule} {e : Edit} :
    editOf targets cs r = some e ↔
      (r.fullyTargeted targets = true ∧ e = .delete (extent cs r)) ∨
        (r.partlyTargeted targets = true ∧
          e = shortenList cs r fun x => !decide (x ∈ targets)) := by
  by_cases hfull : r.fullyTargeted targets = true
  · have hpart : r.partlyTargeted targets = false := by simp [Rule.partlyTargeted, hfull]
    simp [editOf, hfull, hpart, eq_comm]
  · by_cases hpart : r.partlyTargeted targets = true
    · simp [editOf, hfull, hpart, eq_comm]
    · simp [editOf, hfull, hpart]

/-- The edits of the exposed rules are their deletions and shortened lists. -/
theorem mem_exposedEdits_iff {e : Edit} :
    e ∈ exposedEdits targets text ↔ ∃ r ∈ exposed targets (closedRules text),
      (r.fullyTargeted targets = true ∧ e = .delete (extent text.toList r)) ∨
        (r.partlyTargeted targets = true ∧
          e = shortenList text.toList r fun x => !decide (x ∈ targets)) := by
  rw [exposedEdits, List.mem_filterMap]
  simp only [editOf_eq_some_iff]

/-- A rule that is targeted in part is exposed exactly when no deletion holds its selector list. -/
theorem mem_exposed_iff_of_partlyTargeted (hspaces : SpacesAfter targets text) {r : Rule}
    (hr : r ∈ closedRules text) (hpart : r.partlyTargeted targets = true) :
    r ∈ exposed targets (closedRules text) ↔
      ∀ s ∈ locateAll targets text, s.contains r.prelude = false := by
  constructor
  · intro hexposed s hs
    by_contra hcontains
    rw [Bool.not_eq_false, Span.contains_iff] at hcontains
    obtain ⟨p⟩ := placement_of_mem_closedRules hr
    have h₁ := p.prelude_start_lt
    have h₂ := p.prelude_stop_le
    have hclear := not_covers_of_spacesAfter hspaces hs hr (Rule.fullyTargeted_eq_false hpart)
      (mem_exposed_iff.1 hexposed).2 (n := r.prelude.start) ⟨hcontains.1, by omega⟩
    omega
  · intro hout
    exact mem_exposed_iff.2
      ⟨hr, fun f hf hfull => not_within_of_contains_eq_false hf hfull hr hout⟩

/-- The plan and the edits of the exposed rules shorten the same lists. -/
theorem mem_planRemoval_iff_exposed (hspaces : SpacesAfter targets text) {e : Edit} :
    e ∈ planRemoval targets text ↔
      (∃ s ∈ locateAll targets text, e = .delete s) ∨
        ∃ r ∈ exposed targets (closedRules text), r.partlyTargeted targets = true ∧
          e = shortenList text.toList r fun x => !decide (x ∈ targets) := by
  rw [mem_planRemoval_iff]
  refine or_congr_right ⟨?_, ?_⟩
  · rintro ⟨r, hr, hpart, hout, he⟩
    exact ⟨r, (mem_exposed_iff_of_partlyTargeted hspaces hr hpart).2 hout, hpart, he⟩
  · rintro ⟨r, hr, hpart, he⟩
    have hr' := (mem_exposed_iff.1 hr).1
    exact ⟨r, hr', hpart, (mem_exposed_iff_of_partlyTargeted hspaces hr' hpart).1 hr, he⟩

/-- The plan and the edits of the exposed rules cover the same offsets. -/
theorem covers_planRemoval (hspaces : SpacesAfter targets text) (n : Nat) :
    Edit.covers (planRemoval targets text) n = Edit.covers (exposedEdits targets text) n := by
  rw [Bool.eq_iff_iff, Edit.covers_iff, Edit.covers_iff]
  constructor
  · rintro ⟨e, he, hn⟩
    rcases (mem_planRemoval_iff_exposed hspaces).1 he with ⟨s, hs, rfl⟩ | ⟨r, hr, hpart, rfl⟩
    · obtain ⟨r, hr, hfull, hcovers⟩ := covers_locateAll_iff_exposed.1 ⟨s, hs, hn⟩
      exact ⟨_, mem_exposedEdits_iff.2 ⟨r, hr, .inl ⟨hfull, rfl⟩⟩, hcovers⟩
    · exact ⟨_, mem_exposedEdits_iff.2 ⟨r, hr, .inr ⟨hpart, rfl⟩⟩, hn⟩
  · rintro ⟨e, he, hn⟩
    obtain ⟨r, hr, ⟨hfull, rfl⟩ | ⟨hpart, rfl⟩⟩ := mem_exposedEdits_iff.1 he
    · obtain ⟨s, hs, hcovers⟩ := covers_locateAll_iff_exposed.2 ⟨r, hr, hfull, hn⟩
      exact ⟨.delete s, (mem_planRemoval_iff_exposed hspaces).2 (.inl ⟨s, hs, rfl⟩), hcovers⟩
    · exact ⟨_, (mem_planRemoval_iff_exposed hspaces).2 (.inr ⟨r, hr, hpart, rfl⟩), hn⟩

/-- The extent of a later rule begins after the opening brace of an earlier one. -/
theorem Rule.Precedes.block_start_lt_extent {cs : List Char} {a b : Rule} (h : a.Precedes b)
    (p : Placement cs a) (q : Placement cs b) : a.block.start < (extent cs b).start := by
  have hlt : a.block.start < b.prelude.start := by
    have h₁ := p.block_start_lt
    rcases h with h | ⟨h, -, -⟩ <;> omega
  by_contra hle
  exact absurd (q.isBlank_of_at_before p.at_brace (by omega) hlt) (by decide)

/-- The edit of a rule begins in the extent of the rule, before its block. -/
theorem start_of_editOf {cs : List Char} {r : Rule} {e : Edit} (p : Placement cs r)
    (h : editOf targets cs r = some e) :
    (extent cs r).start ≤ e.span.start ∧ e.span.start < r.block.start := by
  have h₁ := p.extent_start_le
  have h₂ := p.prelude_start_lt
  have h₃ := p.prelude_stop_le
  rcases editOf_eq_some_iff.1 h with ⟨-, rfl⟩ | ⟨-, rfl⟩
  · exact ⟨Nat.le_refl _, by simp only [Edit.delete]; omega⟩
  · exact ⟨h₁, by simp only [shortenList, Rule.prelude] at *; omega⟩

/-- The edits of the exposed rules begin one after the other. -/
theorem pairwise_exposedEdits (targets : SelectorSet) (text : String) :
    (exposedEdits targets text).Pairwise fun a b => a.span.start < b.span.start := by
  rw [exposedEdits, List.pairwise_filterMap]
  have horder : (exposed targets (closedRules text)).Pairwise Rule.Precedes :=
    ((region_ofText text).precedes.filter _).filter _
  refine horder.imp_of_mem fun {a b} ha hb h e he f hf => ?_
  obtain ⟨p⟩ := placement_of_mem_closedRules (mem_exposed_iff.1 ha).1
  obtain ⟨q⟩ := placement_of_mem_closedRules (mem_exposed_iff.1 hb).1
  have h₁ := (start_of_editOf p he).2
  have h₂ := h.block_start_lt_extent p q
  have h₃ := (start_of_editOf q hf).1
  omega

/-- Where edits begin one after the other, what is written at the start of one is its replacement. -/
theorem inserts_of_mem {edits : List Edit} {e : Edit}
    (h : edits.Pairwise fun a b => a.span.start < b.span.start) (he : e ∈ edits) :
    Edit.inserts edits e.span.start = e.replacement.toList := by
  induction edits with
  | nil => simp at he
  | cons a edits ih =>
      obtain ⟨hnext, hrest⟩ := List.pairwise_cons.1 h
      rw [← List.singleton_append, Edit.inserts_append]
      rcases List.mem_cons.1 he with rfl | he
      · have hnone : Edit.inserts edits e.span.start = [] :=
          Edit.inserts_eq_nil fun b hb => by have := hnext b hb; omega
        rw [hnone]
        simp [Edit.inserts]
      · have hnone : Edit.inserts [a] e.span.start = [] :=
          Edit.inserts_eq_nil fun b hb => by
            have := hnext e he
            rw [List.mem_singleton.1 hb]
            omega
        rw [hnone, List.nil_append, ih hrest he]

/-- The plan and the edits of the exposed rules write the same. -/
theorem inserts_planRemoval (hspaces : SpacesAfter targets text) (n : Nat) :
    Edit.inserts (planRemoval targets text) n = Edit.inserts (exposedEdits targets text) n := by
  have hplan : (planRemoval targets text).Pairwise fun a b => a.span.start < b.span.start := by
    refine (pairwise_planRemoval hspaces).imp_of_mem fun {a b} ha _ h => ?_
    have := start_lt_stop_of_mem_planRemoval ha
    omega
  have hedits := pairwise_exposedEdits targets text
  by_cases hpart : ∃ r ∈ exposed targets (closedRules text), r.partlyTargeted targets = true ∧
      r.prelude.start = n
  · -- the list that is shortened here is shortened by both
    obtain ⟨r, hr, hpart, rfl⟩ := hpart
    have h₁ := inserts_of_mem hplan ((mem_planRemoval_iff_exposed hspaces).2
      (.inr ⟨r, hr, hpart, rfl⟩))
    have h₂ := inserts_of_mem hedits (mem_exposedEdits_iff.2 ⟨r, hr, .inr ⟨hpart, rfl⟩⟩)
    exact h₁.trans h₂.symm
  · -- only deletions begin here, and they write nothing
    have hnil : ∀ edits : List Edit, (∀ e ∈ edits, e.span.start = n → e.replacement = "") →
        Edit.inserts edits n = [] := by
      intro edits h
      rw [Edit.inserts, List.flatMap_eq_nil_iff]
      intro e he
      by_cases hstart : e.span.start = n
      · simp [hstart, h e he hstart]
      · rw [if_neg hstart]
    push Not at hpart
    rw [hnil _ fun e he hstart => ?_, hnil _ fun e he hstart => ?_]
    · obtain ⟨r, hr, ⟨-, rfl⟩ | ⟨h, rfl⟩⟩ := mem_exposedEdits_iff.1 he
      · rfl
      · exact absurd hstart (hpart r hr h)
    · rcases (mem_planRemoval_iff_exposed hspaces).1 he with ⟨s, -, rfl⟩ | ⟨r, hr, h, rfl⟩
      · rfl
      · exact absurd hstart (hpart r hr h)

/-- **Applying a plan is replaying the edits of the exposed rules.** -/
theorem applyAll_eq_exposedEdits (hspaces : SpacesAfter targets text) :
    Edit.applyAll (planRemoval targets text) text =
      .ok (String.ofList (Edit.replay (exposedEdits targets text) 0 text.toList)) := by
  rw [applyAll_planRemoval hspaces, Edit.replay_congr fun n _ _ =>
    ⟨covers_planRemoval hspaces n, inserts_planRemoval hspaces n⟩]

end StyleAudit.Sheet
