import Mathlib
import StyleAudit.Proofs.Sheet.Faults
import StyleAudit.Proofs.Sheet.Layout
import StyleAudit.Proofs.Sheet.SingleRemoval

/-! # Locating what is declared

What a stylesheet declares, where the entries of a selector stand, which rules declare it and what a
removal does are asked for separately. On any text the matches of a selector are the closed rules
that list it, each with blanks around it; in an accepted stylesheet every rule is closed, so the
four answers agree on whether the selector is there.

* **`forall₂_locate`** — the matches of a selector, rule by rule.
* **`mem_declared_iff_exists_rule`** — what is declared is what rules list.
* **`planRemoval_ne_nil`** — selectors that are declared are not removed for nothing.
* **`locate_agrees`** — the four answers agree. -/

namespace StyleAudit.Sheet

open Text

variable {selector text : String}

/-! ## Matches -/

/-- The extent of a rule holds the rule. -/
theorem Placement.extent_contains_rule {r : Rule} (p : Placement text.toList r) :
    (extent text.toList r).contains ⟨r.prelude.start, r.block.stop⟩ = true :=
  Span.contains_iff.2 ⟨p.extent_start_le, p.le_extent_stop⟩

/-- The rules that a selector is located at. -/
theorem closedRules_filter_declares (selector text : String) :
    (closedRules text).filter (·.declares selector) =
      (Outline.ofText text).rules.filter fun r => r.closed && r.declares selector := by
  rw [closedRules, Outline.closedRules, List.filter_filter]
  exact List.filter_congr fun r _ => Bool.and_comm _ _

/-- **The matches of a selector** are those of the closed rules that list it, in order: each one
holds its rule, and what it adds to the rule is blank. -/
theorem forall₂_locate (selector text : String) :
    List.Forall₂ (fun (r : Rule) (m : Span) =>
        m.contains ⟨r.prelude.start, r.block.stop⟩ = true ∧
        ∀ n, m.Covers n → (r.prelude.start ≤ n ∧ n < r.block.stop) ∨ BlankAt text.toList n)
      ((Outline.ofText text).rules.filter fun r => r.closed && r.declares selector)
      (locate selector text) := by
  rw [← closedRules_filter_declares, locate, Outline.locate, ← closedRules,
    List.forall₂_map_right_iff, List.forall₂_same]
  intro r hr
  obtain ⟨p⟩ := placement_of_mem_closedRules (List.mem_filter.1 hr).1
  exact ⟨p.extent_contains_rule, fun n hn => p.blankAt_of_covers_extent hn⟩

/-- The rules of an outline begin one after the other. -/
theorem pairwise_prelude_start (text : String) :
    (Outline.ofText text).rules.Pairwise fun a b => a.prelude.start < b.prelude.start := by
  refine (region_ofText text).precedes.imp_of_mem fun {a b} ha _ h => ?_
  obtain ⟨p⟩ := placement_of_mem ha
  have := p.prelude_start_lt
  have := h.prelude_stop_le p
  omega

/-- A match is the extent of a closed rule that lists the selector. -/
theorem mem_locate_iff {m : Span} : m ∈ locate selector text ↔
    ∃ r ∈ closedRules text, r.declares selector = true ∧ extent text.toList r = m := by
  simp only [locate, Outline.locate, closedRules, List.mem_map, List.mem_filter, and_assoc]

/-! ## Accepted stylesheets -/

/-- A rule lists the text of each of its entries. -/
theorem Rule.declares_iff {r : Rule} : r.declares selector = true ↔
    ∃ e ∈ r.entries, e.text = selector := by
  simp [declares]

/-- **What is declared** is what rules list. -/
theorem mem_declared_iff_exists_rule {selectors : SelectorSet}
    (h : declared? text = .ok selectors) :
    selector ∈ selectors ↔ ∃ r ∈ closedRules text, r.declares selector = true := by
  have hclosed : ∀ r ∈ (Outline.ofText text).rules, r ∈ closedRules text :=
    fun r => mem_closedRules_of_accepted ⟨selectors, h⟩
  rw [← (declared?_eq_ok_iff.1 h).2, Outline.declared, SelectorSet.mem_ofList, List.mem_map]
  constructor
  · rintro ⟨e, he, htext⟩
    obtain ⟨r, hr, he⟩ := Outline.mem_entries.1 he
    exact ⟨r, hclosed r hr, Rule.declares_iff.2 ⟨e, he, htext⟩⟩
  · rintro ⟨r, hr, hdeclares⟩
    obtain ⟨e, he, htext⟩ := Rule.declares_iff.1 hdeclares
    exact ⟨e, Outline.mem_entries.2 ⟨r, (mem_closedRules.1 hr).1, he⟩, htext⟩

/-- **Selectors that an accepted stylesheet declares** are not removed for nothing. -/
theorem planRemoval_ne_nil {targets : SelectorSet} {text x : String}
    (haccepted : ∃ selectors, declared? text = .ok selectors) (hx : x ∈ targets)
    (hdeclared : x ∈ (Outline.ofText text).declared) : planRemoval targets text ≠ [] := by
  rw [Outline.declared, SelectorSet.mem_ofList] at hdeclared
  obtain ⟨e, he, rfl⟩ := List.mem_map.1 hdeclared
  obtain ⟨r, hr, he⟩ := Outline.mem_entries.1 he
  have hclosed : r ∈ closedRules text := mem_closedRules_of_accepted haccepted hr
  -- the rule is deleted, or its list is rewritten, or it goes with a rule around it
  rcases Rule.targeted_cases he hx with hfull | hpart
  · obtain ⟨s, hs, -⟩ := exists_deletion hclosed hfull
    exact List.ne_nil_of_mem (mem_planRemoval_iff.2 (.inl ⟨s, hs, rfl⟩))
  · by_cases hout : ∀ s ∈ locateAll targets text, s.contains r.prelude = false
    · exact List.ne_nil_of_mem (mem_planRemoval_iff.2 (.inr ⟨r, hclosed, hpart, hout, rfl⟩))
    · push Not at hout
      obtain ⟨s, hs, -⟩ := hout
      exact List.ne_nil_of_mem (mem_planRemoval_iff.2 (.inl ⟨s, hs, rfl⟩))

/-- **Locating agrees with declaring.** The matches of a selector are the closed rules that list it,
by position, each with blanks around it. In an accepted stylesheet every rule is closed, so a
selector is declared exactly when it has a match, and exactly when it has an occurrence; its
occurrences lie in its matches, and removing it changes something. -/
theorem locate_agrees (selector text : String) :
    List.Forall₂ (fun (r : Rule) (m : Span) =>
        m.contains ⟨r.prelude.start, r.block.stop⟩ = true ∧
        ∀ n, m.Covers n → (r.prelude.start ≤ n ∧ n < r.block.stop) ∨ BlankAt text.toList n)
      ((Outline.ofText text).rules.filter fun r => r.closed && r.declares selector)
      (locate selector text) ∧
    ((Outline.ofText text).rules.Pairwise fun a b => a.prelude.start < b.prelude.start) ∧
    ∀ selectors, declared? text = .ok selectors →
      (∀ r ∈ (Outline.ofText text).rules, r.closed = true) ∧
      (selector ∈ selectors ↔ locate selector text ≠ []) ∧
      (selector ∈ selectors ↔ occurrencesOf selector text ≠ []) ∧
      (∀ o ∈ occurrencesOf selector text, ∃ m ∈ locate selector text, m.contains o = true) ∧
      (selector ∈ selectors → planRemoval (.ofList [selector]) text ≠ []) := by
  refine ⟨forall₂_locate selector text, pairwise_prelude_start text, fun selectors h => ?_⟩
  have haccepted : ∃ selectors, declared? text = .ok selectors := ⟨selectors, h⟩
  have hclosed : ∀ r ∈ (Outline.ofText text).rules, r ∈ closedRules text :=
    fun r => mem_closedRules_of_accepted haccepted
  refine ⟨fun r hr => (mem_closedRules.1 (hclosed r hr)).2, ?_, ?_, fun o ho => ?_, fun hs => ?_⟩
  -- a closed rule that lists the selector is a match
  · rw [mem_declared_iff_exists_rule h]
    constructor
    · rintro ⟨r, hr, hdeclares⟩
      exact List.ne_nil_of_mem (mem_locate_iff.2 ⟨r, hr, hdeclares, rfl⟩)
    · intro hne
      obtain ⟨m, hm⟩ := List.exists_mem_of_ne_nil _ hne
      obtain ⟨r, hr, hdeclares, -⟩ := mem_locate_iff.1 hm
      exact ⟨r, hr, hdeclares⟩
  · rw [← (declared?_eq_ok_iff.1 h).2, Outline.declared, SelectorSet.mem_ofList, occurrencesOf,
      occurrences_eq_filter]
    simp [List.filter_eq_nil_iff]
  -- an occurrence is an entry, which lies in the extent of its rule
  · obtain ⟨r, hr, ⟨e, he, htext, rfl⟩, -⟩ := exists_rule_of_mem_occurrencesOf ho
    obtain ⟨p⟩ := placement_of_mem hr
    exact ⟨_, mem_locate_iff.2 ⟨r, hclosed r hr, Rule.declares_iff.2 ⟨e, he, htext⟩, rfl⟩,
      p.extent_contains_entry he⟩
  · rw [← (declared?_eq_ok_iff.1 h).2] at hs
    exact planRemoval_ne_nil haccepted (by simp) hs

/-- A selector of two rules, one inside the other and in a list. -/
theorem locate_agrees_nested :
    declared? ".a {  h1, .a {} }\n.b {}" = .ok (.ofList [".a", "h1", ".b"]) ∧
    locate ".a" ".a {  h1, .a {} }\n.b {}" = [⟨0, 18⟩, ⟨4, 15⟩] ∧
    occurrencesOf ".a" ".a {  h1, .a {} }\n.b {}" = [⟨0, 2⟩, ⟨10, 12⟩] ∧
    (".a" ∈ SelectorSet.ofList [".a", "h1", ".b"] ↔
      locate ".a" ".a {  h1, .a {} }\n.b {}" ≠ []) ∧
    planRemoval (.ofList [".a"]) ".a {  h1, .a {} }\n.b {}" ≠ [] := by
  have haccepted :
      declared? ".a {  h1, .a {} }\n.b {}" = .ok (.ofList [".a", "h1", ".b"]) := by
    rw [declared?_eq_ok_iff]
    refine ⟨by cbv, ?_⟩
    ext x
    have hentries : (Outline.ofText ".a {  h1, .a {} }\n.b {}").entries.map (·.text) =
        [".a", "h1", ".a", ".b"] := by cbv
    rw [Outline.declared, hentries]
    simp only [SelectorSet.mem_ofList, List.mem_cons, List.not_mem_nil, or_false]
    tauto
  obtain ⟨-, -, hagree⟩ := locate_agrees ".a" ".a {  h1, .a {} }\n.b {}"
  obtain ⟨-, hlocate, -, -, hplan⟩ := hagree _ haccepted
  exact ⟨haccepted, by cbv, by cbv, hlocate, hplan (by simp)⟩

end StyleAudit.Sheet
