import Mathlib
import StyleAudit.Proofs.Sheet.Faults
import StyleAudit.Proofs.Sheet.Layout

/-! # Removing a selector where it is pointed at

The rule that a removal edits is looked for by its extent: the first rule that declares the selector
and whose extent holds the place. That is the rule of the place unless an earlier one reaches over
it. An earlier rule does when it declares the selector too and holds the rule in its block, or when
the blanks that go with it run into a selector that is made of blanks.

* **`exists_rule_of_mem_occurrencesOf`** — the one rule of an occurrence.
* **`Rule.Precedes.not_contains`** — an earlier rule that stands apart does not reach the place.
* **`planSingleRemoval_edits_pointed_rule`** — the edit concerns the rule of the occurrence.
* **`planSingleRemoval_takes_outer_rule`** — with the same selector around it, it does not. -/

namespace StyleAudit.Sheet

open Text

variable {selector text : String}

/-! ## The rule of an occurrence -/

/-- Rules of an outline that have an entry at the same place are the same. -/
theorem eq_of_entry_span {f r : Rule} (hf : f ∈ (Outline.ofText text).rules)
    (hr : r ∈ (Outline.ofText text).rules) {d e : Entry} (hd : d ∈ f.entries) (he : e ∈ r.entries)
    (hspan : d.span = e.span) : f = r := by
  by_contra hne
  obtain ⟨p⟩ := placement_of_mem hf
  obtain ⟨q⟩ := placement_of_mem hr
  have hd' := Span.contains_iff.1 (p.contains_entry hd)
  have he' := Span.contains_iff.1 (q.contains_entry he)
  have hlt := (q.isBoundary_entry he).1
  obtain ⟨i, hi, rfl⟩ := List.getElem_of_mem hf
  obtain ⟨j, hj, rfl⟩ := List.getElem_of_mem hr
  have horder := List.pairwise_iff_getElem.1 (region_ofText text).precedes
  rw [hspan] at hd'
  rcases Nat.lt_trichotomy i j with hij | rfl | hij
  · have := (horder i j hi hj hij).prelude_stop_le p
    omega
  · exact hne rfl
  · have := (horder j i hj hi hij).prelude_stop_le q
    omega

/-- **An occurrence is an entry of one rule.** -/
theorem exists_rule_of_mem_occurrencesOf {o : Span} (ho : o ∈ occurrencesOf selector text) :
    ∃ r ∈ (Outline.ofText text).rules, (∃ e ∈ r.entries, e.text = selector ∧ e.span = o) ∧
      ∀ f ∈ (Outline.ofText text).rules, (∃ e ∈ f.entries, e.span = o) → f = r := by
  rw [occurrencesOf, occurrences_eq_filter] at ho
  obtain ⟨e, he, rfl⟩ := List.mem_map.1 ho
  obtain ⟨he, htext⟩ := List.mem_filter.1 he
  obtain ⟨r, hr, he⟩ := Outline.mem_entries.1 he
  refine ⟨r, hr, ⟨e, he, by simpa using htext, rfl⟩, ?_⟩
  rintro f hf ⟨d, hd, hspan⟩
  exact eq_of_entry_span hf hr hd he hspan

/-! ## Which rule is found -/

/-- The blanks after the rules that declare a selector, as far as they go with them, are
whitespace. -/
def SpacesAfterDeclaring (selector text : String) : Prop :=
  ∀ f ∈ closedRules text, f.declares selector = true →
    ∀ n c, At text.toList n c → f.block.stop ≤ n → n < (extent text.toList f).stop →
      isSpace c = true

/-- It is so in a text without other blanks than whitespace. -/
theorem spacesAfterDeclaring_of_blanks
    (hblank : ∀ c ∈ text.toList, isBlank c = true → isSpace c = true) :
    SpacesAfterDeclaring selector text := by
  intro f hf _ n c hat hlow hhigh
  obtain ⟨p⟩ := placement_of_mem_closedRules hf
  refine hblank c ?_ (p.isBlank_of_at_after hat hlow hhigh)
  obtain ⟨a, b, htext, -⟩ := hat
  rw [htext]
  simp

/-- **An earlier rule that stands apart** does not reach over the entries of a later one. -/
theorem Rule.Precedes.not_contains {f r : Rule} (h : f.Precedes r) (hout : ¬ r.Within f)
    (q : Placement text.toList r) {e : Entry} (he : e ∈ r.entries)
    (htail : ∀ n c, At text.toList n c → f.block.stop ≤ n → n < (extent text.toList f).stop →
      isSpace c = true) :
    (extent text.toList f).contains e.span = false := by
  by_contra hcontains
  rw [Bool.not_eq_false, Span.contains_iff] at hcontains
  rcases h with hbefore | ⟨hstart, hstop, -⟩
  · -- the list of the later rule would begin with whitespace
    have hentry := Span.contains_iff.1 (q.contains_entry he)
    have hlt := (q.isBoundary_entry he).1
    obtain ⟨c, hat, hc⟩ := q.at_start
    rw [htail _ c hat hbefore (by omega)] at hc
    exact absurd hc (by decide)
  · exact hout ⟨hstart, by omega⟩

/-- The extent of a rule holds its entries. -/
theorem Placement.extent_contains_entry {r : Rule} (p : Placement text.toList r) {e : Entry}
    (he : e ∈ r.entries) : (extent text.toList r).contains e.span = true := by
  have hentry := Span.contains_iff.1 (p.contains_entry he)
  have h₁ := p.extent_start_le
  have h₂ := p.le_extent_stop
  have h₃ := p.prelude_stop_le
  have h₄ := p.block_start_lt
  rw [Span.contains_iff]
  omega

/-- The edit that removes a selector from a rule. -/
def singleEdit (selector : String) (text : List Char) (r : Rule) : Edit :=
  if r.entries.all (·.text == selector) then .delete (extent text r)
  else shortenList text r (· != selector)

/-- **The rule of an entry is found** when the rules before it do not reach over the entry. -/
theorem planSingleRemoval_eq {r : Rule} (hr : r ∈ closedRules text) {e : Entry}
    (he : e ∈ r.entries) (htext : e.text = selector)
    (hout : ∀ f ∈ closedRules text, f.declares selector = true → ¬ r.Within f)
    (hspaces : SpacesAfterDeclaring selector text) :
    planSingleRemoval selector text e.span = [singleEdit selector text.toList r] := by
  obtain ⟨p⟩ := placement_of_mem_closedRules hr
  have hdeclares : r.declares selector = true := List.any_eq_true.2 ⟨e, he, by simpa using htext⟩
  have hfind : (closedRules text).find? (fun f =>
      f.declares selector && (extent text.toList f).contains e.span) = some r := by
    obtain ⟨before, after, hsplit⟩ := List.append_of_mem hr
    have horder : (closedRules text).Pairwise Rule.Precedes :=
      (region_ofText text).precedes.filter _
    rw [hsplit, List.pairwise_append] at horder
    rw [hsplit, List.find?_append, List.find?_cons_of_pos, Option.or_eq_some_iff]
    · refine .inr ⟨List.find?_eq_none.2 fun f hf => ?_, rfl⟩
      have hf' : f ∈ closedRules text := hsplit ▸ List.mem_append_left _ hf
      rw [Bool.and_eq_true, not_and]
      intro hfd
      have hprecedes := horder.2.2 f hf r List.mem_cons_self
      rw [hprecedes.not_contains (hout f hf' hfd) p he (hspaces f hf' hfd)]
      exact Bool.false_ne_true
    · rw [hdeclares, p.extent_contains_entry he]
      rfl
  simp only [planSingleRemoval, hfind, singleEdit]
  split <;> rfl

/-! ## What the edit leaves alone -/

/-- The edit of a rule stays clear of the selector lists of the rules outside of it. -/
theorem singleEdit_apart {f r : Rule} (hf : f ∈ closedRules text) (hr : r ∈ closedRules text)
    (hne : f ≠ r) (hout : ¬ f.Within r)
    (htail : ∀ n c, At text.toList n c → r.block.stop ≤ n → n < (extent text.toList r).stop →
      isSpace c = true) :
    (singleEdit selector text.toList r).span.stop ≤ f.prelude.start ∨
      f.prelude.stop ≤ (singleEdit selector text.toList r).span.start := by
  obtain ⟨p⟩ := placement_of_mem_closedRules hf
  obtain ⟨q⟩ := placement_of_mem_closedRules hr
  have hprecedes := precedes_of_mem hr hf (Ne.symm hne)
  rw [singleEdit]
  split
  · have h := p.prelude_stop_le
    rcases q.extent_cases p (mem_closedRules.1 hf).2 hprecedes hout htail with h' | ⟨h', -⟩
    · exact .inl h'
    · exact .inr (by simp only [Edit.delete]; omega)
  · rcases hprecedes with h | h
    · exact .inl (h.prelude_stop_le q)
    · exact .inr (h.prelude_stop_le p)

/-- **The edit concerns the rule that was pointed at.** An occurrence in an accepted stylesheet is an
entry of one rule. If no rule that declares the selector holds that one in its block, and the blanks
that go with such rules are whitespace, then the plan is the edit of that rule alone: its deletion
when all its entries are the selector, and its selector list without the selector otherwise. The
selector lists of the other rules, as far as they do not stand in its block, are left alone. -/
theorem planSingleRemoval_edits_pointed_rule {o : Span}
    (haccepted : ∃ selectors, declared? text = .ok selectors)
    (ho : o ∈ occurrencesOf selector text) :
    ∃ r ∈ (Outline.ofText text).rules, (∃ e ∈ r.entries, e.text = selector ∧ e.span = o) ∧
      (∀ f ∈ (Outline.ofText text).rules, (∃ e ∈ f.entries, e.span = o) → f = r) ∧
      ((∀ f ∈ (Outline.ofText text).rules, f.declares selector = true → ¬ r.Within f) →
        SpacesAfterDeclaring selector text →
        planSingleRemoval selector text o =
            [if r.entries.all (·.text == selector) then .delete (extent text.toList r)
              else shortenList text.toList r (· != selector)] ∧
          ∀ f ∈ (Outline.ofText text).rules, f ≠ r → ¬ f.Within r →
            ∀ edit ∈ planSingleRemoval selector text o,
              edit.span.stop ≤ f.prelude.start ∨ f.prelude.stop ≤ edit.span.start) := by
  obtain ⟨r, hr, ⟨e, he, htext, rfl⟩, hunique⟩ := exists_rule_of_mem_occurrencesOf ho
  have hclosed := mem_closedRules_of_accepted haccepted hr
  refine ⟨r, hr, ⟨e, he, htext, rfl⟩, hunique, fun hout hspaces => ?_⟩
  have hplan := planSingleRemoval_eq hclosed he htext
    (fun f hf => hout f (mem_closedRules.1 hf).1) hspaces
  refine ⟨hplan, fun f hf hne hwithin edit hedit => ?_⟩
  rw [hplan, List.mem_singleton] at hedit
  subst hedit
  have hdeclares : r.declares selector = true := List.any_eq_true.2 ⟨e, he, by simpa using htext⟩
  exact singleEdit_apart (mem_closedRules_of_accepted haccepted hf) hclosed hne hwithin
    (hspaces r hclosed hdeclares)

/-- The second `.a` of a sheet is taken out of its list, and the rule of the first one is left
alone. -/
theorem planSingleRemoval_second_occurrence :
    (∃ selectors, declared? ".a {}\n.b, .a { .c {} }" = .ok selectors) ∧
    ⟨10, 12⟩ ∈ occurrencesOf ".a" ".a {}\n.b, .a { .c {} }" ∧
    SpacesAfterDeclaring ".a" ".a {}\n.b, .a { .c {} }" ∧
    planSingleRemoval ".a" ".a {}\n.b, .a { .c {} }" ⟨10, 12⟩ = [⟨⟨6, 12⟩, ".b"⟩] ∧
    ∀ edit ∈ planSingleRemoval ".a" ".a {}\n.b, .a { .c {} }" ⟨10, 12⟩,
      edit.span.stop ≤ 0 ∨ 2 ≤ edit.span.start := by
  have hrules : (Outline.ofText ".a {}\n.b, .a { .c {} }").rules =
      [⟨⟨".a", ⟨0, 2⟩⟩, [], ⟨3, 5⟩, true, 0⟩,
        ⟨⟨".b", ⟨6, 8⟩⟩, [⟨".a", ⟨10, 12⟩⟩], ⟨13, 22⟩, true, 0⟩,
        ⟨⟨".c", ⟨15, 17⟩⟩, [], ⟨18, 20⟩, true, 1⟩] := by cbv
  have haccepted : ∃ selectors, declared? ".a {}\n.b, .a { .c {} }" = .ok selectors :=
    exists_declared?_iff.2 (by cbv)
  have ho : ⟨10, 12⟩ ∈ occurrencesOf ".a" ".a {}\n.b, .a { .c {} }" := by
    have heq : occurrencesOf ".a" ".a {}\n.b, .a { .c {} }" = [⟨0, 2⟩, ⟨10, 12⟩] := by cbv
    simp [heq]
  have hspaces : SpacesAfterDeclaring ".a" ".a {}\n.b, .a { .c {} }" := by
    refine spacesAfterDeclaring_of_blanks fun c hc hblank => ?_
    have hall : (".a {}\n.b, .a { .c {} }".toList.all fun c => !isBlank c || isSpace c) = true := by
      cbv
    have hc := List.all_eq_true.1 hall c hc
    rwa [hblank, Bool.not_true, Bool.false_or] at hc
  obtain ⟨r, hr, -, hunique, hplan⟩ := planSingleRemoval_edits_pointed_rule haccepted ho
  rw [hrules] at hunique hplan
  have hr := hunique ⟨⟨".b", ⟨6, 8⟩⟩, [⟨".a", ⟨10, 12⟩⟩], ⟨13, 22⟩, true, 0⟩ (by simp)
    ⟨⟨".a", ⟨10, 12⟩⟩, by simp [Rule.entries], rfl⟩
  subst hr
  obtain ⟨-, happart⟩ := hplan (by decide +kernel) hspaces
  refine ⟨haccepted, ho, hspaces, by cbv, fun edit hedit => ?_⟩
  exact happart ⟨⟨".a", ⟨0, 2⟩⟩, [], ⟨3, 5⟩, true, 0⟩ (by simp) (by decide +kernel)
    (by decide +kernel) edit hedit

/-- **With the same selector around it, the rule that is pointed at is not the one that is edited.**
The inner one of two nested rules is pointed at, and the outer one is deleted. -/
theorem planSingleRemoval_takes_outer_rule :
    (∃ selectors, declared? ".a { .a {} }" = .ok selectors) ∧
    (Outline.ofText ".a { .a {} }").rules =
      [⟨⟨".a", ⟨0, 2⟩⟩, [], ⟨3, 12⟩, true, 0⟩, ⟨⟨".a", ⟨5, 7⟩⟩, [], ⟨8, 10⟩, true, 1⟩] ∧
    occurrencesOf ".a" ".a { .a {} }" = [⟨0, 2⟩, ⟨5, 7⟩] ∧
    extent ".a { .a {} }".toList ⟨⟨".a", ⟨5, 7⟩⟩, [], ⟨8, 10⟩, true, 1⟩ = ⟨4, 10⟩ ∧
    planSingleRemoval ".a" ".a { .a {} }" ⟨5, 7⟩ = [.delete ⟨0, 12⟩] := by
  refine ⟨exists_declared?_iff.2 (by cbv), by cbv, by cbv, by cbv, by cbv⟩

end StyleAudit.Sheet
