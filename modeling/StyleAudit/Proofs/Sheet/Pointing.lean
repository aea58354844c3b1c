import Mathlib
import StyleAudit.Proofs.Sheet.Deletions
import StyleAudit.Proofs.Sheet.Locating
import StyleAudit.Proofs.Sheet.Outcome
import StyleAudit.Proofs.Sheet.SingleRemoval
import StyleAudit.Proofs.Text.Splicing

/-! # Single removals, locating and plans

The rule that a single removal edits, the match that a place is located at and the rules of a plan
are looked for in three ways. The first two find the same rule for every place, in or out of the
text, and whatever the stylesheet looks like. The edit of that rule stays in the match, so it can
always be applied; and it is the whole plan for the selector when no other rule lists the selector.

* **`extent_injOn`** — closed rules with the same extent are the same.
* **`pointedRule?`** — the rule that both queries find.
* **`planRemoval_singleton`** — the plan for a selector that one rule lists.
* **`planSingleRemoval_agrees`** — single removals agree with locating and with plans. -/

namespace StyleAudit.Sheet

open Text

variable {selector text : String} {target : Span}

/-! ## Extents tell rules apart -/

/-- Of two closed rules, the earlier one has another extent: either its closing brace or the opening
one keeps the extent of the later one away. -/
theorem Rule.Precedes.extent_ne {f r : Rule} (h : f.Precedes r) (hf : f ∈ closedRules text)
    (hr : r ∈ closedRules text) : extent text.toList f ≠ extent text.toList r := by
  obtain ⟨p⟩ := placement_of_mem_closedRules hf
  obtain ⟨q⟩ := placement_of_mem_closedRules hr
  have hstart := p.extent_start_le
  have hlist := p.prelude_start_lt
  have hgap := p.prelude_stop_le
  have hlater := h.block_start_lt_extent p q
  intro heq
  rw [← heq] at hlater
  omega

/-- **Closed rules with the same extent** are the same. -/
theorem extent_injOn {f r : Rule} (hf : f ∈ closedRules text) (hr : r ∈ closedRules text)
    (heq : extent text.toList f = extent text.toList r) : f = r := by
  by_contra hne
  rcases precedes_of_mem hf hr hne with h | h
  · exact h.extent_ne hf hr heq
  · exact h.extent_ne hr hf heq.symm

/-! ## The rule of a place -/

/-- The first closed rule that lists `selector` and whose extent holds `target`. -/
def pointedRule? (selector text : String) (target : Span) : Option Rule :=
  (closedRules text).find? fun r => r.declares selector && (extent text.toList r).contains target

/-- The rule of a place is a closed one that lists the selector. -/
theorem mem_of_pointedRule? {r : Rule} (h : pointedRule? selector text target = some r) :
    r ∈ closedRules text ∧ r.declares selector = true := by
  rw [pointedRule?] at h
  have hfound := List.find?_some h
  exact ⟨List.mem_of_find?_eq_some h, (Bool.and_eq_true_iff.1 hfound).1⟩

/-- A place is located at the extent of its rule. -/
theorem locateAt?_eq (selector text : String) (target : Span) :
    locateAt? selector text target =
      (pointedRule? selector text target).map (extent text.toList) := by
  have hfilter : (fun r : Rule => decide (r.declares selector = true ∧
      ((·.contains target) ∘ extent text.toList) r = true)) =
        fun r => r.declares selector && (extent text.toList r).contains target := by
    funext r
    rw [Bool.decide_and, Bool.decide_eq_true, Bool.decide_eq_true]
    rfl
  rw [locateAt?, locate, Outline.locate, List.find?_map, List.find?_filter, hfilter]
  rfl

/-- A single removal edits the rule of its place. -/
theorem planSingleRemoval_eq_pointed (selector text : String) (target : Span) :
    planSingleRemoval selector text target =
      ((pointedRule? selector text target).map (singleEdit selector text.toList)).toList := by
  rw [planSingleRemoval, ← pointedRule?]
  cases pointedRule? selector text target with
  | none => rfl
  | some r =>
      simp only [singleEdit, Option.map_some, Option.toList_some]
      split <;> rfl

/-! ## The edit of a rule -/

section Edit

variable {r : Rule}

/-- Every entry is the selector, as the deletion of a rule asks for. -/
theorem Rule.all_entries_iff : r.entries.all (·.text == selector) = true ↔
    ∀ e ∈ r.entries, e.text = selector := by
  simp

/-- The edit of a rule deletes it exactly when every entry of its list is the selector: a list that
keeps an entry is not rewritten to nothing. -/
theorem singleEdit_eq_delete_iff (hr : r ∈ closedRules text) :
    singleEdit selector text.toList r = .delete (extent text.toList r) ↔
      ∀ e ∈ r.entries, e.text = selector := by
  rw [singleEdit, ← Rule.all_entries_iff]
  split
  · rename_i hall
    exact iff_of_true rfl hall
  · rename_i hall
    refine iff_of_false (fun heq => ?_) hall
    rw [Rule.all_entries_iff] at hall
    push Not at hall
    obtain ⟨e, he, hother⟩ := hall
    exact shortenList_ne_empty hr he (by simpa using hother) (congrArg Edit.replacement heq)

/-- The edit of a rule stays in its extent. -/
theorem extent_contains_singleEdit (p : Placement text.toList r) :
    (extent text.toList r).contains (singleEdit selector text.toList r).span = true := by
  rw [singleEdit]
  split
  · exact Span.contains_iff.2 ⟨Nat.le_refl _, Nat.le_refl _⟩
  · have hstart := p.extent_start_le
    have hgap := p.prelude_stop_le
    have hblock := p.block_start_lt
    have hstop := p.le_extent_stop
    exact Span.contains_iff.2 ⟨hstart, by simp only [shortenList]; omega⟩

/-- The edit of a rule fits the text. -/
theorem fits_singleEdit (p : Placement text.toList r) :
    (singleEdit selector text.toList r).fits text.toList = true := by
  have hlist := p.prelude_start_lt
  have hextent : (extent text.toList r).start ≤ (extent text.toList r).stop := by
    have := p.extent_start_le
    have := p.start_lt_stop
    have := p.le_extent_stop
    omega
  rw [singleEdit]
  split
  · simp [Edit.fits, Edit.delete, hextent, p.isBoundary_extent]
  · simp [Edit.fits, shortenList, hlist.le, p.isBoundary_prelude]

end Edit

/-- **An edit that fits leaves alone what is outside** of a span that holds its own. -/
theorem exists_applyAll_outside {e : Edit} {s : Span} (he : e.fits text.toList = true)
    (hs : s.FitsIn text.toList) (hcontains : s.contains e.span = true) :
    ∃ a m b m', text.toList = a ++ (m ++ b) ∧ byteSize a = s.start ∧
      byteSize a + byteSize m = s.stop ∧
      Edit.applyAll [e] text = .ok (String.ofList (a ++ (m' ++ b))) := by
  obtain ⟨hstart, hstop⟩ := Span.contains_iff.1 hcontains
  obtain ⟨a, m, b, htext, ha, hm⟩ :=
    Edit.exists_cuts_of_fits (e := .delete s) (Edit.fits_iff.2 hs)
  obtain ⟨x, cut, y, hxy, hx, hcut⟩ := Edit.exists_cuts_of_fits he
  simp only [Edit.delete] at ha hm
  -- the cuts of the edit lie between those of the span
  obtain ⟨k, rfl, hk⟩ := exists_append_of_byteSize_le (htext.symm.trans hxy) (by omega)
  rw [byteSize_append] at hx hcut
  have hk' : (k ++ cut) ++ y = m ++ b := by
    rw [hk, List.append_assoc]
  obtain ⟨l, rfl, rfl⟩ := exists_append_of_byteSize_le hk' (by rw [byteSize_append]; omega)
  refine ⟨a, (k ++ cut) ++ l, b, k ++ (e.replacement.toList ++ l), htext, ha, hm, ?_⟩
  rw [Edit.applyAll_singleton he, hxy, Edit.replaceOne_append]
  · simp
  · obtain ⟨⟨start, stop⟩, replacement⟩ := e
    simp only [byteSize_append, Span.mk.injEq] at hx hcut ⊢
    omega

/-! ## The plan for a selector that one rule lists -/

/-- The rules of an outline are different from each other. -/
theorem nodup_closedRules (text : String) : (closedRules text).Nodup :=
  ((pairwise_prelude_start text).filter _).imp fun {a b} hlt => by
    rintro rfl
    exact absurd hlt (Nat.lt_irrefl _)

/-- The only rule that has a property is what a filter leaves. -/
theorem filter_closedRules_eq_singleton {r : Rule} {p : Rule → Bool} (hr : r ∈ closedRules text)
    (hp : p r = true) (honly : ∀ f ∈ closedRules text, p f = true → f = r) :
    (closedRules text).filter p = [r] := by
  refine List.perm_singleton.1 ((List.perm_ext_iff_of_nodup ((nodup_closedRules text).filter p)
    (List.nodup_singleton r)).2 fun f => ?_)
  rw [List.mem_filter, List.mem_singleton]
  constructor
  · rintro ⟨hf, hpf⟩
    exact honly f hf hpf
  · rintro rfl
    exact ⟨hr, hp⟩

/-- A rule that a plan for one selector concerns lists the selector. -/
theorem Rule.declares_of_targeted {f : Rule}
    (h : f.fullyTargeted (.ofList [selector]) = true ∨
      f.partlyTargeted (.ofList [selector]) = true) :
    f.declares selector = true := by
  have hmem : ∀ x, x ∈ SelectorSet.ofList [selector] → x = selector := by simp
  rcases h with h | h
  · have hlead : f.lead ∈ f.entries := by simp [entries]
    exact declares_iff.2 ⟨f.lead, hlead, hmem _ (fullyTargeted_iff.1 h f.lead hlead)⟩
  · obtain ⟨⟨e, he, hin⟩, -⟩ := partlyTargeted_iff.1 h
    exact declares_iff.2 ⟨e, he, hmem _ hin⟩

/-- **The plan for a selector that one rule lists** is the edit of that rule. -/
theorem planRemoval_singleton {r : Rule} (hr : r ∈ closedRules text)
    (hdeclares : r.declares selector = true)
    (honly : ∀ f ∈ closedRules text, f.declares selector = true → f = r) :
    planRemoval (.ofList [selector]) text = [singleEdit selector text.toList r] := by
  have hfull : r.fullyTargeted (.ofList [selector]) = r.entries.all (·.text == selector) := by
    rw [Bool.eq_iff_iff, Rule.fullyTargeted_iff, Rule.all_entries_iff]
    simp
  have hkeep : (fun x => !decide (x ∈ SelectorSet.ofList [selector])) = (· != selector) := by
    funext x
    simp [bne, beq_eq_decide]
  by_cases hall : r.entries.all (·.text == selector) = true
  · -- the rule is deleted, and no list is rewritten
    have hdeleted : locateAll (.ofList [selector]) text = [extent text.toList r] := by
      rw [locateAll, filter_closedRules_eq_singleton hr (hfull.trans hall) fun f hf h =>
        honly f hf (Rule.declares_of_targeted (.inl h))]
      simp [Span.merge, Span.mergeInto]
    have hnone : ∀ deletions : List Span, (closedRules text).filter (fun f =>
        f.partlyTargeted (.ofList [selector]) && !deletions.any (·.contains f.prelude)) = [] := by
      intro deletions
      refine List.filter_eq_nil_iff.2 fun f hf h => ?_
      have hpart := (Bool.and_eq_true_iff.1 h).1
      rw [honly f hf (Rule.declares_of_targeted (.inr hpart))] at hpart
      have hnot := Rule.fullyTargeted_eq_false hpart
      rw [hfull, hall] at hnot
      exact absurd hnot (by decide)
    simp only [planRemoval, hnone, hdeleted, singleEdit, if_pos hall, List.map_nil, List.map_cons,
      List.append_nil, List.mergeSort_singleton]
  · -- nothing is deleted, and the list of the rule is rewritten
    have hdeleted : locateAll (.ofList [selector]) text = [] := by
      have hnone : (closedRules text).filter (·.fullyTargeted (.ofList [selector])) = [] := by
        refine List.filter_eq_nil_iff.2 fun f hf h => ?_
        rw [honly f hf (Rule.declares_of_targeted (.inl h)), hfull] at h
        exact hall h
      rw [locateAll, hnone]
      simp [Span.merge]
    have hpart : r.partlyTargeted (.ofList [selector]) = true := by
      obtain ⟨e, he, htext⟩ := Rule.declares_iff.1 hdeclares
      refine (Rule.targeted_cases he (by simp [htext])).resolve_left fun h => hall ?_
      rwa [hfull] at h
    have hone : (closedRules text).filter (fun f =>
        f.partlyTargeted (.ofList [selector]) && !([] : List Span).any (·.contains f.prelude)) =
          [r] := by
      refine filter_closedRules_eq_singleton hr (by simp [hpart]) fun f hf h => ?_
      exact honly f hf (Rule.declares_of_targeted (.inr (Bool.and_eq_true_iff.1 h).1))
    simp only [planRemoval, hone, hkeep, hdeleted, singleEdit, if_neg hall, List.map_nil,
      List.map_cons, List.nil_append, List.mergeSort_singleton]

/-- **Single removals agree with locating and with plans.** Nothing is edited exactly when the place
is located nowhere. Otherwise there is one edit, which concerns the rule whose extent was located:
it lies in the extent and is its deletion exactly when the selector is all that the rule lists; it
can be applied and leaves everything outside of the extent as it is; and it is the whole plan for
the selector if no other closed rule lists it. -/
theorem planSingleRemoval_agrees (selector text : String) (target : Span) :
    (planSingleRemoval selector text target = [] ↔ locateAt? selector text target = none) ∧
    ∀ found, locateAt? selector text target = some found →
      ∃ r ∈ closedRules text, r.declares selector = true ∧ extent text.toList r = found ∧
        (∀ f ∈ closedRules text, extent text.toList f = found → f = r) ∧
        ∃ edit, planSingleRemoval selector text target = [edit] ∧
          found.contains edit.span = true ∧
          (edit.span = found ∧ edit.replacement = "" ↔ ∀ e ∈ r.entries, e.text = selector) ∧
          (∃ a m b m', text.toList = a ++ (m ++ b) ∧ byteSize a = found.start ∧
            byteSize a + byteSize m = found.stop ∧
            Edit.applyAll (planSingleRemoval selector text target) text =
              .ok (String.ofList (a ++ (m' ++ b)))) ∧
          ((∀ f ∈ closedRules text, f.declares selector = true → f = r) →
            planSingleRemoval selector text target = planRemoval (.ofList [selector]) text) := by
  rw [planSingleRemoval_eq_pointed, locateAt?_eq]
  cases hpointed : pointedRule? selector text target with
  | none => simp
  | some r =>
      obtain ⟨hr, hdeclares⟩ := mem_of_pointedRule? hpointed
      obtain ⟨p⟩ := placement_of_mem_closedRules hr
      refine ⟨by simp, fun found hfound => ?_⟩
      obtain rfl : extent text.toList r = found := by simpa using hfound
      -- the extent fits the text, so what is outside of it can be told apart
      have hboundary := p.isBoundary_extent
      have hfits : (extent text.toList r).FitsIn text.toList := by
        have := p.extent_start_le
        have := p.start_lt_stop
        have := p.le_extent_stop
        exact ⟨by omega, le_byteSize_of_isBoundary hboundary.2, hboundary.1, hboundary.2⟩
      refine ⟨r, hr, hdeclares, rfl, fun f hf heq => extent_injOn hf hr heq,
        singleEdit selector text.toList r, rfl, extent_contains_singleEdit p, ?_,
        exists_applyAll_outside (fits_singleEdit p) hfits (extent_contains_singleEdit p),
        fun honly => (planRemoval_singleton hr hdeclares honly).symm⟩
      rw [← singleEdit_eq_delete_iff hr, Edit.delete, Edit.mk.injEq]

/-- A place in the block of a rule that lists the selector with another one, and no place of the
text at all. -/
theorem planSingleRemoval_agrees_in_list :
    locateAt? ".a" ".a, .b { .c {} }" ⟨10, 12⟩ = some ⟨0, 16⟩ ∧
    planSingleRemoval ".a" ".a, .b { .c {} }" ⟨10, 12⟩ = [⟨⟨0, 6⟩, ".b"⟩] ∧
    planSingleRemoval ".a" ".a, .b { .c {} }" ⟨10, 12⟩ =
      planRemoval (.ofList [".a"]) ".a, .b { .c {} }" ∧
    planSingleRemoval ".a" ".a, .b { .c {} }" ⟨90, 99⟩ = [] := by
  have hrules : closedRules ".a, .b { .c {} }" =
      [⟨⟨".a", ⟨0, 2⟩⟩, [⟨".b", ⟨4, 6⟩⟩], ⟨7, 16⟩, true, 0⟩,
        ⟨⟨".c", ⟨9, 11⟩⟩, [], ⟨12, 14⟩, true, 1⟩] := by cbv
  have hfound : locateAt? ".a" ".a, .b { .c {} }" ⟨10, 12⟩ = some ⟨0, 16⟩ := by cbv
  obtain ⟨r, hr, hdeclares, -, -, -, -, -, -, -, hplan⟩ :=
    (planSingleRemoval_agrees ".a" ".a, .b { .c {} }" ⟨10, 12⟩).2 _ hfound
  have hone : ∀ f ∈ closedRules ".a, .b { .c {} }", f.declares ".a" = true →
      f = ⟨⟨".a", ⟨0, 2⟩⟩, [⟨".b", ⟨4, 6⟩⟩], ⟨7, 16⟩, true, 0⟩ := by
    rw [hrules]
    decide +kernel
  refine ⟨hfound, by cbv, hplan fun f hf h => ?_, ?_⟩
  · rw [hone f hf h, hone r hr hdeclares]
  · rw [(planSingleRemoval_agrees ".a" ".a, .b { .c {} }" ⟨90, 99⟩).1]
    cbv

end StyleAudit.Sheet
