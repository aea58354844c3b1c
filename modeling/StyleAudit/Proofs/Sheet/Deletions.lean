import Mathlib
import StyleAudit.Proofs.Sheet.Layout
import StyleAudit.Proofs.Sheet.Removal

/-! # The deletions of a removal

What a removal deletes is given by two functions: the merged extents of the rules that are targeted
as a whole, and the edits of the plan that write nothing. They agree, because a selector list that
is rewritten keeps an entry and is never written as nothing.

* **`shortenList_ne_empty`** — a rewritten selector list is not empty.
* **`exists_contains_locateAll`** — more targets delete more.
* **`filter_planRemoval`** — the edits of a plan that write nothing.
* **`locateAll_canonical`** — the deletions as the canonical cover of the extents. -/

namespace StyleAudit.Sheet

open Text

variable {targets : SelectorSet} {text : String}

/-! ## Selector lists are never rewritten to nothing -/

/-- The source of an entry is not empty. -/
theorem Placement.slice_entry_ne_nil {cs : List Char} {r : Rule} (p : Placement cs r) {e : Entry}
    (he : e ∈ r.entries) : slice e.span.start e.span.stop cs ≠ [] := by
  obtain ⟨a, b, c, hlist, hb, hspan⟩ := p.entry_cut e he
  obtain ⟨tail, htail⟩ : ∃ tail, cs = p.before ++ a ++ (b ++ tail) := by
    refine ⟨c ++ (p.gap ++ '{' :: (p.body ++ (p.close ++ p.after))), ?_⟩
    refine p.text_eq.trans ?_
    rw [hlist]
    simp only [List.append_assoc]
  have hcut := slice_append (p.before ++ a) b tail
  rw [← htail, byteSize_append] at hcut
  rw [hspan, hcut]
  exact hb

/-- A list of texts that are put together is empty only if all of them are. -/
theorem intercalate_ne_nil (sep : List Char) {x : List Char} {xs : List (List Char)} (hx : x ∈ xs)
    (hne : x ≠ []) : sep.intercalate xs ≠ [] := by
  induction xs with
  | nil => cases hx
  | cons y ys ih =>
      cases ys with
      | nil =>
          rw [List.mem_singleton.1 hx] at hne
          simpa using hne
      | cons z zs =>
          rw [List.intercalate_cons_cons]
          rcases List.mem_cons.1 hx with rfl | hx
          · simp [hne]
          · simp [ih hx]

/-- **A selector list that keeps an entry** is not rewritten to nothing. -/
theorem shortenList_ne_empty {r : Rule} (hr : r ∈ closedRules text) {keep : String → Bool}
    {e : Entry}
    (he : e ∈ r.entries) (hkeep : keep e.text = true) :
    (shortenList text.toList r keep).replacement ≠ "" := by
  obtain ⟨p⟩ := placement_of_mem_closedRules hr
  have hmem : slice e.span.start e.span.stop text.toList ∈
      (r.entries.filter (keep ·.text)).map fun e => slice e.span.start e.span.stop text.toList :=
    List.mem_map_of_mem (List.mem_filter.2 ⟨he, hkeep⟩)
  intro hempty
  refine intercalate_ne_nil (separator text.toList r) hmem (p.slice_entry_ne_nil he) ?_
  simpa [shortenList] using congrArg String.toList hempty

/-! ## Deletions -/

/-- More targets make more rules targeted as a whole. -/
theorem Rule.fullyTargeted_mono {r : Rule} {targets' : SelectorSet}
    (hsub : ∀ x, x ∈ targets → x ∈ targets') (h : r.fullyTargeted targets = true) :
    r.fullyTargeted targets' = true :=
  fullyTargeted_iff.2 fun e he => hsub e.text (fullyTargeted_iff.1 h e he)

/-- **More targets delete more**: every deletion lies within one of the larger plan. -/
theorem exists_contains_locateAll {targets' : SelectorSet}
    (hsub : ∀ x, x ∈ targets → x ∈ targets') {s : Span} (hs : s ∈ locateAll targets text) :
    ∃ t ∈ locateAll targets' text, t.contains s = true := by
  refine Span.exists_contains_of_covers (start_lt_stop_of_mem_locateAll hs) (Span.pairwise_merge _)
    fun n hn => ?_
  obtain ⟨r, hr, hfull, hcover⟩ := covers_locateAll_iff.1 ⟨s, hs, hn⟩
  exact covers_locateAll_iff.2 ⟨r, hr, Rule.fullyTargeted_mono hsub hfull, hcover⟩

/-- **The edits of a plan that write nothing** are its deletions, in order. -/
theorem filter_planRemoval (targets : SelectorSet) (text : String) :
    (planRemoval targets text).filter (·.replacement = "") =
      (locateAll targets text).map Edit.delete := by
  have hdeletions : ((locateAll targets text).map Edit.delete).Pairwise
      fun a b => a.span.start < b.span.start := by
    rw [List.pairwise_map]
    refine (Span.pairwise_merge _).imp_of_mem fun {s t} hs _ hgap => ?_
    have hne : s.start < s.stop := start_lt_stop_of_mem_locateAll hs
    simp only [Edit.delete]
    omega
  have hperm : ((planRemoval targets text).filter (·.replacement = "")).Perm
      ((locateAll targets text).map Edit.delete) := by
    refine ((List.mergeSort_perm _ _).filter _).trans ?_
    rw [List.filter_append, List.filter_eq_self.2, List.filter_eq_nil_iff.2, List.append_nil]
    · intro e he
      obtain ⟨r, hr, rfl⟩ := List.mem_map.1 he
      obtain ⟨hr, hpart⟩ := List.mem_filter.1 hr
      obtain ⟨-, y, hy, hout⟩ := Rule.partlyTargeted_iff.1 (Bool.and_eq_true_iff.1 hpart).1
      simpa using shortenList_ne_empty hr hy (by simpa using hout)
    · intro e he
      obtain ⟨s, -, rfl⟩ := List.mem_map.1 he
      simp [Edit.delete]
  refine List.Perm.eq_of_pairwise (fun a b ha hb hab hba => ?_)
    ((sorted_planRemoval targets text).filter _) (hdeletions.imp Nat.le_of_lt) hperm
  -- deletions that begin at one place are the same
  by_contra hne
  have hsymm : (locateAll targets text).map Edit.delete |>.Pairwise
      fun a b => a.span.start ≠ b.span.start := hdeletions.imp Nat.ne_of_lt
  have : Std.Symm fun a b : Edit => a.span.start ≠ b.span.start := ⟨fun _ _ => Ne.symm⟩
  exact hsymm.forall (hperm.mem_iff.1 ha) hb hne (Nat.le_antisymm hab hba)

/-- **The deletions are the canonical cover of the extents.** They fit the text and are separated by
gaps; they cover the offsets of the extents of the closed rules that are targeted as a whole; more
targets delete more; and they are the edits of the plan that write nothing. -/
theorem locateAll_canonical (targets : SelectorSet) (text : String) :
    (∀ s ∈ locateAll targets text, s.start < s.stop ∧ s.stop ≤ byteSize text.toList ∧
      isBoundary s.start text.toList = true ∧ isBoundary s.stop text.toList = true) ∧
    ((locateAll targets text).Pairwise fun s t => s.stop < t.start) ∧
    (∀ n, (∃ s ∈ locateAll targets text, s.Covers n) ↔
      ∃ r ∈ (Outline.ofText text).rules, r.closed = true ∧ (∀ e ∈ r.entries, e.text ∈ targets) ∧
        (extent text.toList r).Covers n) ∧
    (∀ targets', (∀ x, x ∈ targets → x ∈ targets') →
      ∀ s ∈ locateAll targets text, ∃ t ∈ locateAll targets' text, t.contains s = true) ∧
    ((planRemoval targets text).filter (·.replacement = "")).map (·.span) =
      locateAll targets text := by
  refine ⟨fun s hs => ?_, Span.pairwise_merge _, fun n => ?_,
    fun targets' hsub s hs => exists_contains_locateAll hsub hs, ?_⟩
  · obtain ⟨hstart, hstop⟩ := isBoundary_of_mem_locateAll hs
    exact ⟨start_lt_stop_of_mem_locateAll hs, le_byteSize_of_isBoundary hstop, hstart, hstop⟩
  · rw [covers_locateAll_iff]
    simp only [mem_closedRules, Rule.fullyTargeted_iff, and_assoc]
  · rw [filter_planRemoval, List.map_map]
    exact List.map_id _

/-- With the rule around it targeted as well, the deletion of a nested rule lies within that of the
outer one, which touches the deletion before it. -/
theorem locateAll_canonical_nested :
    (∀ x, x ∈ SelectorSet.ofList [".a"] → x ∈ SelectorSet.ofList [".a", ".b"]) ∧
    locateAll (.ofList [".a"]) ".a {}\n.b { .a {} }\n.c, .a {}" = [⟨0, 6⟩, ⟨10, 16⟩] ∧
    locateAll (.ofList [".a", ".b"]) ".a {}\n.b { .a {} }\n.c, .a {}" = [⟨0, 19⟩] ∧
    ∀ s ∈ [(⟨0, 6⟩ : Span), ⟨10, 16⟩], ∃ t ∈ [(⟨0, 19⟩ : Span)], t.contains s = true := by
  have hsub : ∀ x, x ∈ SelectorSet.ofList [".a"] → x ∈ SelectorSet.ofList [".a", ".b"] := by
    intro x hx
    simp only [SelectorSet.mem_ofList, List.mem_cons, List.not_mem_nil, or_false] at hx ⊢
    exact .inl hx
  have hone : locateAll (.ofList [".a"]) ".a {}\n.b { .a {} }\n.c, .a {}" = [⟨0, 6⟩, ⟨10, 16⟩] := by
    cbv
  have htwo : locateAll (.ofList [".a", ".b"]) ".a {}\n.b { .a {} }\n.c, .a {}" = [⟨0, 19⟩] := by
    cbv
  refine ⟨hsub, hone, htwo, ?_⟩
  have hmono := (locateAll_canonical (.ofList [".a"]) ".a {}\n.b { .a {} }\n.c, .a {}").2.2.2.1
    (.ofList [".a", ".b"]) hsub
  rwa [hone, htwo] at hmono

end StyleAudit.Sheet
