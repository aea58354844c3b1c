import Mathlib
import StyleAudit.Proofs.Sheet.Nesting
import StyleAudit.Proofs.Text.Replay
import StyleAudit.Sheet.Removal

/-! # The edits of a removal

A plan deletes the extents of the rules that are targeted as a whole and rewrites the selector lists
of those that are targeted in part. That the two do not meet rests on how rules nest: a rule that
is outside a deleted one is kept apart from it by a brace, or by the first character of its own
selector list.

* **`mem_planRemoval_iff`** — the edits of a plan.
* **`Placement.extent_cases`** — where the extent of a rule lies relative to another rule.
* **`pairwise_planRemoval`** — edits are in order and apart.
* **`planRemoval_touches_targeted`** — a plan touches what is targeted, and nothing else.
* **`planRemoval_applies`** — a plan can be applied and leaves the other rules alone. -/

namespace StyleAudit.Sheet

open Text

/-! ## The extent of a rule and another rule -/

/-- **Where the extent of a rule lies** relative to a closed rule that is not inside it: before it,
after its opening brace and inside it, or after it. The blanks that go with the first rule must be
whitespace, since a selector may begin with any other blank. -/
theorem Placement.extent_cases {text : List Char} {f k : Rule} (p : Placement text f)
    (q : Placement text k) (hk : k.closed = true) (hprecedes : f.Precedes k ∨ k.Precedes f)
    (houtside : ¬ k.Within f)
    (htail : ∀ n c, At text n c → f.block.stop ≤ n → n < (extent text f).stop → isSpace c = true) :
    (extent text f).stop ≤ k.prelude.start ∨
      (k.block.start < (extent text f).start ∧
        (f.Within k ∨ k.block.stop ≤ (extent text f).start)) := by
  have hblock := q.block_start_lt
  rw [if_pos hk] at hblock
  -- the braces of `k` are no blanks
  have hbrace : k.block.start < f.prelude.start → k.block.start < (extent text f).start := by
    intro hlt
    by_contra hle
    exact absurd (p.isBlank_of_at_before q.at_brace (by omega) hlt) (by decide)
  have hclose : k.block.stop ≤ f.prelude.start → k.block.stop ≤ (extent text f).start := by
    intro hle
    by_contra hlt
    exact absurd (p.isBlank_of_at_before (q.at_close hk) (by omega) (by omega)) (by decide)
  rcases hprecedes with (hbefore | ⟨hstart, hstop, -⟩) | (hbefore | ⟨hstart, hstop, -⟩)
  · -- the first character of the list of `k` is no whitespace
    refine .inl ?_
    by_contra hlt
    obtain ⟨c, hat, hc⟩ := q.at_start
    rw [htail _ c hat hbefore (by omega)] at hc
    exact absurd hc (by decide)
  · exact absurd ⟨hstart, by omega⟩ houtside
  · exact .inr ⟨hbrace (by omega), .inr (hclose hbefore)⟩
  · rw [if_pos hk] at hstop
    exact .inr ⟨hbrace hstart, .inl ⟨hstart, by omega⟩⟩

/-! ## The edits of a plan -/

variable {targets : SelectorSet} {text : String}

/-- **The edits of a plan**: deletions, and the selector lists that no deletion holds, shortened. -/
theorem mem_planRemoval_iff {e : Edit} :
    e ∈ planRemoval targets text ↔
      (∃ s ∈ locateAll targets text, e = .delete s) ∨
        ∃ r ∈ closedRules text, r.partlyTargeted targets = true ∧
          (∀ s ∈ locateAll targets text, s.contains r.prelude = false) ∧
          e = shortenList text.toList r fun x => !decide (x ∈ targets) := by
  simp only [planRemoval, List.mem_mergeSort, List.mem_append, List.mem_map, List.mem_filter,
    Bool.and_eq_true, Bool.not_eq_true', List.any_eq_false, Bool.not_eq_true]
  constructor
  · rintro (⟨s, hs, rfl⟩ | ⟨r, ⟨hr, hpart, hout⟩, rfl⟩)
    · exact .inl ⟨s, hs, rfl⟩
    · exact .inr ⟨r, hr, hpart, hout, rfl⟩
  · rintro (⟨s, hs, rfl⟩ | ⟨r, hr, hpart, hout, rfl⟩)
    · exact .inl ⟨s, hs, rfl⟩
    · exact .inr ⟨r, ⟨hr, hpart, hout⟩, rfl⟩

/-- The deletions of a plan cover the extents of the rules that are targeted as a whole. -/
theorem covers_locateAll_iff {n : Nat} :
    (∃ s ∈ locateAll targets text, s.Covers n) ↔
      ∃ r ∈ closedRules text, r.fullyTargeted targets = true ∧
        (extent text.toList r).Covers n := by
  rw [locateAll, Span.covers_merge_iff]
  simp [and_assoc]

/-- The extent of a rule that is targeted as a whole lies in a deletion. -/
theorem exists_deletion {r : Rule} (hr : r ∈ closedRules text)
    (hfull : r.fullyTargeted targets = true) :
    ∃ s ∈ locateAll targets text, s.contains (extent text.toList r) = true := by
  refine Span.exists_contains_of_mem (List.mem_map_of_mem ?_)
  exact List.mem_filter.2 ⟨hr, hfull⟩

/-- The spans that a plan merges are extents. -/
theorem exists_rule_of_mem_extents {s : Span}
    (hs : s ∈ ((closedRules text).filter (·.fullyTargeted targets)).map (extent text.toList)) :
    ∃ r ∈ closedRules text, r.fullyTargeted targets = true ∧ extent text.toList r = s := by
  obtain ⟨r, hr, rfl⟩ := List.mem_map.1 hs
  obtain ⟨hr, hfull⟩ := List.mem_filter.1 hr
  exact ⟨r, hr, hfull, rfl⟩

/-- A deletion is not empty. -/
theorem start_lt_stop_of_mem_locateAll {s : Span} (hs : s ∈ locateAll targets text) :
    s.start < s.stop := by
  refine Span.start_lt_stop_of_mem_merge hs fun t ht => ?_
  obtain ⟨r, hr, -, rfl⟩ := exists_rule_of_mem_extents ht
  obtain ⟨p⟩ := placement_of_mem_closedRules hr
  have h₁ := p.extent_start_le
  have h₂ := p.start_lt_stop
  have h₃ := p.le_extent_stop
  omega

/-- A deletion cuts no character. -/
theorem isBoundary_of_mem_locateAll {s : Span} (hs : s ∈ locateAll targets text) :
    isBoundary s.start text.toList = true ∧ isBoundary s.stop text.toList = true := by
  obtain ⟨⟨t, ht, hstart⟩, u, hu, hstop⟩ := Span.ends_of_mem_merge hs
  obtain ⟨r, hr, -, rfl⟩ := exists_rule_of_mem_extents ht
  obtain ⟨r', hr', -, rfl⟩ := exists_rule_of_mem_extents hu
  obtain ⟨p⟩ := placement_of_mem_closedRules hr
  obtain ⟨p'⟩ := placement_of_mem_closedRules hr'
  rw [← hstart, ← hstop]
  exact ⟨p.isBoundary_extent.1, p'.isBoundary_extent.2⟩

/-- The selector list of a rule cuts no character. -/
theorem Placement.isBoundary_prelude {cs : List Char} {r : Rule} (p : Placement cs r) :
    isBoundary r.prelude.start cs = true ∧ isBoundary r.prelude.stop cs = true := by
  rw [p.prelude_eq]
  constructor
  · exact isBoundary_iff.2 ⟨p.before, _, p.text_eq, rfl⟩
  · refine isBoundary_iff.2
      ⟨p.before ++ p.list, p.gap ++ '{' :: (p.body ++ (p.close ++ p.after)), ?_, ?_⟩
    · refine p.text_eq.trans ?_
      simp
    · rw [byteSize_append]

/-- A boundary lies in the text. -/
theorem le_byteSize_of_isBoundary {n : Nat} {cs : List Char} (h : isBoundary n cs = true) :
    n ≤ byteSize cs := by
  obtain ⟨a, b, rfl, rfl⟩ := isBoundary_iff.1 h
  rw [byteSize_append]
  omega

/-- The spans of a plan are not empty. -/
theorem start_lt_stop_of_mem_planRemoval {e : Edit} (he : e ∈ planRemoval targets text) :
    e.span.start < e.span.stop := by
  rcases mem_planRemoval_iff.1 he with ⟨s, hs, rfl⟩ | ⟨r, hr, -, -, rfl⟩
  · exact start_lt_stop_of_mem_locateAll hs
  · obtain ⟨p⟩ := placement_of_mem_closedRules hr
    exact p.prelude_start_lt

/-- The edits of a plan fit the text. -/
theorem fits_of_mem_planRemoval {e : Edit} (he : e ∈ planRemoval targets text) :
    e.fits text.toList = true := by
  have hlt := start_lt_stop_of_mem_planRemoval he
  have hcut : isBoundary e.span.start text.toList = true ∧
      isBoundary e.span.stop text.toList = true := by
    rcases mem_planRemoval_iff.1 he with ⟨s, hs, rfl⟩ | ⟨r, hr, -, -, rfl⟩
    · exact isBoundary_of_mem_locateAll hs
    · obtain ⟨p⟩ := placement_of_mem_closedRules hr
      exact p.isBoundary_prelude
  simp [Edit.fits, hcut.1, hcut.2, hlt.le]

/-- The edits of a plan are sorted by start. -/
theorem sorted_planRemoval (targets : SelectorSet) (text : String) :
    (planRemoval targets text).Pairwise fun a b => a.span.start ≤ b.span.start := by
  rw [planRemoval]
  apply List.Pairwise.imp of_decide_eq_true
  apply List.pairwise_mergeSort
  · intro a b c hab hbc
    simp only [decide_eq_true_eq] at *
    omega
  · intro a b
    simp only [Bool.or_eq_true, decide_eq_true_eq]
    omega

/-! ## A plan touches what is targeted -/

/-- Every entry of a rule lies in its selector list. -/
theorem Placement.contains_entry {cs : List Char} {r : Rule} (p : Placement cs r) {x : Entry}
    (hx : x ∈ r.entries) : r.prelude.contains x.span = true := by
  obtain ⟨a, b, c, hlist, -, hspan⟩ := p.entry_cut x hx
  have hsize := congrArg byteSize hlist
  simp only [byteSize_append] at hsize
  rw [Span.contains_iff, hspan, p.prelude_eq]
  simp only
  omega

/-- A rule that is targeted in part has at least two entries, and what its list is joined by stands
between the first two. -/
theorem Rule.exists_separator {r : Rule} (h : r.partlyTargeted targets = true) (cs : List Char) :
    ∃ first second rest, r.entries = first :: second :: rest ∧
      separator cs r = slice first.span.stop second.span.start cs := by
  obtain ⟨⟨x, hx, hin⟩, y, hy, hout⟩ := partlyTargeted_iff.1 h
  cases hothers : r.others with
  | nil =>
      simp only [entries, hothers, List.mem_singleton] at hx hy
      rw [hx, ← hy] at hin
      exact absurd hin hout
  | cons second rest =>
      refine ⟨r.lead, second, rest, by rw [entries, hothers], ?_⟩
      rw [separator, hothers]

/-- An edit of a plan deletes bytes of rules that are targeted as a whole, and blanks, or it replaces
the selector list of a rule that is targeted in part. -/
theorem planRemoval_touches_targeted (targets : SelectorSet) (text : String) :
    (∀ e ∈ planRemoval targets text,
      (e.replacement = "" ∧ ∀ n, e.span.Covers n →
        (∃ r ∈ closedRules text, (∀ x ∈ r.entries, x.text ∈ targets) ∧
          r.prelude.start ≤ n ∧ n < r.block.stop) ∨ BlankAt text.toList n) ∨
      ∃ r ∈ closedRules text, (∃ x ∈ r.entries, x.text ∈ targets) ∧
        (∃ x ∈ r.entries, x.text ∉ targets) ∧ e.span = r.prelude ∧
        ∃ first second rest, r.entries = first :: second :: rest ∧
          e.replacement.toList =
            (slice first.span.stop second.span.start text.toList).intercalate
              ((r.entries.filter fun x => x.text ∉ targets).map fun x =>
                slice x.span.start x.span.stop text.toList)) ∧
    ∀ r ∈ closedRules text, ∀ x ∈ r.entries, x.text ∈ targets →
      ∃ e ∈ planRemoval targets text, e.span.contains x.span = true := by
  refine ⟨fun e he => ?_, fun r hr x hx htarget => ?_⟩
  · rcases mem_planRemoval_iff.1 he with ⟨s, hs, rfl⟩ | ⟨r, hr, hpart, -, rfl⟩
    · refine .inl ⟨rfl, fun n hn => ?_⟩
      obtain ⟨r, hr, hfull, hcovers⟩ := covers_locateAll_iff.1 ⟨s, hs, hn⟩
      obtain ⟨p⟩ := placement_of_mem_closedRules hr
      refine (p.blankAt_of_covers_extent hcovers).imp_left fun hspan => ?_
      exact ⟨r, hr, Rule.fullyTargeted_iff.1 hfull, hspan⟩
    · obtain ⟨hin, hout⟩ := Rule.partlyTargeted_iff.1 hpart
      obtain ⟨first, second, rest, hentries, hsep⟩ := Rule.exists_separator hpart text.toList
      refine .inr ⟨r, hr, hin, hout, rfl, first, second, rest, hentries, ?_⟩
      simp [shortenList, hsep]
  · obtain ⟨p⟩ := placement_of_mem_closedRules hr
    have hentry := Span.contains_iff.1 (p.contains_entry hx)
    -- a deletion that holds the selector list holds the entry
    have hdeleted : ∀ s ∈ locateAll targets text, s.contains r.prelude = true →
        ∃ e ∈ planRemoval targets text, e.span.contains x.span = true := by
      intro s hs hcontains
      have hcontains := Span.contains_iff.1 hcontains
      refine ⟨.delete s, mem_planRemoval_iff.2 (.inl ⟨s, hs, rfl⟩), ?_⟩
      exact Span.contains_iff.2 ⟨by simp only [Edit.delete]; omega, by simp only [Edit.delete]; omega⟩
    rcases Rule.targeted_cases hx htarget with hfull | hpart
    · obtain ⟨s, hs, hcontains⟩ := exists_deletion hr hfull
      have hcontains := Span.contains_iff.1 hcontains
      have hstart := p.extent_start_le
      have hmid := p.prelude_stop_le
      have hblock := p.block_start_lt
      have hstop := p.le_extent_stop
      exact hdeleted s hs (Span.contains_iff.2 ⟨by omega, by omega⟩)
    · by_cases hin : ∃ s ∈ locateAll targets text, s.contains r.prelude = true
      · obtain ⟨s, hs, hcontains⟩ := hin
        exact hdeleted s hs hcontains
      · push Not at hin
        refine ⟨_, mem_planRemoval_iff.2 (.inr ⟨r, hr, hpart, fun s hs => ?_, rfl⟩),
          p.contains_entry hx⟩
        exact Bool.eq_false_of_not_eq_true (hin s hs)

/-! ## A plan can be applied -/

/-- Two spans that are not empty and share no offset lie one after the other. -/
theorem apart_of_not_covers {s t : Span} (hs : s.start < s.stop) (ht : t.start < t.stop)
    (h : ∀ n, s.Covers n → ¬ t.Covers n) : s.stop ≤ t.start ∨ t.stop ≤ s.start := by
  by_contra hmeet
  push Not at hmeet
  have hcommon := h (max s.start t.start)
  simp only [Span.Covers] at hcommon
  omega

/-- The selector lists of two rules lie one after the other. -/
theorem Rule.Precedes.prelude_stop_le {cs : List Char} {a b : Rule} (h : a.Precedes b)
    (p : Placement cs a) : a.prelude.stop ≤ b.prelude.start := by
  have h₁ := p.prelude_stop_le
  have h₂ := p.block_start_lt
  rcases h with h | ⟨h, -, -⟩ <;> omega

/-- A rule that no deletion holds is outside of every rule that is targeted as a whole. -/
theorem not_within_of_contains_eq_false {f r : Rule} (hf : f ∈ closedRules text)
    (hfull : f.fullyTargeted targets = true) (hr : r ∈ closedRules text)
    (hout : ∀ s ∈ locateAll targets text, s.contains r.prelude = false) : ¬ r.Within f := by
  rintro ⟨hstart, hstop⟩
  obtain ⟨s, hs, hcontains⟩ := exists_deletion hf hfull
  obtain ⟨p⟩ := placement_of_mem_closedRules hf
  obtain ⟨q⟩ := placement_of_mem_closedRules hr
  have hcontains := Span.contains_iff.1 hcontains
  have h₁ := p.extent_start_le
  have h₂ := p.le_extent_stop
  have h₃ := p.prelude_start_lt
  have h₄ := p.prelude_stop_le
  have h₅ := q.prelude_stop_le
  have h₆ := q.block_start_lt
  have hin : s.contains r.prelude = true := Span.contains_iff.2 ⟨by omega, by omega⟩
  rw [hout s hs] at hin
  exact absurd hin (by decide)

/-- The deletions of a plan cover the extents of the exposed rules that are targeted as a whole: the
extent of a rule inside of another one lies in the block of that one. -/
theorem covers_locateAll_iff_exposed {n : Nat} :
    (∃ s ∈ locateAll targets text, s.Covers n) ↔
      ∃ r ∈ exposed targets (closedRules text), r.fullyTargeted targets = true ∧
        (extent text.toList r).Covers n := by
  rw [covers_locateAll_iff]
  constructor
  · rintro ⟨f, hf, hfull, hlow, hhigh⟩
    obtain ⟨g, hg, hgfull, rfl | hwithin⟩ := exists_exposed hf hfull
    · exact ⟨f, hg, hfull, hlow, hhigh⟩
    · have hg' := (mem_exposed_iff.1 hg).1
      obtain ⟨p⟩ := placement_of_mem_closedRules hf
      obtain ⟨q⟩ := placement_of_mem_closedRules hg'
      -- the rule around it is deleted, block and all
      have hblock := p.extent_subset_block q (mem_closedRules.1 hg').2 hwithin.1
        (hwithin.lt hf hg').2
      have h₁ := q.extent_start_le
      have h₂ := q.le_extent_stop
      have h₃ := q.prelude_start_lt
      have h₄ := q.prelude_stop_le
      exact ⟨g, hg, hgfull, by omega, by omega⟩
  · rintro ⟨f, hf, hfull, hcovers⟩
    exact ⟨f, (mem_exposed_iff.1 hf).1, hfull, hcovers⟩

/-- The blanks after the rules that are deleted, as far as they go with them, are whitespace. -/
def SpacesAfter (targets : SelectorSet) (text : String) : Prop :=
  ∀ f ∈ exposed targets (closedRules text), f.fullyTargeted targets = true →
    ∀ n c, At text.toList n c → f.block.stop ≤ n → n < (extent text.toList f).stop →
      isSpace c = true

/-- Where no deletion takes more than whitespace, deletions stay clear of a rule outside of them up
to its opening brace. -/
theorem not_covers_of_spacesAfter (hspaces : SpacesAfter targets text) {s : Span} {k : Rule}
    (hs : s ∈ locateAll targets text) (hk : k ∈ closedRules text)
    (hkeep : k.fullyTargeted targets = false)
    (hout : ∀ f ∈ closedRules text, f.fullyTargeted targets = true → ¬ k.Within f) {n : Nat}
    (hn : s.Covers n) :
    n < k.prelude.start ∨ (k.block.start < n ∧ ((∃ f ∈ closedRules text,
      f.fullyTargeted targets = true ∧ f.Within k) ∨ k.block.stop ≤ n)) := by
  obtain ⟨f, hf, hfull, hlow, hhigh⟩ := covers_locateAll_iff_exposed.1 ⟨s, hs, hn⟩
  have hf' := (mem_exposed_iff.1 hf).1
  obtain ⟨p⟩ := placement_of_mem_closedRules hf'
  obtain ⟨q⟩ := placement_of_mem_closedRules hk
  -- the rule whose deletion covers the offset is another one
  have hne : f ≠ k := by
    rintro rfl
    rw [hfull] at hkeep
    exact absurd hkeep (by decide)
  rcases p.extent_cases q (mem_closedRules.1 hk).2 (precedes_of_mem hf' hk hne) (hout f hf' hfull)
    (hspaces f hf hfull) with hbefore | ⟨hbrace, hwithin | hafter⟩
  · exact .inl (by omega)
  · exact .inr ⟨by omega, .inl ⟨f, hf', hfull, hwithin⟩⟩
  · exact .inr ⟨by omega, .inr (by omega)⟩

/-- **The edits of a plan lie one after the other** where no deletion takes more than whitespace. -/
theorem pairwise_planRemoval (hspaces : SpacesAfter targets text) :
    (planRemoval targets text).Pairwise fun a b => a.span.stop ≤ b.span.start := by
  -- two edits are apart whatever their order in the plan
  have hapart : (planRemoval targets text).Pairwise fun a b =>
      a.span.stop ≤ b.span.start ∨ b.span.stop ≤ a.span.start := by
    rw [planRemoval, (List.mergeSort_perm _ _).pairwise_iff (fun h => h.symm), List.pairwise_append]
    refine ⟨?_, ?_, ?_⟩
    · rw [List.pairwise_map]
      exact (Span.pairwise_merge _).imp fun h => .inl h.le
    · rw [List.pairwise_map]
      have horder := (region_ofText text).precedes.filter (·.closed)
      refine ((horder.imp_of_mem fun {a b} ha _ h => .inl ?_).filter _)
      obtain ⟨p⟩ := placement_of_mem (List.mem_filter.1 ha).1
      exact h.prelude_stop_le p
    · intro a ha b hb
      obtain ⟨s, hs, rfl⟩ := List.mem_map.1 ha
      obtain ⟨r, hr, rfl⟩ := List.mem_map.1 hb
      obtain ⟨hr, hpart⟩ := List.mem_filter.1 hr
      simp only [Bool.and_eq_true, Bool.not_eq_true', List.any_eq_false, Bool.not_eq_true] at hpart
      obtain ⟨q⟩ := placement_of_mem_closedRules hr
      refine apart_of_not_covers (start_lt_stop_of_mem_locateAll hs) q.prelude_start_lt
        fun n hn hcovers => ?_
      have hclear := not_covers_of_spacesAfter hspaces hs hr (Rule.fullyTargeted_eq_false hpart.1)
        (fun f hf hfull => not_within_of_contains_eq_false hf hfull hr hpart.2) hn
      have hmid := q.prelude_stop_le
      have hcovers : r.prelude.start ≤ n ∧ n < r.prelude.stop := hcovers
      omega
  refine (hapart.and (sorted_planRemoval targets text)).imp_of_mem fun {a b} ha hb h => ?_
  have hlt := start_lt_stop_of_mem_planRemoval hb
  omega

/-- Where every blank of a text is whitespace, a deletion takes no more than whitespace. -/
theorem spacesAfter_of_blanks
    (hblank : ∀ c ∈ text.toList, isBlank c = true → isSpace c = true) :
    SpacesAfter targets text := by
  intro f hf _ n c hat hlow hhigh
  obtain ⟨p⟩ := placement_of_mem_closedRules (mem_exposed_iff.1 hf).1
  refine hblank c ?_ (p.isBlank_of_at_after hat hlow hhigh)
  obtain ⟨a, b, htext, -⟩ := hat
  rw [htext]
  simp

/-- A plan whose edits lie one after the other is replayed. -/
theorem applyAll_planRemoval (hspaces : SpacesAfter targets text) :
    Edit.applyAll (planRemoval targets text) text =
      .ok (String.ofList (Edit.replay (planRemoval targets text) 0 text.toList)) :=
  Edit.applyAll_eq_replay (pairwise_planRemoval hspaces)
    (fun _ => start_lt_stop_of_mem_planRemoval) fun _ => fits_of_mem_planRemoval

/-- Edits that fit a text are never out of its bounds. -/
theorem applyAll_ne_outOfBounds {edits : List Edit} (hfits : ∀ e ∈ edits, e.fits text.toList = true)
    (span : Span) (size : Nat) : Edit.applyAll edits text ≠ .error (.outOfBounds span size) := by
  have hfind : (edits.mergeSort fun a b => Span.le a.span b.span).find?
      (fun e => !e.fits text.toList) = none := by
    rw [List.find?_eq_none]
    intro e he
    simp [hfits e (List.mem_mergeSort.1 he)]
  simp only [Edit.applyAll, hfind]
  split <;> simp

/-- **A plan can be applied and leaves the other rules alone.** Its edits are sorted and fit the
text, and where every blank of the text is whitespace they lie one after the other and reach into
no closed rule that is outside of the deleted ones and has nothing targeted in it. -/
theorem planRemoval_applies (targets : SelectorSet) (text : String) :
    (planRemoval targets text).Pairwise (fun a b => a.span.start ≤ b.span.start) ∧
    (∀ e ∈ planRemoval targets text, e.span.start ≤ e.span.stop ∧
      e.span.stop ≤ byteSize text.toList ∧ isBoundary e.span.start text.toList = true ∧
      isBoundary e.span.stop text.toList = true) ∧
    (∀ span size,
      Edit.applyAll (planRemoval targets text) text ≠ .error (.outOfBounds span size)) ∧
    ((∀ c ∈ text.toList, isBlank c = true → c ∈ [' ', '\t', '\n', '\r', '\x0c']) →
      (planRemoval targets text).Pairwise (fun a b => a.span.stop ≤ b.span.start) ∧
      (∃ edited, Edit.applyAll (planRemoval targets text) text = .ok edited) ∧
      ∀ k ∈ closedRules text, (∀ x ∈ k.entries, x.text ∉ targets) →
        (∀ f ∈ closedRules text, (∀ x ∈ f.entries, x.text ∈ targets) → ¬ k.Within f) →
        (∀ f ∈ closedRules text, f.Within k → ∀ x ∈ f.entries, x.text ∉ targets) →
        ∀ e ∈ planRemoval targets text, ∀ n, e.span.Covers n →
          ¬ (k.prelude.start ≤ n ∧ n < k.block.stop)) := by
  refine ⟨sorted_planRemoval targets text, fun e he => ?_,
    applyAll_ne_outOfBounds fun _ => fits_of_mem_planRemoval, fun hblank => ?_⟩
  · have hfits := fits_of_mem_planRemoval he
    simp only [Edit.fits, Bool.and_eq_true, decide_eq_true_eq] at hfits
    exact ⟨hfits.1.1, le_byteSize_of_isBoundary hfits.2, hfits.1.2, hfits.2⟩
  · have hspaces : SpacesAfter targets text := by
      refine spacesAfter_of_blanks fun c hc hb => ?_
      have := hblank c hc hb
      simp only [List.mem_cons, List.not_mem_nil, or_false] at this
      rcases this with rfl | rfl | rfl | rfl | rfl <;> decide
    refine ⟨pairwise_planRemoval hspaces, ⟨_, applyAll_planRemoval hspaces⟩, ?_⟩
    rintro k hk hnone hout hclean e he n hn ⟨hlow, hhigh⟩
    have hkeep : k.fullyTargeted targets = false := by
      rw [← Bool.not_eq_true, Rule.fullyTargeted_iff]
      exact fun h => hnone k.lead (by simp [Rule.entries]) (h k.lead (by simp [Rule.entries]))
    rcases mem_planRemoval_iff.1 he with ⟨s, hs, rfl⟩ | ⟨r, hr, hpart, -, rfl⟩
    · have hclear := not_covers_of_spacesAfter hspaces hs hk hkeep
        (fun f hf hfull => hout f hf (Rule.fullyTargeted_iff.1 hfull)) hn
      rcases hclear with h | ⟨-, ⟨f, hf, hfull, hwithin⟩ | h⟩
      · omega
      · exact hclean f hf hwithin f.lead (by simp [Rule.entries])
          (Rule.fullyTargeted_iff.1 hfull f.lead (by simp [Rule.entries]))
      · omega
    · -- a selector list that is rewritten is that of a rule before, around, after or inside `k`
      obtain ⟨⟨x, hx, htarget⟩, -⟩ := Rule.partlyTargeted_iff.1 hpart
      obtain ⟨p⟩ := placement_of_mem_closedRules hr
      have hcovers : r.prelude.start ≤ n ∧ n < r.prelude.stop := hn
      have hne : r ≠ k := by
        rintro rfl
        exact hnone x hx htarget
      rcases precedes_of_mem hr hk hne with h | h | ⟨hstart, hstop, -⟩
      · have := h.prelude_stop_le p
        omega
      · omega
      · rw [if_pos (mem_closedRules.1 hk).2] at hstop
        exact hclean r hr ⟨hstart, by omega⟩ x hx htarget

/-- The plan for `.a` and `.d` deletes one rule, shortens a list, and leaves the rule between
them alone. -/
theorem planRemoval_applies_between :
    (∀ c ∈ ".a {}\n.b {}\n.c, .d {}".toList,
      isBlank c = true → c ∈ [' ', '\t', '\n', '\r', '\x0c']) ∧
    ⟨⟨".b", ⟨6, 8⟩⟩, [], ⟨9, 11⟩, true, 0⟩ ∈ closedRules ".a {}\n.b {}\n.c, .d {}" ∧
    planRemoval (.ofList [".a", ".d"]) ".a {}\n.b {}\n.c, .d {}" =
      [⟨⟨0, 6⟩, ""⟩, ⟨⟨12, 18⟩, ".c"⟩] ∧
    ∀ e ∈ planRemoval (.ofList [".a", ".d"]) ".a {}\n.b {}\n.c, .d {}", ∀ n, e.span.Covers n →
      ¬ (6 ≤ n ∧ n < 11) := by
  have hblank : ∀ c ∈ ".a {}\n.b {}\n.c, .d {}".toList, isBlank c = true →
      c ∈ [' ', '\t', '\n', '\r', '\x0c'] := by
    have hall : (".a {}\n.b {}\n.c, .d {}".toList.all fun c =>
        !isBlank c || decide (c ∈ [' ', '\t', '\n', '\r', '\x0c'])) = true := by cbv
    intro c hc hb
    have hc := List.all_eq_true.1 hall c hc
    rw [hb, Bool.not_true, Bool.false_or] at hc
    exact of_decide_eq_true hc
  have hrules : closedRules ".a {}\n.b {}\n.c, .d {}" =
      [⟨⟨".a", ⟨0, 2⟩⟩, [], ⟨3, 5⟩, true, 0⟩, ⟨⟨".b", ⟨6, 8⟩⟩, [], ⟨9, 11⟩, true, 0⟩,
        ⟨⟨".c", ⟨12, 14⟩⟩, [⟨".d", ⟨16, 18⟩⟩], ⟨19, 21⟩, true, 0⟩] := by cbv
  have hkeep := (planRemoval_applies (.ofList [".a", ".d"]) ".a {}\n.b {}\n.c, .d {}").2.2.2 hblank
  rw [hrules] at hkeep ⊢
  refine ⟨hblank, by simp, by cbv, ?_⟩
  exact hkeep.2.2 ⟨⟨".b", ⟨6, 8⟩⟩, [], ⟨9, 11⟩, true, 0⟩ (by simp) (by decide +kernel)
    (by decide +kernel) (by decide +kernel)

end StyleAudit.Sheet
