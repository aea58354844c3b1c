import Mathlib
import StyleAudit.Proofs.Sheet.Extent

/-! # Nested rules

Deleting a rule deletes the rules in its block with it, so what a removal does to a text is decided
by the rules outside of every deleted one. This file singles them out, and says how the list of them
is put together from the parts of a text.

* **`Rule.Within a b`** — `a` stands in the block of `b`.
* **`exposed targets rules`** — the rules outside of every rule that is targeted as a whole.
* **`exists_exposed`** — a rule that is targeted as a whole is exposed, or inside an exposed one.
* **`exposed_append`, `exposed_cons`** — the exposed rules of parts side by side, and of a rule with
  its body. -/

namespace StyleAudit.Sheet

open Text

/-! ## Rules of a text -/

/-- `a` stands in the block of `b`. -/
def Rule.Within (a b : Rule) : Prop :=
  b.block.start < a.prelude.start ∧ a.block.stop ≤ b.block.stop

instance (a b : Rule) : Decidable (a.Within b) :=
  inferInstanceAs (Decidable (b.block.start < a.prelude.start ∧ a.block.stop ≤ b.block.stop))

/-- A closed rule is a rule. -/
theorem mem_closedRules {text : String} {r : Rule} :
    r ∈ closedRules text ↔ r ∈ (Outline.ofText text).rules ∧ r.closed = true := by
  simp [closedRules, Outline.closedRules]

/-- Every rule of an outline is laid out in its text. -/
theorem placement_of_mem {text : String} {r : Rule} (h : r ∈ (Outline.ofText text).rules) :
    Nonempty (Placement text.toList r) :=
  (region_ofText text).placed r h

/-- Every closed rule of an outline is laid out in its text. -/
theorem placement_of_mem_closedRules {text : String} {r : Rule} (h : r ∈ closedRules text) :
    Nonempty (Placement text.toList r) :=
  placement_of_mem (mem_closedRules.1 h).1

/-- Of two closed rules of an outline, one precedes the other. -/
theorem precedes_of_mem {text : String} {a b : Rule} (ha : a ∈ closedRules text)
    (hb : b ∈ closedRules text) (hne : a ≠ b) : a.Precedes b ∨ b.Precedes a := by
  obtain ⟨i, hi, rfl⟩ := List.getElem_of_mem (mem_closedRules.1 ha).1
  obtain ⟨j, hj, rfl⟩ := List.getElem_of_mem (mem_closedRules.1 hb).1
  have horder := List.pairwise_iff_getElem.1 (region_ofText text).precedes
  rcases Nat.lt_trichotomy i j with hlt | rfl | hlt
  · exact .inl (horder i j hi hj hlt)
  · exact absurd rfl hne
  · exact .inr (horder j i hj hi hlt)

/-- A rule in the block of a closed one begins after it and ends before its closing brace. -/
theorem Rule.Within.lt {text : String} {a b : Rule} (h : a.Within b) (ha : a ∈ closedRules text)
    (hb : b ∈ closedRules text) :
    b.prelude.start < a.prelude.start ∧ a.block.stop < b.block.stop := by
  obtain ⟨p⟩ := placement_of_mem_closedRules ha
  obtain ⟨q⟩ := placement_of_mem_closedRules hb
  have h₁ := p.start_lt_stop
  have h₂ := q.prelude_start_lt
  have h₃ := q.prelude_stop_le
  have h₄ := q.block_start_lt
  obtain ⟨hstart, hstop⟩ := h
  have hne : a ≠ b := by
    rintro rfl
    omega
  refine ⟨by omega, ?_⟩
  rcases precedes_of_mem ha hb hne with (h | ⟨h, -, -⟩) | (h | ⟨-, h, -⟩)
  · omega
  · have h₅ := p.prelude_start_lt
    have h₆ := p.prelude_stop_le
    omega
  · omega
  · rw [if_pos (mem_closedRules.1 hb).2] at h
    omega

/-- Nesting is transitive. -/
theorem Rule.Within.trans {text : String} {a b c : Rule} (hab : a.Within b) (hbc : b.Within c)
    (ha : a ∈ closedRules text) (hb : b ∈ closedRules text) : a.Within c := by
  obtain ⟨hstart, -⟩ := hab.lt ha hb
  obtain ⟨-, hstop⟩ := hab
  exact ⟨by have := hbc.1; omega, by have := hbc.2; omega⟩

/-! ## Targeted rules -/

/-- A rule that is targeted in part has an entry that is targeted and one that is not. -/
theorem Rule.partlyTargeted_iff {r : Rule} {targets : SelectorSet} :
    r.partlyTargeted targets = true ↔
      (∃ x ∈ r.entries, x.text ∈ targets) ∧ ∃ x ∈ r.entries, x.text ∉ targets := by
  simp only [partlyTargeted, fullyTargeted, Bool.and_eq_true, Bool.not_eq_true',
    List.all_eq_false, List.any_eq_true, decide_eq_true_eq]
  exact and_comm

/-- A rule is targeted as a whole when every entry is targeted. -/
theorem Rule.fullyTargeted_iff {r : Rule} {targets : SelectorSet} :
    r.fullyTargeted targets = true ↔ ∀ x ∈ r.entries, x.text ∈ targets := by
  simp [fullyTargeted]

/-- A rule that is targeted in part is not targeted as a whole. -/
theorem Rule.fullyTargeted_eq_false {r : Rule} {targets : SelectorSet}
    (h : r.partlyTargeted targets = true) : r.fullyTargeted targets = false := by
  simp only [partlyTargeted, Bool.and_eq_true, Bool.not_eq_true'] at h
  exact h.1

/-- A rule with an entry that is targeted is targeted as a whole or in part. -/
theorem Rule.targeted_cases {r : Rule} {targets : SelectorSet} {x : Entry} (hx : x ∈ r.entries)
    (h : x.text ∈ targets) : r.fullyTargeted targets = true ∨ r.partlyTargeted targets = true := by
  by_cases hall : ∀ y ∈ r.entries, y.text ∈ targets
  · exact .inl (fullyTargeted_iff.2 hall)
  · push Not at hall
    exact .inr (partlyTargeted_iff.2 ⟨⟨x, hx, h⟩, hall⟩)

/-! ## Exposed rules -/

/-- Some rule of the list is targeted as a whole and holds `r` in its block. -/
def Rule.hidden (targets : SelectorSet) (rules : List Rule) (r : Rule) : Bool :=
  rules.any fun f => f.fullyTargeted targets && decide (r.Within f)

/-- The rules of a list outside of every one that is targeted as a whole. -/
def exposed (targets : SelectorSet) (rules : List Rule) : List Rule :=
  rules.filter fun r => !r.hidden targets rules

variable {targets : SelectorSet}

/-- A rule is not hidden when it is outside of every rule that is targeted as a whole. -/
theorem Rule.hidden_eq_false_iff {rules : List Rule} {r : Rule} :
    r.hidden targets rules = false ↔
      ∀ f ∈ rules, f.fullyTargeted targets = true → ¬ r.Within f := by
  simp [hidden]

/-- The exposed rules of a list. -/
theorem mem_exposed_iff {rules : List Rule} {r : Rule} :
    r ∈ exposed targets rules ↔
      r ∈ rules ∧ ∀ f ∈ rules, f.fullyTargeted targets = true → ¬ r.Within f := by
  rw [exposed, List.mem_filter, Bool.not_eq_true', Rule.hidden_eq_false_iff]

/-- Rules are hidden alike by lists whose other rules do not hold them. -/
theorem Rule.hidden_append {as bs : List Rule} {r : Rule} :
    r.hidden targets (as ++ bs) = (r.hidden targets as || r.hidden targets bs) := by
  simp [hidden]

/-- **Parts side by side** expose what each of them exposes. -/
theorem exposed_append {as bs : List Rule}
    (hab : ∀ a ∈ as, ∀ b ∈ bs, ¬ a.Within b ∧ ¬ b.Within a) :
    exposed targets (as ++ bs) = exposed targets as ++ exposed targets bs := by
  rw [exposed, List.filter_append]
  congr 1
  · refine List.filter_congr fun a ha => ?_
    have hout : a.hidden targets bs = false :=
      Rule.hidden_eq_false_iff.2 fun b hb _ => (hab a ha b hb).1
    rw [Rule.hidden_append, hout, Bool.or_false]
  · refine List.filter_congr fun b hb => ?_
    have hout : b.hidden targets as = false :=
      Rule.hidden_eq_false_iff.2 fun a ha _ => (hab a ha b hb).2
    rw [Rule.hidden_append, hout, Bool.false_or]

/-- **A rule with its body** exposes the rule, and the rules that its body exposes unless the rule is
targeted as a whole. -/
theorem exposed_cons {r : Rule} {inner : List Rule} (hself : ¬ r.Within r)
    (hin : ∀ b ∈ inner, b.Within r ∧ ¬ r.Within b) :
    exposed targets (r :: inner) =
      r :: (if r.fullyTargeted targets then [] else exposed targets inner) := by
  have hr : r.hidden targets (r :: inner) = false := by
    refine Rule.hidden_eq_false_iff.2 fun f hf _ => ?_
    rcases List.mem_cons.1 hf with rfl | hf
    · exact hself
    · exact (hin f hf).2
  have hinner : ∀ b ∈ inner, b.hidden targets (r :: inner) =
      (r.fullyTargeted targets || b.hidden targets inner) := by
    intro b hb
    simp [Rule.hidden, (hin b hb).1]
  rw [exposed, List.filter_cons_of_pos (by simp [hr])]
  congr 1
  by_cases hfull : r.fullyTargeted targets = true
  · rw [if_pos hfull, List.filter_eq_nil_iff]
    intro b hb
    simp [hinner b hb, hfull]
  · rw [if_neg hfull]
    refine List.filter_congr fun b hb => ?_
    rw [hinner b hb, Bool.eq_false_of_not_eq_true hfull, Bool.false_or]

/-- Rules that end before others begin expose what they expose alone, and so do those others. -/
theorem exposed_append_of_le {as bs : List Rule} (mid : Nat)
    (hspans : ∀ r ∈ as ++ bs, r.prelude.start < r.block.start ∧ r.block.start < r.block.stop)
    (ha : ∀ a ∈ as, a.block.stop ≤ mid) (hb : ∀ b ∈ bs, mid ≤ b.prelude.start) :
    exposed targets (as ++ bs) = exposed targets as ++ exposed targets bs := by
  refine exposed_append fun a ha' b hb' => ?_
  have hstop := ha a ha'
  have hstart := hb b hb'
  have haSpans := hspans a (List.mem_append_left _ ha')
  have hbSpans := hspans b (List.mem_append_right _ hb')
  constructor
  · rintro ⟨h, -⟩
    omega
  · rintro ⟨-, h⟩
    omega

/-- A rule with rules between its braces exposes what they do, unless it is targeted as a whole. -/
theorem exposed_cons_of_lt {r : Rule} {inner : List Rule}
    (hr : r.prelude.start < r.block.start)
    (hin : ∀ b ∈ inner, r.block.start < b.prelude.start ∧ b.prelude.start < b.block.start ∧
      b.block.stop ≤ r.block.stop) :
    exposed targets (r :: inner) =
      r :: (if r.fullyTargeted targets then [] else exposed targets inner) := by
  refine exposed_cons ?_ fun b hb => ?_
  · rintro ⟨h, -⟩
    omega
  · obtain ⟨hstart, hblock, hstop⟩ := hin b hb
    refine ⟨⟨hstart, hstop⟩, ?_⟩
    rintro ⟨h, -⟩
    omega

/-- **A rule that is targeted as a whole** is exposed or inside of an exposed one. -/
theorem exists_exposed {text : String} {f : Rule} (hf : f ∈ closedRules text)
    (hfull : f.fullyTargeted targets = true) :
    ∃ g ∈ exposed targets (closedRules text), g.fullyTargeted targets = true ∧
      (f = g ∨ f.Within g) := by
  induction hn : f.prelude.start using Nat.strong_induction_on generalizing f with
  | _ n ih =>
      by_cases hout : ∀ g ∈ closedRules text, g.fullyTargeted targets = true → ¬ f.Within g
      · exact ⟨f, mem_exposed_iff.2 ⟨hf, hout⟩, hfull, .inl rfl⟩
      · -- the rule around `f` begins earlier
        push Not at hout
        obtain ⟨g, hg, hgfull, hwithin⟩ := hout
        have hlt := (hwithin.lt hf hg).1
        obtain ⟨k, hk, hkfull, rfl | hk'⟩ := ih g.prelude.start (by omega) hg hgfull rfl
        · exact ⟨g, hk, hkfull, .inr hwithin⟩
        · exact ⟨k, hk, hkfull, .inr (hwithin.trans hk' hf hg)⟩

end StyleAudit.Sheet
