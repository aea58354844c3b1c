import Mathlib
import StyleAudit.Proofs.Sheet.Exactness

/-! # The entries that remain

What a removal leaves of the entries of a stylesheet: those of the rules outside of every deleted
rule, without the targeted ones. An entry inside a deleted rule goes with it, whether it is targeted
or not.

* **`texts`** — the texts of the entries of rules.
* **`swallowed`** — the rules inside deleted ones.
* **`mem_texts_remaining`** — the entries that remain are not targeted.
* **`perm_texts_of_remaining`** — the entries that are not targeted remain or are swallowed. -/

namespace StyleAudit.Sheet

/-- The texts of the entries of rules. -/
def texts (rules : List Rule) : List String := rules.flatMap fun r => r.entries.map Entry.text

/-- The rules inside rules that are targeted as a whole. -/
def swallowed (targets : SelectorSet) (rules : List Rule) : List Rule :=
  rules.filter fun r => r.hidden targets rules

variable {targets : SelectorSet} {rules : List Rule}

/-- The texts of the entries of a text. -/
theorem map_text_entries (o : Outline) : o.entries.map Entry.text = texts o.rules := by
  rw [Outline.entries, List.map_flatMap]
  rfl

/-- A text is declared when it is that of an entry. -/
theorem mem_declared_iff {o : Outline} {x : String} : x ∈ o.declared ↔ x ∈ texts o.rules := by
  rw [Outline.declared, SelectorSet.mem_ofList, map_text_entries]

/-- What remains are the entries of the exposed rules that are not targeted. -/
theorem flatMap_remaining (targets : SelectorSet) (rules : List Rule) :
    (remaining targets rules).flatMap Prod.fst =
      (texts (exposed targets rules)).filter fun x => !decide (x ∈ targets) := by
  rw [remaining, List.flatMap_map, texts, List.filter_flatMap]
  induction exposed targets rules with
  | nil => rfl
  | cons r rules ih =>
      rw [List.flatMap_cons, ← ih]
      by_cases hfull : r.fullyTargeted targets = true
      · -- nothing of a deleted rule remains
        have hnone : ((r.entries.map Entry.text).filter fun x => !decide (x ∈ targets)) = [] := by
          rw [List.filter_eq_nil_iff]
          intro x hx
          obtain ⟨e, he, rfl⟩ := List.mem_map.1 hx
          simp [Rule.fullyTargeted_iff.1 hfull e he]
        rw [List.filter_cons_of_neg (by simp [hfull]), hnone, List.nil_append]
      · rw [List.filter_cons_of_pos (by simp [hfull]), List.flatMap_cons]

/-- Where nothing is targeted, everything remains. -/
theorem remaining_of_forall_not_mem (h : ∀ x, x ∉ targets) (rules : List Rule) :
    remaining targets rules = rules.map fun r => (r.entries.map Entry.text, r.depth) := by
  have hfull : ∀ r : Rule, r.fullyTargeted targets = false := by
    intro r
    rw [Bool.eq_false_iff]
    intro hfull
    exact h _ (Rule.fullyTargeted_iff.1 hfull r.lead List.mem_cons_self)
  have hexposed : exposed targets rules = rules := by
    refine List.filter_eq_self.2 fun r _ => ?_
    simp [Rule.hidden, hfull]
  rw [remaining, hexposed, List.filter_eq_self.2 fun r _ => by simp [hfull]]
  refine List.map_congr_left fun r _ => ?_
  rw [List.filter_eq_self.2 fun x _ => by simp [h]]

/-- A rule is exposed or swallowed. -/
theorem perm_exposed_swallowed (targets : SelectorSet) (rules : List Rule) :
    (exposed targets rules ++ swallowed targets rules).Perm rules := by
  refine List.perm_append_comm.trans ?_
  exact List.filter_append_perm (fun r => r.hidden targets rules) rules

section

variable {text' : String}
  (h : (Outline.ofText text').rules.map (fun r => (r.entries.map Entry.text, r.depth)) =
    remaining targets rules)

include h

/-- The entries of a text that shows what remains. -/
theorem texts_of_remaining : texts (Outline.ofText text').rules =
    (texts (exposed targets rules)).filter fun x => !decide (x ∈ targets) := by
  rw [← flatMap_remaining, ← h, List.flatMap_map]
  rfl

/-- The entries that remain were there before, and are not targeted. -/
theorem mem_texts_of_remaining {x : String} (hx : x ∈ texts (Outline.ofText text').rules) :
    x ∈ texts rules ∧ x ∉ targets := by
  rw [texts_of_remaining h, List.mem_filter] at hx
  obtain ⟨hx, hnot⟩ := hx
  refine ⟨?_, by simpa using hnot⟩
  obtain ⟨r, hr, hx⟩ := List.mem_flatMap.1 hx
  exact List.mem_flatMap.2 ⟨r, (List.mem_filter.1 hr).1, hx⟩

/-- **What is not targeted remains or is swallowed.** -/
theorem perm_texts_of_remaining {keep : String → Bool}
    (hkeep : ∀ x ∈ texts rules, keep x = true → x ∉ targets) :
    ((texts rules).filter keep).Perm
      ((texts (Outline.ofText text').rules).filter keep ++
        (texts (swallowed targets rules)).filter keep) := by
  have hexposed : (texts (Outline.ofText text').rules).filter keep =
      (texts (exposed targets rules)).filter keep := by
    rw [texts_of_remaining h, List.filter_filter]
    refine List.filter_congr fun x hx => ?_
    have hmem : x ∈ texts rules := by
      obtain ⟨r, hr, hx⟩ := List.mem_flatMap.1 hx
      exact List.mem_flatMap.2 ⟨r, (List.mem_filter.1 hr).1, hx⟩
    cases hx : keep x with
    | false => simp
    | true => simp [hkeep x hmem hx]
  have hsplit : (texts (exposed targets rules ++ swallowed targets rules)).Perm (texts rules) :=
    (perm_exposed_swallowed targets rules).flatMap_right _
  rw [hexposed, ← List.filter_append]
  refine List.Perm.filter _ ?_
  rw [texts, List.flatMap_append] at hsplit
  exact hsplit.symm

end

end StyleAudit.Sheet
