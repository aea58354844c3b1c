import Mathlib
import StyleAudit.Text.Span

/-! # The cover of a list of spans

Merging spans changes how they are cut up and not what they cover. The loop `mergeInto` carries
one span that is still growing; the spans before it are separated from everything to come.

* **`Span.Covers s n`** — offset `n` lies in `s`.
* **`covers_merge_iff`** — merged spans cover the offsets that the spans cover.
* **`pairwise_merge`** — merged spans are in order, with a gap between neighbours.
* **`exists_contains_of_mem`** — every span lies within a merged one.
* **`exists_contains_of_covers`** — a span that separated spans cover lies within one of them. -/

namespace StyleAudit.Span

/-- Offset `n` lies in the span. -/
def Covers (s : Span) (n : Nat) : Prop := s.start ≤ n ∧ n < s.stop

instance (s : Span) (n : Nat) : Decidable (s.Covers n) :=
  inferInstanceAs (Decidable (s.start ≤ n ∧ n < s.stop))

/-- Containment of spans as two inequalities. -/
theorem contains_iff {outer inner : Span} :
    outer.contains inner = true ↔ outer.start ≤ inner.start ∧ inner.stop ≤ outer.stop := by
  simp [contains]

/-- The order of spans is transitive. -/
theorem le_trans (a b c : Span) (hab : le a b = true) (hbc : le b c = true) : le a c = true := by
  simp only [le, Bool.or_eq_true, decide_eq_true_eq, Bool.and_eq_true, beq_iff_eq] at *
  omega

/-- The order of spans is total. -/
theorem le_total (a b : Span) : (le a b || le b a) = true := by
  simp only [le, Bool.or_eq_true, decide_eq_true_eq, Bool.and_eq_true, beq_iff_eq]
  omega

/-- A span comes no earlier than those that it follows in the order. -/
theorem start_le_of_le {a b : Span} (h : le a b = true) : a.start ≤ b.start := by
  simp only [le, Bool.or_eq_true, decide_eq_true_eq, Bool.and_eq_true, beq_iff_eq] at h
  omega

/-! ## The loop -/

/-- The span that grows keeps its place in the order. -/
theorem pairwise_join {current next : Span} {rest : List Span} {stop : Nat}
    (hsorted : (current :: next :: rest).Pairwise fun a b => a.start ≤ b.start) :
    ((⟨current.start, stop⟩ : Span) :: rest).Pairwise fun a b => a.start ≤ b.start := by
  obtain ⟨hcur, hrest⟩ := List.pairwise_cons.1 hsorted
  exact List.pairwise_cons.2 ⟨fun s hs => hcur s (by simp [hs]), hrest.of_cons⟩

/-- The loop covers what the growing span and the spans to come cover. -/
theorem covers_mergeInto_iff {current : Span} {rest : List Span} {n : Nat}
    (hsorted : (current :: rest).Pairwise fun a b => a.start ≤ b.start) :
    (∃ s ∈ mergeInto current rest, s.Covers n) ↔ ∃ s ∈ current :: rest, s.Covers n := by
  induction rest generalizing current with
  | nil => simp [mergeInto]
  | cons next rest ih =>
      obtain ⟨hcur, hrest⟩ := List.pairwise_cons.1 hsorted
      have hle : current.start ≤ next.start := hcur next (by simp)
      rw [mergeInto]
      split
      · rename_i hjoin
        -- the two spans touch, so the joined one covers what either of them covers
        rw [ih (pairwise_join hsorted)]
        have hjoined : Covers ⟨current.start, max current.stop next.stop⟩ n ↔
            current.Covers n ∨ next.Covers n := by
          simp only [Covers]
          omega
        simp [hjoined, or_assoc]
      · simp [ih hrest]

/-- No merged span begins before the growing one. -/
theorem start_le_of_mem_mergeInto {current s : Span} {rest : List Span}
    (hsorted : (current :: rest).Pairwise fun a b => a.start ≤ b.start)
    (hs : s ∈ mergeInto current rest) : current.start ≤ s.start := by
  induction rest generalizing current with
  | nil => rw [List.mem_singleton.1 hs]
  | cons next rest ih =>
      obtain ⟨hcur, hrest⟩ := List.pairwise_cons.1 hsorted
      rw [mergeInto] at hs
      split at hs
      · exact @ih ⟨current.start, max current.stop next.stop⟩ (pairwise_join hsorted) hs
      · rcases List.mem_cons.1 hs with rfl | hs
        · exact Nat.le_refl _
        · have := ih hrest hs
          have := hcur next (by simp)
          omega

/-- The loop leaves a gap between neighbours. -/
theorem pairwise_mergeInto {current : Span} {rest : List Span}
    (hsorted : (current :: rest).Pairwise fun a b => a.start ≤ b.start) :
    (mergeInto current rest).Pairwise fun a b => a.stop < b.start := by
  induction rest generalizing current with
  | nil => simp [mergeInto]
  | cons next rest ih =>
      obtain ⟨hcur, hrest⟩ := List.pairwise_cons.1 hsorted
      rw [mergeInto]
      split
      · exact ih (pairwise_join hsorted)
      · rename_i hgap
        refine List.pairwise_cons.2 ⟨fun s hs => ?_, ih hrest⟩
        have := start_le_of_mem_mergeInto hrest hs
        omega

/-- Every span of the loop lies within a merged one. -/
theorem exists_contains_mergeInto {current s : Span} {rest : List Span}
    (hsorted : (current :: rest).Pairwise fun a b => a.start ≤ b.start)
    (hs : s ∈ current :: rest) : ∃ t ∈ mergeInto current rest, t.contains s = true := by
  induction rest generalizing current s with
  | nil => exact ⟨current, by simp [mergeInto], by simp_all [contains]⟩
  | cons next rest ih =>
      obtain ⟨hcur, hrest⟩ := List.pairwise_cons.1 hsorted
      have hle : current.start ≤ next.start := hcur next (by simp)
      rw [mergeInto]
      split
      · -- what lies within the joined span lies within its merged span
        have hjoin : ∀ u : Span, current.start ≤ u.start → u.stop ≤ max current.stop next.stop →
            ∃ t ∈ mergeInto ⟨current.start, max current.stop next.stop⟩ rest,
              t.contains u = true := by
          intro u hstart hstop
          obtain ⟨t, ht, hc⟩ := @ih ⟨current.start, max current.stop next.stop⟩
            ⟨current.start, max current.stop next.stop⟩ (pairwise_join hsorted) (by simp)
          rw [contains_iff] at hc
          exact ⟨t, ht, contains_iff.2 ⟨by simp at hc; omega, by simp at hc; omega⟩⟩
        rcases List.mem_cons.1 hs with rfl | hs
        · exact hjoin s (Nat.le_refl _) (Nat.le_max_left _ _)
        · rcases List.mem_cons.1 hs with rfl | hs
          · exact hjoin s hle (Nat.le_max_right _ _)
          · exact ih (pairwise_join hsorted) (by simp [hs])
      · rcases List.mem_cons.1 hs with rfl | hs
        · exact ⟨s, by simp, by simp [contains]⟩
        · obtain ⟨t, ht, hc⟩ := ih hrest hs
          exact ⟨t, by simp [ht], hc⟩

/-- The loop makes no empty span of spans that are not empty. -/
theorem start_lt_stop_of_mem_mergeInto {current s : Span} {rest : List Span}
    (hne : ∀ t ∈ current :: rest, t.start < t.stop) (hs : s ∈ mergeInto current rest) :
    s.start < s.stop := by
  induction rest generalizing current with
  | nil => exact hne s (by simpa [mergeInto] using hs)
  | cons next rest ih =>
      have hcur := hne current (by simp)
      have hrest : ∀ t ∈ next :: rest, t.start < t.stop := fun t ht => hne t (by simp [ht])
      rw [mergeInto] at hs
      split at hs
      · refine ih (fun t ht => ?_) hs
        rcases List.mem_cons.1 ht with rfl | ht
        · simp only
          omega
        · exact hrest t (by simp [ht])
      · rcases List.mem_cons.1 hs with rfl | hs
        · exact hcur
        · exact ih hrest hs

/-- The ends of a merged span are ends of spans of the loop. -/
theorem ends_of_mem_mergeInto {current s : Span} {rest : List Span}
    (hs : s ∈ mergeInto current rest) :
    (∃ t ∈ current :: rest, t.start = s.start) ∧ ∃ t ∈ current :: rest, t.stop = s.stop := by
  induction rest generalizing current with
  | nil =>
      rw [List.mem_singleton.1 hs]
      simp
  | cons next rest ih =>
      rw [mergeInto] at hs
      split at hs
      · obtain ⟨⟨t, ht, hstart⟩, u, hu, hstop⟩ := ih hs
        constructor
        · rcases List.mem_cons.1 ht with rfl | ht
          · exact ⟨current, by simp, hstart⟩
          · exact ⟨t, by simp [ht], hstart⟩
        · rcases List.mem_cons.1 hu with rfl | hu
          · rcases Nat.le_total current.stop next.stop with hle | hle
            · exact ⟨next, by simp, by simpa [hle] using hstop⟩
            · exact ⟨current, by simp, by simpa [hle] using hstop⟩
          · exact ⟨u, by simp [hu], hstop⟩
      · rcases List.mem_cons.1 hs with rfl | hs
        · exact ⟨⟨s, by simp, rfl⟩, s, by simp, rfl⟩
        · obtain ⟨⟨t, ht, hstart⟩, u, hu, hstop⟩ := ih hs
          exact ⟨⟨t, List.mem_cons_of_mem _ ht, hstart⟩, u, List.mem_cons_of_mem _ hu, hstop⟩

/-! ## Merging -/

/-- The spans of a list in order, by their starts. -/
theorem pairwise_mergeSort_le (spans : List Span) :
    (spans.mergeSort le).Pairwise fun a b => a.start ≤ b.start :=
  (List.pairwise_mergeSort le_trans le_total spans).imp start_le_of_le

/-- Every merged list comes from a run of the loop over the sorted spans, or from no spans. -/
theorem merge_cases (spans : List Span) :
    (spans = [] ∧ merge spans = []) ∨
      ∃ first rest, spans.mergeSort le = first :: rest ∧ merge spans = mergeInto first rest := by
  unfold merge
  split
  · rename_i h
    exact .inl ⟨by simpa using congrArg List.length h, rfl⟩
  · rename_i first rest h
    exact .inr ⟨first, rest, h, rfl⟩

/-- **Merged spans cover what the spans cover.** -/
theorem covers_merge_iff {spans : List Span} {n : Nat} :
    (∃ s ∈ merge spans, s.Covers n) ↔ ∃ s ∈ spans, s.Covers n := by
  have hsorted := pairwise_mergeSort_le spans
  rcases merge_cases spans with ⟨rfl, h⟩ | ⟨first, rest, hsort, h⟩
  · simp [h]
  · rw [h, covers_mergeInto_iff (hsort ▸ hsorted), ← hsort]
    simp

/-- **Merged spans are separated**: each one ends before the next one begins. -/
theorem pairwise_merge (spans : List Span) :
    (merge spans).Pairwise fun a b => a.stop < b.start := by
  have hsorted := pairwise_mergeSort_le spans
  rcases merge_cases spans with ⟨-, h⟩ | ⟨first, rest, hsort, h⟩
  · simp [h]
  · rw [h]
    exact pairwise_mergeInto (hsort ▸ hsorted)

/-- Every span lies within a merged one. -/
theorem exists_contains_of_mem {spans : List Span} {s : Span} (hs : s ∈ spans) :
    ∃ t ∈ merge spans, t.contains s = true := by
  have hsorted := pairwise_mergeSort_le spans
  rcases merge_cases spans with ⟨rfl, -⟩ | ⟨first, rest, hsort, h⟩
  · simp at hs
  · rw [h]
    exact exists_contains_mergeInto (hsort ▸ hsorted) (hsort ▸ List.mem_mergeSort.2 hs)

/-- The ends of a merged span are ends of spans. -/
theorem ends_of_mem_merge {spans : List Span} {s : Span} (hs : s ∈ merge spans) :
    (∃ t ∈ spans, t.start = s.start) ∧ ∃ t ∈ spans, t.stop = s.stop := by
  rcases merge_cases spans with ⟨-, h⟩ | ⟨first, rest, hsort, h⟩
  · simp [h] at hs
  · rw [h] at hs
    have hends := ends_of_mem_mergeInto hs
    rw [← hsort] at hends
    simpa using hends

/-- A merged span of spans that are not empty is not empty. -/
theorem start_lt_stop_of_mem_merge {spans : List Span} {s : Span} (hs : s ∈ merge spans)
    (hne : ∀ t ∈ spans, t.start < t.stop) : s.start < s.stop := by
  rcases merge_cases spans with ⟨-, h⟩ | ⟨first, rest, hsort, h⟩
  · simp [h] at hs
  · rw [h] at hs
    refine start_lt_stop_of_mem_mergeInto (fun t ht => hne t ?_) hs
    rwa [← hsort, List.mem_mergeSort] at ht

/-! ## Spans that are separated -/

/-- **A span that separated spans cover** lies within one of them: the gap after any other one would
not be covered. -/
theorem exists_contains_of_covers {spans : List Span} {s : Span} (hs : s.start < s.stop)
    (hgap : spans.Pairwise fun a b => a.stop < b.start)
    (hcovers : ∀ n, s.Covers n → ∃ t ∈ spans, t.Covers n) : ∃ t ∈ spans, t.contains s = true := by
  induction spans with
  | nil =>
      obtain ⟨t, ht, -⟩ := hcovers s.start ⟨Nat.le_refl _, hs⟩
      cases ht
  | cons head rest ih =>
      obtain ⟨hafter, hrest⟩ := List.pairwise_cons.1 hgap
      by_cases hbefore : head.stop ≤ s.start
      · obtain ⟨t, ht, hcontains⟩ := ih hrest fun n hn => by
          obtain ⟨t, ht, hcover⟩ := hcovers n hn
          rcases List.mem_cons.1 ht with rfl | ht
          · have := hn.1
            have := hcover.2
            omega
          · exact ⟨t, ht, hcover⟩
        exact ⟨t, List.mem_cons_of_mem head ht, hcontains⟩
      · -- what is covered up to the end of the head is covered by the head
        have hhead : ∀ n, s.Covers n → n ≤ head.stop → head.Covers n := by
          intro n hn hle
          obtain ⟨t, ht, hcover⟩ := hcovers n hn
          rcases List.mem_cons.1 ht with rfl | ht
          · exact hcover
          · have := hafter t ht
            have := hcover.1
            omega
        have hstart := (hhead s.start ⟨Nat.le_refl _, hs⟩ (by omega)).1
        have hstop : s.stop ≤ head.stop := by
          by_contra hshort
          exact absurd (hhead head.stop ⟨by omega, by omega⟩ (Nat.le_refl _)).2 (Nat.lt_irrefl _)
        exact ⟨head, List.mem_cons_self, contains_iff.2 ⟨hstart, hstop⟩⟩

end StyleAudit.Span
