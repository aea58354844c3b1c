import Mathlib
import StyleAudit.Proofs.Text.Cover

/-! # The canonical cover of a list of spans

Of all lists of spans that cover the same offsets, only one has its spans in order, none of them
empty, with a gap between neighbours: its first span begins at the first offset that is covered and
ends at the first one after it that is not. Merging finds that list, so the order of the spans does
not matter, nor how often each of them is listed.

* **`Separated`** — spans in order with gaps between them.
* **`SameCover`** — lists of spans that cover the same offsets.
* **`Separated.eq_of_sameCover`** — separated spans are told by what they cover.
* **`merge_canonical`** — what merging makes of spans that are not empty. -/

namespace StyleAudit.Span

/-- Spans that are not empty, in order, each one ending before the next one begins. -/
structure Separated (spans : List Span) : Prop where
  nonempty : ∀ s ∈ spans, s.start < s.stop
  gaps : spans.Pairwise fun a b => a.stop < b.start

/-- Both lists of spans cover the same offsets. -/
def SameCover (xs ys : List Span) : Prop :=
  ∀ n, (∃ s ∈ xs, s.Covers n) ↔ ∃ s ∈ ys, s.Covers n

theorem SameCover.symm {xs ys : List Span} (h : SameCover xs ys) : SameCover ys xs :=
  fun n => (h n).symm

theorem SameCover.trans {xs ys zs : List Span} (h : SameCover xs ys) (h' : SameCover ys zs) :
    SameCover xs zs := fun n => (h n).trans (h' n)

/-- Lists of the same spans cover the same offsets. -/
theorem sameCover_of_mem_iff {xs ys : List Span} (h : ∀ s, s ∈ xs ↔ s ∈ ys) : SameCover xs ys :=
  fun n => by simp only [h]

variable {s t : Span} {xs ys : List Span} {n : Nat}

/-- A span that is not empty covers the offset at which it begins. -/
theorem covers_start (h : s.start < s.stop) : s.Covers s.start := ⟨Nat.le_refl _, h⟩

namespace Separated

theorem tail (h : Separated (s :: xs)) : Separated xs where
  nonempty := fun t ht => h.nonempty t (List.mem_cons_of_mem s ht)
  gaps := h.gaps.of_cons

/-- Nothing is covered before the first span. -/
theorem start_le (h : Separated (s :: xs)) (hn : ∃ t ∈ s :: xs, t.Covers n) : s.start ≤ n := by
  obtain ⟨t, ht, hcover⟩ := hn
  have hfirst := h.nonempty s List.mem_cons_self
  rcases List.mem_cons.1 ht with rfl | ht
  · exact hcover.1
  · have hgap := (List.pairwise_cons.1 h.gaps).1 t ht
    have := hcover.1
    omega

/-- **The spans after the first one** cover what lies beyond its end. -/
theorem covers_tail_iff (h : Separated (s :: xs)) :
    (∃ t ∈ xs, t.Covers n) ↔ s.stop ≤ n ∧ ∃ t ∈ s :: xs, t.Covers n := by
  constructor
  · rintro ⟨t, ht, hcover⟩
    have hgap := (List.pairwise_cons.1 h.gaps).1 t ht
    have := hcover.1
    exact ⟨by omega, t, List.mem_cons_of_mem s ht, hcover⟩
  · rintro ⟨hstop, t, ht, hcover⟩
    rcases List.mem_cons.1 ht with rfl | ht
    · exact absurd hcover.2 (Nat.not_lt.2 hstop)
    · exact ⟨t, ht, hcover⟩

/-- The end of the first span is not covered. -/
theorem not_covers_stop (h : Separated (s :: xs)) : ¬∃ t ∈ s :: xs, t.Covers s.stop := by
  intro hcover
  obtain ⟨t, ht, hstop⟩ := h.covers_tail_iff.2 ⟨Nat.le_refl _, hcover⟩
  exact absurd ((List.pairwise_cons.1 h.gaps).1 t ht) (Nat.not_lt.2 hstop.1)

/-- The first span begins no later than that of another list with the same cover. -/
theorem start_le_start (hx : Separated (s :: xs)) (hy : Separated (t :: ys))
    (h : SameCover (s :: xs) (t :: ys)) : s.start ≤ t.start :=
  hx.start_le ((h _).2 ⟨t, List.mem_cons_self, covers_start (hy.nonempty t List.mem_cons_self)⟩)

/-- The first span ends no earlier than that of another list with the same cover, if both begin at
one place: its end would be covered otherwise. -/
theorem stop_le_stop (hx : Separated (s :: xs)) (hstart : s.start = t.start)
    (h : SameCover (s :: xs) (t :: ys)) : t.stop ≤ s.stop := by
  by_contra hshort
  have hne := hx.nonempty s List.mem_cons_self
  exact hx.not_covers_stop ((h _).2 ⟨t, List.mem_cons_self, by omega, by omega⟩)

/-- **Separated spans are told by what they cover.** -/
theorem eq_of_sameCover (hx : Separated xs) (hy : Separated ys) (h : SameCover xs ys) :
    xs = ys := by
  induction xs generalizing ys with
  | nil =>
      cases ys with
      | nil => rfl
      | cons t ys =>
          have hcover := covers_start (hy.nonempty t List.mem_cons_self)
          obtain ⟨s, hs, -⟩ := (h _).2 ⟨t, List.mem_cons_self, hcover⟩
          cases hs
  | cons s xs ih =>
      cases ys with
      | nil =>
          have hcover := covers_start (hx.nonempty s List.mem_cons_self)
          obtain ⟨t, ht, -⟩ := (h _).1 ⟨s, List.mem_cons_self, hcover⟩
          cases ht
      | cons t ys =>
          -- the least offset that is covered, and the first gap after it, are the same
          have hstart : s.start = t.start :=
            Nat.le_antisymm (hx.start_le_start hy h) (hy.start_le_start hx h.symm)
          have hstop : s.stop = t.stop :=
            Nat.le_antisymm (hy.stop_le_stop hstart.symm h.symm) (hx.stop_le_stop hstart h)
          have hhead : s = t := by
            cases s
            cases t
            simp_all
          subst hhead
          have htail : SameCover xs ys := fun n => by
            rw [hx.covers_tail_iff, hy.covers_tail_iff, h n]
          rw [ih hx.tail hy.tail htail]

/-- An offset is covered by one span only. -/
theorem eq_of_covers (h : Separated xs) (hs : s ∈ xs) (ht : t ∈ xs) (hsn : s.Covers n)
    (htn : t.Covers n) : s = t := by
  by_contra hne
  have hapart : xs.Pairwise fun a b => ¬(a.Covers n ∧ b.Covers n) := h.gaps.imp fun hgap hboth => by
    have := hboth.1.2
    have := hboth.2.1
    omega
  have : Std.Symm fun a b : Span => ¬(a.Covers n ∧ b.Covers n) := ⟨fun _ _ h h' => h h'.symm⟩
  exact hapart.forall hs ht hne ⟨hsn, htn⟩

end Separated

/-- Merged spans are separated. -/
theorem separated_merge (hne : ∀ s ∈ xs, s.start < s.stop) : Separated (merge xs) where
  nonempty := fun _ hs => start_lt_stop_of_mem_merge hs hne
  gaps := pairwise_merge xs

/-- Merging keeps the cover. -/
theorem sameCover_merge (xs : List Span) : SameCover (merge xs) xs := fun _ => covers_merge_iff

/-- Spans with the same cover are merged into the same spans. -/
theorem merge_eq_of_sameCover (hx : ∀ s ∈ xs, s.start < s.stop) (hy : ∀ s ∈ ys, s.start < s.stop)
    (h : SameCover xs ys) : merge xs = merge ys :=
  (separated_merge hx).eq_of_sameCover (separated_merge hy)
    ((sameCover_merge xs).trans (h.trans (sameCover_merge ys).symm))

/-- **Merging finds the canonical cover** of spans that are not empty. The merged spans cover the same
offsets, are separated, and are the only such list, so that neither the order of the spans nor how
often each is listed matters. Each span lies within exactly one merged span, and merging again
changes nothing. -/
theorem merge_canonical {spans : List Span} (hne : ∀ s ∈ spans, s.start < s.stop) :
    SameCover (merge spans) spans ∧
    Separated (merge spans) ∧
    (∀ other, Separated other → SameCover other spans → other = merge spans) ∧
    (∀ other, (∀ s, s ∈ other ↔ s ∈ spans) → merge other = merge spans) ∧
    (∀ s ∈ spans, ∃! t, t ∈ merge spans ∧ t.contains s = true) ∧
    merge (merge spans) = merge spans := by
  have hseparated := separated_merge hne
  refine ⟨sameCover_merge spans, hseparated, fun other hother hcover => ?_, fun other hmem => ?_,
    fun s hs => ?_, ?_⟩
  · exact hother.eq_of_sameCover hseparated (hcover.trans (sameCover_merge spans).symm)
  · exact merge_eq_of_sameCover (fun s hs => hne s ((hmem s).1 hs)) hne (sameCover_of_mem_iff hmem)
  · obtain ⟨t, ht, hcontains⟩ := exists_contains_of_mem hs
    refine ⟨t, ⟨ht, hcontains⟩, fun u hu => ?_⟩
    -- both hold the offset at which the span begins
    have hlong := hne s hs
    obtain ⟨hstart, hstop⟩ := contains_iff.1 hcontains
    obtain ⟨hstart', hstop'⟩ := contains_iff.1 hu.2
    exact hseparated.eq_of_covers hu.1 ht ⟨hstart', by omega⟩ ⟨hstart, by omega⟩
  · exact merge_eq_of_sameCover hseparated.nonempty hne (sameCover_merge spans)

/-- Spans that overlap, touch, lie within each other or are listed twice. -/
theorem merge_canonical_overlapping :
    (∀ s ∈ [(⟨5, 8⟩ : Span), ⟨0, 3⟩, ⟨2, 4⟩, ⟨6, 7⟩, ⟨8, 9⟩, ⟨0, 3⟩], s.start < s.stop) ∧
    merge [⟨5, 8⟩, ⟨0, 3⟩, ⟨2, 4⟩, ⟨6, 7⟩, ⟨8, 9⟩, ⟨0, 3⟩] = [⟨0, 4⟩, ⟨5, 9⟩] ∧
    Separated [⟨0, 4⟩, ⟨5, 9⟩] ∧
    (∃! t, t ∈ [(⟨0, 4⟩ : Span), ⟨5, 9⟩] ∧ t.contains ⟨6, 7⟩ = true) ∧
    merge [⟨0, 4⟩, ⟨5, 9⟩] = [⟨0, 4⟩, ⟨5, 9⟩] := by
  have hne : ∀ s ∈ [(⟨5, 8⟩ : Span), ⟨0, 3⟩, ⟨2, 4⟩, ⟨6, 7⟩, ⟨8, 9⟩, ⟨0, 3⟩], s.start < s.stop := by
    decide
  have hmerge : merge [⟨5, 8⟩, ⟨0, 3⟩, ⟨2, 4⟩, ⟨6, 7⟩, ⟨8, 9⟩, ⟨0, 3⟩] = [⟨0, 4⟩, ⟨5, 9⟩] := by
    cbv
  obtain ⟨-, hseparated, -, -, honly, hagain⟩ := merge_canonical hne
  rw [hmerge] at hseparated honly hagain
  exact ⟨hne, hmerge, hseparated, honly ⟨6, 7⟩ (by decide), hagain⟩

end StyleAudit.Span
