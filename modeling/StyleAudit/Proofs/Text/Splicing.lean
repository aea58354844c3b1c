import Mathlib
import StyleAudit.Proofs.Text.Offset
import StyleAudit.Proofs.Text.Cover
import StyleAudit.Proofs.Text.Replay
import StyleAudit.Text.Edit

/-! # What a list of edits makes of a text

Applying edits at once is the same as replacing their spans one at a time, from the last one to the
first, provided that no span is out of bounds and no two of them overlap. Overlaps are looked for
between neighbours of the sorted list only; since the spans are in order, no others can be missed.
What comes out does not depend on the order of the edits, except where two of them insert at the
same place.

* **`Span.FitsIn`**, **`Span.Apart`** — when edits can be applied.
* **`replaceEach`** — the spans are replaced one at a time.
* **`Splices`** — what stays, and where the replacements stand.
* **`applyAll_outcome`** — the outcome of a list of edits. -/

namespace StyleAudit

open Text

/-! ## Spans in a text -/

namespace Span

/-- The span is in order, ends within the text, and cuts no character of it. -/
def FitsIn (s : Span) (text : List Char) : Prop :=
  s.start ≤ s.stop ∧ s.stop ≤ byteSize text ∧ isBoundary s.start text = true ∧
    isBoundary s.stop text = true

instance (s : Span) (text : List Char) : Decidable (s.FitsIn text) :=
  inferInstanceAs (Decidable (_ ∧ _))

/-- The spans do not overlap: the one that comes later in the order begins no earlier than the other
one ends. -/
def Apart (a b : Span) : Prop :=
  (le a b = true → a.stop ≤ b.start) ∧ (le b a = true → b.stop ≤ a.start)

instance (a b : Span) : Decidable (a.Apart b) := inferInstanceAs (Decidable (_ ∧ _))

/-- Being apart does not depend on which span is named first. -/
theorem Apart.symm {a b : Span} (h : a.Apart b) : b.Apart a := ⟨h.2, h.1⟩

/-- Spans that come before each other in the order are equal. -/
theorem le_antisymm {a b : Span} (hab : le a b = true) (hba : le b a = true) : a = b := by
  obtain ⟨a₁, a₂⟩ := a
  obtain ⟨b₁, b₂⟩ := b
  simp only [le, Bool.or_eq_true, decide_eq_true_eq, Bool.and_eq_true, beq_iff_eq] at hab hba
  rw [Span.mk.injEq]
  omega

/-- Of two spans in order, the later one is apart exactly when it begins after the earlier one. -/
theorem apart_iff {a b : Span} (hab : le a b = true) : a.Apart b ↔ a.stop ≤ b.start := by
  refine ⟨fun h => h.1 hab, fun h => ⟨fun _ => h, fun hba => ?_⟩⟩
  rw [← le_antisymm hab hba] at h ⊢
  exact h

end Span

namespace Edit

variable {edits : List Edit} {text : List Char}

/-- An edit fits a text when its span does. -/
theorem fits_iff {e : Edit} : e.fits text = true ↔ e.span.FitsIn text := by
  simp only [fits, Bool.and_eq_true, decide_eq_true_eq, Span.FitsIn, and_assoc]
  refine and_congr_right fun _ => ⟨fun h => ⟨?_, h⟩, fun h => h.2⟩
  obtain ⟨a, b, rfl, hsize⟩ := isBoundary_iff.1 h.2
  rw [byteSize_append]
  omega

/-! ## Edits in order -/

/-- The edits in the order of their spans. -/
def inOrder (edits : List Edit) : List Edit :=
  edits.mergeSort fun a b => Span.le a.span b.span

/-- Sorting keeps the edits. -/
theorem inOrder_perm (edits : List Edit) : (inOrder edits).Perm edits := List.mergeSort_perm _ _

/-- Sorted edits are in order. -/
theorem pairwise_inOrder (edits : List Edit) :
    (inOrder edits).Pairwise fun a b => Span.le a.span b.span = true :=
  List.pairwise_mergeSort (fun a b c => Span.le_trans a.span b.span c.span)
    (fun a b => Span.le_total a.span b.span) edits

/-- **Neighbours suffice**: if no two neighbours overlap, each edit ends before all later ones
begin. -/
theorem pairwise_of_firstOverlap?_eq_none (hle : ∀ e ∈ edits, e.span.start ≤ e.span.stop)
    (h : firstOverlap? edits = none) : edits.Pairwise fun e f => e.span.stop ≤ f.span.start := by
  induction edits with
  | nil => exact .nil
  | cons e edits ih =>
      cases edits with
      | nil => exact List.pairwise_singleton _ _
      | cons f rest =>
          rw [firstOverlap?] at h
          split at h
          · exact absurd h (by simp)
          · rename_i hnext
            have hrest := ih (fun g hg => hle g (List.mem_cons_of_mem e hg)) h
            refine List.pairwise_cons.2 ⟨fun g hg => ?_, hrest⟩
            rcases List.mem_cons.1 hg with rfl | hg
            · omega
            · have hf := hle f (by simp)
              have hfg := (List.pairwise_cons.1 hrest).1 g hg
              omega

/-- Sorted edits have no overlapping neighbours exactly when no two edits overlap. -/
theorem firstOverlap?_inOrder (hle : ∀ e ∈ edits, e.span.start ≤ e.span.stop) :
    firstOverlap? (inOrder edits) = none ↔ edits.Pairwise fun e f => e.span.Apart f.span := by
  have hle' : ∀ e ∈ inOrder edits, e.span.start ≤ e.span.stop :=
    fun e he => hle e ((inOrder_perm edits).mem_iff.1 he)
  rw [← (inOrder_perm edits).pairwise_iff Span.Apart.symm]
  constructor
  · intro h
    have hstops := pairwise_of_firstOverlap?_eq_none hle' h
    exact ((pairwise_inOrder edits).and hstops).imp fun hef => (Span.apart_iff hef.1).2 hef.2
  · intro h
    exact firstOverlap?_eq_none (((pairwise_inOrder edits).and h).imp fun hef => hef.2.1 hef.1)

/-! ## Replacing the spans one at a time -/

/-- A text with the span of an edit replaced. -/
def replaceOne (e : Edit) (text : List Char) : List Char :=
  takeBytes e.span.start text ++ e.replacement.toList ++ dropBytes e.span.stop text

/-- A text with the spans of the edits replaced one at a time, from the last edit to the first. -/
def replaceEach (edits : List Edit) (text : List Char) : List Char :=
  edits.foldr replaceOne text

/-- Replacing what stands between two cuts. -/
theorem replaceOne_append {e : Edit} {a m b : List Char}
    (he : e.span = ⟨byteSize a, byteSize a + byteSize m⟩) :
    replaceOne e (a ++ (m ++ b)) = a ++ (e.replacement.toList ++ b) := by
  have hdrop : dropBytes (byteSize a + byteSize m) (a ++ (m ++ b)) = b := by
    rw [← byteSize_append, ← List.append_assoc, dropBytes_append]
  rw [replaceOne, he, takeBytes_append, hdrop, List.append_assoc]

/-- What `edits` make of the characters that begin at offset `pos`: outside of the spans everything
stays, in order, and each replacement stands where its span was. -/
inductive Splices : (pos : Nat) → (edits : List Edit) → List Char → List Char → Prop
  | rest (pos : Nat) (cs : List Char) : Splices pos [] cs cs
  | edit {pos : Nat} {e : Edit} {edits : List Edit} {kept cut cs out : List Char}
      (hspan : e.span = ⟨pos + byteSize kept, pos + byteSize kept + byteSize cut⟩)
      (h : Splices e.span.stop edits cs out) :
      Splices pos (e :: edits) (kept ++ (cut ++ cs)) (kept ++ (e.replacement.toList ++ out))

/-- Splicing edits that fit and lie one after the other. -/
theorem splices_splice {a b : List Char}
    (horder : edits.Pairwise fun e f => e.span.stop ≤ f.span.start)
    (hfits : ∀ e ∈ edits, e.fits (a ++ b) = true)
    (hlow : ∀ e ∈ edits, byteSize a ≤ e.span.start) :
    Splices (byteSize a) edits b (splice (byteSize a) edits b) := by
  induction edits generalizing a b with
  | nil => exact .rest _ _
  | cons e edits ih =>
      obtain ⟨hnext, horder⟩ := List.pairwise_cons.1 horder
      obtain ⟨x, m, y, hxy, hx, hm⟩ := exists_cuts_of_fits (hfits e (by simp))
      obtain ⟨kept, rfl, rfl⟩ :=
        exists_append_of_byteSize_le hxy (by rw [hx]; exact hlow e (by simp))
      rw [byteSize_append] at hx hm
      have hstop : byteSize (a ++ kept ++ m) = e.span.stop := by
        simp only [byteSize_append]
        omega
      -- the text up to the end of the edit is done
      have hrest := ih (a := a ++ kept ++ m) (b := y) horder
        (fun f hf => by simpa using hfits f (by simp [hf]))
        (fun f hf => by rw [hstop]; exact hnext f hf)
      rw [hstop] at hrest
      have htake : takeBytes (e.span.start - byteSize a) (kept ++ (m ++ y)) = kept := by
        rw [show e.span.start - byteSize a = byteSize kept by omega, takeBytes_append]
      have hdrop : dropBytes (e.span.stop - byteSize a) (kept ++ (m ++ y)) = y := by
        rw [show e.span.stop - byteSize a = byteSize (kept ++ m) by rw [byteSize_append]; omega,
          ← List.append_assoc, dropBytes_append]
      rw [splice, htake, hdrop, List.append_assoc]
      refine .edit ?_ hrest
      obtain ⟨⟨start, stop⟩, replacement⟩ := e
      simp only [Span.mk.injEq] at hx hm ⊢
      omega

/-- Splicing is replacing one span after the other. -/
theorem Splices.replaceEach_eq {pos : Nat} {cs out : List Char} (h : Splices pos edits cs out)
    {a : List Char} (ha : byteSize a = pos) : replaceEach edits (a ++ cs) = a ++ out := by
  induction h generalizing a with
  | rest => rfl
  | @edit pos e edits kept cut cs out hspan _ ih =>
      have hstop : byteSize (a ++ (kept ++ cut)) = e.span.stop := by
        rw [hspan]
        simp only [byteSize_append]
        omega
      have hrest : replaceEach edits (a ++ (kept ++ (cut ++ cs))) =
          a ++ kept ++ (cut ++ out) := by
        simpa using ih hstop
      rw [replaceEach, List.foldr_cons, ← replaceEach, hrest, replaceOne_append, List.append_assoc]
      rw [hspan, byteSize_append, ha]

/-- Splicing adds the sizes of the replacements and takes away those of the spans. -/
theorem Splices.byteSize_eq {pos : Nat} {cs out : List Char} (h : Splices pos edits cs out) :
    byteSize out + (edits.map fun e => e.span.stop - e.span.start).sum =
      byteSize cs + (edits.map fun e => byteSize e.replacement.toList).sum := by
  induction h with
  | rest => rfl
  | @edit pos e edits kept cut cs out hspan _ ih =>
      have hsize : e.span.stop - e.span.start = byteSize cut := by
        rw [hspan, Nat.add_sub_cancel_left]
      simp only [byteSize_append, List.map_cons, List.sum_cons, hsize]
      omega

/-! ## The outcome -/

/-- What keeps sorted edits from being applied. -/
def error? (text : List Char) (edits : List Edit) : Option EditError :=
  match edits.find? (fun e => !e.fits text) with
  | some e => some (.outOfBounds e.span (byteSize text))
  | none => (firstOverlap? edits).map fun pair => .overlap pair.1 pair.2

/-- Edits are applied unless something keeps them from it. -/
theorem applyAll_eq (edits : List Edit) (text : String) : applyAll edits text =
    match error? text.toList (inOrder edits) with
    | some e => .error e
    | none => .ok (String.ofList (splice 0 (inOrder edits) text.toList)) := by
  simp only [applyAll, error?, inOrder]
  cases (edits.mergeSort fun a b => Span.le a.span b.span).find? fun e => !e.fits text.toList with
  | some e => rfl
  | none => cases firstOverlap? (edits.mergeSort fun a b => Span.le a.span b.span) <;> rfl

/-- Edits out of bounds are found before overlaps. -/
theorem error?_of_not_fits {e : Edit} (he : e ∈ edits) (h : e.fits text = false) :
    ∃ span, error? text edits = some (.outOfBounds span (byteSize text)) := by
  have hfound : (edits.find? fun e => !e.fits text).isSome :=
    List.find?_isSome.2 ⟨e, he, by simp [h]⟩
  obtain ⟨f, hf⟩ := Option.isSome_iff_exists.1 hfound
  exact ⟨f.span, by rw [error?, hf]⟩

/-- Edits that fit can only overlap. -/
theorem error?_of_fits (h : ∀ e ∈ edits, e.fits text = true) :
    error? text edits = (firstOverlap? edits).map fun pair => .overlap pair.1 pair.2 := by
  have hnone : edits.find? (fun e => !e.fits text) = none :=
    List.find?_eq_none.2 fun e he => by simp [h e he]
  rw [error?, hnone]

/-- Nothing keeps edits from being applied that fit and lie one after the other. -/
theorem error?_inOrder_eq_none_iff : error? text (inOrder edits) = none ↔
    (∀ e ∈ edits, e.fits text = true) ∧ edits.Pairwise fun e f => e.span.Apart f.span := by
  by_cases hfits : ∀ e ∈ edits, e.fits text = true
  · rw [error?_of_fits fun e he => hfits e ((inOrder_perm edits).mem_iff.1 he),
      Option.map_eq_none_iff, firstOverlap?_inOrder fun e he => (fits_iff.1 (hfits e he)).1]
    exact (and_iff_right hfits).symm
  · refine iff_of_false ?_ fun h => hfits h.1
    push Not at hfits
    obtain ⟨e, he, hfit⟩ := hfits
    obtain ⟨span, herror⟩ := error?_of_not_fits ((inOrder_perm edits).mem_iff.2 he)
      (Bool.eq_false_of_not_eq_true hfit)
    simp [herror]

/-- Overlaps between neighbours are a matter of the spans. -/
theorem firstOverlap?_congr {es fs : List Edit}
    (h : es.map (·.span) = fs.map (·.span)) : firstOverlap? es = firstOverlap? fs := by
  induction es generalizing fs with
  | nil => rw [List.map_eq_nil_iff.1 h.symm]
  | cons e es ih =>
      obtain ⟨f, fs, rfl⟩ := List.exists_cons_of_ne_nil (l := fs) (by rintro rfl; simp at h)
      have hspan : e.span = f.span := (List.cons.inj h).1
      have htail := (List.cons.inj h).2
      have hrest := ih htail
      cases es with
      | nil =>
          rw [List.map_eq_nil_iff.1 htail.symm]
          rfl
      | cons e' es =>
          obtain ⟨f', fs, rfl⟩ :=
            List.exists_cons_of_ne_nil (l := fs) (by rintro rfl; simp at htail)
          have hspan' : e'.span = f'.span := (List.cons.inj htail).1
          rw [firstOverlap?, firstOverlap?, hrest, hspan, hspan']

/-- What keeps edits from being applied is a matter of the spans. -/
theorem error?_congr {es fs : List Edit} (h : es.map (·.span) = fs.map (·.span)) :
    error? text es = error? text fs := by
  have hfind : ∀ l : List Edit, (l.find? fun e => !e.fits text).map (·.span) =
      (l.map (·.span)).find? fun s => !decide (s.FitsIn text) := by
    intro l
    have hfit : (fun e : Edit => !e.fits text) = fun e => !decide (e.span.FitsIn text) := by
      funext e
      simp only [← fits_iff, Bool.decide_eq_true]
    rw [List.find?_map, hfit]
    rfl
  have hsame := (hfind es).trans ((congrArg _ h).trans (hfind fs).symm)
  rw [error?, error?, firstOverlap?_congr h]
  cases hes : es.find? (fun e => !e.fits text) with
  | none =>
      rw [hes, Option.map_none, eq_comm, Option.map_eq_none_iff] at hsame
      rw [hsame]
  | some e =>
      rw [hes, Option.map_some, eq_comm, Option.map_eq_some_iff] at hsame
      obtain ⟨f, hf, hspan⟩ := hsame
      simp only [hf, hspan]

/-- The sorted spans do not depend on the order of the edits. -/
theorem map_span_inOrder {es fs : List Edit} (h : es.Perm fs) :
    (inOrder es).map (·.span) = (inOrder fs).map (·.span) := by
  have hsorted : ∀ l : List Edit,
      ((inOrder l).map (·.span)).Pairwise fun a b => Span.le a b = true :=
    fun l => List.pairwise_map.2 (pairwise_inOrder l)
  refine List.Perm.eq_of_pairwise (fun a b _ _ => Span.le_antisymm) (hsorted es) (hsorted fs) ?_
  exact (((inOrder_perm es).trans h).trans (inOrder_perm fs).symm).map _

/-- The sorted edits do not depend on the order of the edits if no two of them have the same span.
-/
theorem inOrder_eq {es fs : List Edit} (h : es.Perm fs)
    (hne : es.Pairwise fun e f => e.span ≠ f.span) : inOrder es = inOrder fs := by
  have hperm := ((inOrder_perm es).trans h).trans (inOrder_perm fs).symm
  refine List.Perm.eq_of_pairwise (fun a b ha hb hab hba => ?_) (pairwise_inOrder es)
    (pairwise_inOrder fs) hperm
  by_contra hdiffer
  have : Std.Symm fun e f : Edit => e.span ≠ f.span := ⟨fun _ _ => Ne.symm⟩
  exact hne.forall ((inOrder_perm es).mem_iff.1 ha)
    ((inOrder_perm es).mem_iff.1 (hperm.mem_iff.2 hb)) hdiffer (Span.le_antisymm hab hba)

/-- **The order of the edits does not matter** unless two of them insert at the same place. -/
theorem applyAll_perm {es fs : List Edit} (h : es.Perm fs)
    (hinsert : es.Pairwise fun e f => ¬ (e.span.start = e.span.stop ∧ e.span = f.span))
    (text : String) : applyAll es text = applyAll fs text := by
  have herror : error? text.toList (inOrder es) = error? text.toList (inOrder fs) :=
    error?_congr (map_span_inOrder h)
  rw [applyAll_eq, applyAll_eq, ← herror]
  cases hes : error? text.toList (inOrder es) with
  | some e => rfl
  | none =>
      obtain ⟨hfits, hapart⟩ := error?_inOrder_eq_none_iff.1 hes
      -- edits with one span are apart only if both are insertions
      have hne : es.Pairwise fun e f => e.span ≠ f.span := by
        refine (hapart.and hinsert).imp_of_mem fun {e f} he _ hef hspan => hef.2 ⟨?_, hspan⟩
        have hself := (Span.apart_iff (by simp [hspan, Span.le])).1 hef.1
        rw [← hspan] at hself
        exact Nat.le_antisymm (fits_iff.1 (hfits e he)).1 hself
      simp only [inOrder_eq h hne]

/-- An edit that fits is applied alone. -/
theorem applyAll_singleton {e : Edit} {text : String} (h : e.fits text.toList = true) :
    applyAll [e] text = .ok (String.ofList (replaceOne e text.toList)) := by
  have hsort : inOrder [e] = [e] := List.perm_singleton.1 (inOrder_perm [e])
  have hnone : error? text.toList (inOrder [e]) = none :=
    error?_inOrder_eq_none_iff.2 ⟨by simpa using h, List.pairwise_singleton _ _⟩
  have hsplices : Splices 0 [e] text.toList (splice 0 [e] text.toList) :=
    splices_splice (a := []) (List.pairwise_singleton _ _) (by simpa using h) (by simp)
  have hreplace : replaceEach [e] text.toList = splice 0 [e] text.toList :=
    hsplices.replaceEach_eq (a := []) rfl
  rw [applyAll_eq, hnone, hsort]
  exact congrArg (fun cs => Except.ok (String.ofList cs)) hreplace.symm

/-- **The outcome of a list of edits.** The edits are out of bounds if one of them has a span that
is reversed, ends past the text or cuts a character; otherwise they overlap if two of them do;
otherwise their spans are replaced one at a time, from the last one to the first. The order in which
the edits are given does not matter unless two of them insert at the same place. -/
theorem applyAll_outcome (edits : List Edit) (text : String) :
    ((∃ span size, applyAll edits text = .error (.outOfBounds span size)) ↔
      ∃ e ∈ edits, e.span.stop < e.span.start ∨ byteSize text.toList < e.span.stop ∨
        isBoundary e.span.start text.toList = false ∨
        isBoundary e.span.stop text.toList = false) ∧
    ((∀ e ∈ edits, e.span.FitsIn text.toList) →
      ((∃ first second, applyAll edits text = .error (.overlap first second)) ↔
        ¬ edits.Pairwise fun e f => e.span.Apart f.span) ∧
      ((edits.Pairwise fun e f => e.span.Apart f.span) → ∃ out,
        applyAll edits text = .ok (String.ofList out) ∧
        out = replaceEach (inOrder edits) text.toList ∧
        Splices 0 (inOrder edits) text.toList out ∧
        byteSize out + (edits.map fun e => e.span.stop - e.span.start).sum =
          byteSize text.toList + (edits.map fun e => byteSize e.replacement.toList).sum)) ∧
    ∀ others, edits.Perm others →
      (edits.Pairwise fun e f => ¬ (e.span.start = e.span.stop ∧ e.span = f.span)) →
      applyAll edits text = applyAll others text := by
  have hfits : (∃ e ∈ edits, e.span.stop < e.span.start ∨ byteSize text.toList < e.span.stop ∨
      isBoundary e.span.start text.toList = false ∨
      isBoundary e.span.stop text.toList = false) ↔ ¬ ∀ e ∈ edits, e.fits text.toList = true := by
    push Not
    refine exists_congr fun e => and_congr_right fun _ => ?_
    rw [← not_iff_not, not_not, fits_iff, Span.FitsIn]
    simp
  refine ⟨?_, fun hfit => ?_, fun others hperm hinsert => applyAll_perm hperm hinsert text⟩
  -- out of bounds: whether an edit fits does not depend on the order
  · rw [hfits, applyAll_eq]
    constructor
    · rintro ⟨span, size, herror⟩ hall
      rw [error?_of_fits fun e he => hall e ((inOrder_perm edits).mem_iff.1 he)] at herror
      cases hover : firstOverlap? (inOrder edits) <;> simp [hover] at herror
    · intro hnot
      push Not at hnot
      obtain ⟨e, he, hfit⟩ := hnot
      obtain ⟨span, herror⟩ := error?_of_not_fits ((inOrder_perm edits).mem_iff.2 he)
        (Bool.eq_false_of_not_eq_true hfit)
      exact ⟨span, _, by rw [herror]⟩
  · have hall : ∀ e ∈ edits, e.fits text.toList = true := fun e he => fits_iff.2 (hfit e he)
    have hall' : ∀ e ∈ inOrder edits, e.fits text.toList = true :=
      fun e he => hall e ((inOrder_perm edits).mem_iff.1 he)
    have hover := firstOverlap?_inOrder fun e he => (hfit e he).1
    constructor
    -- once all edits fit, only an overlap is left to fail
    · rw [← hover, applyAll_eq, error?_of_fits hall']
      cases firstOverlap? (inOrder edits) <;> simp
    · intro hapart
      -- without overlaps, the splices are made in order
      have horder := pairwise_of_firstOverlap?_eq_none
        (fun e he => (fits_iff.1 (hall' e he)).1) (hover.2 hapart)
      have hsplices := splices_splice (a := []) (b := text.toList) horder hall' (by simp)
      have hsizes := hsplices.byteSize_eq
      rw [((inOrder_perm edits).map _).sum_nat, ((inOrder_perm edits).map _).sum_nat] at hsizes
      refine ⟨_, ?_, (hsplices.replaceEach_eq rfl).symm, hsplices, hsizes⟩
      rw [applyAll_eq, error?_inOrder_eq_none_iff.2 ⟨hall, hapart⟩]
      rfl

/-- A replacement, and an insertion right after a deletion, given in two orders. -/
theorem applyAll_outcome_insertion :
    (∀ e ∈ [(⟨⟨6, 8⟩, "x"⟩ : Edit), ⟨⟨2, 2⟩, "é"⟩, ⟨⟨0, 2⟩, ""⟩],
      e.span.FitsIn "0123456789".toList) ∧
    ([(⟨⟨6, 8⟩, "x"⟩ : Edit), ⟨⟨2, 2⟩, "é"⟩, ⟨⟨0, 2⟩, ""⟩].Pairwise
      fun e f => e.span.Apart f.span) ∧
    ([(⟨⟨6, 8⟩, "x"⟩ : Edit), ⟨⟨2, 2⟩, "é"⟩, ⟨⟨0, 2⟩, ""⟩].Pairwise fun e f =>
      ¬ (e.span.start = e.span.stop ∧ e.span = f.span)) ∧
    applyAll [⟨⟨6, 8⟩, "x"⟩, ⟨⟨2, 2⟩, "é"⟩, ⟨⟨0, 2⟩, ""⟩] "0123456789" = .ok "é2345x89" ∧
    applyAll [⟨⟨0, 2⟩, ""⟩, ⟨⟨2, 2⟩, "é"⟩, ⟨⟨6, 8⟩, "x"⟩] "0123456789" = .ok "é2345x89" := by
  have hfits : ∀ e ∈ [(⟨⟨6, 8⟩, "x"⟩ : Edit), ⟨⟨2, 2⟩, "é"⟩, ⟨⟨0, 2⟩, ""⟩],
      e.span.FitsIn "0123456789".toList := by decide +kernel
  have hapart : [(⟨⟨6, 8⟩, "x"⟩ : Edit), ⟨⟨2, 2⟩, "é"⟩, ⟨⟨0, 2⟩, ""⟩].Pairwise
      fun e f => e.span.Apart f.span := by decide +kernel
  have hinsert : [(⟨⟨6, 8⟩, "x"⟩ : Edit), ⟨⟨2, 2⟩, "é"⟩, ⟨⟨0, 2⟩, ""⟩].Pairwise
      fun e f => ¬ (e.span.start = e.span.stop ∧ e.span = f.span) := by decide +kernel
  obtain ⟨-, hfit, hperm⟩ :=
    applyAll_outcome [⟨⟨6, 8⟩, "x"⟩, ⟨⟨2, 2⟩, "é"⟩, ⟨⟨0, 2⟩, ""⟩] "0123456789"
  obtain ⟨out, hok, rfl, -⟩ := (hfit hfits).2 hapart
  have hout : String.ofList (replaceEach (inOrder [⟨⟨6, 8⟩, "x"⟩, ⟨⟨2, 2⟩, "é"⟩, ⟨⟨0, 2⟩, ""⟩])
      "0123456789".toList) = "é2345x89" := by cbv
  rw [hout] at hok
  refine ⟨hfits, hapart, hinsert, hok, ?_⟩
  rw [← hperm [⟨⟨0, 2⟩, ""⟩, ⟨⟨2, 2⟩, "é"⟩, ⟨⟨6, 8⟩, "x"⟩] (by decide) hinsert, hok]

/-- Two insertions at one place stand in the order in which they are given. -/
example : applyAll [⟨⟨1, 1⟩, "a"⟩, ⟨⟨1, 1⟩, "b"⟩] "xy" = .ok "xaby" := by cbv

end Edit

end StyleAudit
