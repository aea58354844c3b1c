import Mathlib
import StyleAudit.Project.Analysis
import StyleAudit.Proofs.Files.Writing

/-! # What files contribute

A file contributes the same whenever its task runs, and two files whose paths have the same parts
contribute the same stylesheet. So it does not matter which of several contributions for one path is
kept, and every order of the kept ones comes from some order of the files.

* **`distinctPaths_append`** — what is kept of two lists of entries.
* **`exists_perm_distinctPaths_eq`** — every order of the kept entries comes from an order of all.
* **`exists_perm_filterMap_eq`** — an order of what elements give comes from one of the elements.
* **`sheet?_congr`**, **`faulty?_congr`** — what is contributed for the same parts is the same. -/

namespace StyleAudit.Project

open Files

/-! ## Entries by path -/

section Paths

variable {α : Type} {e : Path × α} {es l m : List (Path × α)}

/-- The entries that are kept stand in the order of all entries. -/
theorem distinctPaths_sublist (es : List (Path × α)) : (distinctPaths es).Sublist es := by
  induction es with
  | nil => exact .slnil
  | cons e es ih => exact (List.filter_sublist.trans ih).cons_cons e

/-- The entries that are kept have different parts. -/
theorem pairwise_distinctPaths (es : List (Path × α)) :
    (distinctPaths es).Pairwise fun a b => a.1.parts ≠ b.1.parts := by
  induction es with
  | nil => exact .nil
  | cons e es ih =>
      refine List.pairwise_cons.2 ⟨fun b hb => ?_, ih.filter _⟩
      have hne := (List.mem_filter.1 hb).2
      rw [bne_iff_ne] at hne
      exact Ne.symm hne

/-- For every entry, one with its parts is kept. -/
theorem exists_mem_distinctPaths (he : e ∈ es) :
    ∃ k ∈ distinctPaths es, k.1.parts = e.1.parts := by
  induction es with
  | nil => simp at he
  | cons first es ih =>
      by_cases hfirst : e.1.parts = first.1.parts
      · exact ⟨first, List.mem_cons_self, hfirst.symm⟩
      · have hmem : e ∈ es := by
          rcases List.mem_cons.1 he with rfl | hmem
          · exact absurd rfl hfirst
          · exact hmem
        obtain ⟨k, hk, hparts⟩ := ih hmem
        refine ⟨k, List.mem_cons_of_mem _ (List.mem_filter.2 ⟨hk, ?_⟩), hparts⟩
        rw [bne_iff_ne, hparts]
        exact hfirst

/-- Entries with different parts are all kept. -/
theorem distinctPaths_eq_self (h : es.Pairwise fun a b => a.1.parts ≠ b.1.parts) :
    distinctPaths es = es := by
  induction es with
  | nil => rfl
  | cons e es ih =>
      obtain ⟨hfirst, hrest⟩ := List.pairwise_cons.1 h
      rw [distinctPaths, ih hrest, List.filter_eq_self.2 fun b hb => ?_]
      rw [bne_iff_ne]
      exact Ne.symm (hfirst b hb)

/-- What is kept of two lists: the entries of the second one only if their parts are new. -/
theorem distinctPaths_append (l m : List (Path × α)) :
    distinctPaths (l ++ m) =
      distinctPaths l ++ (distinctPaths m).filter fun b => !l.any (·.1.parts == b.1.parts) := by
  induction l with
  | nil => simp [distinctPaths]
  | cons a l ih =>
      rw [List.cons_append, distinctPaths, ih, List.filter_append, distinctPaths, List.cons_append,
        List.filter_filter]
      congr 2
      refine List.filter_congr fun b _ => ?_
      rw [List.any_cons, Bool.not_or, bne, Bool.beq_comm]

/-- **Every order of the kept entries** comes from an order of all entries. -/
theorem exists_perm_distinctPaths_eq (h : m.Perm (distinctPaths l)) :
    ∃ l', l'.Perm l ∧ distinctPaths l' = m := by
  obtain ⟨rest, hrest⟩ := (distinctPaths_sublist l).exists_perm_append
  have hkept : distinctPaths m = m :=
    distinctPaths_eq_self ((h.pairwise_iff fun hab => Ne.symm hab).2 (pairwise_distinctPaths l))
  refine ⟨m ++ rest, (h.append_right rest).trans hrest.symm, ?_⟩
  rw [distinctPaths_append, hkept, List.filter_eq_nil_iff.2, List.append_nil]
  intro b hb
  obtain ⟨k, hk, hparts⟩ := exists_mem_distinctPaths
    (hrest.mem_iff.2 (List.mem_append_right _ ((distinctPaths_sublist rest).subset hb)))
  have hany : m.any (·.1.parts == b.1.parts) = true :=
    List.any_eq_true.2 ⟨k, h.mem_iff.2 hk, beq_iff_eq.2 hparts⟩
  simp [hany]

end Paths

/-- **An order of what elements give** comes from an order of the elements. -/
theorem exists_perm_filterMap_eq {α β : Type} {f : α → Option β} {m : List β} {l : List α}
    (h : m.Perm (l.filterMap f)) : ∃ l' : List α, l'.Perm l ∧ l'.filterMap f = m := by
  induction m generalizing l with
  | nil => exact ⟨l, .refl l, List.nil_perm.1 h⟩
  | cons b m ih =>
      obtain ⟨a, ha, hab⟩ := List.mem_filterMap.1 (h.mem_iff.1 List.mem_cons_self)
      obtain ⟨front, back, rfl⟩ := List.append_of_mem ha
      have hm : m.Perm ((front ++ back).filterMap f) := by
        have hmove := h.trans (List.perm_middle.filterMap f)
        rw [List.filterMap_cons_some hab] at hmove
        exact hmove.cons_inv
      obtain ⟨l', hperm, hgives⟩ := ih hm
      exact ⟨a :: l', (hperm.cons a).trans List.perm_middle.symm,
        by rw [List.filterMap_cons_some hab, hgives]⟩

/-- Two orders of what elements give, of which no element gives both, come from one order of the
elements. -/
theorem exists_perm_filterMap_eq_both {α β γ : Type} {f : α → Option β} {g : α → Option γ}
    {m : List β} {n : List γ} {l : List α} (hone : ∀ a, f a ≠ none → g a = none)
    (hm : m.Perm (l.filterMap f)) (hn : n.Perm (l.filterMap g)) :
    ∃ l' : List α, l'.Perm l ∧ l'.filterMap f = m ∧ l'.filterMap g = n := by
  have hf : (l.filter fun a => (f a).isSome).filterMap f = l.filterMap f := by
    rw [List.filterMap_filter]
    refine List.filterMap_congr fun a _ => ?_
    cases f a <;> rfl
  have hg : (l.filter fun a => !(f a).isSome).filterMap g = l.filterMap g := by
    rw [List.filterMap_filter]
    refine List.filterMap_congr fun a _ => ?_
    cases ha : f a with
    | none => rfl
    | some b => exact (hone a (by simp [ha])).symm
  rw [← hf] at hm
  rw [← hg] at hn
  -- the elements that give something of the one kind first, and all others after them
  obtain ⟨front, hfront, hgives⟩ := exists_perm_filterMap_eq hm
  obtain ⟨back, hback, hgives'⟩ := exists_perm_filterMap_eq hn
  refine ⟨front ++ back, (hfront.append hback).trans (List.filter_append_perm _ l), ?_, ?_⟩
  · rw [List.filterMap_append, hgives, List.filterMap_eq_nil_iff.2, List.append_nil]
    intro a ha
    simpa using (List.mem_filter.1 (hback.mem_iff.1 ha)).2
  · rw [List.filterMap_append, hgives', List.filterMap_eq_nil_iff.2, List.nil_append]
    intro a ha
    have hsome := (List.mem_filter.1 (hfront.mem_iff.1 ha)).2
    exact hone a (Option.isSome_iff_ne_none.1 hsome)

/-- The members of the union of what the elements of a list give. -/
theorem mem_foldl_union {α : Type} {g : α → SelectorSet} {x : String} {u : SelectorSet}
    {l : List α} :
    x ∈ l.foldl (fun u a => u.union (g a)) u ↔ x ∈ u ∨ ∃ a ∈ l, x ∈ g a := by
  induction l generalizing u with
  | nil => simp
  | cons a l ih => simp [ih, or_assoc]

/-! ## Contributions -/

/-- A contribution is not both a stylesheet and the reason why one is left out. -/
theorem Contribution.faulty?_eq_none {c : Contribution} (h : c.sheet? ≠ none) :
    c.faulty? = none := by
  cases c with
  | faulty path reason => exact absurd rfl h
  | _ => rfl

/-- A stylesheet as it is kept. -/
def ParsedSheet.ofText (text : String) : ParsedSheet :=
  ⟨text, .ofText text, (Sheet.Outline.ofText text).declared⟩

variable (w : Workspace) (s : Settings) (f : SourceFile)

/-- The text of a file, if it is a stylesheet to report on that can be read. -/
def sheetText? : Option String :=
  if f.kind = .stylesheet ∧ s.includesSheet f.path = true then w.tree.read? w.here f.path else none

/-- The text of a stylesheet to report on that is accepted. -/
def acceptedText? : Option String :=
  (sheetText? w s f).filter fun text => ((Sheet.Outline.ofText text).error? text).isNone

/-- Why a stylesheet to report on is rejected. -/
def rejection? : Option String :=
  (sheetText? w s f).bind fun text => ((Sheet.Outline.ofText text).error? text).map (·.message)

/-- What a file contributes when its pass is not cancelled, by what it is. -/
theorem contribute_cases :
    (w.tree.read? w.here f.path = none ∧ contribute w s f false = .nothing) ∨
    ∃ text, w.tree.read? w.here f.path = some text ∧
      ((f.kind ≠ .stylesheet ∧ contribute w s f false = .usage (used f.kind text)) ∨
      (f.kind = .stylesheet ∧ s.includesSheet f.path = false ∧
        contribute w s f false = .outOfScope) ∨
      (f.kind = .stylesheet ∧ s.includesSheet f.path = true ∧
        (Sheet.Outline.ofText text).error? text = none ∧
        contribute w s f false = .sheet f.path (.ofText text)) ∨
      ∃ e, f.kind = .stylesheet ∧ s.includesSheet f.path = true ∧
        (Sheet.Outline.ofText text).error? text = some e ∧
        contribute w s f false = .faulty f.path e.message) := by
  cases hread : w.tree.read? w.here f.path with
  | none => exact .inl ⟨rfl, by simp [contribute, hread]⟩
  | some text =>
      refine .inr ⟨text, rfl, ?_⟩
      have hcontribute : contribute w s f false = contributeText s f text := by
        simp [contribute, hread]
      rw [hcontribute, contributeText]
      -- a stylesheet is in scope or not, and then accepted or faulty
      by_cases hkind : f.kind = .stylesheet
      · cases hscope : s.includesSheet f.path with
        | false => exact .inr (.inl ⟨hkind, rfl, by simp [hkind]⟩)
        | true =>
            cases herror : (Sheet.Outline.ofText text).error? text with
            | none =>
                exact .inr (.inr (.inl ⟨hkind, rfl, rfl,
                  by simp [hkind, herror, ParsedSheet.ofText]⟩))
            | some e => exact .inr (.inr (.inr ⟨e, hkind, rfl, rfl, by simp [hkind, herror]⟩))
      · exact .inl ⟨hkind, by simp [hkind]⟩

variable {w s f}

/-- The selectors that a file uses. -/
theorem mem_used_contribute {x : String} :
    x ∈ (contribute w s f false).used ↔ f.kind ≠ .stylesheet ∧
      ∃ text, w.tree.read? w.here f.path = some text ∧ x ∈ used f.kind text := by
  rcases contribute_cases w s f with ⟨hread, hc⟩ | ⟨text, hread, hc⟩
  · simp [hread, hc, Contribution.used]
  · rcases hc with ⟨hkind, hc⟩ | ⟨hkind, -, hc⟩ | ⟨hkind, -, -, hc⟩ | ⟨e, hkind, -, -, hc⟩ <;>
      simp [hread, hkind, hc, Contribution.used]

/-- A file is read when it has a text. -/
theorem isRead_contribute :
    (contribute w s f false).isRead = (w.tree.read? w.here f.path).isSome := by
  rcases contribute_cases w s f with ⟨hread, hc⟩ | ⟨text, hread, hc⟩
  · simp [hread, hc, Contribution.isRead]
  · rcases hc with ⟨-, hc⟩ | ⟨-, -, hc⟩ | ⟨-, -, -, hc⟩ | ⟨e, -, -, -, hc⟩ <;>
      simp [hread, hc, Contribution.isRead]

/-- A file contributes a stylesheet when it is accepted. -/
theorem sheet?_contribute : (contribute w s f false).sheet? =
    (acceptedText? w s f).map fun text => (f.path, .ofText text) := by
  rw [acceptedText?, sheetText?]
  rcases contribute_cases w s f with ⟨hread, hc⟩ | ⟨text, hread, hc⟩
  · simp [hread, hc, Contribution.sheet?]
  · rcases hc with ⟨hkind, hc⟩ | ⟨hkind, hscope, hc⟩ | ⟨hkind, hscope, herror, hc⟩ |
      ⟨e, hkind, hscope, herror, hc⟩ <;> simp [Contribution.sheet?, *]

/-- A file contributes a reason why it was left out when it is rejected. -/
theorem faulty?_contribute : (contribute w s f false).faulty? =
    (rejection? w s f).map fun reason => (f.path, reason) := by
  rw [rejection?, sheetText?]
  rcases contribute_cases w s f with ⟨hread, hc⟩ | ⟨text, hread, hc⟩
  · simp [hread, hc, Contribution.faulty?]
  · rcases hc with ⟨hkind, hc⟩ | ⟨hkind, hscope, hc⟩ | ⟨hkind, hscope, herror, hc⟩ |
      ⟨e, hkind, hscope, herror, hc⟩ <;> simp [Contribution.faulty?, *]

/-- The text of a stylesheet to report on is what its path leads to. -/
theorem read?_of_sheetText? {text : String} (h : sheetText? w s f = some text) :
    w.tree.read? w.here f.path = some text := by
  rw [sheetText?] at h
  split at h
  · exact h
  · cases h

/-- What is reported on is a stylesheet. -/
theorem kind_of_sheetText? {text : String} (h : sheetText? w s f = some text) :
    f.kind = .stylesheet := by
  rw [sheetText?] at h
  split at h
  · rename_i hscope
    exact hscope.1
  · cases h

/-- A stylesheet is contributed under the path of its file, with the text that it leads to. -/
theorem read?_of_sheet? {c : Bool} {e : Path × ParsedSheet}
    (h : (contribute w s f c).sheet? = some e) :
    e.1 = f.path ∧ ∃ text, w.tree.read? w.here f.path = some text ∧ e.2 = .ofText text := by
  cases c with
  | true => cases h
  | false =>
      rw [sheet?_contribute, Option.map_eq_some_iff] at h
      obtain ⟨text, htext, rfl⟩ := h
      exact ⟨rfl, text, read?_of_sheetText? (Option.filter_eq_some_iff.1 htext).1, rfl⟩

/-- A stylesheet is left out under the path of its file, for what is wrong with its text. -/
theorem read?_of_faulty? {c : Bool} {e : Path × String}
    (h : (contribute w s f c).faulty? = some e) :
    e.1 = f.path ∧ ∃ text, w.tree.read? w.here f.path = some text ∧
      ((Sheet.Outline.ofText text).error? text).map (·.message) = some e.2 := by
  cases c with
  | true => cases h
  | false =>
      rw [faulty?_contribute, Option.map_eq_some_iff] at h
      obtain ⟨reason, hreason, rfl⟩ := h
      obtain ⟨text, htext, herror⟩ := Option.bind_eq_some_iff.1 hreason
      exact ⟨rfl, text, read?_of_sheetText? htext, herror⟩

variable {g : SourceFile} {c d : Bool}

/-- **The stylesheets that are contributed for the same parts** are the same. -/
theorem sheet?_congr {a b : Path × ParsedSheet} (ha : (contribute w s f c).sheet? = some a)
    (hb : (contribute w s g d).sheet? = some b) (hparts : a.1.parts = b.1.parts) : a.2 = b.2 := by
  obtain ⟨hpa, text, hf, hva⟩ := read?_of_sheet? ha
  obtain ⟨hpb, text', hg, hvb⟩ := read?_of_sheet? hb
  rw [hpa, hpb] at hparts
  rw [hva, hvb, FileTree.read?_congr hparts hf hg]

/-- **The reasons that are contributed for the same parts** are the same. -/
theorem faulty?_congr {a b : Path × String} (ha : (contribute w s f c).faulty? = some a)
    (hb : (contribute w s g d).faulty? = some b) (hparts : a.1.parts = b.1.parts) :
    a.2 = b.2 := by
  obtain ⟨hpa, text, hf, hva⟩ := read?_of_faulty? ha
  obtain ⟨hpb, text', hg, hvb⟩ := read?_of_faulty? hb
  rw [hpa, hpb] at hparts
  rw [FileTree.read?_congr hparts hf hg, hvb] at hva
  exact (Option.some.inj hva).symm

end StyleAudit.Project
