import Mathlib
import StyleAudit.Proofs.Text.Offset
import StyleAudit.Sheet.Outline

/-! # The entries that a run of marks spells

A statement is cut at its commas, and each part that has a solid mark is an entry. The solid marks
of an entry, from the first to the last, are its core; what lies between two cores is a gap, and a
gap that separates two entries holds a comma.

* **`IsCore`, `IsGap`** — the two kinds of stretch that a statement is made of.
* **`exists_segments`** — every run of marks is a gap followed by cores with gaps after them.
* **`entries_segments`** — the entries of such a run are those of its cores.
* **`Run pos ms`** — the marks lie end to end from offset `pos` on. -/

namespace StyleAudit.Sheet

/-! ## Cores and gaps -/

/-- Whether a mark belongs to no entry. -/
def Mark.isGap (m : Mark) : Bool := !m.isSolid || m.kind == .comma

/-- A mark that is solid and no comma belongs to an entry. -/
theorem Mark.isGap_eq_false_iff {m : Mark} :
    m.isGap = false ↔ m.isSolid = true ∧ m.kind ≠ .comma := by
  simp [Mark.isGap]

/-- A mark outside all entries that is no comma is not solid. -/
theorem Mark.isSolid_of_isGap {m : Mark} (h : m.isGap = true) (hc : m.kind ≠ .comma) :
    m.isSolid = false := by
  simpa [Mark.isGap, hc] using h

/-- The marks lie between entries. -/
def IsGap (ms : List Mark) : Prop := ∀ m ∈ ms, m.isGap = true

/-- The marks are those of one entry: no comma, and a solid mark at either end. -/
structure IsCore (ms : List Mark) : Prop where
  ne_nil : ms ≠ []
  no_comma : ∀ m ∈ ms, m.kind ≠ .comma
  head_solid : (ms.head ne_nil).isSolid = true
  last_solid : (ms.getLast ne_nil).isSolid = true

/-- The entry of a core. -/
def coreEntry (ms : List Mark) : Entry :=
  ⟨String.ofList (marksText false false ms),
    ⟨(ms.head?.map Mark.start).getD 0, (ms.getLast?.map Mark.stop).getD 0⟩⟩

/-! ## Cutting at commas -/

/-- There is at least one part between commas. -/
theorem splitCommas_ne_nil (ms : List Mark) : splitCommas ms ≠ [] := by
  cases ms with
  | nil => simp [splitCommas]
  | cons m ms =>
      rw [splitCommas]
      split
      · simp
      · split <;> simp

/-- A comma ends the part before it. -/
theorem splitCommas_append_comma {ms rest : List Mark} {m : Mark}
    (hms : ∀ x ∈ ms, x.kind ≠ .comma) (hm : m.kind = .comma) :
    splitCommas (ms ++ m :: rest) = ms :: splitCommas rest := by
  induction ms with
  | nil => simp [splitCommas, hm]
  | cons x xs ih =>
      rw [List.cons_append, splitCommas, if_neg (hms x (by simp)),
        ih fun y hy => hms y (by simp [hy])]

/-- Marks without a comma are one part. -/
theorem splitCommas_of_no_comma {ms : List Mark} (hms : ∀ x ∈ ms, x.kind ≠ .comma) :
    splitCommas ms = [ms] := by
  induction ms with
  | nil => rfl
  | cons x xs ih =>
      rw [splitCommas, if_neg (hms x (by simp)), ih fun y hy => hms y (by simp [hy])]

/-- Marks that are not solid have no text. -/
theorem marksText_of_not_solid {ms : List Mark} (h : ∀ m ∈ ms, m.isSolid = false)
    (started gap : Bool) : marksText started gap ms = [] := by
  induction ms generalizing started gap with
  | nil => rfl
  | cons m ms ih =>
      have hm := h m (by simp)
      have hms := ih fun x hx => h x (by simp [hx])
      rw [marksText]
      split
      · exact hms _ _
      · rw [if_neg (by simp [hm])]
        exact hms _ _

/-- Marks that are not solid add nothing after a text. -/
theorem marksText_append {ms rest : List Mark} (h : ∀ m ∈ rest, m.isSolid = false)
    (started gap : Bool) : marksText started gap (ms ++ rest) = marksText started gap ms := by
  induction ms generalizing started gap with
  | nil => exact marksText_of_not_solid h _ _
  | cons m ms ih => simp only [List.cons_append, marksText, ih]

/-- A mark before an entry that is not solid does not show in it. -/
theorem entry?_cons {m : Mark} {ms : List Mark} (h : m.isSolid = false) :
    entry? (m :: ms) = entry? ms := by
  have htext : marksText false false (m :: ms) = marksText false false ms := by
    rw [marksText]
    simp [h]
  rw [ entry?, entry?, List.filter_cons_of_neg (by simp [h]), htext]

/-- The entry of a core with marks after it that are not solid. -/
theorem entry?_core_append {ms rest : List Mark} (hms : IsCore ms)
    (h : ∀ m ∈ rest, m.isSolid = false) : entry? (ms ++ rest) = some (coreEntry ms) := by
  have hrest : rest.filter Mark.isSolid = [] :=
    List.filter_eq_nil_iff.2 fun m hm => by simp [h m hm]
  have hhead := hms.head_solid
  have hlast := hms.last_solid
  have hne := hms.ne_nil
  obtain ⟨first, others, rfl⟩ := List.exists_cons_of_ne_nil hne
  -- the last solid mark is the last mark
  have hfilter : ((first :: others).filter Mark.isSolid).getLast? = (first :: others).getLast? := by
    rw [← List.dropLast_append_getLast hne, List.filter_append]
    simp [hlast]
  rw [List.head_cons] at hhead
  rw [List.filter_cons_of_pos hhead, List.getLast?_cons, List.getLast?_cons] at hfilter
  rw [ entry?, List.filter_append, hrest, List.append_nil, List.filter_cons_of_pos hhead,
    marksText_append h]
  simp only [coreEntry, List.head?_cons, List.getLast?_cons, Option.map_some, Option.getD_some]
  rw [Option.some.inj hfilter]

/-! ## Entries -/

/-- Marks before the first entry do not show in the entries. -/
theorem entries_gap_append {gap ms : List Mark} (h : IsGap gap) :
    entries (gap ++ ms) = entries ms := by
  induction gap with
  | nil => rfl
  | cons m gap ih =>
      have hrest := ih fun x hx => h x (by simp [hx])
      rw [List.cons_append, ← hrest]
      by_cases hm : m.kind = .comma
      · rw [entries, splitCommas, if_pos hm, List.filterMap_cons_none (by rfl)]
        rfl
      · have hsolid := Mark.isSolid_of_isGap (h m (by simp)) hm
        obtain ⟨part, parts, hparts⟩ := List.exists_cons_of_ne_nil (splitCommas_ne_nil (gap ++ ms))
        rw [entries, entries, splitCommas, if_neg hm, hparts]
        simp only [List.filterMap_cons, entry?_cons hsolid]

/-- Marks that hold a comma split at the first one. -/
theorem exists_first_comma {ms : List Mark} (h : ∃ m ∈ ms, m.kind = .comma) :
    ∃ a m b, ms = a ++ m :: b ∧ m.kind = .comma ∧ ∀ x ∈ a, x.kind ≠ .comma := by
  obtain ⟨x, hx, hkind⟩ := h
  obtain ⟨m, hm⟩ : ∃ m, ms.find? (·.kind == .comma) = some m :=
    Option.isSome_iff_exists.1 (List.find?_isSome.2 ⟨x, hx, by simp [hkind]⟩)
  obtain ⟨hcomma, a, b, rfl, ha⟩ := List.find?_eq_some_iff_append.1 hm
  exact ⟨a, m, b, rfl, by simpa using hcomma, fun y hy => by simpa using ha y hy⟩

/-- A core is the first entry when a comma separates it from the rest. -/
theorem entries_core_append {core gap rest : List Mark} (hcore : IsCore core) (hgap : IsGap gap)
    (hcomma : ∃ m ∈ gap, m.kind = .comma) :
    entries (core ++ (gap ++ rest)) = coreEntry core :: entries rest := by
  obtain ⟨a, m, b, rfl, hm, ha⟩ := exists_first_comma hcomma
  have hsolid : ∀ x ∈ a, x.isSolid = false := fun x hx =>
    Mark.isSolid_of_isGap (hgap x (by simp [hx])) (ha x hx)
  have hb : IsGap b := fun x hx => hgap x (by simp [hx])
  have hpart : ∀ x ∈ core ++ a, x.kind ≠ .comma := fun x hx =>
    (List.mem_append.1 hx).elim (hcore.no_comma x) (ha x)
  have hrest : entries (b ++ rest) = entries rest := entries_gap_append hb
  have hsplit := @splitCommas_append_comma _ (b ++ rest) _ hpart hm
  rw [← hrest, entries]
  simp only [List.append_assoc, List.cons_append] at hsplit ⊢
  rw [hsplit, List.filterMap_cons_some (entry?_core_append hcore hsolid)]
  rfl

/-- A core is the only entry when nothing solid but commas follows it. -/
theorem entries_core_gap {core gap : List Mark} (hcore : IsCore core) (hgap : IsGap gap) :
    entries (core ++ gap) = [coreEntry core] := by
  by_cases hcomma : ∃ m ∈ gap, m.kind = .comma
  · have h := @entries_core_append _ _ [] hcore hgap hcomma
    rw [List.append_nil] at h
    exact h
  · have hno : ∀ x ∈ gap, x.kind ≠ .comma := fun x hx hc => hcomma ⟨x, hx, hc⟩
    have hpart : ∀ x ∈ core ++ gap, x.kind ≠ .comma := fun x hx =>
      (List.mem_append.1 hx).elim (hcore.no_comma x) (hno x)
    rw [entries, splitCommas_of_no_comma hpart, List.filterMap_cons_some (entry?_core_append hcore
      fun x hx => Mark.isSolid_of_isGap (hgap x hx) (hno x hx))]
    rfl

/-! ## Segments -/

/-- A core and the gap after it. -/
structure Segment where
  core : List Mark
  gap : List Mark

/-- The marks of a segment. -/
def Segment.marks (s : Segment) : List Mark := s.core ++ s.gap

/-- The entry of a segment. -/
def Segment.entry (s : Segment) : Entry := coreEntry s.core

/-- The segments spell one entry each: their cores are cores, their gaps are gaps, and every
gap but the last one holds a comma. -/
def Spelled : List Segment → Prop
  | [] => True
  | s :: rest =>
      IsCore s.core ∧ IsGap s.gap ∧ (rest ≠ [] → ∃ m ∈ s.gap, m.kind = .comma) ∧ Spelled rest

/-- **Every run of marks is a gap and then segments.** -/
theorem exists_segments (ms : List Mark) :
    ∃ gap segments, ms = gap ++ segments.flatMap Segment.marks ∧ IsGap gap ∧ Spelled segments := by
  induction ms with
  | nil => exact ⟨[], [], rfl, by simp [IsGap], trivial⟩
  | cons m ms ih =>
      obtain ⟨gap, segments, rfl, hgap, hseg⟩ := ih
      by_cases hm : m.isGap = true
      · refine ⟨m :: gap, segments, rfl, fun x hx => ?_, hseg⟩
        rcases List.mem_cons.1 hx with rfl | hx
        · exact hm
        · exact hgap x hx
      · obtain ⟨hsolid, hkind⟩ := Mark.isGap_eq_false_iff.1 (by simpa using hm)
        by_cases hnew : segments = [] ∨ ∃ x ∈ gap, x.kind = .comma
        · -- the mark is an entry of its own
          have hcore : IsCore [m] := ⟨by simp, by simpa using hkind, hsolid, hsolid⟩
          refine ⟨[], ⟨[m], gap⟩ :: segments, by simp [Segment.marks], by simp [IsGap],
            hcore, hgap, fun hne => ?_, hseg⟩
          exact hnew.resolve_left hne
        · -- the mark goes on with the entry that follows it
          push Not at hnew
          obtain ⟨hne, hno⟩ := hnew
          obtain ⟨s, rest, rfl⟩ := List.exists_cons_of_ne_nil hne
          obtain ⟨hcore, hsgap, hcomma, hrest⟩ := hseg
          have hcore' : IsCore (m :: (gap ++ s.core)) := by
            refine ⟨by simp, fun x hx => ?_, hsolid, ?_⟩
            · rcases List.mem_cons.1 hx with rfl | hx
              · exact hkind
              · exact (List.mem_append.1 hx).elim (hno x) (hcore.no_comma x)
            · rw [List.getLast_cons (by simp [hcore.ne_nil]),
                List.getLast_append_of_ne_nil _ hcore.ne_nil]
              exact hcore.last_solid
          exact ⟨[], ⟨m :: (gap ++ s.core), s.gap⟩ :: rest, by simp [Segment.marks],
            by simp [IsGap], hcore', hsgap, hcomma, hrest⟩

/-- **The entries of a statement are those of its segments.** -/
theorem entries_segments {gap : List Mark} {segments : List Segment} (hgap : IsGap gap)
    (hseg : Spelled segments) :
    entries (gap ++ segments.flatMap Segment.marks) = segments.map Segment.entry := by
  rw [entries_gap_append hgap]
  induction segments with
  | nil => rfl
  | cons s rest ih =>
      obtain ⟨hcore, hsgap, hcomma, hrest⟩ := hseg
      rw [List.flatMap_cons, Segment.marks, List.append_assoc, List.map_cons]
      by_cases hne : rest = []
      · rw [hne, List.flatMap_nil, List.append_nil, entries_core_gap hcore hsgap]
        rfl
      · rw [entries_core_append hcore hsgap (hcomma hne), ih hrest]
        rfl

/-! ## Marks that lie end to end -/

/-- The characters of a sequence of marks. -/
def marksChars (ms : List Mark) : List Char := ms.flatMap Mark.chars

/-- No marks have no characters. -/
@[simp] theorem marksChars_nil : marksChars [] = [] := rfl

/-- Cons reading of `marksChars`. -/
@[simp] theorem marksChars_cons (m : Mark) (ms : List Mark) :
    marksChars (m :: ms) = m.chars ++ marksChars ms := rfl

/-- The characters of two sequences of marks. -/
@[simp] theorem marksChars_append (a b : List Mark) :
    marksChars (a ++ b) = marksChars a ++ marksChars b := by
  simp [marksChars]

/-- The marks lie end to end from offset `pos` on, and none of them is empty. -/
def Run : (pos : Nat) → List Mark → Prop
  | _, [] => True
  | pos, m :: ms => m.start = pos ∧ m.chars ≠ [] ∧ Run m.stop ms

/-- Two sequences lie end to end when the second one begins where the first one ends. -/
theorem run_append {pos : Nat} {a b : List Mark} :
    Run pos (a ++ b) ↔ Run pos a ∧ Run (pos + Text.byteSize (marksChars a)) b := by
  induction a generalizing pos with
  | nil => simp [Run]
  | cons m a ih =>
      rw [List.cons_append, Run, Run, ih, marksChars_cons, Text.byteSize_append, Mark.stop]
      constructor
      · rintro ⟨rfl, hne, ha, hb⟩
        exact ⟨⟨rfl, hne, ha⟩, by rwa [← Nat.add_assoc]⟩
      · rintro ⟨⟨rfl, hne, ha⟩, hb⟩
        exact ⟨rfl, hne, ha, by rwa [Nat.add_assoc]⟩

/-- A sequence that lies end to end stops where its characters do. -/
theorem Run.stop_getLast {pos : Nat} {ms : List Mark} (h : Run pos ms) (hne : ms ≠ []) :
    (ms.getLast hne).stop = pos + Text.byteSize (marksChars ms) := by
  have hsplit := List.dropLast_append_getLast hne
  rw [← hsplit] at h
  obtain ⟨-, hstart, -, -⟩ := run_append.1 h
  conv_rhs => rw [← hsplit]
  rw [marksChars_append, Text.byteSize_append, Mark.stop, hstart]
  simp [Nat.add_assoc]

/-- The entry of a core spans its characters. -/
theorem span_coreEntry {pos : Nat} {core : List Mark} (h : Run pos core) (hcore : IsCore core) :
    (coreEntry core).span = ⟨pos, pos + Text.byteSize (marksChars core)⟩ := by
  have hstop := h.stop_getLast hcore.ne_nil
  have hstart : (core.head?.map Mark.start).getD 0 = pos := by
    obtain ⟨m, ms, rfl⟩ := List.exists_cons_of_ne_nil hcore.ne_nil
    exact h.1
  rw [coreEntry, hstart, List.getLast?_eq_some_getLast hcore.ne_nil]
  simp [hstop]

/-- The characters of a core are not empty. -/
theorem IsCore.marksChars_ne_nil {pos : Nat} {core : List Mark} (h : Run pos core)
    (hcore : IsCore core) : marksChars core ≠ [] := by
  obtain ⟨m, ms, rfl⟩ := List.exists_cons_of_ne_nil hcore.ne_nil
  simp [h.2.1]

/-- **A block is that of a style rule** when its head is no at-rule, has an entry, and does not begin
as a custom property does. -/
theorem bodyOf_eq_style_iff {ms : List Mark} {lead : Entry} {others : List Entry} :
    bodyOf ms = .style lead others ↔ atRule? ms = none ∧ entries ms = lead :: others ∧
      Text.startsWith ['-', '-'] lead.text.toList = false := by
  constructor
  · intro h
    rw [bodyOf] at h
    split at h
    · split at h <;> simp at h
    · rename_i hat
      split at h
      · simp at h
      · rename_i heq
        split at h
        · simp at h
        · rename_i hstart
          obtain ⟨rfl, rfl⟩ : _ ∧ _ := by simpa using h
          exact ⟨hat, heq, by simpa using hstart⟩
  · rintro ⟨hat, hentries, hstart⟩
    simp [bodyOf, hat, hentries, hstart]

end StyleAudit.Sheet
