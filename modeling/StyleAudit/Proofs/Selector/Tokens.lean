import Mathlib
import StyleAudit.Proofs.Markup.TagNames
import StyleAudit.Proofs.Script.Usage

/-! # Used selectors have no blanks

What a text uses is compared with what stylesheets declare, so a selector that is used should be
a tag, a class or an id: not empty, and without blanks. All kinds of files keep to this but for two
places. A script passes the string of `document.querySelector` on as it is, which may be a selector
of several words; and the name of a tag in markup ends at the blanks of markup only.

* **`BlankSource`** — the two places where a selector with a blank in it comes from.
* **`isName_or_blankSource_of_mem_used`** — any other selector that is used is a name.
* **`exists_blank_of_mem_used`** — both places yield selectors with blanks. -/

namespace StyleAudit

open Text Markup Files

/-- Where a used selector with a blank in it comes from: it is the string of a query, or the tag of an
element in which a blank of the text stands that is none of markup. -/
inductive BlankSource (text : String) : FileKind → String → Prop
  | query {s : String} {tree : Script.Tree}
      (htree : Script.parse? false text.toList = some tree) (hquery : tree.Queries s)
      (hvisible : trim s.toList ≠ []) : BlankSource text .script s
  | tag {e : Element} (he : Occurs (elementsOf text) e)
      (hblank : ∀ c ∈ e.name.toList, Text.isBlank c = true →
        Markup.isBlank c = false ∧ c ∈ text.toList) : BlankSource text .markup e.name

/-- What an element uses: its tag, or a name after a class or id mark. -/
theorem mem_own {e : Element} {s : String} (h : s ∈ e.own) : s = e.name ∨ IsNamed s := by
  rcases List.mem_cons.1 h with rfl | h
  · exact .inl rfl
  · obtain ⟨a, -, hs⟩ := List.mem_flatMap.1 h
    unfold Markup.attributeSelectors at hs
    refine .inr ?_
    split at hs
    · obtain ⟨w, hw, rfl⟩ := List.mem_map.1 hs
      exact .cls (isName_of_mem_words hw) rfl
    · split at hs
      · extract_lets id at hs
        split at hs
        · next hid => exact .id hid (List.mem_singleton.1 hs)
        · cases hs
      · cases hs

/-- **What a document uses**: names, and tags. -/
theorem mem_usedByMarkup {text s : String} (h : s ∈ usedByMarkup text) :
    IsNamed s ∨ ∃ e, Occurs (elementsOf text) e ∧ s = e.name := by
  obtain ⟨e, he, hs⟩ := mem_usedBy.1 h
  rcases mem_own hs with rfl | hs
  · exact .inr ⟨e, he, rfl⟩
  · exact .inl hs

/-- **Used selectors are not empty and hold no blank**, unless they come from one of the two places
where a blank is passed on. -/
theorem isName_or_blankSource_of_mem_used {kind : FileKind} {text s : String}
    (h : s ∈ used kind text) :
    s ≠ "" ∧ ((∀ c ∈ s.toList, Text.isBlank c = false) ∨ BlankSource text kind s) := by
  have hnamed : IsNamed s →
      s ≠ "" ∧ ((∀ c ∈ s.toList, Text.isBlank c = false) ∨ BlankSource text kind s) := by
    intro hs
    obtain ⟨hne, hblank⟩ := isName_iff.1 hs.isName
    exact ⟨fun hempty => hne (by rw [hempty]; rfl), .inl hblank⟩
  cases kind with
  | stylesheet => exact absurd h SelectorSet.not_mem_empty
  | markup =>
      rcases mem_usedByMarkup h with hs | ⟨e, he, rfl⟩
      · exact hnamed hs
      · obtain ⟨hne, hblank⟩ := isTag_of_occurs he
        exact ⟨hne, .inr (.tag he hblank)⟩
  | script =>
      rcases Script.mem_usedByScript h with hs | ⟨tree, htree, hquery, hvisible⟩
      · exact hnamed hs
      · refine ⟨fun hempty => hvisible ?_, .inr (.query htree hquery hvisible)⟩
        rw [hempty]
        rfl
  | component => exact hnamed (Script.mem_usedByComponent h)

/-- A class that a script adds is a name. -/
theorem isName_or_blankSource_of_mem_used_class :
    ".menu" ∈ used .script "e.classList.add(\"menu\");" ∧ ".menu" ≠ "" ∧
      ((∀ c ∈ ".menu".toList, Text.isBlank c = false) ∨
        BlankSource "e.classList.add(\"menu\");" .script ".menu") := by
  have hused : ".menu" ∈ used .script "e.classList.add(\"menu\");" := by decide +kernel
  exact ⟨hused, isName_or_blankSource_of_mem_used hused⟩

/-- **Selectors with blanks in them are used**: a query of two words, and a tag with a no-break space
in it. -/
theorem exists_blank_of_mem_used :
    (".a .b" ∈ used .script "document.querySelector(\".a .b\");" ∧
      ∃ c ∈ ".a .b".toList, Text.isBlank c = true) ∧
    ("p\u00a0x" ∈ used .markup "<p\u00a0x>" ∧ ∃ c ∈ "p\u00a0x".toList, Text.isBlank c = true) := by
  refine ⟨⟨by decide +kernel, ' ', by decide, by decide⟩,
    by decide +kernel, '\u00a0', by decide, by decide⟩

end StyleAudit
