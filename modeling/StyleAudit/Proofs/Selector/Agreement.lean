import Mathlib
import StyleAudit.Proofs.Markup.Page
import StyleAudit.Proofs.Script.Naming

/-! # Files of all kinds agree on names

A class or an id is used in the same way whatever kind of file it is written in: as an attribute of
an element in markup, as one in a component, or as the argument of a call in a script. Markup reads
the ends of lines in one way and a component does not; a script resolves escapes. Where a name has
none of that in it, all of them use the same selectors.

* **`attributeSelectors_class`**, **`attributeSelectors_id`** — the two kinds of attribute agree.
* **`SelectorSet.marked`**, **`classesOf`** — the classes and ids among selectors.
* **`used_agree`** — files of all kinds agree. -/

namespace StyleAudit

open Text Markup Files

variable {v : String}

/-! ## Attributes -/

/-- Texts with the same words have the same name, if one of them is a name with blanks around it. -/
theorem trim_eq_of_words_eq {cs ds : List Char} (h : words cs = words ds)
    (hname : isName (trim ds) = true) : trim cs = trim ds :=
  trim_eq_of_words (h.trans (isName_trim_iff.1 hname))

/-- **Classes of an element** are the same in markup and in a component. -/
theorem attributeSelectors_class (v : String) :
    Markup.attributeSelectors ⟨"class", String.ofList (normalizeLines v.toList)⟩ =
      Script.attributeSelectors "className" v := by
  simp [Markup.attributeSelectors, Script.attributeSelectors, words_normalizeLines]

/-- **The id of an element** is the same in markup and in a component. -/
theorem attributeSelectors_id (v : String) :
    Markup.attributeSelectors ⟨"id", String.ofList (normalizeLines v.toList)⟩ =
      Script.attributeSelectors "id" v := by
  have hwords := words_normalizeLines v.toList
  cases hname : isName (trim v.toList) with
  | true =>
      have htrim := trim_eq_of_words_eq hwords hname
      simp [Markup.attributeSelectors, Script.attributeSelectors, Script.idSelectors, htrim, hname]
  | false =>
      -- a name on one side would be one on the other
      have hother : isName (trim (normalizeLines v.toList)) = false := by
        by_contra h
        rw [Bool.not_eq_false] at h
        rw [trim_eq_of_words_eq hwords.symm h, h] at hname
        cases hname
      simp [Markup.attributeSelectors, Script.attributeSelectors, Script.idSelectors, hother, hname]

/-- An attribute that names its element: its keys in markup and in a component, and the mark of its
selectors. -/
inductive NamesElement : (key componentKey : String) → (mark : Char) → Prop
  | cls : NamesElement "class" "className" '.'
  | id : NamesElement "id" "id" '#'

variable {key componentKey : String} {mark : Char}

/-- The selectors of an attribute begin with its mark. -/
theorem NamesElement.head?_of_mem (h : NamesElement key componentKey mark) {s : String}
    (hs : s ∈ Script.attributeSelectors componentKey v) : s.toList.head? = some mark := by
  cases h with
  | cls =>
      obtain ⟨w, -, rfl⟩ := List.mem_map.1 hs
      simp
  | id =>
      obtain ⟨-, rfl⟩ : _ ∧ s = "#" ++ String.ofList (trim v.toList) := by
        simpa [Script.attributeSelectors, Script.idSelectors] using hs
      simp

/-- **An attribute that names its element** uses the same selectors in markup and in a component. -/
theorem NamesElement.attributeSelectors_eq (h : NamesElement key componentKey mark) (v : String) :
    Markup.attributeSelectors ⟨key, String.ofList (normalizeLines v.toList)⟩ =
      Script.attributeSelectors componentKey v := by
  cases h with
  | cls => exact attributeSelectors_class v
  | id => exact attributeSelectors_id v

/-! ## Classes and ids among selectors -/

/-- The selectors of a set that begin with a mark. -/
def SelectorSet.marked (mark : Char) (used : SelectorSet) : Set String :=
  {s | s ∈ used ∧ s.toList.head? = some mark}

/-- Of tags and selectors with a mark, these are the ones with the mark. -/
theorem SelectorSet.marked_eq {used : SelectorSet} {tags own : List String}
    (hused : ∀ s, s ∈ used ↔ s ∈ tags ∨ s ∈ own)
    (htags : ∀ s ∈ tags, s.toList.head? ≠ some mark)
    (hown : ∀ s ∈ own, s.toList.head? = some mark) :
    used.marked mark = {s | s ∈ own} := by
  ext s
  simp only [marked, Set.mem_ofPred_eq, hused]
  constructor
  · rintro ⟨hs | hs, hmark⟩
    · exact absurd hmark (htags s hs)
    · exact hs
  · exact fun hs => ⟨.inr hs, hown s hs⟩

/-- **The classes or ids of markup** with one element. -/
theorem marked_usedByMarkup (h : NamesElement key componentKey mark) (hquote : '"' ∉ v.toList)
    (hreference : '&' ∉ v.toList) (hnull : '\x00' ∉ v.toList) :
    (used .markup ("<div " ++ key ++ "=\"" ++ v ++ "\"></div>")).marked mark =
      {s | s ∈ Script.attributeSelectors componentKey v} := by
  have hkey : key = "class" ∨ key = "id" := by
    cases h with
    | cls => exact .inl rfl
    | id => exact .inr rfl
  have htags : ∀ s ∈ ["html", "head", "body", "div"], s.toList.head? ≠ some mark := by
    cases h <;> decide
  refine SelectorSet.marked_eq (fun s => ?_) htags fun s => h.head?_of_mem
  rw [used, mem_usedByMarkup_page hkey hquote hnull hreference, h.attributeSelectors_eq]

/-- **The classes or ids of a component** with one element. -/
theorem marked_usedByComponent (h : NamesElement key componentKey mark) (hquote : '"' ∉ v.toList) :
    (used .component ("const x = <div " ++ componentKey ++ "=\"" ++ v ++ "\" />;")).marked mark =
      {s | s ∈ Script.attributeSelectors componentKey v} := by
  have hkey : componentKey = "className" ∨ componentKey = "id" := by
    cases h with
    | cls => exact .inl rfl
    | id => exact .inr rfl
  have htags : ∀ s ∈ ["div"], s.toList.head? ≠ some mark := by
    cases h <;> decide
  refine SelectorSet.marked_eq (fun s => ?_) htags fun s => h.head?_of_mem
  rw [used, Script.usedByComponent_attribute hkey hquote, SelectorSet.mem_ofList, List.mem_cons,
    List.mem_singleton]

/-- The class selectors of the pieces of a text that no blank separates. -/
def classesOf (v : String) : Set String :=
  {s | ∃ w, IsPiece v.toList w ∧ s = "." ++ String.ofList w}

/-- The selectors of the attribute `className` are these classes. -/
theorem setOf_attributeSelectors_className (v : String) :
    {s | s ∈ Script.attributeSelectors "className" v} = classesOf v := by
  ext s
  simp only [Script.attributeSelectors, if_true, List.mem_map, mem_words_iff, classesOf,
    Set.mem_ofPred_eq, eq_comm]

/-- A name is its only class. -/
theorem classesOf_of_isName (h : isName v.toList = true) : classesOf v = {"." ++ v} := by
  rw [← setOf_attributeSelectors_className]
  ext s
  simp [Script.attributeSelectors, words_of_isName h]

/-- A name is its own id. -/
theorem setOf_attributeSelectors_id (h : isName v.toList = true) :
    {s | s ∈ Script.attributeSelectors "id" v} = {"#" ++ v} := by
  have htrim : trim v.toList = v.toList := trim_eq_of_words (words_of_isName h)
  ext s
  simp [Script.attributeSelectors, Script.idSelectors, htrim, h]

/-! ## All kinds of files -/

/-- **Files of all kinds agree on names.** A text without double quotes, references and nulls is
used for the same classes and the same id as an attribute of markup and of a component; the classes
are its pieces that no blank separates. If it is a name in which no escape can stand, it is its only
class and its id, and the calls of a script that take a class or an id use just that. -/
theorem used_agree {v : String} (hquote : '"' ∉ v.toList) (hreference : '&' ∉ v.toList)
    (hnull : '\x00' ∉ v.toList) :
    (used .markup ("<div class=\"" ++ v ++ "\"></div>")).marked '.' = classesOf v ∧
    (used .component ("const x = <div className=\"" ++ v ++ "\" />;")).marked '.' = classesOf v ∧
    (used .markup ("<div id=\"" ++ v ++ "\"></div>")).marked '#' =
      (used .component ("const x = <div id=\"" ++ v ++ "\" />;")).marked '#' ∧
    (v ≠ "" → (∀ c ∈ v.toList, Text.isBlank c = false) → '\\' ∉ v.toList →
      used .script ("e.classList.add(\"" ++ v ++ "\");") = .ofList ["." ++ v] ∧
      used .script ("document.getElementById(\"" ++ v ++ "\");") = .ofList ["#" ++ v] ∧
      classesOf v = {"." ++ v} ∧
      (used .component ("const x = <div id=\"" ++ v ++ "\" />;")).marked '#' = {"#" ++ v}) := by
  have hclassKey : "<div class=\"" = "<div " ++ "class" ++ "=\"" := by decide
  have hidKey : "<div id=\"" = "<div " ++ "id" ++ "=\"" := by decide
  have hclassNameKey :
      "const x = <div className=\"" = "const x = <div " ++ "className" ++ "=\"" := by decide
  have hcomponentIdKey : "const x = <div id=\"" = "const x = <div " ++ "id" ++ "=\"" := by decide
  rw [hclassKey, hidKey, hclassNameKey, hcomponentIdKey,
    marked_usedByMarkup .cls hquote hreference hnull, marked_usedByComponent .cls hquote,
    marked_usedByMarkup .id hquote hreference hnull, marked_usedByComponent .id hquote,
    setOf_attributeSelectors_className]
  refine ⟨rfl, rfl, rfl, fun hne hblank hescape => ?_⟩
  have hname : isName v.toList = true := isName_iff.2 ⟨by simpa using hne, hblank⟩
  have hplain : ∀ d ∈ v.toList, Script.IsPlain d := by
    intro d hd
    have hvisible := hblank d hd
    simp only [Script.IsPlain, List.mem_cons, List.not_mem_nil, or_false, not_or]
    refine ⟨?_, ?_, ?_, ?_⟩ <;> rintro rfl
    · exact hquote hd
    · exact hescape hd
    · exact absurd hvisible (by decide)
    · exact absurd hvisible (by decide)
  refine ⟨?_, ?_, classesOf_of_isName hname, setOf_attributeSelectors_id hname⟩
  · rw [used, Script.usedByScript_classListAdd hplain, Script.classSelectors, if_pos hname]
  · rw [used, Script.usedByScript_getElementById hplain, Script.idSelectors, if_pos hname]

/-- The name `menu` is a class and an id of files of all kinds. -/
theorem used_agree_menu :
    ('"' ∉ "menu".toList ∧ '&' ∉ "menu".toList ∧ '\x00' ∉ "menu".toList) ∧
    ("menu" ≠ "" ∧ (∀ c ∈ "menu".toList, Text.isBlank c = false) ∧ '\\' ∉ "menu".toList) ∧
    (used .markup ("<div class=\"" ++ "menu" ++ "\"></div>")).marked '.' = {"." ++ "menu"} ∧
    used .script ("e.classList.add(\"" ++ "menu" ++ "\");") = .ofList ["." ++ "menu"] ∧
    (used .markup ("<div id=\"" ++ "menu" ++ "\"></div>")).marked '#' = {"#" ++ "menu"} ∧
    used .script ("document.getElementById(\"" ++ "menu" ++ "\");") = .ofList ["#" ++ "menu"] := by
  have hquote : '"' ∉ "menu".toList := by decide
  have hreference : '&' ∉ "menu".toList := by decide
  have hnull : '\x00' ∉ "menu".toList := by decide
  have hne : "menu" ≠ "" := by decide
  have hblank : ∀ c ∈ "menu".toList, Text.isBlank c = false := by simp [Text.isBlank]
  have hescape : '\\' ∉ "menu".toList := by decide
  obtain ⟨hmarkup, -, hid, hname⟩ := used_agree hquote hreference hnull
  obtain ⟨hadd, hget, hclasses, hids⟩ := hname hne hblank hescape
  exact ⟨⟨hquote, hreference, hnull⟩, ⟨hne, hblank, hescape⟩, hmarkup.trans hclasses, hadd,
    hid.trans hids, hget⟩

end StyleAudit
