import Mathlib
import StyleAudit.Files.Kind
import StyleAudit.Proofs.Sheet.Faults
import StyleAudit.Proofs.Sheet.Spelling

/-! # Selectors that markup uses are not reported

A stylesheet and a document name the same things in two ways: a stylesheet's names are read with
their escapes resolved and written again with the escapes that they need, a document's names are taken
as they are. Where a name needs no escape, or one that makes its selector ambiguous, both agree.

* **`Occurs`** — an element stands somewhere in a document.
* **`mem_usedBy`** — a document uses what its elements use.
* **`elementsOf_opening`** — the elements of a text that begins with a start tag.
* **`Selects`** — a single class, id or type selector that an element matches.
* **`text_not_mem_unused`** — the selector of an element is not reported as unused.
* **`escaped_class_mem_unused`** — with a name that is written with a backslash, it is. -/

namespace StyleAudit

open Text Sheet Markup

/-! ## The elements of a document -/

namespace Markup

/-- An element stands in a forest, at any depth. -/
inductive Occurs : List Element → Element → Prop
  | top {forest : List Element} {e : Element} (h : e ∈ forest) : Occurs forest e
  | inside {forest : List Element} {parent e : Element} (hparent : parent ∈ forest)
      (h : Occurs parent.children e) : Occurs forest e

/-- The elements of a forest are its first element, those in it, and those of the rest. -/
theorem occurs_cons {first e : Element} {rest : List Element} :
    Occurs (first :: rest) e ↔ e = first ∨ Occurs (first.children ++ rest) e := by
  constructor
  · intro h
    cases h with
    | top h =>
        rcases List.mem_cons.1 h with rfl | h
        · exact .inl rfl
        · exact .inr (.top (List.mem_append_right _ h))
    | inside hparent h =>
        rcases List.mem_cons.1 hparent with rfl | hparent
        · -- what is inside the first element is in the forest of its children
          refine .inr ?_
          cases h with
          | top h => exact .top (List.mem_append_left _ h)
          | inside hin h => exact .inside (List.mem_append_left _ hin) h
        · exact .inr (.inside (List.mem_append_right _ hparent) h)
  · rintro (rfl | h)
    · exact .top List.mem_cons_self
    · cases h with
      | top h =>
          rcases List.mem_append.1 h with h | h
          · exact .inside List.mem_cons_self (.top h)
          · exact .top (List.mem_cons_of_mem _ h)
      | inside hparent h =>
          rcases List.mem_append.1 hparent with hparent | hparent
          · exact .inside List.mem_cons_self (.inside hparent h)
          · exact .inside (List.mem_cons_of_mem _ hparent) h

/-- Which elements stand in a forest does not depend on their order. -/
theorem occurs_of_subset {xs ys : List Element} {e : Element} (h : xs ⊆ ys) (he : Occurs xs e) :
    Occurs ys e := by
  cases he with
  | top hmem => exact .top (h hmem)
  | inside hparent hin => exact .inside (h hparent) hin

/-- The elements of a stack, and those that were found before them. -/
theorem mem_usedFrom {s : String} {used : SelectorSet} {stack : List Element} :
    s ∈ usedFrom used stack ↔ s ∈ used ∨ ∃ e, Occurs stack e ∧ s ∈ e.own := by
  induction used, stack using usedFrom.induct with
  | case1 used =>
      have hnone : ∀ e, ¬ Occurs [] e := by
        rintro e (h | ⟨h, -⟩) <;> simp at h
      simp [usedFrom, hnone]
  | case2 used first stack ih =>
      -- the elements in the first one are put on the stack in reverse
      have horder : ∀ e, Occurs (first.children.reverse ++ stack) e ↔
          Occurs (first.children ++ stack) e := by
        intro e
        constructor <;> exact occurs_of_subset (by simp)
      rw [usedFrom, ih]
      simp only [SelectorSet.mem_union, SelectorSet.mem_ofList, occurs_cons, horder]
      constructor
      · rintro ((h | h) | ⟨e, he, h⟩)
        · exact .inr ⟨first, .inl rfl, h⟩
        · exact .inl h
        · exact .inr ⟨e, .inr he, h⟩
      · rintro (h | ⟨e, rfl | he, h⟩)
        · exact .inl (.inr h)
        · exact .inl (.inl h)
        · exact .inr ⟨e, he, h⟩

/-- **A document uses what its elements use.** -/
theorem mem_usedBy {s : String} {forest : List Element} :
    s ∈ usedBy forest ↔ ∃ e, Occurs forest e ∧ s ∈ e.own := by
  have horder : ∀ e, Occurs forest.reverse e ↔ Occurs forest e := by
    intro e
    constructor <;> exact occurs_of_subset (by simp)
  rw [usedBy, mem_usedFrom]
  simp only [SelectorSet.not_mem_empty, false_or, horder]

/-- What an element of a text uses, the text uses. -/
theorem mem_used_of_occurs {text s : String} {e : Element} (he : Occurs (elementsOf text) e)
    (hs : s ∈ e.own) : s ∈ Files.used .markup text :=
  mem_usedBy.2 ⟨e, he, hs⟩

/-! ## Texts that begin with a tag -/

/-- The characters of a token are passed over. -/
theorem build_skip (b : Builder) (xs ys : List Char) :
    build xs.length b (xs ++ ys) = build 0 b ys := by
  induction xs with
  | nil => rfl
  | cons x xs ih => rw [List.length_cons, List.cons_append, build, ih]

/-- **A tag that a text begins with** is taken into the document. -/
theorem build_opening {b : Builder} {name : String} {attributes : List Attribute} {c : Char}
    {xs ys : List Char}
    (htoken : nextToken b.reading b.inForeign c (xs ++ ys) =
      (.opening name attributes false, xs.length, b.reading)) :
    build 0 b (c :: (xs ++ ys)) =
      build 0 (process (.opening name attributes false) b.steps b) ys := by
  rw [build, htoken]
  exact build_skip _ xs ys

/-- The document after a start tag that its text begins with, so that it has no doctype. -/
def Builder.afterFirst (name : String) (attributes : List Attribute) : Builder :=
  process (.opening name attributes false) (Builder.start.steps - 1)
    { Builder.start with quirks := true, mode := .beforeRoot }

/-- **A text that begins with a start tag** has the elements of that tag and of what follows it. -/
theorem elementsOf_opening {text name : String} {attributes : List Attribute}
    {tag rest : List Char} (hlines : normalizeLines text.toList = '<' :: (tag ++ rest))
    (htoken : nextToken .data false '<' (tag ++ rest) =
      (.opening name attributes false, tag.length, .data)) :
    elementsOf text = (build 0 (.afterFirst name attributes) rest).dom.forest := by
  -- there is no mark in front that would be passed over
  have hmark : ∀ cs, text.toList ≠ '\ufeff' :: cs := by
    intro cs heq
    rw [heq, normalizeLines] at hlines
    · exact absurd (List.cons.inj hlines).1 (by decide)
    · exact fun _ hreturn => absurd hreturn (by decide)
    · exact fun hreturn => absurd hreturn (by decide)
  -- the first rules only record that there is no doctype
  have hfirst : process (.opening name attributes false) Builder.start.steps .start =
      .afterFirst name attributes := rfl
  have hbuild := @build_opening .start name attributes '<' tag rest htoken
  rw [hfirst] at hbuild
  unfold elementsOf
  extract_lets cs
  have hcs : cs = text.toList := by
    unfold cs
    split
    · next cs' heq => exact absurd heq (hmark cs')
    · rfl
  rw [hcs, hlines, hbuild]

/-- The elements of a page that is the tag of a paragraph. -/
theorem elementsOf_paragraph {text : String} {attributes : List Attribute} (tag : List Char)
    (hlines : normalizeLines text.toList = '<' :: tag)
    (htoken : nextToken .data false '<' tag =
      (.opening "p" attributes false, tag.length, .data)) :
    elementsOf text =
      [.mk "html" [] [.mk "head" [] [], .mk "body" [] [.mk "p" attributes []]]] := by
  rw [← List.append_nil tag] at hlines
  rw [elementsOf_opening hlines (by rw [List.append_nil]; exact htoken)]
  cbv

/-- The one element in the body of a page. -/
theorem occurs_page (e : Element) :
    Occurs [.mk "html" [] [.mk "head" [] [], .mk "body" [] [e]]] e := by
  have hbody : Occurs [.mk "head" [] [], .mk "body" [] [e]] e :=
    @Occurs.inside _ (.mk "body" [] [e]) e (by simp) (.top (List.mem_singleton_self e))
  exact .inside (List.mem_singleton_self _) hbody

end Markup

/-! ## Selectors that match an element -/

/-- The tokens are a single class, id or type selector with the value `name`, and it matches the
element: the name is one of the words of its `class`, its `id` without blanks around it, or its
tag. -/
inductive Selects (e : Element) (name : List Char) : List Sheet.Token → Prop
  | cls {a : Attribute} (ha : a ∈ e.attributes) (hkey : a.key = "class")
      (hname : name ∈ words a.value.toList) : Selects e name [.delim '.', .ident name]
  | id {a : Attribute} {isId : Bool} (ha : a ∈ e.attributes) (hkey : a.key = "id")
      (hname : name = trim a.value.toList) (hblank : isName name = true) :
      Selects e name [.hash name isId]
  | tag (hname : name = e.name.toList) : Selects e name [.ident name]

/-- The way that an element uses a selector that matches it, and the text of the selector, where its
name is written as it is or shows that the selector is ambiguous. -/
theorem Selects.own_or_ambiguous {e : Element} {name : List Char} {ts : List Sheet.Token}
    (h : Selects e name ts) (hescapes : EscapesShow name) (hnull : '\x00' ∉ name) :
    String.ofList (ts.flatMap Token.render) ∈ e.own ∨
      Selector.isAmbiguous (String.ofList (ts.flatMap Token.render)) = true := by
  cases h with
  | cls ha hkey hname =>
      rcases renderIdent_cases hnull hescapes with htext | hshows
      · refine .inl (List.mem_cons_of_mem _ (List.mem_flatMap.2 ⟨_, ha, ?_⟩))
        rw [attributeSelectors, if_pos hkey]
        refine List.mem_map.2 ⟨name, hname, ?_⟩
        simp [Token.render, htext]
      · exact .inr (by simpa [Token.render] using hshows.isAmbiguous ['.'])
  | @id a isId ha hkey hname hblank =>
      -- the mark of a hash is followed by an identifier, or by a name that may begin with a digit
      have hrender : (Token.hash name isId).render = '#' :: name ∨
          ∃ cs, (Token.hash name isId).render = '#' :: cs ∧ ShowsAmbiguous cs := by
        cases isId with
        | true =>
            rcases renderIdent_cases hnull hescapes with htext | hshows
            · exact .inl (by simp [Token.render, htext])
            · exact .inr ⟨_, by simp [Token.render], hshows⟩
        | false =>
            rcases renderName_cases hnull hescapes.2.1 hescapes.2.2.1 hescapes.2.2.2 with
              htext | hshows
            · exact .inl (by simp [Token.render, htext])
            · exact .inr ⟨_, by simp [Token.render], hshows⟩
      rcases hrender with htext | ⟨cs, htext, hshows⟩
      · refine .inl (List.mem_cons_of_mem _ (List.mem_flatMap.2 ⟨_, ha, ?_⟩))
        rw [attributeSelectors, if_neg (by simp [hkey]), if_pos hkey]
        simp only [← hname, hblank, if_true, List.mem_singleton]
        simp [htext]
      · exact .inr (by simpa [htext] using hshows.isAmbiguous ['#'])
  | tag hname =>
      rcases renderIdent_cases hnull hescapes with htext | hshows
      · refine .inl (List.mem_cons.2 (.inl ?_))
        simp only [List.flatMap_cons, List.flatMap_nil, List.append_nil, Token.render, htext]
        rw [hname, String.ofList_toList]
      · exact .inr (by simpa [Token.render] using hshows.isAmbiguous [])

/-- The tokens of a selector that matches an element show. -/
theorem Selects.isVisible {e : Element} {name : List Char} {ts : List Sheet.Token}
    (h : Selects e name ts) : ∀ t ∈ ts, t.isVisible = true ∧ t.opens? = none := by
  cases h <;> simp [Token.isVisible, Token.opens?]

/-- The name of a selector that matches an element is that of one of its tokens. -/
theorem Selects.exists_token {e : Element} {name : List Char} {ts : List Sheet.Token}
    (h : Selects e name ts) : ∃ t ∈ ts, t = .ident name ∨ ∃ isId, t = .hash name isId := by
  cases h with
  | cls => exact ⟨.ident name, by simp, .inl rfl⟩
  | id => exact ⟨_, List.mem_singleton_self _, .inr ⟨_, rfl⟩⟩
  | tag => exact ⟨.ident name, by simp, .inl rfl⟩

/-- The selectors that a stylesheet declares are the texts of its entries. -/
theorem mem_declared_of_mem_entries {text : String} {declared : SelectorSet}
    (h : declared? text = .ok declared) {r : Rule} (hr : r ∈ (Outline.ofText text).rules)
    {e : Entry} (he : e ∈ r.entries) : e.text ∈ declared := by
  rw [← (declared?_eq_ok_iff.1 h).2, Outline.declared, SelectorSet.mem_ofList]
  exact List.mem_map_of_mem (Outline.mem_entries.2 ⟨r, hr, he⟩)

/-- **The selector of an element is not reported.** An entry of an accepted stylesheet that is a
single class, id or type selector is declared, and it is not unused when an element of the document
matches it, as long as the escapes that its name is written with show. -/
theorem text_not_mem_unused {text markup : String} {declared : SelectorSet}
    (haccepted : declared? text = .ok declared) {r : Rule}
    (hr : r ∈ (Outline.ofText text).rules) {entry : Entry} (hentry : entry ∈ r.entries)
    {e : Element} (he : Occurs (elementsOf markup) e) {name : List Char}
    (hselects : Selects e name (spelling text entry.span)) (hescapes : EscapesShow name) :
    entry.text ∈ declared ∧
      entry.text ∉ Selector.unused declared (Files.used .markup markup) := by
  refine ⟨mem_declared_of_mem_entries haccepted hr hentry, fun hunused => ?_⟩
  obtain ⟨htext, hread⟩ := text_eq_render hr hentry rfl hselects.isVisible
  have hnull : '\x00' ∉ name := by
    obtain ⟨t, ht, hname⟩ := hselects.exists_token
    obtain ⟨l, rfl, rest, hreads⟩ := hread t ht
    exact hreads.null_not_mem hname
  rw [Selector.unused, SelectorSet.mem_filter, Bool.and_eq_true] at hunused
  simp only [Bool.not_eq_true', decide_eq_false_iff_not] at hunused
  rw [htext] at hunused
  rcases hselects.own_or_ambiguous hescapes hnull with hown | hambiguous
  · exact hunused.2.1 (mem_used_of_occurs he hown)
  · rw [hambiguous] at hunused
    exact absurd hunused.2.2 (by decide)

/-- A class is found whatever spelling the stylesheet uses for it. -/
theorem text_not_mem_unused_spelling :
    declared? ".c\\61 rd {}" = .ok (.ofList [".card"]) ∧
    Occurs (elementsOf "<p class=card>") (.mk "p" [⟨"class", "card"⟩] []) ∧
    Selects (.mk "p" [⟨"class", "card"⟩] []) ['c', 'a', 'r', 'd']
      (spelling ".c\\61 rd {}" ⟨0, 8⟩) ∧
    EscapesShow ['c', 'a', 'r', 'd'] ∧
    ".card" ∉ Selector.unused (.ofList [".card"]) (Files.used .markup "<p class=card>") := by
  have haccepted : declared? ".c\\61 rd {}" = .ok (.ofList [".card"]) :=
    declared?_eq_ok_iff.2 (by decide +kernel)
  have hrules : (Outline.ofText ".c\\61 rd {}").rules =
      [⟨⟨".card", ⟨0, 8⟩⟩, [], ⟨9, 11⟩, true, 0⟩] := by decide +kernel
  have hforest : elementsOf "<p class=card>" = [.mk "html" [] [.mk "head" [] [],
      .mk "body" [] [.mk "p" [⟨"class", "card"⟩] []]]] :=
    elementsOf_paragraph "p class=card>".toList (by decide +kernel) (by decide +kernel)
  have hoccurs : Occurs (elementsOf "<p class=card>") (.mk "p" [⟨"class", "card"⟩] []) := by
    rw [hforest]
    exact occurs_page _
  have hspelling : spelling ".c\\61 rd {}" ⟨0, 8⟩ =
      [.delim '.', .ident ['c', 'a', 'r', 'd']] := by decide +kernel
  have hselects : Selects (.mk "p" [⟨"class", "card"⟩] []) ['c', 'a', 'r', 'd']
      (spelling ".c\\61 rd {}" ⟨0, 8⟩) := by
    rw [hspelling]
    have hwords : words "card".toList = [['c', 'a', 'r', 'd']] := by decide +kernel
    exact .cls (List.mem_singleton_self _) rfl (by rw [hwords]; simp)
  have hescapes : EscapesShow ['c', 'a', 'r', 'd'] := by
    refine ⟨by simp, fun c hc => ?_, by simp, by simp⟩
    fin_cases hc <;> simp [quietEscapes]
  refine ⟨haccepted, hoccurs, hselects, hescapes, ?_⟩
  have hmem : (⟨⟨".card", ⟨0, 8⟩⟩, [], ⟨9, 11⟩, true, 0⟩ : Rule) ∈
      (Outline.ofText ".c\\61 rd {}").rules := by
    rw [hrules]
    exact List.mem_singleton_self _
  have hentry : (⟨".card", ⟨0, 8⟩⟩ : Entry) ∈
      (⟨⟨".card", ⟨0, 8⟩⟩, [], ⟨9, 11⟩, true, 0⟩ : Rule).entries := List.mem_singleton_self _
  exact (text_not_mem_unused haccepted hmem hentry hoccurs hselects hescapes).2

/-- **A name that is written with a backslash is reported although an element has it.** The class
`w-1/2` of the element is the class of the selector, and the selector is unused. -/
theorem escaped_class_mem_unused :
    declared? ".w-1\\/2 {}" = .ok (.ofList [".w-1\\/2"]) ∧
    Selects (.mk "p" [⟨"class", "w-1/2"⟩] []) "w-1/2".toList (spelling ".w-1\\/2 {}" ⟨0, 7⟩) ∧
    Occurs (elementsOf "<p class=w-1/2>") (.mk "p" [⟨"class", "w-1/2"⟩] []) ∧
    ".w-1\\/2" ∈ Selector.unused (.ofList [".w-1\\/2"]) (Files.used .markup "<p class=w-1/2>") := by
  have hforest : elementsOf "<p class=w-1/2>" = [.mk "html" [] [.mk "head" [] [],
      .mk "body" [] [.mk "p" [⟨"class", "w-1/2"⟩] []]]] :=
    elementsOf_paragraph "p class=w-1/2>".toList (by decide +kernel) (by decide +kernel)
  have hspelling : spelling ".w-1\\/2 {}" ⟨0, 7⟩ = [.delim '.', .ident "w-1/2".toList] := by decide +kernel
  have hunused : (Selector.unused (.ofList [".w-1\\/2"])
      (Files.used .markup "<p class=w-1/2>")).toList = [".w-1\\/2"] := by decide +kernel
  refine ⟨declared?_eq_ok_iff.2 (by decide +kernel), ?_, ?_, ?_⟩
  · have hwords : words "w-1/2".toList = ["w-1/2".toList] := by decide +kernel
    rw [hspelling]
    exact .cls (List.mem_singleton_self _) rfl (by rw [hwords]; simp)
  · rw [hforest]
    exact occurs_page _
  · rw [SelectorSet.mem_iff, hunused]
    exact List.mem_singleton_self _

end StyleAudit
