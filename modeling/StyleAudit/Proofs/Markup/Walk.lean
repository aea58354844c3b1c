import Mathlib
import StyleAudit.Proofs.Markup.Forest
import StyleAudit.Proofs.Text.Words

/-! # Walking through a document

The selectors of a document are gathered with a stack of the elements that are still to be visited, so
that no depth of the document is too much. Each round visits one element, and what was found, together
with what the elements on the stack use, stays the same. So the walk ends after one round for each
element, with what a recursion over the elements gathers.

* **`Element.Uses`** — what an element uses.
* **`usedInAll`** — the selectors of a forest, by recursion over its elements.
* **`Walk.next`** — one round of the walk.
* **`Reordered`** — forests that differ in the order of siblings only.
* **`usedBy_exact`** — the walk ends, and finds what the elements use. -/

namespace StyleAudit.Markup

open Text

variable {e : Element} {forest : List Element} {s : String}

/-! ## What an element uses -/

/-- What an element uses: its tag, every piece of its classes that no blank separates, and its id, if a
name is left of it without the blanks around it. -/
inductive Element.Uses (e : Element) : String → Prop
  | tag : e.Uses e.name
  | cls {a : Attribute} {w : List Char} (ha : a ∈ e.attributes) (hkey : a.key = "class")
      (hpiece : IsPiece a.value.toList w) : e.Uses ("." ++ String.ofList w)
  | id {a : Attribute} {before i after : List Char} (ha : a ∈ e.attributes) (hkey : a.key = "id")
      (hvalue : a.value.toList = before ++ i ++ after)
      (hbefore : ∀ c ∈ before, Text.isBlank c = true) (hafter : ∀ c ∈ after, Text.isBlank c = true)
      (hne : i ≠ []) (hname : ∀ c ∈ i, Text.isBlank c = false) : e.Uses ("#" ++ String.ofList i)

/-- What is listed for an attribute: the words of a class, and an id that is a name. -/
theorem mem_attributeSelectors {a : Attribute} : s ∈ attributeSelectors a ↔
    (a.key = "class" ∧ ∃ w, IsPiece a.value.toList w ∧ s = "." ++ String.ofList w) ∨
    (a.key = "id" ∧ isName (trim a.value.toList) = true ∧
      s = "#" ++ String.ofList (trim a.value.toList)) := by
  rw [attributeSelectors]
  by_cases hclass : a.key = "class"
  · have hid : ("class" : String) ≠ "id" := by decide
    rw [if_pos hclass]
    simp only [hclass, List.mem_map, mem_words_iff, true_and, hid, false_and, or_false]
    exact exists_congr fun w => and_congr_right fun _ => eq_comm
  · rw [if_neg hclass]
    by_cases hid : a.key = "id"
    · have hother : ("id" : String) ≠ "class" := by decide
      rw [if_pos hid]
      simp only [hid, hother, false_and, false_or, true_and]
      cases isName (trim a.value.toList) <;> simp
    · simp [hclass, hid]

/-- **What an element uses** is what is listed for it. -/
theorem Element.mem_own_iff : s ∈ e.own ↔ e.Uses s := by
  rw [Element.own, List.mem_cons, List.mem_flatMap]
  simp only [mem_attributeSelectors]
  constructor
  · rintro (rfl | ⟨a, ha, ⟨hkey, w, hw, rfl⟩ | ⟨hkey, hid, rfl⟩⟩)
    · exact .tag
    · exact .cls ha hkey hw
    · obtain ⟨before, after, hvalue, hbefore, hafter⟩ := exists_blank_around a.value.toList
      obtain ⟨hne, hname⟩ := isName_iff.1 hid
      exact .id ha hkey hvalue hbefore hafter hne hname
  · intro h
    cases h with
    | tag => exact .inl rfl
    | cls ha hkey hw => exact .inr ⟨_, ha, .inl ⟨hkey, _, hw, rfl⟩⟩
    | @id a before i after ha hkey hvalue hbefore hafter hne hname =>
        have hi : isName i = true := isName_iff.2 ⟨hne, hname⟩
        have htrim : trim a.value.toList = i := by
          rw [hvalue]
          exact trim_of_blank_around hi hbefore hafter
        exact .inr ⟨_, ha, .inr ⟨hkey, by rwa [htrim], by rw [htrim]⟩⟩

/-! ## The recursion over the elements -/

mutual

/-- The selectors of an element and of the elements in it. -/
def Element.allUsed : Element → SelectorSet
  | .mk name attributes children =>
      (SelectorSet.ofList (Element.mk name attributes children).own).union (usedInAll children)

/-- The selectors of the elements of a forest. -/
def usedInAll : List Element → SelectorSet
  | [] => .empty
  | e :: rest => e.allUsed.union (usedInAll rest)

end

/-- The selectors of an element are its own and those of the elements in it. -/
theorem Element.allUsed_eq (e : Element) :
    e.allUsed = (SelectorSet.ofList e.own).union (usedInAll e.children) := by
  cases e with
  | mk name attributes children => rw [Element.allUsed, Element.children]

/-- The selectors of two forests are those of both. -/
theorem mem_usedInAll_append {xs ys : List Element} :
    s ∈ usedInAll (xs ++ ys) ↔ s ∈ usedInAll xs ∨ s ∈ usedInAll ys := by
  induction xs with
  | nil => simp [usedInAll]
  | cons e rest ih => simp [usedInAll, ih, or_assoc]

/-- In reverse, a forest has the same selectors. -/
theorem mem_usedInAll_reverse : s ∈ usedInAll forest.reverse ↔ s ∈ usedInAll forest := by
  induction forest with
  | nil => rfl
  | cons e rest ih => simp [mem_usedInAll_append, usedInAll, ih, or_comm]

/-! ## Round by round -/

/-- A walk through a document: what it has found, and the elements that are still to be visited, the
next one first. -/
@[ext] structure Walk where
  found : SelectorSet
  stack : List Element

namespace Walk

variable {w : Walk}

/-- Before the first round nothing is found, and the last element of a forest is the next. -/
def start (forest : List Element) : Walk := ⟨.empty, forest.reverse⟩

/-- **One round of a walk**: the next element is visited, and the elements in it are put on the stack
one after the other. A walk without elements to visit has ended. -/
def next : Walk → Walk
  | ⟨found, []⟩ => ⟨found, []⟩
  | ⟨found, e :: stack⟩ => ⟨(SelectorSet.ofList e.own).union found, e.children.reverse ++ stack⟩

/-- **A round visits one element.** -/
theorem sizeAll_next (w : Walk) :
    Element.sizeAll w.next.stack = Element.sizeAll w.stack - 1 := by
  obtain ⟨found, stack⟩ := w
  cases stack with
  | nil => rfl
  | cons e stack =>
      cases e with
      | mk name attributes children =>
          simp [next, Element.children, Element.sizeAll, Element.size, Element.sizeAll_append,
            Element.sizeAll_reverse, Nat.add_assoc]

/-- **A round loses nothing**: what was found, and what the elements to visit use. -/
theorem mem_next (w : Walk) :
    s ∈ w.next.found ∨ s ∈ usedInAll w.next.stack ↔ s ∈ w.found ∨ s ∈ usedInAll w.stack := by
  obtain ⟨found, stack⟩ := w
  cases stack with
  | nil => rfl
  | cons e stack =>
      -- what the visited element uses is found, and what is in it is on the stack
      simp only [next, usedInAll, Element.allUsed_eq, SelectorSet.mem_union, mem_usedInAll_append,
        mem_usedInAll_reverse]
      tauto

/-- Gathering goes on with what a round leaves. -/
theorem usedFrom_next (w : Walk) :
    usedFrom w.next.found w.next.stack = usedFrom w.found w.stack := by
  obtain ⟨found, stack⟩ := w
  cases stack with
  | nil => rfl
  | cons e stack => rw [usedFrom, next]

/-- A walk has ended when no element is left. -/
theorem stack_eq_nil_iff : w.stack = [] ↔ Element.sizeAll w.stack = 0 := by
  cases w.stack with
  | nil => simp [Element.sizeAll]
  | cons e stack =>
      cases e with
      | mk name attributes children => simp [Element.sizeAll, Element.size]

/-- As many rounds visit as many elements. -/
theorem sizeAll_rounds (n : ℕ) (w : Walk) :
    Element.sizeAll (next^[n] w).stack = Element.sizeAll w.stack - n := by
  induction n with
  | zero => rfl
  | succ n ih => rw [Function.iterate_succ_apply', sizeAll_next, ih, Nat.sub_sub]

/-- Many rounds lose nothing. -/
theorem mem_rounds (n : ℕ) (w : Walk) :
    s ∈ (next^[n] w).found ∨ s ∈ usedInAll (next^[n] w).stack ↔
      s ∈ w.found ∨ s ∈ usedInAll w.stack := by
  induction n with
  | zero => rfl
  | succ n ih => rw [Function.iterate_succ_apply', mem_next, ih]

/-- Gathering goes on with what many rounds leave. -/
theorem usedFrom_rounds (n : ℕ) (w : Walk) :
    usedFrom (next^[n] w).found (next^[n] w).stack = usedFrom w.found w.stack := by
  induction n with
  | zero => rfl
  | succ n ih => rw [Function.iterate_succ_apply', usedFrom_next, ih]

/-- **The walk ends** as soon as there were as many rounds as there are elements. -/
theorem stack_rounds_eq_nil_iff (n : ℕ) (forest : List Element) :
    (next^[n] (start forest)).stack = [] ↔ Element.sizeAll forest ≤ n := by
  rw [stack_eq_nil_iff, sizeAll_rounds, start, Element.sizeAll_reverse, Nat.sub_eq_zero_iff_le]

/-- **The end of the walk** is what gathering comes to. -/
theorem rounds_eq (forest : List Element) :
    next^[Element.sizeAll forest] (start forest) = ⟨usedBy forest, []⟩ := by
  have hend : (next^[Element.sizeAll forest] (start forest)).stack = [] :=
    (stack_rounds_eq_nil_iff _ _).2 le_rfl
  have hfound := usedFrom_rounds (Element.sizeAll forest) (start forest)
  rw [hend, usedFrom] at hfound
  exact Walk.ext hfound hend

end Walk

/-- **The walk and the recursion** gather the same selectors. -/
theorem usedBy_eq_usedInAll (forest : List Element) : usedBy forest = usedInAll forest := by
  ext s
  -- at the end of the walk all is found, at its start all is on the stack
  have h := @Walk.mem_rounds s (Element.sizeAll forest) (Walk.start forest)
  rw [Walk.rounds_eq] at h
  simpa [usedInAll, Walk.start, mem_usedInAll_reverse] using h

/-! ## The order of siblings -/

/-- Two forests that differ in the order of siblings only, at any depth. -/
inductive Reordered : List Element → List Element → Prop
  | nil : Reordered [] []
  | cons {name : String} {attributes : List Attribute} {children children' rest rest' : List Element}
      (hchildren : Reordered children children') (hrest : Reordered rest rest') :
      Reordered (.mk name attributes children :: rest) (.mk name attributes children' :: rest')
  | swap (e f : Element) (rest : List Element) : Reordered (e :: f :: rest) (f :: e :: rest)
  | trans {es fs gs : List Element} (h : Reordered es fs) (h' : Reordered fs gs) : Reordered es gs

/-- The order of siblings does not show in the selectors. -/
theorem Reordered.usedInAll_eq {es fs : List Element} (h : Reordered es fs) :
    usedInAll es = usedInAll fs := by
  induction h with
  | nil => rfl
  | cons _ _ hchildren hrest =>
      -- the two elements differ in what is in them only, so what they use themselves is the same
      rw [usedInAll, usedInAll, Element.allUsed_eq, Element.allUsed_eq, Element.children,
        Element.children, hchildren, hrest]
      rfl
  | swap e f rest =>
      ext s
      simp only [usedInAll, SelectorSet.mem_union]
      exact or_left_comm
  | trans _ _ hes hfs => exact hes.trans hfs

/-! ## All elements are visited -/

/-- **The selectors of a forest** are what its elements use. -/
theorem mem_usedBy_iff : s ∈ usedBy forest ↔ ∃ e, Occurs forest e ∧ e.Uses s := by
  rw [mem_usedBy]
  exact exists_congr fun e => and_congr_right fun _ => Element.mem_own_iff

/-- **The selectors of a document** are what the nodes use that child links lead to. -/
theorem mem_usedBy_forest (d : Dom) :
    s ∈ usedBy d.forest ↔ ∃ depth id, d.Below depth id ∧ (d.element id).Uses s := by
  rw [mem_usedBy]
  constructor
  · rintro ⟨e, he, hs⟩
    obtain ⟨fuel, depth, id, rfl, hbelow⟩ := Dom.below_of_occurs he
    rw [Dom.own_treeFrom, Element.mem_own_iff] at hs
    exact ⟨depth, id, hbelow, hs⟩
  · rintro ⟨depth, id, hbelow, hs⟩
    obtain ⟨e, he, hown⟩ := Dom.occurs_of_below hbelow
    rw [← Element.mem_own_iff, ← hown] at hs
    exact ⟨e, he, hs⟩

/-- **The walk through a document visits every element.** It ends after one round for each element of
the document and no sooner, with the selectors that the elements use: their tags, classes and ids.
These are what a recursion over the elements gathers, and do not depend on the order of siblings. In a
document of nodes, the elements are those that child links lead to from the document, however deep. -/
theorem usedBy_exact (forest : List Element) (d : Dom) :
    (∀ n, (Walk.next^[n] (.start forest)).stack = [] ↔ Element.sizeAll forest ≤ n) ∧
    Walk.next^[Element.sizeAll forest] (.start forest) = ⟨usedBy forest, []⟩ ∧
    (∀ s, s ∈ usedBy forest ↔ ∃ e, Occurs forest e ∧ e.Uses s) ∧
    usedBy forest = usedInAll forest ∧
    (∀ other, Reordered forest other → usedBy other = usedBy forest) ∧
    ∀ s, s ∈ usedBy d.forest ↔ ∃ depth id, d.Below depth id ∧ (d.element id).Uses s := by
  refine ⟨?ends, Walk.rounds_eq forest, ?elements, usedBy_eq_usedInAll forest, ?order, ?nodes⟩
  case ends =>
    intro n
    exact Walk.stack_rounds_eq_nil_iff n forest
  case elements =>
    intro s
    exact mem_usedBy_iff
  case order =>
    intro other hother
    rw [usedBy_eq_usedInAll, usedBy_eq_usedInAll, hother.usedInAll_eq]
  case nodes =>
    intro s
    exact mem_usedBy_forest d

/-- A list of two items uses the same selectors when the items change places. -/
theorem usedBy_exact_list :
    let home : Element := .mk "li" [⟨"class", " item  on "⟩] []
    let about : Element := .mk "li" [⟨"id", " about "⟩] [.mk "a" [⟨"id", "a b"⟩] []]
    Reordered [.mk "ul" [] [home, about]] [.mk "ul" [] [about, home]] ∧
      usedBy [.mk "ul" [] [about, home]] = .ofList ["ul", "li", ".item", ".on", "#about", "a"] := by
  intro home about
  have hreordered : Reordered [.mk "ul" [] [home, about]] [.mk "ul" [] [about, home]] :=
    .cons (.swap home about []) .nil
  obtain ⟨-, -, -, hrecursion, horder, -⟩ := usedBy_exact [.mk "ul" [] [home, about]] .empty
  refine ⟨hreordered, ?_⟩
  calc usedBy [.mk "ul" [] [about, home]]
      = usedBy [.mk "ul" [] [home, about]] := horder _ hreordered
    _ = usedInAll [.mk "ul" [] [home, about]] := hrecursion
    _ = .ofList ["ul", "li", ".item", ".on", "#about", "a"] := by decide +kernel

end StyleAudit.Markup
