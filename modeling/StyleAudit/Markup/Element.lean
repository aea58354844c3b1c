import StyleAudit.Markup.Token
import StyleAudit.Selector.Set

/-! # Elements and the selectors they use

A document as a tree of elements. Texts and comments are left out, since no selector is read from
them. An element uses its tag, the classes of its `class` attribute and its `id`.

* **`Element`** — a tree of elements.
* **`Element.own`** — the selectors that an element itself uses.
* **`usedFrom`** — the selectors of all elements of a forest, gathered with a stack. -/

namespace StyleAudit.Markup

/-- An element with its attributes and the elements in it. -/
inductive Element where
  | mk (name : String) (attributes : List Attribute) (children : List Element)
  deriving Inhabited

namespace Element

/-- The tag of an element. -/
def name : Element → String
  | mk n _ _ => n

/-- The attributes of an element. -/
def attributes : Element → List Attribute
  | mk _ as _ => as

/-- The elements in an element. -/
def children : Element → List Element
  | mk _ _ cs => cs

mutual

/-- The number of elements of a tree. -/
def size : Element → Nat
  | mk _ _ cs => 1 + sizeAll cs

/-- The number of elements of a forest. -/
def sizeAll : List Element → Nat
  | [] => 0
  | e :: es => size e + sizeAll es

end

/-- The number of elements of two forests. -/
theorem sizeAll_append (xs ys : List Element) : sizeAll (xs ++ ys) = sizeAll xs + sizeAll ys := by
  induction xs with
  | nil => simp [sizeAll]
  | cons e es ih => simp [sizeAll, ih, Nat.add_assoc]

/-- The number of elements does not depend on their order. -/
theorem sizeAll_reverse (xs : List Element) : sizeAll xs.reverse = sizeAll xs := by
  induction xs with
  | nil => rfl
  | cons e es ih => simp [sizeAll, sizeAll_append, ih, Nat.add_comm]

end Element

/-- The selectors that an attribute uses. -/
def attributeSelectors (a : Attribute) : List String :=
  if a.key = "class" then (Text.words a.value.toList).map fun w => "." ++ String.ofList w
  else if a.key = "id" then
    let id := Text.trim a.value.toList
    if Text.isName id then ["#" ++ String.ofList id] else []
  else []

/-- The selectors that an element itself uses. -/
def Element.own (e : Element) : List String := e.name :: e.attributes.flatMap attributeSelectors

/-- Adds the selectors of all elements of a forest to a set. The forest is a stack: the elements in
an element are put on top of it one after the other, so that the last of them is the next. -/
def usedFrom (used : SelectorSet) : List Element → SelectorSet
  | [] => used
  | e :: stack => usedFrom ((SelectorSet.ofList e.own).union used) (e.children.reverse ++ stack)
termination_by stack => Element.sizeAll stack
decreasing_by
  cases e with
  | mk n as cs =>
      simp [Element.children, Element.sizeAll, Element.size, Element.sizeAll_append,
        Element.sizeAll_reverse]

/-- The selectors of all elements of a forest. -/
def usedBy (forest : List Element) : SelectorSet := usedFrom .empty forest.reverse

end StyleAudit.Markup
