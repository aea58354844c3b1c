import StyleAudit.Selector.Set

/-! # Unused selectors

A declared selector is unused when no file uses it. Usage is only ever seen as a lone tag, class
or id, so a selector of any other shape would always look unused; such a selector is
*ambiguous* and never reported.

* **`isAmbiguous text`** — the selector is contextual or compound.
* **`unused declared used`** — the declared selectors that are neither used nor ambiguous. -/

namespace StyleAudit.Selector

/-- The characters that only contextual or compound selectors hold. -/
def contextual : List Char := ['>', ':', '%', ' ', '+', '~', '[', '(', '*', '&']

/-- A `.` or `#` with something after it, in a text that follows a first character. -/
def hasFragment : List Char → Bool
  | c :: d :: cs => c == '.' || c == '#' || hasFragment (d :: cs)
  | _ => false

/-- Whether usage says nothing about the selector: it is contextual, or a fragment follows its
first character. -/
def isAmbiguous (text : String) : Bool :=
  text.toList.any contextual.contains || hasFragment text.toList.tail

/-- The declared selectors that are neither used nor ambiguous. -/
def unused (declared used : SelectorSet) : SelectorSet :=
  declared.filter fun s => !decide (s ∈ used) && !isAmbiguous s

end StyleAudit.Selector
