import StyleAudit.Script.Grammar
import StyleAudit.Selector.Set
import StyleAudit.Text.Blank

/-! # Selectors that scripts use

A script refers to selectors through the document: `x.classList.add("a")` uses `.a`,
`document.getElementById("a")` uses `#a`, and `document.querySelector("a")` uses `a`. A component
uses the tags, the `className` and the `id` attributes of its elements. Only strings written in
place count, and a text with a fault uses nothing.

* **`Tree.calls`** — the selectors that a call uses.
* **`Tree.elements`** — the selectors that an element uses.
* **`usedByScript`, `usedByComponent`** — the selectors that a text uses. -/

namespace StyleAudit.Script

namespace Tree

mutual

/-- Gathers what `visit` finds at every node. -/
def gather (visit : Label → List Tree → List String) : Tree → List String
  | node l cs => visit l cs ++ gatherAll visit cs

/-- Gathers what `visit` finds at every node of every tree. -/
def gatherAll (visit : Label → List Tree → List String) : List Tree → List String
  | [] => []
  | t :: ts => gather visit t ++ gatherAll visit ts

end

end Tree

/-- The value of a string. -/
def stringValue? (t : Tree) : Option String :=
  match t.label with
  | .string value => some value
  | _ => none

/-- The class selector of a name. -/
def classSelectors (value : String) : List String :=
  if Text.isName value.toList then ["." ++ value] else []

/-- The id selector of a name. -/
def idSelectors (value : String) : List String :=
  if Text.isName value.toList then ["#" ++ value] else []

/-- The selectors that a method of the document uses, by its first argument. -/
def documentSelectors (method value : String) : List String :=
  if method = "getElementById" then idSelectors value
  else if method = "querySelector" then
    if (Text.trim value.toList).isEmpty then [] else [value]
  else []

/-- The selectors that a call uses: of `add` on a `classList`, or of a method of `document`. -/
def callSelectors (callee : Tree) (args : List Tree) : List String :=
  match callee with
  | .node (.member method) (.node (.member list) _ :: _) =>
      if list = "classList" ∧ method = "add" then
        (args.filterMap stringValue?).flatMap classSelectors
      else []
  | .node (.member method) (.node (.name object) _ :: _) =>
      if object = "document" then
        match args with
        | first :: _ => ((stringValue? first).map (documentSelectors method)).getD []
        | [] => []
      else []
  | _ => []

/-- The selectors used at a node of a script. -/
def visitCall (l : Label) (cs : List Tree) : List String :=
  match l, cs with
  | .call, callee :: args => callSelectors callee args
  | _, _ => []

/-- The selectors that an attribute uses. -/
def attributeSelectors (key value : String) : List String :=
  if key = "className" then (Text.words value.toList).map fun w => "." ++ String.ofList w
  else if key = "id" then idSelectors (String.ofList (Text.trim value.toList))
  else []

/-- The selectors used at a node of a component. -/
def visitElement (l : Label) (_ : List Tree) : List String :=
  match l with
  | .element tag => (tag.map (·.text)).toList
  | .attribute key value => attributeSelectors key value
  | _ => []

/-- The selectors that a script uses. -/
def usedByScript (text : String) : SelectorSet :=
  match parse? false text.toList with
  | some tree => .ofList (tree.gather visitCall)
  | none => .empty

/-- The selectors that a component uses. -/
def usedByComponent (text : String) : SelectorSet :=
  match parse? true text.toList with
  | some tree => .ofList (tree.gather visitElement)
  | none => .empty

end StyleAudit.Script
