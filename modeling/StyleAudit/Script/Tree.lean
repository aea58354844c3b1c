import StyleAudit.Text.Blank

/-! # Syntax trees

A script's syntax tree, as a labelled tree. Labels keep what usage is read from (names, strings,
member accesses, calls, elements) and what decides whether an expression may be assigned to; every
other construct is `other`.

* **`TagName`** — tags.
* **`Label`, `Tree`** — labels and trees.
* **`Tree.toTarget?`** — the assignment target that an expression stands for.
* **`Tree.isSettled`** — no default value is left in an object that is no pattern. -/

namespace StyleAudit.Script

/-- The tag of an element, which is not empty and holds no blank. -/
structure TagName where
  text : String
  isName : Text.isName text.toList = true
  deriving DecidableEq, Repr

/-- What a node of a syntax tree is. -/
inductive Label where
  /-- A reference to a variable. -/
  | name (text : String)
  | string (value : String)
  /-- `object.property`, optional or not. -/
  | member (property : String)
  /-- `object.#property`. -/
  | privateMember
  /-- `object[key]`. -/
  | index
  /-- A callee and its arguments. -/
  | call
  /-- An expression in parentheses. -/
  | paren
  /-- A member access or call with `?.` somewhere in it. -/
  | chain
  /-- An expression with a type assertion or `!`. -/
  | assertion
  /-- An expression with type arguments that no call follows. -/
  | instantiation
  /-- An array; `trailing` says that a comma follows its last element. -/
  | array (trailing : Bool)
  /-- A missing element of an array. -/
  | hole
  | spread
  | object
  /-- A key and a value. -/
  | property
  /-- A key that is its own value. -/
  | shorthand
  /-- A key that is its own value, with a default that only a pattern may have. -/
  | shorthandDefault
  /-- An assignment to a target. -/
  | assign (operator : String)
  /-- One of `&&`, `||` and `??`. -/
  | logical (operator : String)
  /-- A unary operator or `await`. -/
  | unary
  /-- Expressions separated by commas. -/
  | sequence
  /-- A binding or assignment pattern. -/
  | pattern
  /-- The opening tag of an element, by its name if it is no reference to a component. -/
  | element (tag : Option TagName)
  /-- An attribute of an element with a string for a value. -/
  | attribute (key value : String)
  | other
  deriving DecidableEq, Repr, Inhabited

/-- A labelled tree. -/
inductive Tree where
  | node (label : Label) (children : List Tree)
  deriving Repr, Inhabited

namespace Tree

/-- The label of the root. -/
def label : Tree → Label
  | node l _ => l

/-- The subtrees below the root. -/
def children : Tree → List Tree
  | node _ cs => cs

/-- A leaf. -/
def leaf (l : Label) : Tree := node l []

/-- A construct of no further interest. -/
def plain (cs : List Tree) : Tree := node .other cs

/-- A construct without parts of interest. -/
def blank : Tree := node .other []

/-- Whether the tree is a reference to a variable. -/
def isName (t : Tree) : Bool :=
  match t.label with
  | .name _ => true
  | _ => false

/-- Whether the root is what may be assigned to as it stands. -/
def isPlace (t : Tree) : Bool :=
  match t.label with
  | .name _ | .member _ | .privateMember | .index => true
  | _ => false

/-- The expression inside parentheses and type assertions. -/
def innermost : Tree → Tree
  | node .paren (t :: _) => innermost t
  | node .assertion (t :: _) => innermost t
  | t => t

mutual

/-- The assignment target that an expression stands for, none if it stands for none. A `simple`
target is no pattern. -/
def toTarget? (simple : Bool) : Tree → Option Tree
  | node l cs =>
      match l with
      | .name _ | .member _ | .privateMember | .index => some (node l cs)
      | .array trailing =>
          if simple then none else (elementTargets? trailing cs).map (node .pattern)
      | .object => if simple then none else (propertyTargets? cs).map (node .pattern)
      | .paren => (targets? cs).map (node .paren)
      | .assertion => if (innermost (node l cs)).isPlace then some (node l cs) else none
      | _ => none

/-- The simple targets that expressions stand for. -/
def targets? : List Tree → Option (List Tree)
  | [] => some []
  | t :: ts => (toTarget? true t).bind fun u => (targets? ts).map (u :: ·)

/-- The targets of the elements of an array. An element may have a default; only the last one may
be a rest element, and no comma may follow it. -/
def elementTargets? (trailing : Bool) : List Tree → Option (List Tree)
  | [] => some []
  | node l cs :: ts =>
      match l with
      | .hole => (elementTargets? trailing ts).map (node l cs :: ·)
      | .spread =>
          if ts.isEmpty && !trailing then (restTargets? cs).map fun us => [node .spread us] else none
      | .assign op =>
          if op = "=" then (elementTargets? trailing ts).map (node l cs :: ·) else none
      | _ =>
          (toTarget? false (node l cs)).bind fun u =>
            (elementTargets? trailing ts).map (u :: ·)

/-- The target of a rest element. -/
def restTargets? : List Tree → Option (List Tree)
  | [] => some []
  | t :: ts => (toTarget? false t).bind fun u => (restTargets? ts).map (u :: ·)

/-- The targets of the properties of an object. -/
def propertyTargets? : List Tree → Option (List Tree)
  | [] => some []
  | node l cs :: ts =>
      match l with
      | .shorthand => (propertyTargets? ts).map (node l cs :: ·)
      | .shorthandDefault => (propertyTargets? ts).map (node .other cs :: ·)
      | .property =>
          match cs with
          | [key, node (.assign op) parts] =>
              if op = "=" then
                (propertyTargets? ts).map (node .other [key, node (.assign op) parts] :: ·)
              else none
          | [key, value] =>
              (toTarget? false value).bind fun u =>
                (propertyTargets? ts).map (node .other [key, u] :: ·)
          | _ => none
      | .spread => if ts.isEmpty then (restTargets? cs).map fun us => [node .spread us] else none
      | _ => none

end

mutual

/-- No default value is left in an object that is no pattern. -/
def isSettled : Tree → Bool
  | node l cs => l != .shorthandDefault && areSettled cs

/-- No tree of the list has a default value left. -/
def areSettled : List Tree → Bool
  | [] => true
  | t :: ts => isSettled t && areSettled ts

end

end Tree

end StyleAudit.Script
