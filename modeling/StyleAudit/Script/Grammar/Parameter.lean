import StyleAudit.Script.Grammar.Goal

/-! # Bindings and parameters

Patterns of variables, and the parameter lists of functions and of function types.

* **`bindingPattern`** — a variable, or a pattern in brackets or braces.
* **`parameters`** — a parameter list in parentheses. -/

namespace StyleAudit.Script

variable (call : Grammar)

/-- A default value, if one follows. -/
def initializer? : Parse (List Tree) := do
  if ← take "=" then return [← assignment call] else return []

/-- A type after a colon, if one follows. -/
def annotation? : Parse (List Tree) := do
  if ← take ":" then
    return [← within (fun s => { s with plainTypes := false }) (call .type)]
  else return []

/-- An element of an array pattern: nothing before a comma, a rest element, or a pattern with an
optional default. -/
def arrayBinding : Parse Tree := do
  if ← sees "," then return .leaf .hole
  else if ← take "..." then
    return .node .spread [← call .binding]
  else
    let target ← call .binding
    return .plain (target :: (← initializer? call))

/-- A property of an object pattern. -/
def objectBinding : Parse Tree := do
  if ← take "..." then
    faultIf !(← seesVariable)
    return .node .spread [← call .binding]
  else
    let start ← token
    let key ← propertyKey call
    if key.isPrivate then failure
    if ← take ":" then
      let target ← call .binding
      return .plain (key.tree :: target :: (← initializer? call))
    else if start.isVariable then
      return .plain (← initializer? call)
    else failure

/-- Only the last of a list of patterns may be a rest element, and no comma may follow it. -/
def restIsLast (trailing : Bool) : List Tree → Bool
  | [] => true
  | [t] => !(t.label == .spread && trailing)
  | t :: ts => t.label != .spread && restIsLast trailing ts

/-- A variable, or a pattern in brackets or braces. -/
def bindingPattern : Parse Tree := do
  if ← take "[" then
    let (items, trailing) ← commaList "]" (arrayBinding call)
    need "]"
    faultIf !(restIsLast trailing items)
    return .node .pattern items
  else if ← take openBrace then
    let (items, trailing) ← commaList closeBrace (objectBinding call)
    need closeBrace
    faultIf !(restIsLast trailing items)
    return .node .pattern items
  else bindingName

/-- A decorator: `@` and a member access or call. -/
def decorator : Parse Tree := do
  need "@"
  within (fun s => { s with decorating := true }) (call .leftSide)

/-- Any number of decorators. -/
def decorators : Parse (List Tree) := Parse.many do
  if ← sees "@" then return some (← decorator call) else return none

/-- The modifiers that may not precede the given one. -/
def mustFollow : String → List String
  | "public" | "private" | "protected" =>
      ["public", "private", "protected", "abstract", "override", "static", "accessor", "readonly", "async"]
  | "static" => ["static", "readonly", "async", "accessor", "override"]
  | "override" => ["override", "readonly", "accessor", "async"]
  | "abstract" => ["abstract", "override", "accessor"]
  | m => [m]

/-- Whether modifiers stand in an order that is allowed, each at most once. -/
def areOrdered (modifiers : List String) : Bool :=
  decide (modifiers.Pairwise fun a b => a ∉ mustFollow b)

/-- The modifiers that make a parameter of a constructor a property. -/
def parameterModifiers : List String := ["public", "private", "protected", "readonly", "override"]

/-- Modifiers of a parameter: a modifier is one only if the name or the pattern follows it. -/
def skipParameterModifiers : Parse Bool := do
  let found ← Parse.many (do
    match (← token).text? with
    | some text =>
        if parameterModifiers.contains text &&
            (← nextIs do return (← seesWord) || (← sees openBrace) || (← sees "[")) then
          advance
          return some text
        else return none
    | none => return none)
  faultIf !(areOrdered found)
  return !found.isEmpty

/-- A parameter: decorators, modifiers, a pattern, a type, a default. In a list that is not a
constructor's, modifiers are a fault. -/
def parameter (constructing : Bool) : Parse Tree := do
  let marks ← decorators call
  let modified ← skipParameterModifiers
  faultIf (modified && !constructing)
  let rest ← take "..."
  let target ← if ← sees "this" then do advance; pure .blank else call .binding
  faultIf ((← sees "?") && rest)
  let _ ← take "?"
  let types ← annotation? call
  faultIf ((← sees "=") && rest)
  let value ← initializer? call
  let label : Label := if rest then .spread else if value.isEmpty then .other else .assign "="
  return .node label (marks ++ target :: types ++ value)

/-- A parameter list in parentheses. -/
def parameters (constructing : Bool) : Parse Tree := do
  need "("
  let (items, trailing) ← within (fun s => { s with allowIn := true, decorating := false })
    (commaList ")" (parameter call constructing))
  need ")"
  let ambient := (← setting).ambient
  faultIf !(restIsLast (trailing && !ambient) items)
  return .plain items

end StyleAudit.Script
