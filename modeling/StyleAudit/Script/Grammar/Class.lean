import StyleAudit.Script.Grammar.Function

/-! # Classes

* **`classTail`** — what follows the keyword of a class: its name, what it extends, and its members.
* **`objectLiteral`** — objects, whose members share keys and methods with those of classes. -/

namespace StyleAudit.Script

variable (call : Grammar)

/-! ## Members of classes -/

/-- The modifiers of members. -/
def memberModifiers : List String :=
  ["public", "private", "protected", "static", "abstract", "override", "readonly", "declare", "accessor",
    "async"]

/-- The modifiers before a member. A word is a modifier only if a member can follow it, and for all
but `static` on the same line. -/
def takeModifiers : Parse (List String) := Parse.many do
  match ← token with
  | .word text false =>
      if memberModifiers.contains text &&
          (← nextIs do
            return (text == "static" || !(← afterNewline)) && (← canFollowModifier)) then
        advance
        return some text
      else return none
  | _ => return none

/-- A member that is a method, from its parameters on. -/
def methodMember (modifiers : List String) (key : Key) (generator : Bool) (accessor : Option Bool) :
    Parse Tree := do
  let async := modifiers.contains "async"
  let static := modifiers.contains "static"
  let constructing := key.name == some "constructor" && !static && !key.isPrivate
  faultIf (constructing && (async || generator || accessor.isSome))
  faultIf (static && key.name == some "prototype" && !key.isPrivate)
  let kind := if constructing then FunctionKind.constructor else .method
  let (tail, params) ← functionTail call kind async generator
  match accessor with
  | some setter => faultIf !(suitsAccessor setter params)
  | none => pure ()
  return .plain [key.tree, tail]

/-- A member that is a field, from its type on. -/
def fieldMember (modifiers : List String) (key : Key) : Parse Tree := do
  faultIf (key.name == some "constructor" && !key.isPrivate)
  faultIf (modifiers.contains "static" && key.name == some "prototype" && !key.isPrivate)
  let types ← annotation? call
  let value ← within (fun s => { s with async := false, generator := false }) (initializer? call)
  endStatement
  return .plain (key.tree :: types ++ value)

/-- A member of a class. -/
def classMember : Parse Tree := do
  if ← take ";" then return .blank
  let marks ← decorators call
  if (← sees "static") && (← nextIs (sees openBrace)) then
    advance
    let body ← within
      (fun s => { s with async := true, generator := false, inFunction := false }) (call .block)
    return .plain (marks ++ [body])
  let modifiers ← takeModifiers
  faultIf !(areOrdered modifiers)
  if ← seesIndexSignature then
    let s ← indexSignature call
    endMember
    return .plain (marks ++ [s])
  let accessor : Option Bool ← (do
    if (← seesAny ["get", "set"]) && (← nextIs seesKey) then
      let setter ← sees "set"
      advance
      return some setter
    else return none)
  let generator ← take "*"
  let key ← propertyKey call
  faultIf (key.isPrivate && key.name == some "constructor")
  if (← sees "?") || ((← sees "!") && !(← afterNewline)) then advance
  if generator || accessor.isSome || (← sees "(") || (← sees "<") then
    let m ← methodMember call modifiers key generator accessor
    return .plain (marks ++ [m])
  else
    faultIf (modifiers.contains "async")
    let m ← fieldMember call modifiers key
    return .plain (marks ++ [m])

/-! ## Classes -/

/-- What a class extends: an expression with type arguments. -/
def superclass : Parse Tree := do
  let t ← call .leftSide
  return .plain (t :: (← typeArguments? call))

/-- An interface that a class implements. -/
def interfaceName : Parse Tree := do
  entityName
  return .plain (← typeArguments? call)

/-- Items separated by commas, at least one. -/
def commaRun (item : Parse α) : Parse (List α) := do
  let first ← item
  let rest ← Parse.many (do
    if ← take "," then return some (← item) else return none)
  return first :: rest

/-- What follows the keyword of a class. A name is required unless `anonymous`. -/
def classTail (anonymous : Bool) : Parse Tree := do
  let named ← (do
    if !(← seesVariable) then return false
    return !((← sees "implements") && (← nextIs do return (← seesWord) || (← sees openBrace))))
  if named then
    let _ ← bindingName
  else if !anonymous then failure
  let bounds ← typeParameters? call
  let parents ← if ← take "extends" then commaRun (superclass call) else pure []
  faultIf (1 < parents.length)
  let interfaces ← if ← take "implements" then commaRun (interfaceName call) else pure []
  need openBrace
  let members ← within (fun s => { s with allowIn := true, decorating := false, plainTypes := false })
    (Parse.many (do
      if ← sees closeBrace then return none else return some (← classMember call)))
  need closeBrace
  return .plain (bounds ++ parents ++ interfaces ++ members)

/-! ## Objects -/

/-- A property of an object. -/
def objectProperty : Parse Tree := do
  if ← take "..." then return .node .spread [← assignment call]
  let async ← (do
    if (← sees "async") && (← nextIs do
        return !(← afterNewline) && ((← seesKey) || (← sees "*"))) then
      advance
      return true
    return false)
  if !async && (← seesAny ["get", "set"]) && (← nextIs seesKey) then
    let setter ← sees "set"
    advance
    let key ← propertyKey call
    let (tail, params) ← functionTail call .inline false false
    faultIf !(suitsAccessor setter params)
    return .plain [key.tree, tail]
  let generator ← take "*"
  let key ← propertyKey call
  if key.isPrivate then failure
  if async || generator || (← sees "(") || (← sees "<") then
    let (tail, _) ← functionTail call .inline async generator
    return .plain [key.tree, tail]
  else if ← take ":" then
    return .node .property [key.tree, ← assignment call]
  else if key.isVariable then
    let s ← setting
    faultIf ((key.name == some "await" && s.async) || (key.name == some "yield" && s.generator))
    if ← take "=" then return .node .shorthandDefault [key.tree, ← assignment call]
    else return .node .shorthand [key.tree]
  else failure

/-- An object. -/
def objectLiteral : Parse Tree := do
  need openBrace
  return .node .object (← commaListTo closeBrace (objectProperty call))

end StyleAudit.Script
