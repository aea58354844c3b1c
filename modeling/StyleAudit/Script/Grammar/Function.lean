import StyleAudit.Script.Grammar.Type

/-! # Functions

The parts of functions, methods and arrow functions.

* **`functionTail`** — type parameters, parameters, return type and body.
* **`arrowHead`, `arrowBody`** — the two sides of an arrow. -/

namespace StyleAudit.Script

variable (call : Grammar)

/-- The setting of the inside of a function. -/
def inFunction (async generator : Bool) (s : Setting) : Setting :=
  { s with
    allowIn := true, async := async, generator := generator, inFunction := true,
    decorating := false, plainTypes := false }

/-- The body of a function, in braces. -/
def functionBody (async generator : Bool) : Parse Tree :=
  within (inFunction async generator) (call .block)

/-- The kinds of function that differ in what their parameters and body may be. -/
inductive FunctionKind where
  /-- A function statement, which may lack a body. -/
  | declaration
  /-- A function in an expression. -/
  | inline
  /-- A method of a class, which may lack a body. -/
  | method
  | constructor
  deriving DecidableEq

/-- What follows the name of a function: type parameters, parameters, return type and body. The
result has the number of parameters beside it. Where a body may be left out, the statement ends
instead. -/
def functionTail (kind : FunctionKind) (async generator : Bool) : Parse (Tree × List Tree) := do
  let enter (s : Setting) : Setting := { s with async := async, generator := generator }
  let bounds ← within enter (typeParameters? call)
  let params ← within enter (parameters call (kind == .constructor))
  let result ← returnType? call ":"
  if ← sees openBrace then
    faultIf (← setting).ambient
    let body ← functionBody call async generator
    return (.plain (bounds ++ params :: result ++ [body]), params.children)
  else
    if kind == .inline then failure
    endStatement
    return (.plain (bounds ++ params :: result), params.children)

/-- A function from its keyword on; `async` says that `async` preceded it. A name is required unless
`anonymous`. -/
def function (kind : FunctionKind) (async anonymous : Bool) : Parse Tree := do
  need "function"
  let generator ← take "*"
  let named ← seesVariable
  if named then
    -- The name of an expression is bound inside the function, that of a statement outside.
    let _ ← if kind == .inline then
        within (fun s => { s with async := async, generator := generator }) bindingName
      else bindingName
  else if !anonymous then failure
  let (tail, _) ← functionTail call kind async generator
  return tail

/-- What precedes the body of an arrow function with parentheses. -/
def arrowHead : Parse (Tree × Bool × Bool) := do
  let async ← take "async"
  let outer ← setting
  let enter (s : Setting) : Setting := { s with async := outer.async || async }
  let bounds ← within enter (typeParameters? call)
  let params ← within enter (parameters call false)
  let result ← within enter (returnType? call ":")
  faultIf (← afterNewline)
  need "=>"
  return (.plain (bounds ++ params :: result), async, !result.isEmpty)

/-- The body of an arrow function. -/
def arrowBody (async returnTypes : Bool) : Parse Tree := do
  if ← sees openBrace then functionBody call async false
  else
    within (fun s => { s with async := async, generator := false }) (call (.assignment returnTypes))

/-- Whether a list of parameters suits a getter, which has none, or a setter, which has one without
a default. -/
def suitsAccessor (setter : Bool) (params : List Tree) : Bool :=
  if setter then params.length == 1 && params.all (·.label == .other) else params.isEmpty

end StyleAudit.Script
