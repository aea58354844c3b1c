import StyleAudit.Script.Grammar.Class
import StyleAudit.Script.Grammar.Element

/-! # Expressions

* **`parseLeftSide`, `parseCallee`** — member accesses and calls.
* **`parseUnary`, `parseBinary`** — operators.
* **`parseAssignment`** — assignments, conditional expressions and arrow functions. -/

namespace StyleAudit.Script

variable (call : Grammar)

/-! ## Operators -/

/-- How tightly a binary operator binds. -/
def operatorLevel : String → Option Nat
  | "??" => some 1
  | "||" => some 2
  | "&&" => some 3
  | "|" => some 4
  | "^" => some 5
  | "&" => some 6
  | "==" | "!=" | "===" | "!==" => some 7
  | "<" | ">" | "<=" | ">=" | "instanceof" | "in" | "as" | "satisfies" => some 8
  | "<<" | ">>" | ">>>" => some 9
  | "+" | "-" => some 10
  | "*" | "/" | "%" => some 11
  | "**" => some 12
  | _ => none

/-- The level of `**`, the only operator that groups from the right. -/
def powerLevel : Nat := 12

/-- The level of comparisons. -/
def compareLevel : Nat := 8

/-- The assignment operators. -/
def assignOperators : List String :=
  ["=", "+=", "-=", "*=", "/=", "%=", "**=", "<<=", ">>=", ">>>=", "&=", "^=", "|=", "&&=", "||=", "??="]

/-- The unary operators. -/
def unaryOperators : List String := ["+", "-", "!", "~", "typeof", "void", "delete"]

/-- Reads the longest operator that begins with the current `>`. -/
def widenAngle : Parse Unit := do
  if ← sees ">" then
    modify fun c =>
      let (t, rest) := scanMark angleMarks c.here
      { c with token := t, after := rest }
  else pure ()

/-- The level of the current token, if it is a binary operator here. -/
def currentLevel? : Parse (Option (String × Nat)) := do
  widenAngle
  match (← token).text? with
  | some text =>
      if text == "in" && !(← setting).allowIn then return none
      return (operatorLevel text).map fun level => (text, level)
  | none => return none

/-! ## Type arguments in expressions -/

/-- Whether the current token can begin an expression. -/
def seesExpression : Parse Bool := do
  match ← token with
  | .word text _ =>
      return !reservedWords.contains text ||
        ["this", "super", "null", "true", "false", "function", "class", "new", "delete", "typeof", "void",
          "instanceof", "in", "import"].contains text
  | .number | .string _ | .template _ _ | .privateName _ => return true
  | .mark m =>
      return ["(", "[", openBrace, "/", "/=", "+", "-", "~", "!", "++", "--", "<", "@"].contains m ||
        (operatorLevel m).isSome
  | _ => return false

/-- Whether the current token can follow type arguments in an expression, so that `<` was no
comparison. -/
def canFollowTypeArguments : Parse Bool := do
  match ← token with
  | .template _ _ => return true
  | .mark "(" => return true
  | .mark "<" | .mark ">" | .mark "+" | .mark "-" => return false
  | t =>
      if ← afterNewline then return true
      let operator := match t.text? with
        | some text => (operatorLevel text).isSome
        | none => false
      return operator || !(← seesExpression)

/-- Type arguments after an expression. -/
def expressionTypeArguments : Parse Tree := do
  if !(← takeAngle) then failure
  let (items, _) ← within (fun s => { s with plainTypes := false }) (commaList ">" (call .type))
  faultIf items.isEmpty
  if (← get).after.head? = some '=' then failure
  need ">"
  if ← canFollowTypeArguments then return .plain items else failure

/-! ## Primary expressions -/

/-- An element of an array. -/
def arrayElement : Parse Tree := do
  if ← sees "," then return .leaf .hole
  else if ← take "..." then return .node .spread [← assignment call]
  else assignment call

/-- An array. -/
def arrayLiteral : Parse Tree := do
  need "["
  let (items, trailing) ← within (fun s => { s with decorating := false })
    (commaList "]" (arrayElement call))
  need "]"
  return .node (.array trailing) items

/-- Expressions in parentheses. -/
def parenthesized : Parse Tree := do
  need "("
  let (items, trailing) ← within (fun s => { s with allowIn := true, decorating := false })
    (commaList ")" (call (.assignment true)))
  if trailing then failure
  need ")"
  match items with
  | [] => failure
  | [e] => return .node .paren [e]
  | es => return .node .paren [.node .sequence es]

/-- A regular expression, whose slash is the current token. -/
def regexLiteral : Parse Tree := do
  let c ← get
  match scanRegex (c.here.drop 1) with
  | some rest =>
      set (c.moveTo rest)
      return .blank
  | none => failure

/-- The arguments of a call, in parentheses. -/
def callArguments : Parse (List Tree) := do
  need "("
  let items ← within (fun s => { s with allowIn := true, decorating := false })
    (commaListTo ")" do
      if ← take "..." then return .node .spread [← assignment call] else assignment call)
  return items

/-- `import.meta`, or an import of a module where it is needed. -/
def importExpression : Parse Tree := do
  need "import"
  if ← take "." then
    if ← take "meta" then return .blank
    if !((← take "defer") || (← take "source")) then failure
  need "("
  let items ← within (fun s => { s with allowIn := true, decorating := false })
    (commaListTo ")" (assignment call))
  if items.isEmpty || 2 < items.length then failure
  return .plain items

/-- `new` with a callee and arguments, or `new.target`. -/
def newExpression : Parse Tree := do
  need "new"
  if ← take "." then
    need "target"
    return .blank
  faultIf ((← sees "import") && (← nextIs (sees "(")))
  let target ← call .callee
  faultIf (target.label == .chain)
  let args ← if ← sees "(" then callArguments call else pure []
  return .plain (target :: args)

/-- A class with decorators. -/
def decoratedClass : Parse Tree := do
  let marks ← decorators call
  need "class"
  return .plain (marks ++ [← classTail call true])

/-- An expression that begins with a word. -/
def wordExpression (text : String) : Parse Tree := do
  match text with
  | "function" => function call .inline false true
  | "async" =>
      if ← nextIs do return (← sees "function") && !(← afterNewline) then
        advance
        function call .inline true true
      else reference
  | "class" =>
      advance
      classTail call true
  | "this" | "null" | "true" | "false" =>
      advance
      return .blank
  | "super" =>
      advance
      faultIf !(← seesAny [".", "[", "("])
      return .blank
  | "import" => importExpression call
  | "new" => newExpression call
  | _ => reference

/-- An expression without operators. -/
def primary : Parse Tree := do
  match ← token with
  | .word text false => wordExpression call text
  | .word _ true => reference
  | .number =>
      advance
      return .blank
  | .string value =>
      advance
      return .leaf (.string value)
  | .template _ _ => return .plain (← templateParts true (fullExpression call))
  | .mark "[" => arrayLiteral call
  | .mark openBrace => within (fun s => { s with decorating := false }) (objectLiteral call)
  | .mark "(" => parenthesized call
  | .mark "/" | .mark "/=" => regexLiteral
  | .mark "@" => decoratedClass call
  | _ => failure

/-! ## Member accesses and calls -/

/-- A member access or call, and whether `?.` stands in it. -/
structure Chain where
  tree : Tree
  optional : Bool

/-- The property after a point. -/
def memberAfterPoint (c : Chain) : Parse Chain := do
  match ← token with
  | .word text _ =>
      advance
      return { c with tree := .node (.member text) [c.tree] }
  | .privateName _ =>
      advance
      return { c with tree := .node .privateMember [c.tree] }
  | _ => failure

/-- A key in brackets. -/
def memberInBrackets (c : Chain) : Parse Chain := do
  need "["
  let key ← within (fun s => { s with decorating := false }) (fullExpression call)
  need "]"
  return { c with tree := .node .index [c.tree, key] }

/-- One more member access, if one follows. -/
def memberStep (c : Chain) : Parse (Option Chain) := do
  match ← token with
  | .mark "." =>
      faultIf (c.tree.label == .instantiation)
      advance
      return some (← memberAfterPoint c)
  | .mark "?." =>
      if ← nextIs do return (← seesWord) || (match ← token with | .privateName _ => true | _ => false) then
        faultIf (c.tree.label == .instantiation)
        advance
        return some (← memberAfterPoint { c with optional := true })
      else if ← nextIs (sees "[") then
        advance
        return some (← memberInBrackets call { c with optional := true })
      else return none
  | .mark "[" =>
      if (← setting).decorating then return none
      return some (← memberInBrackets call c)
  | .mark "!" =>
      if ← afterNewline then return none
      advance
      return some { c with tree := .node .assertion [c.tree] }
  | .template _ _ =>
      faultIf c.optional
      let parts ← templateParts false (fullExpression call)
      return some { c with tree := .plain (c.tree :: parts) }
  | .mark "<" | .mark "<<" =>
      match ← attempt (expressionTypeArguments call) with
      | some types => return some { c with tree := .node .instantiation [c.tree, types] }
      | none => return none
  | _ => return none

/-- All member accesses that follow. -/
def memberRest (c : Chain) : Parse Chain := Parse.fold (memberStep call) c

/-- The call of an expression. Type arguments before the parentheses belong to the call. -/
def callOf (callee : Tree) (types args : List Tree) : Tree :=
  match callee with
  | .node .instantiation [inner, ts] => .node .call (inner :: args ++ ts :: types)
  | t => .node .call (t :: args ++ types)

/-- One more call, if one follows, and the member accesses after it. -/
def callStep (c : Chain) : Parse (Option Chain) := do
  if ← sees "(" then
    let args ← callArguments call
    return some (← memberRest call { c with tree := callOf c.tree [] args })
  else if ← sees "?." then
    advance
    let types ← attempt (expressionTypeArguments call)
    let args ← callArguments call
    return some (← memberRest call ⟨.node .call (c.tree :: args ++ types.toList), true⟩)
  else return none

/-- Marks a tree in which `?.` stands. -/
def Chain.toTree (c : Chain) : Tree := if c.optional then .node .chain [c.tree] else c.tree

/-- The production of member accesses without calls. -/
def parseCallee : Parse Tree := do
  let first ← primary call
  return (← memberRest call ⟨first, false⟩).toTree

/-- The production of member accesses and calls. -/
def parseLeftSide : Parse Tree := do
  let first ← primary call
  let c ← memberRest call ⟨first, false⟩
  return (← Parse.fold (callStep call) c).toTree

/-! ## Unary and binary operators -/

/-- Whether a word or a literal follows on the same line. -/
def operandFollowsInline : Parse Bool := nextIs do
  if ← afterNewline then return false
  match ← token with
  | .word _ _ | .string _ | .number | .privateName _ => return true
  | _ => return false

/-- The target of `++` and `--`. -/
def updateTarget (e : Tree) : Parse Tree :=
  match e.toTarget? true with
  | some t => return .plain [t]
  | none => failure

/-- The production of operands with unary operators. -/
def parseUnary : Parse Tree := do
  if ← seesAny unaryOperators then
    advance
    return .node .unary [← call .unary]
  else if ← sees "<" then
    if (← get).elements then
      let e ← call .element
      advance
      return e
    else
      advance
      let t ← within (fun s => { s with plainTypes := false })
        (do if ← take "const" then return .blank else call .type)
      need ">"
      let e ← call .unary
      return .node .assertion [e, t]
  else if (← sees "await") && ((← setting).async || (← operandFollowsInline)) then
    faultIf !(← setting).async
    advance
    return .node .unary [← call .unary]
  else if (← sees "++") || (← sees "--") then
    advance
    updateTarget (← call .unary)
  else
    let e ← call .leftSide
    if ((← sees "++") || (← sees "--")) && !(← afterNewline) then
      advance
      updateTarget e
    else return e

/-- `??` may not stand beside `&&` and `||` without parentheses. -/
def mixesCoalescing (operator : String) (left right : Tree) : Bool :=
  let mixed (t : Tree) : Bool := t.label == .logical "&&" || t.label == .logical "||"
  operator == "??" && (mixed left || mixed right)

/-- One more operator with its right operand, if one binds tighter than `level`. -/
def binaryStep (level : Nat) (left : Tree) : Parse (Option Tree) := do
  match ← currentLevel? with
  | none => return none
  | some (operator, own) =>
      if own < level || (own == level && own != powerLevel) then return none
      if operator == "as" || operator == "satisfies" then
        if ← afterNewline then return none
        advance
        let t ← within (fun s => { s with plainTypes := false })
          (do if ← take "const" then return .blank else call .type)
        return some (.node .assertion [left, t])
      advance
      let right ← call (.binary own)
      if own ≤ 3 then
        faultIf (mixesCoalescing operator left right)
        return some (.node (.logical operator) [left, right])
      else
        faultIf (own == powerLevel && left.label == .unary)
        return some (.plain [left, right])

/-- The production of operators that bind tighter than `level`. -/
def parseBinary (level : Nat) : Parse Tree := do
  let left ← (do
    match ← token with
    | .privateName _ =>
        if !(← setting).allowIn || compareLevel ≤ level then failure
        advance
        need "in"
        return .plain [← call (.binary compareLevel)]
    | _ => call .unary)
  Parse.fold (binaryStep call level) left

/-! ## Arrow functions -/

/-- Whether an arrow function with parentheses begins at a place. -/
inductive Verdict where
  | yes
  | no
  | maybe
  deriving DecidableEq

/-- The verdict on what follows an opening parenthesis, which is the current token. -/
def judgeParenthesis : Parse Verdict := do
  advance
  match ← token with
  | .mark ")" =>
      advance
      return if ← seesAny ["=>", ":", openBrace] then .yes else .no
  | .mark "[" | .mark openBrace => return .maybe
  | .mark "..." =>
      advance
      let t ← token
      return if t.isVariable then .yes else if t.isLiteral then .no else .maybe
  | t =>
      if (← seesAny parameterModifiers) && (← nextIs seesVariable) then
        return if ← nextIs (sees "as") then .no else .yes
      if !(t.isVariable || t.isText "this") then return .no
      advance
      match ← token with
      | .mark ":" => return .yes
      | .mark "?" =>
          advance
          return if ← seesAny [":", ",", "=", ")"] then .yes else .no
      | .mark "," | .mark "=" | .mark ")" => return .maybe
      | _ => return .no

/-- The verdict on what follows an opening angle bracket, which is the current token. Where elements
may be written, type parameters must look like no tag. -/
def judgeAngle : Parse Verdict := do
  advance
  if !((← seesVariable) || (← sees "const")) then return .no
  if !(← get).elements then return .maybe
  let _ ← take "const"
  advance
  if ← take "extends" then
    return if ← seesAny ["=", ">", "/"] then .no else .yes
  else return if ← seesAny [",", "="] then .yes else .no

/-- The verdict on the current place. -/
def judgeArrow : Parse Verdict := fun c =>
  let judge : Parse Verdict := do
    if ← sees "async" then
      advance
      if ← afterNewline then return .no
    if ← sees "(" then judgeParenthesis
    else if ← sees "<" then judgeAngle
    else return .no
  match judge c with
  | some (v, _) => some (v, c)
  | none => some (.no, c)

/-- An arrow function with parentheses. Where a colon may belong to an enclosing conditional
expression, a return type counts only if a colon follows the body. -/
def arrowFunction (returnTypes : Bool) : Parse Tree := do
  let (head, async, typed) ← arrowHead call
  let body ← arrowBody call async returnTypes
  if !returnTypes && typed && !(← sees ":") then failure
  return .plain [head, body]

/-- An arrow function with parentheses, if one begins here. -/
def arrowFunction? (returnTypes : Bool) : Parse (Option Tree) := do
  match ← judgeArrow with
  | .yes =>
      let (head, async, _) ← arrowHead call
      return some (.plain [head, ← arrowBody call async true])
  | .maybe => attempt (arrowFunction call returnTypes)
  | .no => return none

/-- An arrow function `async x => …`, if one begins here. -/
def asyncArrow? (returnTypes : Bool) : Parse (Option Tree) := do
  let found ← (do
    if !(← sees "async") then return false
    nextIs do
      if (← afterNewline) || !(← seesVariable) then return false
      nextIs do return (← sees "=>") && !(← afterNewline))
  if found then
    advance
    let name ← within (fun s => { s with async := true }) bindingName
    need "=>"
    return some (.plain [name, ← arrowBody call true returnTypes])
  else return none

/-! ## Assignments -/

/-- A `yield` expression. -/
def yieldExpression : Parse Tree := do
  faultIf !(← setting).generator
  need "yield"
  if ← afterNewline then return .blank
  let delegating ← take "*"
  let ends := (← seesAny [";", ")", "]", closeBrace, ":", ",", "in"]) || (← token) == .done
  if ends && !delegating then return .blank
  return .plain [← within (fun s => { s with generator := true }) (call (.assignment true))]

/-- What follows the condition of a conditional expression, if it is one. -/
def conditionalRest (returnTypes : Bool) (condition : Tree) : Parse Tree := do
  if ← take "?" then
    let yes ← within (fun s => { s with allowIn := true }) (call (.assignment false))
    need ":"
    let no ← call (.assignment returnTypes)
    return .plain [condition, yes, no]
  else return condition

/-- What follows the left side of an assignment, if it is one. -/
def assignmentRest (returnTypes : Bool) (left : Tree) : Parse Tree := do
  match (← token).text? with
  | some operator =>
      if left.isName && operator == "=>" then
        faultIf (← afterNewline)
        advance
        return .plain [← arrowBody call false returnTypes]
      else if assignOperators.contains operator then
        match left.toTarget? (operator != "=") with
        | some target =>
            advance
            return .node (.assign operator) [target, ← call (.assignment returnTypes)]
        | none => failure
      else conditionalRest call returnTypes left
  | none => return left

/-- The production of expressions without commas. -/
def parseAssignment (returnTypes : Bool) : Parse Tree := do
  if (← sees "yield") && ((← setting).generator || (← operandFollowsInline)) then
    return ← yieldExpression call
  if let some arrow ← arrowFunction? call returnTypes then return arrow
  if let some arrow ← asyncArrow? call returnTypes then return arrow
  assignmentRest call returnTypes (← call (.binary 0))

end StyleAudit.Script
