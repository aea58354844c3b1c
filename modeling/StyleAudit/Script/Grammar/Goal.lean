import StyleAudit.Script.Parse

/-! # Goals and names

The grammar is a family of parsers, one per `Goal`. Productions refer to each other through a
`Grammar`, which maps goals to parsers, so that each production is an ordinary function and the
recursion is tied in one place.

* **`Goal`, `Grammar`** — what can be parsed for.
* **`reference`, `bindingName`, `anyName`** — the three kinds of name.
* **`propertyKey`** — the key of a property. -/

namespace StyleAudit.Script

/-- What a production can ask for. -/
inductive Goal where
  /-- A statement; in a `single` position no declaration may stand. -/
  | statement (single : Bool)
  /-- Statements in braces. -/
  | block
  /-- An expression without commas. When an arrow function with a return type would take the colon
  of an enclosing conditional expression, `returnTypes` is false. -/
  | assignment (returnTypes : Bool)
  /-- Operands of operators that bind tighter than `level`. -/
  | binary (level : Nat)
  | unary
  /-- Member accesses and calls. -/
  | leftSide
  /-- Member accesses without calls. -/
  | callee
  /-- A variable or a pattern of variables. -/
  | binding
  | type
  /-- A type without `|`, `&` and `extends` outside parentheses. -/
  | typeOperand
  /-- An element; the cursor stays at its last `>`. -/
  | element
  deriving DecidableEq, Repr

/-- Parsers for all goals. -/
abbrev Grammar := Goal → Parse Tree

/-! ## Names -/

/-- The words that cannot be names of variables. -/
def reservedWords : List String :=
  ["break", "case", "catch", "class", "const", "continue", "debugger", "default", "delete", "do",
    "else", "enum", "export", "extends", "false", "finally", "for", "function", "if", "import", "in",
    "instanceof", "new", "null", "return", "super", "switch", "this", "throw", "true", "try", "typeof",
    "var", "void", "while", "with"]

/-- Whether a token can be the name of a variable. -/
def Token.isVariable : Token → Bool
  | .word text _ => !reservedWords.contains text
  | _ => false

/-- Whether a token is an identifier or a keyword. -/
def Token.isWord : Token → Bool
  | .word _ _ => true
  | _ => false

/-- Whether a token is a literal. -/
def Token.isLiteral : Token → Bool
  | .string _ | .number => true
  | .word text false => text == "null" || text == "true" || text == "false"
  | _ => false

/-- Whether the current token can be the name of a variable. -/
def seesVariable : Parse Bool := do return (← token).isVariable

/-- Whether the current token is an identifier or a keyword. -/
def seesWord : Parse Bool := do return (← token).isWord

/-- A reference to a variable. `await` and `yield` are none where they are operators. -/
def reference : Parse Tree := do
  match ← token with
  | .word text _ =>
      let s ← setting
      if reservedWords.contains text || (text == "await" && s.async) ||
          (text == "yield" && s.generator) then failure
      else
        advance
        return .leaf (.name text)
  | _ => failure

/-- The name of a variable that is being declared. -/
def bindingName : Parse Tree := do
  match ← token with
  | .word text _ =>
      if reservedWords.contains text then failure
      else
        let s ← setting
        faultIf ((text == "await" && s.async) || (text == "yield" && s.generator))
        advance
        return .blank
  | _ => failure

/-- Any identifier or keyword. -/
def anyName : Parse String := do
  match ← token with
  | .word text _ =>
      advance
      return text
  | _ => failure

/-! ## Keys of properties -/

/-- The key of a property. -/
structure Key where
  tree : Tree
  /-- The name, if it is written as a name or a string. -/
  name : Option String
  /-- Whether the key is a variable's name and may stand for its own value. -/
  isVariable : Bool
  isPrivate : Bool

/-- The key of a property: a name, a string, a number, a private name or an expression in
brackets. -/
def propertyKey (call : Grammar) : Parse Key := do
  let t ← token
  match t with
  | .word text _ =>
      advance
      return ⟨.leaf (.name text), some text, t.isVariable, false⟩
  | .string value =>
      advance
      return ⟨.blank, some value, false, false⟩
  | .number =>
      advance
      return ⟨.blank, none, false, false⟩
  | .privateName text =>
      advance
      return ⟨.blank, some text, false, true⟩
  | _ =>
      need "["
      let key ← within (fun s => { s with allowIn := true }) (call (.assignment true))
      need "]"
      return ⟨key, none, false, false⟩

/-- Whether the current token can begin the key of a property. -/
def seesKey : Parse Bool := do
  match ← token with
  | .word _ _ | .string _ | .number | .privateName _ => return true
  | .mark "[" => return true
  | _ => return false

/-- An expression without commas. -/
def assignment (call : Grammar) : Parse Tree :=
  within (fun s => { s with allowIn := true }) (call (.assignment true))

/-- Expressions separated by commas. -/
def expression (call : Grammar) : Parse Tree := do
  let first ← call (.assignment true)
  let rest ← Parse.many (do
    if ← take "," then return some (← call (.assignment true)) else return none)
  return if rest.isEmpty then first else .node .sequence (first :: rest)

/-- Expressions separated by commas, with `in` as an operator. -/
def fullExpression (call : Grammar) : Parse Tree :=
  within (fun s => { s with allowIn := true }) (expression call)

/-- The parts of a template from the current one on; `sound` says that malformed escapes are faults,
and `inner` reads what stands between `${` and `}`. -/
def templateParts (strict : Bool) (inner : Parse Tree) : Parse (List Tree) := do
  match ← token with
  | .template last sound =>
      faultIf (strict && !sound)
      if last then
        advance
        return []
      else
        let parts ← Parse.many (do
          match ← token with
          | .template false _ =>
              advance
              let part ← inner
              if !(← sees closeBrace) then failure
              modify fun c =>
                let (t, rest) := scanTemplate (c.here.drop 1)
                { c with token := t, after := rest }
              match ← token with
              | .template _ sound =>
                  faultIf (strict && !sound)
                  return some part
              | _ => failure
          | _ => return none)
        advance
        return parts
  | _ => failure

end StyleAudit.Script
