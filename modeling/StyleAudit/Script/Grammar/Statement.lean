import StyleAudit.Script.Grammar.Declaration
import StyleAudit.Script.Grammar.Expression

/-! # Statements

* **`importDeclaration`, `exportDeclaration`** — what joins modules.
* **`parseStatement`, `parseBlock`** — the productions of the two goals. -/

namespace StyleAudit.Script

variable (call : Grammar)

/-! ## Modules -/

/-- Passes a string. -/
def needString : Parse Unit := do
  match ← token with
  | .string _ => advance
  | _ => failure

/-- A name or a string. -/
def exportName? : Parse (Option Token) := do
  match ← token with
  | .word text escaped =>
      advance
      return some (.word text escaped)
  | .string value =>
      advance
      return some (.string value)
  | _ => return none

/-- The attributes of an import, if they follow. -/
def importAttributes : Parse Unit := do
  if (← sees "with") || (← seesInline "assert") then
    advance
    need openBrace
    let _ ← commaListTo closeBrace (do
      match ← exportName? with
      | some _ =>
          need ":"
          needString
      | none => failure)
  else pure ()

/-- The source of a module with its attributes, and the end of the statement. -/
def moduleSource : Parse Unit := do
  needString
  importAttributes
  endStatement

/-- The names of an entry of a list of imports or exports: its name in the module, and its name
outside. A leading `type` is a modifier if another name follows that is not part of a renaming. -/
def specifierNames : List Token → Option (Token × Token)
  | [a] => some (a, a)
  | [a, b] => if a.isText "type" then some (b, b) else none
  | [a, b, c] => if b.isText "as" then some (a, c) else none
  | [a, b, c, d] => if a.isText "type" && c.isText "as" then some (b, d) else none
  | _ => none

/-- An entry of a list of imports or exports. -/
def specifier : Parse (Token × Token) := do
  let names ← Parse.many exportName?
  match specifierNames names with
  | some pair => return pair
  | none => failure

/-- A list of imported names in braces. Their names inside must be names of variables. -/
def importList : Parse Unit := do
  need openBrace
  let items ← commaListTo closeBrace specifier
  faultIf (items.any fun (_, own) => !own.isVariable)

/-- All exports of a module under one name, or a list of imported names. -/
def importedNames : Parse Unit := do
  if ← take "*" then
    need "as"
    let _ ← bindingName
  else importList

/-- What follows the name in `import name = …`. -/
def importEquals : Parse Unit := do
  need "="
  if (← sees "require") && (← nextIs (sees "(")) then
    advance
    advance
    needString
    need ")"
  else entityName
  endStatement

/-- Whether a word before an import clause is the modifier `type`. -/
def seesTypeImport : Parse Bool := do
  if !((← seesVariable) || (← sees "*") || (← sees openBrace)) then return false
  if ← sees "from" then nextIs (seesAny ["from", "="]) else return true

/-- What follows `import` and its optional default import. -/
def importClause (named : Bool) : Parse Unit := do
  if named && !((← sees ",") || (← sees "from")) then importEquals
  else
    if named then
      if ← take "," then importedNames
    else importedNames
    need "from"
    moduleSource

/-- An import declaration. -/
def importDeclaration : Parse Tree := do
  need "import"
  match ← token with
  | .string _ => moduleSource
  | first =>
      if first.isVariable then
        let _ ← bindingName
        if first.isText "type" && (← seesTypeImport) then
          let named ← seesVariable
          if named then
            let _ ← bindingName
          importClause named
        else if first.isText "defer" && (← sees "*") then importClause false
        else if first.isText "source" && (← seesVariable) &&
            (!(← sees "from") || (← nextIs (sees "from"))) then
          let _ ← bindingName
          importClause true
        else importClause true
      else importClause false
  return .blank

/-- A list of exported names in braces. Without a source they must be names of variables. -/
def exportList : Parse Unit := do
  need openBrace
  let items ← commaListTo closeBrace specifier
  if ← take "from" then moduleSource
  else
    faultIf (items.any fun (own, _) => !own.isVariable)
    endStatement

/-- All exports of another module. -/
def exportAll : Parse Unit := do
  need "*"
  if ← take "as" then
    if (← exportName?).isNone then failure
  need "from"
  moduleSource

/-- The declaration or expression after `export default`. -/
def exportDefault : Parse Tree := do
  let marks ← decorators call
  let inline (s : String) : Parse Bool := nextIs (seesInline s)
  if ← take "class" then return .plain (marks ++ [← classTail call true])
  if (← sees "abstract") && (← inline "class") then
    advance
    advance
    return .plain (marks ++ [← classTail call true])
  if !marks.isEmpty then failure
  if ← sees "function" then return ← function call .declaration false true
  if (← sees "async") && (← inline "function") then
    advance
    return ← function call .declaration true true
  if (← sees "interface") && (← nextIs do return (← seesVariable) && !(← afterNewline)) then
    return ← interfaceDeclaration call
  let e ← assignment call
  endStatement
  return e

/-- The words that may begin an exported declaration. -/
def exportableWords : List String :=
  ["var", "let", "const", "function", "class", "enum", "interface", "type", "namespace", "module",
    "declare", "abstract", "async", "import", "global", "using", "await"]

/-- An export declaration. -/
def exportDeclaration : Parse Tree := do
  need "export"
  if ← take "=" then
    let e ← expression call
    endStatement
    return e
  if (← sees "as") && (← nextIs (sees "namespace")) then
    advance
    advance
    let _ ← bindingName
    endStatement
    return .blank
  if ← take "default" then return ← exportDefault call
  if ← sees "*" then
    exportAll
    return .blank
  if ← sees openBrace then
    exportList
    return .blank
  if (← sees "type") && (← nextIs (seesAny [openBrace, "*"])) then
    advance
    if ← sees "*" then exportAll else exportList
    return .blank
  if ← sees "@" then
    let marks ← decorators call
    let _ ← take "abstract"
    need "class"
    return .plain (marks ++ [← classTail call false])
  if (← sees "import") && (← nextIs (seesAny [".", "("])) then failure
  if (← seesAny exportableWords) &&
      ((← seesAny ["import", "async", "using", "await"]) || (← seesDeclaration)) then
    if (← sees "async") && !(← nextIs (seesInline "function")) then failure
    call (.statement false)
  else failure

/-! ## Loops -/

/-- The condition and step of a loop after its first semicolon, and its body. -/
def loopTail : Parse Tree := do
  need ";"
  let condition ← if ← sees ";" then pure [] else do pure [← fullExpression call]
  need ";"
  let step ← if ← sees ")" then pure [] else do pure [← fullExpression call]
  need ")"
  return .plain (condition ++ step ++ [← call (.statement true)])

/-- What follows the left side of `for (… in …)` and `for (… of …)`. -/
def overTail : Parse Tree := do
  let source ← if ← take "of" then assignment call
    else do
      need "in"
      fullExpression call
  need ")"
  return .plain [source, ← call (.statement true)]

/-- The rest of a loop whose head declares variables. Only in a loop over something may a variable
lack its value. -/
def loopAfterVariables (awaiting : Bool) (constant : Bool) : Parse Tree := do
  let (head, lacking) ← within (fun s => { s with allowIn := false }) (declarators call constant)
  if (← sees "of") || (← sees "in") then
    faultIf (awaiting && (← sees "in"))
    return .plain [head, ← overTail call]
  else
    faultIf (awaiting || lacking)
    return .plain [head, ← loopTail call]

/-- A `for` statement. -/
def forStatement : Parse Tree := do
  need "for"
  let awaiting ← take "await"
  faultIf (awaiting && !(← setting).async)
  need "("
  if ← sees ";" then
    faultIf awaiting
    return ← loopTail call
  if ← seesAny ["var", "const"] then
    let constant ← sees "const"
    advance
    return ← loopAfterVariables call awaiting constant
  if ← seesLetBinding then
    advance
    return ← loopAfterVariables call awaiting false
  if ← seesAwaitUsing then
    advance
    advance
    return ← loopAfterVariables call awaiting false
  if (← seesUsing) && !(← nextIs (sees "of")) then
    advance
    return ← loopAfterVariables call awaiting false
  let letOf ← sees "let"
  let asyncOf := (← sees "async") && (← nextIs (sees "of"))
  let head ← within (fun s => { s with allowIn := false }) (expression call)
  if (← sees "of") || (← sees "in") then
    faultIf ((← sees "of") && (letOf || (asyncOf && !awaiting)))
    faultIf (awaiting && (← sees "in"))
    match head.toTarget? false with
    | some target => return .plain [target, ← overTail call]
    | none => failure
  else
    faultIf awaiting
    return .plain [head, ← loopTail call]

/-! ## Other statements -/

/-- An expression in parentheses. -/
def condition : Parse Tree := do
  need "("
  let e ← fullExpression call
  need ")"
  return e

/-- A case of a `switch`. -/
def switchCase : Parse Tree := do
  let test ← if ← take "default" then pure []
    else do
      need "case"
      pure [← fullExpression call]
  need ":"
  let body ← Parse.many (do
    if ← seesAny ["case", "default", closeBrace] then return none
    return some (← call (.statement false)))
  return .plain (test ++ body)

/-- A `try` statement, which needs a `catch` or a `finally`. -/
def tryStatement : Parse Tree := do
  need "try"
  let body ← call .block
  let handler ← if ← take "catch" then do
      let param ← if ← take "(" then do
          let target ← call .binding
          let types ← annotation? call
          need ")"
          pure (target :: types)
        else pure []
      pure (param ++ [← call .block])
    else pure []
  let last ← if ← take "finally" then do pure [← call .block] else pure []
  faultIf (handler.isEmpty && last.isEmpty)
  return .plain (body :: handler ++ last)

/-- An expression statement, or a statement with a label. -/
def expressionStatement : Parse Tree := do
  let e ← fullExpression call
  if e.isName && (← take ":") then
    return .plain [← call (.statement true)]
  endStatement
  return e

/-- A statement that begins with `let`: a declaration unless what follows makes it a name. -/
def letStatement (single : Bool) : Parse Tree := do
  let asName ← nextIs do
    match ← token with
    | .mark m =>
        return assignOperators.contains m || m == "." || m == "(" || m == ";" ||
          ((operatorLevel m).isSome && m != "[") || (single && m != "[")
    | .word text _ => return text == "instanceof" || text == "in" || single
    | _ => return single
  if asName then expressionStatement call
  else
    advance
    let vs ← variableList call false
    endStatement
    faultIf single
    return vs

/-- A function statement. In a single position it can be neither asynchronous nor a generator. -/
def functionStatement (single : Bool) : Parse Tree := do
  let async ← take "async"
  faultIf (single && (async || (← nextIs (sees "*"))))
  function call .declaration async false

/-- A statement that begins with a decorator. -/
def decoratedStatement (single : Bool) : Parse Tree := do
  faultIf single
  let marks ← decorators call
  if ← sees "export" then
    -- Decorators stand on one side of the keyword only.
    faultIf (← nextIs (sees "@"))
    return .plain (marks ++ [← exportDeclaration call])
  let _ ← take "declare"
  let _ ← take "abstract"
  need "class"
  return .plain (marks ++ [← classTail call false])

/-- A statement that begins with the keyword `text`, if it is one. -/
def keywordStatement? (single : Bool) (text : String) : Parse (Option Tree) := do
  match text with
  | "if" =>
      advance
      let test ← condition call
      let yes ← call (.statement true)
      let no ← if ← take "else" then do pure [← call (.statement true)] else pure []
      return some (.plain (test :: yes :: no))
  | "for" => return some (← forStatement call)
  | "while" | "with" =>
      advance
      let test ← condition call
      return some (.plain [test, ← call (.statement true)])
  | "do" =>
      advance
      let body ← call (.statement true)
      need "while"
      let test ← condition call
      let _ ← take ";"
      return some (.plain [body, test])
  | "continue" | "break" =>
      advance
      if !(← canEndStatement) then
        let _ ← reference
      endStatement
      return some .blank
  | "return" =>
      faultIf !(← setting).inFunction
      advance
      let value ← if ← canEndStatement then pure [] else do pure [← fullExpression call]
      endStatement
      return some (.plain value)
  | "throw" =>
      advance
      faultIf (← afterNewline)
      let value ← fullExpression call
      endStatement
      return some value
  | "switch" =>
      advance
      let subject ← condition call
      need openBrace
      let cases ← Parse.many (do
        if ← sees closeBrace then return none else return some (← switchCase call))
      need closeBrace
      return some (.plain (subject :: cases))
  | "try" => return some (← tryStatement call)
  | "debugger" =>
      advance
      endStatement
      return some .blank
  | "var" =>
      advance
      let vs ← variableList call false
      endStatement
      return some vs
  | "const" =>
      if ← nextIs (sees "enum") then
        advance
        return some (← enumDeclaration call)
      advance
      let vs ← variableList call true
      endStatement
      faultIf single
      return some vs
  | "class" =>
      faultIf single
      advance
      return some (← classTail call false)
  | "function" => return some (← functionStatement call single)
  | "enum" => return some (← enumDeclaration call)
  | "export" => return some (← exportDeclaration call)
  | "import" =>
      if ← nextIs (seesAny [".", "("]) then return none
      return some (← importDeclaration)
  | _ => return none

/-- A statement that begins with a word that is a keyword only in some places, if it is one here. -/
def contextualStatement? (single : Bool) (text : String) : Parse (Option Tree) := do
  match text with
  | "let" => return some (← letStatement call single)
  | "async" =>
      if ← nextIs (seesInline "function") then return some (← functionStatement call single)
      else return none
  | "using" | "await" =>
      if ← seesAwaitUsing then
        faultIf !(← setting).async
        advance
      else if !(← seesUsing) then return none
      advance
      let vs ← variableList call true
      endStatement
      faultIf single
      return some vs
  | "interface" | "type" | "module" | "namespace" | "declare" | "private" | "protected" | "public"
  | "abstract" | "accessor" | "static" | "readonly" | "global" =>
      if ← seesDeclaration then return some (← typedDeclaration call) else return none
  | _ => return none

/-- The production of a statement. -/
def parseStatement (single : Bool) : Parse Tree := do
  match ← token with
  | .mark openBrace => call .block
  | .mark ";" =>
      advance
      return .blank
  | .mark "@" => decoratedStatement call single
  | .word text false =>
      if let some s ← keywordStatement? call single text then return s
      if let some s ← contextualStatement? call single text then return s
      expressionStatement call
  | _ => expressionStatement call

/-- The production of statements in braces. -/
def parseBlock : Parse Tree := do
  need openBrace
  let items ← Parse.many (do
    if ← sees closeBrace then return none else return some (← call (.statement false)))
  need closeBrace
  return .plain items

end StyleAudit.Script
