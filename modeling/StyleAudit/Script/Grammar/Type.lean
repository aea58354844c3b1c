import StyleAudit.Script.Grammar.Parameter

/-! # Types

The grammar of type annotations. Types declare nothing that usage is read from, but expressions may
stand in them as computed keys, so they are parsed into trees like everything else.

* **`typeParameters?`, `typeArguments`** — lists in angle brackets.
* **`returnType?`** — the type after a parameter list.
* **`parseType`, `parseTypeOperand`** — the productions of the two goals.
* **`memberList`** — the members of an interface or an object type. -/

namespace StyleAudit.Script

variable (call : Grammar)

/-- Passes `<`, also as the first character of `<<`. -/
def takeAngle : Parse Bool := do
  if ← take "<" then return true
  else if ← sees "<<" then
    modify fun c => c.moveTo (c.here.drop 1)
    return true
  else return false

/-! ## Lists in angle brackets -/

/-- The type arguments in angle brackets. An empty list is a fault. -/
def typeArguments : Parse Tree := do
  if !(← takeAngle) then failure
  let (items, _) ← within (fun s => { s with plainTypes := false }) (commaList ">" (call .type))
  faultIf items.isEmpty
  need ">"
  return .plain items

/-- Type arguments, if they follow on the same line. -/
def typeArguments? : Parse (List Tree) := do
  if ((← sees "<") || (← sees "<<")) && !(← afterNewline) then return [← typeArguments call]
  else return []

/-- The modifiers of a type parameter. -/
def skipVariance : Parse (List Unit) := Parse.many do
  if (← seesAny ["const", "in", "out"]) && (← nextIs do
      return (← seesVariable) || (← sees "in") || (← sees "const")) then
    if (← sees "out") && (← nextIs (seesAny ["extends"])) then return none
    advance
    return some ()
  else return none

/-- A type parameter: modifiers, a name, a bound, a default. -/
def typeParameter : Parse Tree := do
  let _ ← skipVariance
  let name ← bindingName
  let bound ← if ← take "extends" then do pure [← call .type] else pure []
  let value ← if ← take "=" then do pure [← call .type] else pure []
  return .plain (name :: bound ++ value)

/-- Type parameters in angle brackets, if they follow. An empty list is a fault. -/
def typeParameters? : Parse (List Tree) := do
  if ← take "<" then
    let (items, _) ← within (fun s => { s with plainTypes := false })
      (commaList ">" (typeParameter call))
    faultIf items.isEmpty
    need ">"
    return items
  else return []

/-! ## Return types -/

/-- A type, or a predicate `name is T`. -/
def typeOrPredicate : Parse Tree := do
  if (← seesVariable) && (← nextIs (seesInline "is")) then
    advance
    advance
    call .type
  else call .type

/-- The type after a parameter list and `mark`, if it follows. -/
def returnType? (mark : String) : Parse (List Tree) := do
  if ← take mark then return [← typeOrPredicate call] else return []

/-! ## Members -/

/-- The parameters and return type of a signature. -/
def signature : Parse Tree := do
  let bounds ← typeParameters? call
  let params ← parameters call false
  let result ← returnType? call ":"
  return .plain (bounds ++ params :: result)

/-- Whether `[` begins an index signature: a name with a type follows it. -/
def seesIndexSignature : Parse Bool := do
  if !(← sees "[") then return false
  nextIs do
    if !(← seesVariable) then return false
    advance
    if ← seesAny [":", ","] then return true
    if ← take "?" then seesAny [":", ",", "]"] else return false

/-- An index signature: a parameter in brackets, and a type. -/
def indexSignature : Parse Tree := do
  need "["
  let _ ← bindingName
  let keys ← annotation? call
  faultIf keys.isEmpty
  need "]"
  let values ← annotation? call
  return .plain (keys ++ values)

/-- Passes what ends a member: a comma, a semicolon, or the end of the line. -/
def endMember : Parse Unit := do
  if (← take ",") || (← take ";") then return
  else if ← canEndStatement then return
  else failure

/-- Whether the current token can follow a modifier. -/
def canFollowModifier : Parse Bool := do
  return (← seesKey) || (← sees openBrace) || (← sees "*") || (← sees "...")

/-- A member of an interface or an object type. -/
def member : Parse Tree := do
  if (← sees "(") || (← sees "<") then
    let s ← signature call
    endMember
    return s
  if (← sees "new") && (← nextIs (seesAny ["(", "<"])) then
    advance
    let s ← signature call
    endMember
    return s
  let _ ← Parse.many (do
    if (← seesAny ["readonly", "public", "private", "protected", "static", "declare", "abstract",
          "override", "accessor"]) &&
        (← nextIs do return !(← afterNewline) && (← canFollowModifier)) then
      faultIf !(← sees "readonly")
      advance
      return some ()
    else return none)
  if ← seesIndexSignature then
    let s ← indexSignature call
    endMember
    return s
  if (← seesAny ["get", "set"]) && (← nextIs seesKey) then
    advance
    let key ← propertyKey call
    let s ← signature call
    endMember
    return .plain [key.tree, s]
  let key ← propertyKey call
  if key.isPrivate then failure
  let _ ← take "?"
  let rest ← if (← sees "(") || (← sees "<") then do pure [← signature call]
    else annotation? call
  endMember
  return .plain (key.tree :: rest)

/-- The members between braces. -/
def memberList : Parse Tree := do
  need openBrace
  let items ← within (fun s => { s with plainTypes := false }) (Parse.many (do
    if ← sees closeBrace then return none else return some (← member call)))
  need closeBrace
  return .plain items

/-! ## Object, tuple and template types -/

/-- Whether `{` begins a mapped type. -/
def seesMappedType : Parse Bool := ahead do
  need openBrace
  if (← take "+") || (← take "-") then sees "readonly"
  else
    let _ ← take "readonly"
    need "["
    if !(← seesVariable) then return false
    advance
    sees "in"

/-- Passes `mark` with an optional `+` or `-` before it. -/
def skipSigned (mark : String) : Parse Unit := do
  if (← take "+") || (← take "-") then need mark
  else
    let _ ← take mark
    return

/-- A mapped type. -/
def mappedType : Parse Tree := do
  need openBrace
  skipSigned "readonly"
  need "["
  let _ ← bindingName
  need "in"
  let source ← call .type
  let renamed ← if ← take "as" then do pure [← call .type] else pure []
  need "]"
  skipSigned "?"
  let value ← annotation? call
  let _ ← (do if (← take ";") || (← take ",") then return () else return ())
  need closeBrace
  return .plain (source :: renamed ++ value)

/-- An element of a tuple type, with an optional name. -/
def tupleElement : Parse Tree := do
  let _ ← take "..."
  let named ← (do
    if !(← seesWord) then return false
    nextIs do
      if ← sees ":" then return true
      if ← take "?" then sees ":" else return false)
  if named then
    advance
    let _ ← take "?"
    need ":"
  let t ← call .type
  let _ ← take "?"
  return t

/-! ## Function types -/

/-- Passes the beginning of a parameter, if one begins here. -/
def skipParameterStart : Parse Bool := do
  let _ ← skipParameterModifiers
  if (← seesVariable) || (← sees "this") then
    advance
    return true
  else if (← sees "[") || (← sees openBrace) then
    match ← attempt (call .binding) with
    | some _ => return (← get).sound
    | none => return false
  else return false

/-- Whether `(` begins the parameters of a function type rather than a type in parentheses. -/
def seesFunctionType : Parse Bool := do
  if ← sees "<" then return true
  if ← sees "new" then return true
  if (← sees "abstract") && (← nextIs (sees "new")) then return true
  if !(← sees "(") then return false
  ahead do
    advance
    if ← seesAny [")", "..."] then return true
    if ← skipParameterStart call then
      if ← seesAny [":", ",", "?", "="] then return true
      if ← take ")" then sees "=>" else return false
    else return false

/-- A function or constructor type. -/
def functionType : Parse Tree := do
  let _ ← take "abstract"
  let _ ← take "new"
  let bounds ← typeParameters? call
  let params ← parameters call false
  need "=>"
  let result ← typeOrPredicate call
  return .plain (bounds ++ [params, result])

/-! ## Types -/

/-- Names joined by points. -/
def entityName : Parse Unit := do
  let _ ← anyName
  let _ ← Parse.many (do
    if ← take "." then
      let _ ← anyName
      return some ()
    else return none)

/-- The type names that take no arguments. -/
def basicTypes : List String :=
  ["any", "unknown", "string", "number", "bigint", "symbol", "boolean", "undefined", "never", "object",
    "null", "true", "false", "void"]

/-- `import("module").Name<…>`. -/
def importType : Parse Tree := do
  need "import"
  need "("
  let source ← call .type
  let options ← if ← take "," then
      (do if ← sees ")" then pure [] else pure [← assignment call])
    else pure []
  let _ ← take ","
  need ")"
  if ← take "." then entityName
  let args ← typeArguments? call
  return .plain (source :: options ++ args)

/-- Whether the current token can begin a type. -/
def seesType : Parse Bool := do
  match ← token with
  | .word text _ =>
      return !reservedWords.contains text ||
        ["null", "true", "false", "void", "this", "typeof", "new", "import"].contains text
  | .string _ | .number | .template _ _ => return true
  | .mark m => return [openBrace, "[", "(", "<", "|", "&", "-", "..."].contains m
  | _ => return false

/-- A type without postfix. -/
def simpleType : Parse Tree := do
  match ← token with
  | .string _ | .number =>
      advance
      return .blank
  | .template _ _ => return .plain (← templateParts true (call .type))
  | .mark "-" =>
      advance
      if (← token) == .number then
        advance
        return .blank
      else failure
  | .mark openBrace => if ← seesMappedType then mappedType call else memberList call
  | .mark "[" =>
      advance
      return .plain (← within (fun s => { s with plainTypes := false })
        (commaListTo "]" (tupleElement call)))
  | .mark "(" =>
      advance
      let t ← within (fun s => { s with plainTypes := false }) (call .type)
      need ")"
      return t
  | .word text _ =>
      if text == "import" then importType call
      else if text == "typeof" then
        advance
        if ← sees "import" then importType call
        else
          entityName
          return .plain (← typeArguments? call)
      else if text == "this" then
        advance
        if ← seesInline "is" then
          advance
          call .type
        else return .blank
      else if text == "asserts" && (← nextIs do
          return !(← afterNewline) && ((← seesVariable) || (← sees "this"))) then
        advance
        advance
        if ← take "is" then call .type else return .blank
      else if basicTypes.contains text && !(← nextIs (sees ".")) then
        advance
        return .blank
      else if reservedWords.contains text then failure
      else
        entityName
        return .plain (← typeArguments? call)
  | _ => failure

/-- A type followed by any number of `[]`, `[key]`, `!` and `?`. -/
def postfixType : Parse Tree := do
  let t ← simpleType call
  Parse.fold (fun (t : Tree) => do
    if ← afterNewline then return none
    else if ← sees "!" then
      advance
      return some t
    else if ← sees "?" then
      if ← nextIs seesType then return none
      advance
      return some t
    else if ← take "[" then
      if ← take "]" then return some t
      let key ← within (fun s => { s with plainTypes := false }) (call .type)
      need "]"
      return some (.plain [t, key])
    else return none) t

/-- The bound of an inferred type variable, unless it belongs to a conditional type. -/
def inferBound? : Parse (List Tree) := do
  if !(← sees "extends") then return []
  let found ← attempt (do
    advance
    let bound ← within (fun s => { s with plainTypes := true }) (call .type)
    if (← setting).plainTypes || !(← sees "?") then return bound else failure)
  return found.toList

/-- The production of a type operand. -/
def parseTypeOperand : Parse Tree := do
  if ← seesAny ["keyof", "unique", "readonly"] then
    advance
    call .typeOperand
  else if ← sees "infer" then
    advance
    let _ ← bindingName
    return .plain (← inferBound? call)
  else within (fun s => { s with plainTypes := false }) (postfixType call)

/-- Operands joined by `mark`, which may also precede the first one. -/
def joined (mark : String) (operand : Parse Tree) : Parse Tree := do
  let _ ← take mark
  let first ← operand
  let rest ← Parse.many (do
    if ← take mark then return some (← operand) else return none)
  return .plain (first :: rest)

/-- The production of a type. -/
def parseType : Parse Tree := do
  if ← seesFunctionType call then functionType call
  else
    let t ← joined "|" (joined "&" (call .typeOperand))
    if !(← setting).plainTypes && (← seesInline "extends") then
      advance
      let bound ← within (fun s => { s with plainTypes := true }) (call .type)
      need "?"
      let yes ← within (fun s => { s with plainTypes := false }) (call .type)
      need ":"
      let no ← within (fun s => { s with plainTypes := false }) (call .type)
      return .plain [t, bound, yes, no]
    else return t

end StyleAudit.Script
