import StyleAudit.Script.Grammar.Class

/-! # Declarations

Variables, enumerations, interfaces, type aliases and namespaces.

* **`declarators`, `variableList`** — the declarations after `var`, `let`, `const` or `using`.
* **`seesDeclaration`** — a declaration with modifiers begins here.
* **`typedDeclaration`** — the declarations that only concern types, and those with modifiers. -/

namespace StyleAudit.Script

variable (call : Grammar)

/-! ## Variables -/

/-- One declared variable or pattern, and whether it lacks the value that a constant and a pattern
need. -/
def declarator (constant : Bool) : Parse (Tree × Bool) := do
  let target ← call .binding
  if target.label != .pattern && (← sees "!") && !(← afterNewline) then advance
  let types ← annotation? call
  let value ← if ← take "=" then do pure [← call (.assignment true)] else pure []
  let bare := value.isEmpty && !(← setting).ambient
  return (.plain (target :: types ++ value), bare && (constant || target.label == .pattern))

/-- The variables declared after their keyword, and whether one of them lacks a value. -/
def declarators (constant : Bool) : Parse (Tree × Bool) := do
  let items ← commaRun (declarator call constant)
  return (.plain (items.map Prod.fst), items.any Prod.snd)

/-- The variables declared by a statement, after their keyword. A value that lacks is a fault. -/
def variableList (constant : Bool) : Parse Tree := do
  let (vs, lacking) ← declarators call constant
  faultIf lacking
  return vs

/-- Whether `using` begins a declaration. -/
def seesUsing : Parse Bool := do
  return (← sees "using") && (← nextIs do return (← seesVariable) && !(← afterNewline))

/-- Whether `await using` begins a declaration. -/
def seesAwaitUsing : Parse Bool := do
  return (← sees "await") && (← nextIs do return !(← afterNewline) && (← seesUsing))

/-- Whether `let` begins a declaration in the head of a loop. -/
def seesLetBinding : Parse Bool := do
  return (← sees "let") &&
    (← nextIs do return (← sees "[") || (← sees openBrace) || (← seesVariable))

/-! ## Enumerations -/

/-- A member of an enumeration. -/
def enumMember : Parse Tree := do
  match ← token with
  | .word _ _ | .string _ => advance
  | _ =>
      need "["
      match ← token with
      | .string _ | .template true true => advance
      | _ => failure
      need "]"
  return .plain (← initializer? call)

/-- An enumeration. -/
def enumDeclaration : Parse Tree := do
  need "enum"
  let _ ← bindingName
  need openBrace
  return .plain (← commaListTo closeBrace (enumMember call))

/-! ## Interfaces, aliases and namespaces -/

/-- An interface. -/
def interfaceDeclaration : Parse Tree := do
  need "interface"
  let _ ← bindingName
  let bounds ← typeParameters? call
  let parents ← if ← take "extends" then commaRun (interfaceName call) else pure []
  faultIf (← sees "implements")
  return .plain (bounds ++ parents ++ [← memberList call])

/-- A type alias. -/
def aliasDeclaration : Parse Tree := do
  need "type"
  let _ ← bindingName
  let bounds ← typeParameters? call
  need "="
  let t ← call .type
  endStatement
  return .plain (bounds ++ [t])

/-- A namespace, by a name with points or by a string. -/
def namespaceDeclaration : Parse Tree := do
  advance
  match ← token with
  | .string _ =>
      advance
      if ← sees openBrace then call .block
      else
        endStatement
        return .blank
  | _ =>
      let _ ← bindingName
      let _ ← Parse.many (do
        if ← take "." then
          let _ ← anyName
          return some ()
        else return none)
      call .block

/-! ## Modifiers -/

/-- Whether the word `text` begins a declaration at the current place: some words are names unless
another name follows on their line. -/
def judgeDeclarationWord (text : String) : Parse (Option Bool) := do
  match text with
  | "var" | "let" | "const" | "function" | "class" | "enum" => return some true
  | "interface" | "type" =>
      advance
      return some ((← seesVariable) && !(← afterNewline))
  | "module" | "namespace" =>
      advance
      let named := match ← token with
        | .string _ => true
        | t => t.isVariable
      return some (named && !(← afterNewline))
  | "abstract" | "accessor" | "async" | "declare" | "private" | "protected" | "public" | "readonly" =>
      advance
      return if ← afterNewline then some false else none
  | "global" =>
      advance
      return some ((← sees openBrace) || (← seesVariable) || (← sees "export"))
  | "import" =>
      advance
      let quoted := match ← token with
        | .string _ => true
        | _ => false
      return some (quoted || (← sees "*") || (← sees openBrace) || (← seesWord))
  | "export" =>
      advance
      return some (← seesAny ["=", "*", "default", openBrace, "@", "as", "type"])
  | "static" =>
      advance
      return none
  | _ => return some false

/-- Whether a declaration, possibly with modifiers, begins here. -/
def seesDeclaration : Parse Bool := ahead do
  let _ ← Parse.many (do
    match (← token).text? with
    | some text =>
        match ← judgeDeclarationWord text with
        | some true => return none
        | some false => failure
        | none => return some ()
    | none => failure)
  return true

/-- Passes the modifiers of a declaration: whether `declare` is among them. Modifiers that no
declaration has are faults. -/
def declarationModifiers : Parse (List String) := Parse.many do
  match (← token).text? with
  | some text =>
      if ["declare", "abstract", "async", "public", "private", "protected", "readonly", "accessor",
            "static"].contains text && (← nextIs do
              return (← seesWord) && (!(← afterNewline) || text == "static")) then
        faultIf (!(["declare", "abstract", "async"].contains text))
        advance
        return some text
      else return none
  | none => return none

/-- A declaration from its keyword on. -/
def plainDeclaration (modifiers : List String) : Parse Tree := do
  let async := modifiers.contains "async"
  let abstracted := modifiers.contains "abstract"
  match (← token).text? with
  | some "class" =>
      faultIf async
      advance
      classTail call false
  | some "function" =>
      faultIf abstracted
      function call .declaration async false
  | some text =>
      faultIf (async || abstracted)
      match text with
      | "interface" => interfaceDeclaration call
      | "type" => aliasDeclaration call
      | "namespace" | "module" => namespaceDeclaration call
      | "global" =>
          advance
          call .block
      | "enum" => enumDeclaration call
      | "var" | "let" | "const" =>
          advance
          if text == "const" && (← sees "enum") then enumDeclaration call
          else
            let vs ← variableList call (text == "const")
            endStatement
            return vs
      | "import" => call (.statement false)
      | _ => failure
  | none => failure

/-- A declaration with its modifiers. -/
def typedDeclaration : Parse Tree := do
  let modifiers ← declarationModifiers
  faultIf !(decide modifiers.Nodup)
  let ambient := modifiers.contains "declare"
  within (fun s => { s with ambient := s.ambient || ambient }) (plainDeclaration call modifiers)

end StyleAudit.Script
