import StyleAudit.Script.Grammar.Type
import StyleAudit.Script.Token.Spelling

/-! # Elements

Elements written in a script: tags with attributes, and text, expressions and further elements
between them. Text is not made of tokens, so the parser reads it from the characters after the
current token and only then goes on with tokens.

* **`parseElement`** — the production of an element. -/

namespace StyleAudit.Script

variable (call : Grammar)

/-! ## Names -/

/-- What hyphens add to a name. -/
def hyphenTail (cs : List Char) : List Char :=
  if cs.head? = some '-' then cs.takeWhile fun d => Text.isIdentifierPart d || d == '-' else []

/-- No blank is in what hyphens add to a name. -/
theorem isBlank_of_mem_hyphenTail {cs : List Char} {c : Char} (h : c ∈ hyphenTail cs) :
    Text.isBlank c = false := by
  unfold hyphenTail at h
  split at h
  · have hcontinues := List.all_eq_true.1 List.all_takeWhile _ h
    rw [Bool.or_eq_true] at hcontinues
    rcases hcontinues with hpart | hhyphen
    · exact Text.isBlank_eq_false_of_isIdentifierPart hpart
    · rw [beq_iff_eq.1 hhyphen]
      decide
  · cases h

/-- A text without blanks. -/
structure Unbroken where
  text : String
  isBlank_of_mem : ∀ c ∈ text.toList, Text.isBlank c = false

/-- The name whose first word begins at `here` and ends at `after`, as it is written. -/
def Unbroken.ofName (here after : List Char) : Unbroken where
  text := String.ofList (spelledWord here ++ hyphenTail after)
  isBlank_of_mem c hc := by
    rw [String.toList_ofList] at hc
    rcases List.mem_append.1 hc with hc | hc
    · exact isBlank_of_mem_spelledWord c hc
    · exact isBlank_of_mem_hyphenTail hc

/-- A name with hyphens in it. -/
def elementWord : Parse Unbroken := do
  match ← token with
  | .word _ _ =>
      let c ← get
      set (c.moveTo (c.after.drop (hyphenTail c.after).length))
      return .ofName c.here c.after
  | _ => failure

/-- Whether a plain name is a tag rather than a reference to a component. -/
def isTagName (name : String) : Bool :=
  name != "this" && (name.toList.head?.any Char.isLower || name.toList.contains '-')

/-- A tag is a name. -/
theorem Unbroken.isName_of_isTagName {word : Unbroken} (h : isTagName word.text = true) :
    Text.isName word.text.toList = true := by
  have hblank : word.text.toList.any Text.isBlank = false :=
    List.any_eq_false.2 fun c hc => by simp [word.isBlank_of_mem c hc]
  have hempty : word.text.toList ≠ [] := by
    intro hnil
    rw [isTagName, hnil] at h
    simp at h
  simp [Text.isName, hblank, hempty]

/-- The tag that a plain name is. -/
def Unbroken.tag? (word : Unbroken) : Option TagName :=
  if h : isTagName word.text = true then some ⟨word.text, isName_of_isTagName h⟩ else none

/-- The name of an element: how it is written, and the tag that it names unless it refers to
a component. -/
structure ElementName where
  text : String
  tag : Option TagName

/-- The name of an element: a plain name, a name with a namespace, or a member access. -/
def elementName : Parse ElementName := do
  let first ← elementWord
  if ← take ":" then
    let second ← elementWord
    return ⟨first.text ++ ":" ++ second.text, none⟩
  else if ← sees "." then
    let parts ← Parse.many (do
      if ← take "." then return some (← elementWord) else return none)
    let texts := (first :: parts).map (·.text)
    faultIf (texts.any (·.toList.contains '-'))
    return ⟨".".intercalate texts, none⟩
  else return ⟨first.text, first.tag?⟩

/-! ## Attributes and contents -/

/-- The characters of a string up to its quote, and what follows. Nothing is escaped in it. -/
def scanRaw (quote : Char) : List Char → Option (List Char × List Char)
  | [] => none
  | c :: cs => if c = quote then some ([], cs)
      else (scanRaw quote cs).map fun (v, r) => (c :: v, r)

/-- An expression between braces, from the opening brace on; the cursor stays at the closing
one. -/
def bracedExpression : Parse Tree := do
  let e ← within (fun s => { s with allowIn := true, decorating := false }) (expression call)
  if e.label == .sequence then failure
  if !(← sees closeBrace) then failure
  return e

/-- The value of an attribute after its `=`, which is the current token. -/
def attributeValue (key : String) : Parse Tree := do
  let c ← get
  match skipTrivia .gap false c.after with
  | some (_, quote :: cs) =>
      if quote = '"' || quote = '\'' then
        match scanRaw quote cs with
        | some (value, rest) =>
            set (c.moveTo rest)
            return .leaf (.attribute key (String.ofList value))
        | none => failure
      else
        advance
        if ← take openBrace then
          faultIf (← sees closeBrace)
          let e ← bracedExpression call
          advance
          return .plain [e]
        else if ← sees "<" then
          let e ← call .element
          advance
          return .plain [e]
        else failure
  | _ => failure

/-- An attribute, or properties spread into the element. -/
def elementAttribute : Parse Tree := do
  if ← take openBrace then
    need "..."
    let e ← assignment call
    need closeBrace
    return .node .spread [e]
  else
    let first ← elementWord
    let key ← if ← take ":" then do pure (first.text ++ ":" ++ (← elementWord).text)
      else pure first.text
    if ← sees "=" then attributeValue call key else return .blank

/-- What stands between two tags, up to the `<` of the closing one, at which the cursor stays. -/
def elementChildren : Parse (List Tree) := Parse.many do
  let c ← get
  let text := c.after.takeWhile fun d => d != '{' && d != '<'
  if text.any fun d => d == '>' || d == '}' then failure
  let rest := c.after.drop text.length
  match rest with
  | '{' :: inside =>
      set (c.moveTo inside)
      if ← sees closeBrace then return some .blank
      let spread ← take "..."
      let e ← bracedExpression call
      return some (if spread then .node .spread [e] else .plain [e])
  | '<' :: _ =>
      set (c.moveTo rest)
      if ← nextIs (sees "/") then return none
      return some (← call .element)
  | _ => failure

/-- The production of an element: an element or a fragment. The cursor stays at the last `>`. -/
def parseElement : Parse Tree := do
  need "<"
  if ← sees ">" then
    let children ← elementChildren call
    advance
    need "/"
    if ← sees ">" then return .plain children else failure
  else
    let name ← elementName
    let types ← typeArguments? call
    let attributes ← Parse.many (do
      if (← sees "/") || (← sees ">") then return none
      return some (← elementAttribute call))
    let opening := Tree.node (.element name.tag) (types ++ attributes)
    if ← take "/" then
      if ← sees ">" then return opening else failure
    else
      let children ← elementChildren call
      advance
      need "/"
      let closing ← elementName
      faultIf (closing.text != name.text)
      if ← sees ">" then return .plain (opening :: children) else failure

end StyleAudit.Script
