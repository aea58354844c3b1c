import StyleAudit.Markup.Doctype

/-! # Markup tokens

The tokens of a markup text: tags, characters and doctypes. Comments and processing instructions
leave no element, so they are passed over. What a `<` begins depends on the element that is open:
in some elements all is text up to the element's own end tag.

* **`Token`, `Attribute`** — tags, characters and doctypes.
* **`TextMode`** — how the text ahead is read.
* **`scanTag`** — the rest of a tag.
* **`nextToken`** — the token that a text begins with, and the mode that follows it. -/

namespace StyleAudit.Markup

/-- An attribute of a tag. -/
structure Attribute where
  key : String
  value : String
  deriving DecidableEq, Repr, Inhabited

/-- A tag, a character or a doctype. -/
inductive Token where
  | opening (name : String) (attributes : List Attribute) (selfClosing : Bool)
  | closing (name : String)
  | char (c : Char)
  | doctype (d : Doctype)
  /-- What leaves no element. -/
  | nothing
  /-- The end of the text. -/
  | done
  deriving DecidableEq, Repr, Inhabited

/-- A character that ends the name of a tag. -/
def endsName (c : Char) : Bool := isBlank c || c == '/' || c == '>'

/-! ## Tags -/

/-- Where the reader of a tag stands. -/
inductive TagState where
  | name
  | beforeKey
  | key
  | afterKey
  | beforeValue
  | quoted (quote : Char)
  | unquoted
  | afterQuoted
  | slash
  deriving DecidableEq

/-- The part of a tag that has been read; lists of characters are last one first. -/
structure TagSoFar where
  state : TagState
  name : List Char
  key : List Char
  value : List Char
  /-- Last one first. -/
  attributes : List Attribute
  selfClosing : Bool

namespace TagSoFar

/-- The text of reversed characters. -/
def textOf (cs : List Char) : String := String.ofList cs.reverse

/-- Completes the attribute that is being read, unless the tag has one with its key. -/
def finishAttribute (t : TagSoFar) : TagSoFar :=
  let key := textOf t.key
  let attributes :=
    if t.attributes.any (·.key == key) then t.attributes
    else ⟨key, String.ofList (decode t.value.reverse)⟩ :: t.attributes
  { t with key := [], value := [], attributes := attributes }

/-- Begins an attribute with the first character of its key. -/
def beginAttribute (t : TagSoFar) (c : Char) : TagSoFar :=
  { t with state := .key, key := [keepChar c.toLower], value := [] }

/-- Takes one character; none when it ends the tag. -/
def step (t : TagSoFar) (c : Char) : Option TagSoFar :=
  match t.state with
  | .name =>
      if c = '>' then none
      else if isBlank c then some { t with state := .beforeKey }
      else if c = '/' then some { t with state := .slash }
      else some { t with name := keepChar c.toLower :: t.name }
  | .beforeKey =>
      if c = '>' then none
      else if isBlank c then some t
      else if c = '/' then some { t with state := .slash }
      else some (t.beginAttribute c)
  | .key =>
      if c = '>' then none
      else if isBlank c then some { t with state := .afterKey }
      else if c = '/' then some { t.finishAttribute with state := .slash }
      else if c = '=' then some { t with state := .beforeValue }
      else some { t with key := keepChar c.toLower :: t.key }
  | .afterKey =>
      if c = '>' then none
      else if isBlank c then some t
      else if c = '/' then some { t.finishAttribute with state := .slash }
      else if c = '=' then some { t with state := .beforeValue }
      else some (t.finishAttribute.beginAttribute c)
  | .beforeValue =>
      if c = '>' then none
      else if isBlank c then some t
      else if c = '"' || c = '\'' then some { t with state := .quoted c }
      else some { t with state := .unquoted, value := [keepChar c] }
  | .quoted quote =>
      if c = quote then some { t.finishAttribute with state := .afterQuoted }
      else some { t with value := keepChar c :: t.value }
  | .unquoted =>
      if c = '>' then none
      else if isBlank c then some { t.finishAttribute with state := .beforeKey }
      else some { t with value := keepChar c :: t.value }
  | .afterQuoted =>
      if c = '>' then none
      else if isBlank c then some { t with state := .beforeKey }
      else if c = '/' then some { t with state := .slash }
      else some (t.beginAttribute c)
  | .slash =>
      if c = '>' then none
      else if isBlank c then some { t with state := .beforeKey }
      else if c = '/' then some t
      else some (t.beginAttribute c)

/-- The tag that a closing `>` completes. -/
def finish (t : TagSoFar) : TagSoFar :=
  match t.state with
  | .key | .afterKey | .beforeValue | .unquoted => t.finishAttribute
  | .slash => { t with selfClosing := true }
  | _ => t

end TagSoFar

/-- Reads the rest of a tag: the tag, or none if the text ends in it, and the number of characters. -/
def scanTag (t : TagSoFar) : List Char → Option TagSoFar × Nat
  | [] => (none, 0)
  | c :: cs =>
      match t.step c with
      | some u => let (r, k) := scanTag u cs; (r, k + 1)
      | none => (some t.finish, 1)

/-- A tag of which nothing has been read. -/
def TagSoFar.start : TagSoFar := ⟨.name, [], [], [], [], false⟩

/-- Reads a tag from the first character of its name on. -/
def scanOpening (cs : List Char) : Token × Nat :=
  match scanTag .start cs with
  | (some t, k) =>
      (.opening (TagSoFar.textOf t.name) t.attributes.reverse t.selfClosing, k)
  | (none, k) => (.nothing, k)

/-- Reads an end tag from the first character of its name on. -/
def scanClosing (cs : List Char) : Token × Nat :=
  match scanTag .start cs with
  | (some t, k) => (.closing (TagSoFar.textOf t.name), k)
  | (none, k) => (.nothing, k)

/-! ## Comments and declarations -/

/-- The number of characters through the next `>`. -/
def bogusSize : List Char → Nat
  | [] => 0
  | c :: cs => if c = '>' then 1 else bogusSize cs + 1

/-- Where the reader of a comment stands. -/
inductive CommentState where
  /-- After `<!--`. -/
  | start
  /-- After `<!---`. -/
  | startDash
  | inside
  /-- After one hyphen. -/
  | dash
  /-- After two or more hyphens. -/
  | dashes
  /-- After two hyphens and `!`. -/
  | bang
  deriving DecidableEq

/-- The number of characters of a comment after its `<!--`. -/
def commentSize : CommentState → List Char → Nat
  | _, [] => 0
  | s, c :: cs =>
      let closed := c = '>' ∧ s ≠ .inside ∧ s ≠ .dash
      if closed then 1
      else
        let next : CommentState :=
          if c = '-' then
            match s with
            | .start => .startDash
            | .startDash | .dash | .dashes => .dashes
            | .inside | .bang => .dash
          else if c = '!' ∧ s = .dashes then .bang
          else .inside
        commentSize next cs + 1

/-- The number of characters of a section of plain characters, through its `]]>`. -/
def sectionSize : List Char → Nat
  | ']' :: ']' :: '>' :: _ => 3
  | _ :: cs => sectionSize cs + 1
  | [] => 0

/-- Reads a doctype after its first word. -/
def scanDoctype (cs : List Char) : Token × Nat :=
  let written := cs.takeWhile (· != '>')
  if written.length < cs.length then (.doctype (.read written), written.length + 1)
  else (.nothing, cs.length)

/-- Reads what follows `<!`. Sections of plain characters exist only in `foreign` elements; of such
a section only its first visible character is kept. -/
def scanDeclaration (foreign : Bool) (cs : List Char) : Token × Nat :=
  match cs with
  | '-' :: '-' :: rest => (.nothing, 2 + commentSize .start rest)
  | _ =>
      match afterWord? "doctype" cs with
      | some rest => let (t, k) := scanDoctype rest; (t, k + 7)
      | none =>
          if foreign && "[CDATA[".toList.isPrefixOf cs then
            let size := sectionSize (cs.drop 7)
            let visible := ((cs.drop 7).take (size - 3)).find? (!isBlank ·)
            (visible.elim .nothing .char, 7 + size)
          else (.nothing, bogusSize cs)

/-! ## Texts -/

/-- How far a script is inside a comment of its own, in which end tags may not count. -/
inductive ScriptState where
  | plain
  /-- In a comment, after so many hyphens. -/
  | escaped (hyphens : Nat)
  /-- In a script element inside a comment, after so many hyphens. -/
  | doubled (hyphens : Nat)
  deriving DecidableEq, Repr

/-- How the text ahead is read. -/
inductive TextMode where
  /-- Tags are recognized. -/
  | data
  /-- All is text up to the end tag of the element `name`. -/
  | raw (name : String)
  /-- All is text up to the end tag of the script. -/
  | script (state : ScriptState)
  /-- All is text. -/
  | plain
  deriving DecidableEq, Repr, Inhabited

/-- Whether an end tag of the element `name` lies ahead, after its `<`. -/
def endTagAhead (name : String) : List Char → Bool
  | '/' :: cs =>
      let n := name.toList
      (cs.take n.length).map Char.toLower == n && (cs.drop n.length).head?.any endsName
  | _ => false

/-- Reads what a `<` in ordinary text begins. -/
def scanMarkup (foreign : Bool) : List Char → Token × Nat
  | [] => (.char '<', 0)
  | c :: cs =>
      if c = '!' then let (t, k) := scanDeclaration foreign cs; (t, k + 1)
      else if c = '?' then (.nothing, 1 + bogusSize cs)
      else if c = '/' then
        match cs with
        | [] => (.char '<', 0)
        | d :: _ =>
            if d.isAlpha then let (t, k) := scanClosing cs; (t, k + 1)
            else (.nothing, 1 + bogusSize cs)
      else if c.isAlpha then scanOpening (c :: cs)
      else (.char '<', 0)

/-- Reads the letters after a `<` in a script's comment: whether they are `script` and a character
that ends a name follows, and the number of characters if so. -/
def scriptWord (cs : List Char) : Option (Bool × Nat) :=
  let letters := cs.takeWhile Char.isAlpha
  if letters.isEmpty then none
  else if (cs.drop letters.length).head?.any endsName then
    some (letters.map Char.toLower == "script".toList, letters.length + 1)
  else none

/-- One step through the text of a script after the character `c`: what follows, and how many
characters of `cs` are passed. -/
def scriptStep (state : ScriptState) (c : Char) (cs : List Char) : ScriptState × Nat :=
  match state with
  | .plain =>
      if c = '<' && "!--".toList.isPrefixOf cs then (.escaped 2, 3) else (.plain, 0)
  | .escaped hyphens =>
      if c = '-' then (.escaped (hyphens + 1), 0)
      else if c = '>' && 2 ≤ hyphens then (.plain, 0)
      else if c = '<' then
        match scriptWord cs with
        | some (isScript, n) => (if isScript then .doubled 0 else .escaped 0, n)
        | none => (.escaped 0, 0)
      else (.escaped 0, 0)
  | .doubled hyphens =>
      if c = '-' then (.doubled (hyphens + 1), 0)
      else if c = '>' && 2 ≤ hyphens then (.plain, 0)
      else if c = '<' && cs.head? == some '/' then
        match scriptWord (cs.drop 1) with
        | some (isScript, n) => (if isScript then .escaped 0 else .doubled 0, n + 1)
        | none => (.doubled 0, 1)
      else (.doubled 0, 0)

/-- The token that begins with `c` when `cs` follows, how many characters of `cs` it takes, and how
the text after it is read. Characters of raw text are of no interest and pass as nothing. -/
def nextToken (mode : TextMode) (foreign : Bool) (c : Char) (cs : List Char) :
    Token × Nat × TextMode :=
  match mode with
  | .plain => (.nothing, 0, .plain)
  | .raw name =>
      if c = '<' && endTagAhead name cs then
        let (t, k) := scanClosing (cs.drop 1)
        (t, k + 1, .data)
      else (.nothing, 0, mode)
  | .script state =>
      let doubled := match state with
        | .doubled _ => true
        | _ => false
      if c = '<' && !doubled && endTagAhead "script" cs then
        let (t, k) := scanClosing (cs.drop 1)
        (t, k + 1, .data)
      else
        let (next, k) := scriptStep state c cs
        (.nothing, k, .script next)
  | .data =>
      if c = '<' then
        let (t, k) := scanMarkup foreign cs
        (t, k, .data)
      else if c = '&' then
        match scanReference false cs with
        | some (value, k) => (.char (value.headD '&'), k, .data)
        | none => (.char '&', 0, .data)
      else (.char c, 0, .data)

end StyleAudit.Markup
