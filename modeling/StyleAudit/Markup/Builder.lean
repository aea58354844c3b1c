import StyleAudit.Markup.Category

/-! # Building a document

The state in which a document stands while its tags are read, and the steps that all rules are made
of. The innermost open element and the latest formatting element stand first in their lists.

* **`Mode`** — which rules hold.
* **`Builder`** — the document so far, the open elements and the formatting elements.
* **`insert`, `pop`, `popThrough`, `endImplied`, …** — steps.
* **`Builder.resetMode`** — the rules that the open elements ask for. -/

namespace StyleAudit.Markup

/-- Which rules hold for the next tag. -/
inductive Mode where
  /-- Before everything else. -/
  | initial
  | beforeRoot
  | beforeHead
  | inHead
  | afterHead
  | inBody
  /-- In an element that holds only text. -/
  | inText
  | inTable
  | inCaption
  | inColumns
  | inTableBody
  | inRow
  | inCell
  | inSelect
  | inSelectInTable
  | inTemplate
  | afterBody
  | inFrameset
  | afterFrameset
  | afterRoot
  | afterFramesetRoot
  deriving DecidableEq, Repr, Inhabited

/-- A start tag. -/
structure Tag where
  name : String
  attributes : List Attribute
  selfClosing : Bool := false
  deriving DecidableEq, Repr, Inhabited

/-- The value of an attribute of a tag. -/
def Tag.attribute? (t : Tag) (key : String) : Option String :=
  (t.attributes.find? (·.key == key)).map (·.value)

/-- An open element. -/
structure OpenElement where
  id : Nat
  kind : Kind
  /-- The node that the elements in it become children of: the contents of a template stand apart
  from the document. -/
  inside : Nat
  /-- An annotation of a formula that holds ordinary elements. -/
  annotation : Bool
  deriving Repr, Inhabited

/-- An entry in the list of formatting elements. -/
inductive Formatting where
  /-- The start of a cell, caption, template or embedded object, which formatting does not cross. -/
  | marker
  | element (id : Nat) (tag : Tag)
  deriving Repr, Inhabited

/-- Whether a formatting entry is for the given element. -/
def Formatting.isFor (id : Nat) : Formatting → Bool
  | element i _ => i == id
  | marker => false

/-- A document under construction. -/
structure Builder where
  dom : Dom
  /-- Whether the document is read with quirks. -/
  quirks : Bool
  mode : Mode
  /-- How the text ahead is read. -/
  reading : TextMode
  /-- The rules that hold after an element that holds only text. -/
  resume : Mode
  /-- The open elements, innermost first. -/
  stack : List OpenElement
  /-- The formatting elements, latest first. -/
  formatting : List Formatting
  head : Option Nat
  form : Option Nat
  /-- Whether a frameset may still replace the body. -/
  framesetOk : Bool
  /-- Whether elements that would enter a table are put before it. -/
  fostering : Bool
  /-- The rules of the open templates, innermost first. -/
  templates : List Mode
  deriving Repr, Inhabited

namespace Builder

/-- The state before the first tag. -/
def start : Builder :=
  ⟨.empty, false, .initial, .data, .inBody, [], [], none, none, true, false, []⟩

/-- Changes the rules. -/
def enter (b : Builder) (m : Mode) : Builder := { b with mode := m }

/-- Records that a frameset can no longer replace the body. -/
def noFrameset (b : Builder) : Builder := { b with framesetOk := false }

/-! ## Questions -/

/-- What the innermost open element is. -/
def current (b : Builder) : Kind := (b.stack.head?.map (·.kind)).getD (.html "")

/-- Whether the innermost open element is ordinary and has the given name. -/
def isIn (b : Builder) (name : String) : Bool := b.current.isNamed name

/-- Whether an ordinary element of the given name is open. -/
def hasOpen (b : Builder) (name : String) : Bool := b.stack.any (·.kind.isNamed name)

/-- Whether an open element that satisfies `p` is found before a search stops. -/
def inScopeBy (s : Scope) (p : OpenElement → Bool) : List OpenElement → Bool
  | [] => false
  | e :: es => p e || (!s.stopsAt e.kind && inScopeBy s p es)

/-- Whether an ordinary element of the given name is found before a search stops. -/
def inScope (b : Builder) (s : Scope) (name : String) : Bool :=
  inScopeBy s (·.kind.isNamed name) b.stack

/-- The body, if it is open where it should be. -/
def body? (b : Builder) : Option Nat :=
  match b.stack.reverse with
  | _ :: e :: _ => if e.kind.isNamed "body" then some e.id else none
  | _ => none

/-- Whether the text ahead stands in a foreign element. -/
def inForeign (b : Builder) : Bool := !b.stack.isEmpty && b.current.vocabulary != .html

/-! ## Closing elements -/

/-- Closes the innermost open element. -/
def pop (b : Builder) : Builder := { b with stack := b.stack.tail }

/-- Closes elements up to and with the first that satisfies `p`. -/
def popThrough (b : Builder) (p : Kind → Bool) : Builder :=
  { b with stack := (b.stack.dropWhile (!p ·.kind)).tail }

/-- Closes elements up to and with the innermost one of the given name. -/
def popNamed (b : Builder) (name : String) : Builder := b.popThrough (·.isNamed name)

/-- Closes elements up to the first that satisfies `p`, which stays open. -/
def popTo (b : Builder) (p : Kind → Bool) : Builder :=
  { b with stack := b.stack.dropWhile (!p ·.kind) }

/-- Closes the elements whose end tag was left out, but none of the given name. -/
def endImplied (b : Builder) (except : String) : Builder :=
  { b with stack := b.stack.dropWhile fun e =>
      e.kind.endIsImplied && !e.kind.isNamed except }

/-- Closes an element, and what was left open in it. -/
def close (b : Builder) (name : String) : Builder := (b.endImplied name).popNamed name

/-- Closes a paragraph that no button, cell or the like separates from here. -/
def closeParagraph (b : Builder) : Builder := if b.inScope .button "p" then b.close "p" else b

/-- Takes an element out of the open ones. -/
def forget (b : Builder) (id : Nat) : Builder :=
  { b with stack := b.stack.eraseP (·.id == id) }

/-- Drops the formatting elements since the last marker, and the marker. -/
def clearFormatting (b : Builder) : Builder :=
  let isMarker : Formatting → Bool
    | .marker => true
    | .element _ _ => false
  { b with formatting := (b.formatting.dropWhile (!isMarker ·)).tail }

/-- Puts a marker in front of later formatting elements. -/
def mark (b : Builder) : Builder := { b with formatting := .marker :: b.formatting }

/-! ## Inserting elements -/

/-- A place for a node. -/
inductive Place where
  | lastIn (parent : Nat)
  | before (parent sibling : Nat)

/-- The place before the innermost open table, or at the end of a template in it. -/
def fosterPlace (b : Builder) : List OpenElement → Place
  | [] => .lastIn ((b.stack.getLast?.map (·.inside)).getD Dom.root)
  | e :: es =>
      if e.kind.isNamed "template" then .lastIn e.inside
      else if e.kind.isNamed "table" then
        match (b.dom.node e.id).parent with
        | some p => .before p e.id
        | none => .lastIn ((es.head?.map (·.id)).getD Dom.root)
      else fosterPlace b es

/-- The place for a node that belongs into `target`. -/
def placeIn (b : Builder) (target : OpenElement) : Place :=
  if b.fostering && target.kind.isTablePart then b.fosterPlace b.stack else .lastIn target.inside

/-- Puts a node at a place. -/
def putAt (b : Builder) (id : Nat) : Place → Builder
  | .lastIn p => { b with dom := b.dom.append p id }
  | .before p s => { b with dom := b.dom.insertBefore p s id }

/-- Makes an element that stands nowhere yet. -/
def create (b : Builder) (k : Kind) (attributes : List Attribute) : OpenElement × Builder :=
  let (id, dom) := b.dom.create k.name attributes
  let encoding := ((attributes.find? (·.key == "encoding")).map (·.value.toLower)).getD ""
  let annotation := k == ⟨.mathml, "annotation-xml"⟩ &&
    (encoding == "text/html" || encoding == "application/xhtml+xml")
  if k.isNamed "template" then
    let (inside, dom) := dom.create "" []
    (⟨id, k, inside, annotation⟩, { b with dom := dom })
  else (⟨id, k, id, annotation⟩, { b with dom := dom })

/-- Inserts an element and leaves it open. -/
def insertKind (b : Builder) (k : Kind) (attributes : List Attribute) : Builder :=
  let (e, b) := b.create k attributes
  let place := match b.stack with
    | [] => .lastIn Dom.root
    | target :: _ => b.placeIn target
  let b := b.putAt e.id place
  { b with stack := e :: b.stack }

/-- Inserts an ordinary element and leaves it open. -/
def insert (b : Builder) (t : Tag) : Builder := b.insertKind (.html t.name) t.attributes

/-- Inserts an ordinary element that nothing can stand in. -/
def insertVoid (b : Builder) (t : Tag) : Builder := (b.insert t).pop

/-- Inserts an element whose start tag was left out. -/
def insertImplied (b : Builder) (name : String) : Builder := b.insert ⟨name, [], false⟩

/-- The number of the innermost open element. -/
def currentId (b : Builder) : Nat := (b.stack.head?.map (·.id)).getD Dom.root

/-- Inserts an element in which all is text up to its end tag. -/
def insertText (b : Builder) (t : Tag) (reading : TextMode) : Builder :=
  { b.insert t with resume := b.mode, mode := .inText, reading := reading }

/-- Gives the root the attributes that it lacks. -/
def mergeRoot (b : Builder) (t : Tag) : Builder :=
  match b.hasOpen "template", b.stack.getLast? with
  | false, some e => { b with dom := b.dom.addAttributes e.id t.attributes }
  | _, _ => b

/-! ## The rules that the open elements ask for -/

/-- The rules in a select element with the given elements around it. -/
def selectMode : List OpenElement → Mode
  | [] => .inSelect
  | e :: es =>
      if e.kind.isNamed "template" then .inSelect
      else if e.kind.isNamed "table" then .inSelectInTable
      else selectMode es

/-- The rules that a list of open elements asks for. -/
def modeFor (b : Builder) : List OpenElement → Mode
  | [] => .inBody
  | e :: es =>
      let within := fun m => if es.isEmpty then modeFor b es else m
      if e.kind.vocabulary != .html then modeFor b es
      else match e.kind.name with
        | "select" => selectMode es
        | "td" | "th" => within .inCell
        | "tr" => .inRow
        | "tbody" | "thead" | "tfoot" => .inTableBody
        | "caption" => .inCaption
        | "colgroup" => .inColumns
        | "table" => .inTable
        | "template" => b.templates.headD .inBody
        | "head" => within .inHead
        | "body" => .inBody
        | "frameset" => .inFrameset
        | "html" => if b.head.isSome then .afterHead else .beforeHead
        | _ => modeFor b es

/-- Changes to the rules that the open elements ask for. -/
def resetMode (b : Builder) : Builder := b.enter (b.modeFor b.stack)

end Builder

/-- What a rule does: it is done with a tag, or the tag is to be read again under other rules. -/
inductive Step where
  | done (b : Builder)
  | again (b : Builder)
  deriving Inhabited

namespace Builder

/-- The tag is dealt with. -/
def done (b : Builder) : Step := .done b

/-- The tag is to be read again under the rules of `m`. -/
def again (b : Builder) (m : Mode) : Step := .again (b.enter m)

/-- The tag is to be read again under the rules that the open elements ask for. -/
def againReset (b : Builder) : Step := .again b.resetMode

end Builder

/-- The blanks between tags. -/
def isGap (c : Char) : Bool := isBlank c || c == '\r'

end StyleAudit.Markup
