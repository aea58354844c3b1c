import StyleAudit.Markup.Builder

/-! # Formatting elements

Formatting elements such as `b` and `a` may be closed out of order. The ones that another end tag
closed are opened anew in the text that follows, and an end tag that crosses blocks splits the
element at them.

* **`Builder.reopenFormatting`** — opens anew what was closed too early.
* **`Builder.insertFormatting`** — inserts a formatting element.
* **`Builder.endOther`** — closes an element of any name.
* **`Builder.endFormatting`** — closes a formatting element, splitting it where blocks cross it. -/

namespace StyleAudit.Markup.Builder

/-- The formatting entries since the last marker, latest first. -/
def recentFormatting (b : Builder) : List (Nat × Tag) :=
  let rec entries : List Formatting → List (Nat × Tag)
    | .element id t :: fs => (id, t) :: entries fs
    | _ => []
  entries b.formatting

/-- Whether an element is open. -/
def isOpen (b : Builder) (id : Nat) : Bool := b.stack.any (·.id == id)

/-- Whether an element is in the list of formatting elements. -/
def isListed (b : Builder) (id : Nat) : Bool := b.formatting.any (·.isFor id)

/-- Takes an element out of the list of formatting elements. -/
def unlist (b : Builder) (id : Nat) : Builder :=
  { b with formatting := b.formatting.eraseP (·.isFor id) }

/-- Puts another entry in the place of an element in the list of formatting elements. -/
def relist (b : Builder) (id : Nat) (f : Formatting) : Builder :=
  { b with formatting := b.formatting.map fun g => if g.isFor id then f else g }

/-- Opens formatting elements anew that were closed before their end tag. -/
def reopenFormatting (b : Builder) : Builder :=
  let closed := b.recentFormatting.takeWhile fun (id, _) => !b.isOpen id
  closed.reverse.foldl (fun b (id, t) =>
    let b := b.insert t
    b.relist id (.element b.currentId t)) b

/-- Whether two tags have the same name and attributes. -/
def sameTag (s t : Tag) : Bool :=
  s.name == t.name && s.attributes.length == t.attributes.length &&
    s.attributes.all fun a => t.attributes.contains a

/-- Inserts a formatting element. Of equal ones, only three are listed. -/
def insertFormatting (b : Builder) (t : Tag) : Builder :=
  let same := b.recentFormatting.filter fun (_, u) => sameTag t u
  let b := match same.getLast? with
    | some (id, _) => if 3 ≤ same.length then b.unlist id else b
    | none => b
  let b := b.insert t
  { b with formatting := .element b.currentId t :: b.formatting }

/-- Closes the innermost element of the given name, unless a special element is met first. -/
def endOther (b : Builder) (name : String) : Builder :=
  let rec reaches : List OpenElement → Bool
    | [] => false
    | e :: es => e.kind.isNamed name || (!e.kind.isSpecial && reaches es)
  if reaches b.stack then (b.endImplied name).popNamed name else b

/-- The state of a split: the elements between the formatting element and the block, innermost
first, that stay open, and the node that is to be moved. -/
structure Split where
  builder : Builder
  /-- The elements that stay open, outermost first. -/
  kept : List OpenElement
  /-- The node that was moved last. -/
  last : Nat
  /-- The element in the list that the new formatting element is put after. -/
  bookmark : Option Nat

/-- Deals with one element between the formatting element and the block: listed ones among the first
three are made anew around the block, others are closed. -/
def splitStep (block : Nat) (s : Split) (e : OpenElement × Nat) : Split :=
  let (e, position) := e
  let tag? := s.builder.formatting.findSome? fun
    | .element id t => if id == e.id then some t else none
    | .marker => none
  match tag? with
  | some t =>
      if 3 ≤ position then { s with builder := s.builder.unlist e.id }
      else
        let (f, b) := s.builder.create (.html t.name) t.attributes
        let b := b.relist e.id (.element f.id t)
        let b := { b with dom := b.dom.append f.id s.last }
        { builder := b, kept := f :: s.kept, last := f.id,
          bookmark := if s.last == block then some f.id else s.bookmark }
  | none => s

/-- Splits the formatting element `format` at a block that crosses it. `inner` are the elements
inside the block, `between` those between it and `format`, `outer` those around `format`, all
innermost first. -/
def splitAt (b : Builder) (format : Nat) (tag : Tag) (inner : List OpenElement)
    (block : OpenElement) (between outer : List OpenElement) : Builder :=
  let s := between.zipIdx.foldl (splitStep block.id) ⟨b, [], block.id, none⟩
  let b := s.builder
  let b := match outer with
    | ancestor :: _ => b.putAt s.last (b.placeIn ancestor)
    | [] => b
  let (new, b) := b.create (.html tag.name) tag.attributes
  let dom := (b.dom.moveChildren block.inside new.id).append block.inside new.id
  let entry := Formatting.element new.id tag
  let formatting := match s.bookmark with
    | none => b.formatting.map fun g => if g.isFor format then entry else g
    | some mark =>
        (b.formatting.eraseP (·.isFor format)).flatMap fun g =>
          if g.isFor mark then [entry, g] else [g]
  { b with dom := dom, formatting := formatting,
           stack := inner ++ new :: block :: s.kept.reverse ++ outer }

/-- Closes the formatting element of the given name once: the state, and whether more is to be
done. -/
def endFormattingOnce (b : Builder) (name : String) : Builder × Bool :=
  match b.recentFormatting.find? (·.2.name == name) with
  | none => (b.endOther name, false)
  | some (id, tag) =>
      if !b.isOpen id then (b.unlist id, false)
      else if !inScopeBy .ordinary (·.id == id) b.stack then (b, false)
      else
        let above := b.stack.takeWhile (·.id != id)
        let outer := (b.stack.dropWhile (·.id != id)).tail
        -- The block is the outermost special element inside the formatting element.
        let between := (above.reverse.takeWhile (!·.kind.isSpecial)).reverse
        match above.reverse.drop between.length with
        | [] => ({ b.unlist id with stack := outer }, false)
        | block :: inner => (b.splitAt id tag inner.reverse block between outer, true)

/-- Repeats the closing of a formatting element at most `n` times. -/
def endFormattingTimes (b : Builder) (name : String) : Nat → Builder
  | 0 => b
  | n + 1 =>
      match b.endFormattingOnce name with
      | (b, true) => b.endFormattingTimes name n
      | (b, false) => b

/-- Closes a formatting element, splitting it at the blocks that cross it. -/
def endFormatting (b : Builder) (name : String) : Builder :=
  if b.isIn name && !b.isListed b.currentId then b.pop else b.endFormattingTimes name 8

end StyleAudit.Markup.Builder
