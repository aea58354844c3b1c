import StyleAudit.Markup.Builder

/-! # Before the body

The rules for what comes before the body: the doctype, the root, the head and what belongs into it.
Elements that were left out are put in.

* **`headTag`** — the elements of the head, which are also allowed elsewhere.
* **`initial`, `beforeRoot`, `beforeHead`, `inHead`, `afterHead`** — the rules. -/

namespace StyleAudit.Markup

/-- The elements of a head that may also stand elsewhere. -/
def isHeadTag (name : String) : Bool :=
  ["base", "basefont", "bgsound", "link", "meta", "noframes", "script", "style", "template",
    "title"].contains name

/-- Inserts an element of a head where the document stands. -/
def headTag (b : Builder) (t : Tag) : Builder :=
  match t.name with
  | "title" => b.insertText t (.raw "title")
  | "noframes" | "style" | "noscript" => b.insertText t (.raw t.name)
  | "script" => b.insertText t (.script .plain)
  | "template" =>
      let b := (b.insert t).mark.noFrameset.enter .inTemplate
      { b with templates := .inTemplate :: b.templates }
  | _ => b.insertVoid t

/-- Closes the innermost template. -/
def endTemplate (b : Builder) : Builder :=
  if b.hasOpen "template" then
    let b := { b with stack := b.stack.dropWhile (·.kind.endIsImpliedInTemplate) }
    let b := (b.popNamed "template").clearFormatting
    { b with templates := b.templates.tail }.resetMode
  else b

/-- End tags that elements before the body do not ignore. -/
def endsEarly (name : String) : Bool := name == "body" || name == "html" || name == "br"

/-- The rules before everything else. A document has the quirks that its doctype asks for, or has
them because there is no doctype. -/
def initial (b : Builder) (token : Token) : Step :=
  let missing := { b with quirks := true }.again .beforeRoot
  match token with
  | .doctype d => ({ b with quirks := d.isQuirky }.enter .beforeRoot).done
  | .char c => if isGap c then b.done else missing
  | .nothing => b.done
  | _ => missing

/-- The rules before the root. -/
def beforeRoot (b : Builder) (token : Token) : Step :=
  let implied := (b.insertImplied "html").again .beforeHead
  match token with
  | .char c => if isGap c then b.done else implied
  | .opening name attributes _ =>
      if name = "html" then ((b.insert ⟨name, attributes, false⟩).enter .beforeHead).done
      else implied
  | .closing name => if endsEarly name || name == "head" then implied else b.done
  | .done => implied
  | .doctype _ | .nothing => b.done

/-- Records the innermost open element as the head. -/
def keepHead (b : Builder) : Builder := { b with head := some b.currentId }

/-- The rules before the head. -/
def beforeHead (b : Builder) (token : Token) : Step :=
  let implied := (keepHead (b.insertImplied "head")).again .inHead
  match token with
  | .char c => if isGap c then b.done else implied
  | .opening name attributes selfClosing =>
      let t : Tag := ⟨name, attributes, selfClosing⟩
      if name = "html" then (b.mergeRoot t).done
      else if name = "head" then ((keepHead (b.insert t)).enter .inHead).done
      else implied
  | .closing name => if endsEarly name || name == "head" then implied else b.done
  | .done => implied
  | .doctype _ | .nothing => b.done

/-- The rules in the head. -/
def inHead (b : Builder) (token : Token) : Step :=
  let leave := b.pop.again .afterHead
  match token with
  | .char c => if isGap c then b.done else leave
  | .opening name attributes selfClosing =>
      let t : Tag := ⟨name, attributes, selfClosing⟩
      if name = "html" then (b.mergeRoot t).done
      else if name = "head" then b.done
      else if isHeadTag name || name == "noscript" then (headTag b t).done
      else leave
  | .closing name =>
      if name = "head" then (b.pop.enter .afterHead).done
      else if endsEarly name then leave
      else if name = "template" then (endTemplate b).done
      else b.done
  | .done => leave
  | .doctype _ | .nothing => b.done

/-- Opens the head again for an element that belongs into it. -/
def intoHead (b : Builder) (t : Tag) : Builder :=
  match b.head with
  | some id =>
      let b := headTag { b with stack := ⟨id, .html "head", id, false⟩ :: b.stack } t
      b.forget id
  | none => headTag b t

/-- The rules between head and body. -/
def afterHead (b : Builder) (token : Token) : Step :=
  let implied := (b.insertImplied "body").again .inBody
  match token with
  | .char c => if isGap c then b.done else implied
  | .opening name attributes selfClosing =>
      let t : Tag := ⟨name, attributes, selfClosing⟩
      if name = "html" then (b.mergeRoot t).done
      else if name = "body" then ((b.insert t).noFrameset.enter .inBody).done
      else if name = "frameset" then ((b.insert t).enter .inFrameset).done
      else if isHeadTag name then (intoHead b t).done
      else if name = "head" then b.done
      else implied
  | .closing name =>
      if endsEarly name then implied
      else if name = "template" then (endTemplate b).done
      else b.done
  | .done => implied
  | .doctype _ | .nothing => b.done

end StyleAudit.Markup
