import StyleAudit.Markup.Formatting
import StyleAudit.Markup.Rule.Head

/-! # In the body

The rules in the body, which most other places fall back on.

* **`bodyTag`, `bodyEndTag`** — start and end tags.
* **`inBody`** — the rules. -/

namespace StyleAudit.Markup

/-- Closes the open item that a new item of a list follows: the search stops at special elements
other than `address`, `div` and `p`. -/
def closeItem (b : Builder) (names : List String) : Builder :=
  let rec item? : List OpenElement → Option String
    | [] => none
    | e :: es =>
        if e.kind.isOneOf names then some e.kind.name
        else if e.kind.isSpecial && !e.kind.isOneOf ["address", "div", "p"] then none
        else item? es
  match item? b.stack with
  | some name => b.close name
  | none => b

/-- Inserts a foreign element; one with a closing slash is not left open. -/
def insertForeign (b : Builder) (v : Vocabulary) (t : Tag) : Builder :=
  let b := b.insertKind ⟨v, t.name⟩ t.attributes
  if t.selfClosing then b.pop else b

/-- Whether a tag is that of a hidden input. -/
def isHidden (t : Tag) : Bool := (t.attribute? "type").any (·.toLower == "hidden")

/-- Elements that end a paragraph. -/
def isBlock (name : String) : Bool :=
  ["address", "article", "aside", "blockquote", "center", "details", "dialog", "dir", "div", "dl",
    "fieldset", "figcaption", "figure", "footer", "header", "hgroup", "main", "menu", "nav", "ol",
    "p", "search", "section", "summary", "ul"].contains name

/-- Formatting elements. -/
def isFormattingName (name : String) : Bool :=
  ["a", "b", "big", "code", "em", "font", "i", "nobr", "s", "small", "strike", "strong", "tt",
    "u"].contains name

/-- Inserts a link. Links do not nest, so an open one is closed. -/
def insertLink (b : Builder) (t : Tag) : Builder :=
  let b := match b.recentFormatting.find? (·.2.name == "a") with
    | some (id, _) => ((b.endFormatting "a").unlist id).forget id
    | none => b
  b.reopenFormatting.insertFormatting t

/-- The root and the body take the attributes of further tags of theirs. -/
def mergeBody (b : Builder) (t : Tag) : Builder :=
  match b.body? with
  | some id =>
      if b.hasOpen "template" then b
      else { b.noFrameset with dom := b.dom.addAttributes id t.attributes }
  | none => b

/-- A frameset takes the place of a body in which nothing has been shown. -/
def replaceBody (b : Builder) (t : Tag) : Builder :=
  match b.framesetOk, b.body? with
  | true, some id =>
      let root := b.stack.getLast?.toList
      ({ b with dom := b.dom.detach id, stack := root }.insert t).enter .inFrameset
  | _, _ => b

/-- The start tags of the body. -/
def bodyTag (b : Builder) (t : Tag) : Builder :=
  match t.name with
  | "html" => b.mergeRoot t
  | "body" => mergeBody b t
  | "frameset" => replaceBody b t
  | "h1" | "h2" | "h3" | "h4" | "h5" | "h6" =>
      let b := b.closeParagraph
      (if b.current.isHeading then b.pop else b).insert t
  | "pre" | "listing" => (b.closeParagraph.insert t).noFrameset
  | "form" =>
      if b.form.isSome && !b.hasOpen "template" then b
      else
        let b := b.closeParagraph.insert t
        if b.hasOpen "template" then b else { b with form := some b.currentId }
  | "li" => (closeItem b.noFrameset ["li"]).closeParagraph.insert t
  | "dd" | "dt" => (closeItem b.noFrameset ["dd", "dt"]).closeParagraph.insert t
  | "plaintext" => { b.closeParagraph.insert t with reading := .plain }
  | "button" =>
      let b := if b.inScope .ordinary "button" then b.close "button" else b
      (b.reopenFormatting.insert t).noFrameset
  | "a" => insertLink b t
  | "nobr" =>
      let b := b.reopenFormatting
      let b := if b.inScope .ordinary "nobr" then (b.endFormatting "nobr").reopenFormatting else b
      b.insertFormatting t
  | "applet" | "marquee" | "object" => (b.reopenFormatting.insert t).mark.noFrameset
  | "table" =>
      -- With quirks, a table may stand in a paragraph.
      ((if b.quirks then b else b.closeParagraph).insert t).noFrameset.enter .inTable
  | "area" | "br" | "embed" | "img" | "keygen" | "wbr" =>
      (b.reopenFormatting.insertVoid t).noFrameset
  | "image" => (b.reopenFormatting.insertVoid { t with name := "img" }).noFrameset
  | "input" =>
      let b := b.reopenFormatting.insertVoid t
      if isHidden t then b else b.noFrameset
  | "param" | "source" | "track" => b.insertVoid t
  | "hr" => (b.closeParagraph.insertVoid t).noFrameset
  | "textarea" => b.noFrameset.insertText t (.raw "textarea")
  | "xmp" => b.closeParagraph.reopenFormatting.noFrameset.insertText t (.raw "xmp")
  | "iframe" => b.noFrameset.insertText t (.raw "iframe")
  | "noembed" | "noscript" => b.insertText t (.raw t.name)
  | "select" =>
      let mode := match b.mode with
        | .inTable | .inCaption | .inTableBody | .inRow | .inCell => .inSelectInTable
        | _ => .inSelect
      (b.reopenFormatting.insert t).noFrameset.enter mode
  | "optgroup" | "option" =>
      (if b.isIn "option" then b.pop else b).reopenFormatting.insert t
  | "rb" | "rtc" => (if b.inScope .ordinary "ruby" then b.endImplied "" else b).insert t
  | "rp" | "rt" => (if b.inScope .ordinary "ruby" then b.endImplied "rtc" else b).insert t
  | "math" => insertForeign b .mathml t
  | "svg" => insertForeign b .svg t
  | "caption" | "col" | "colgroup" | "frame" | "head" | "tbody" | "td" | "tfoot" | "th" | "thead"
  | "tr" => b
  | name =>
      if isHeadTag name then headTag b t
      else if isBlock name then b.closeParagraph.insert t
      else if isFormattingName name then b.reopenFormatting.insertFormatting t
      else b.reopenFormatting.insert t

/-- Closes the form that the document is in. -/
def endForm (b : Builder) : Builder :=
  if b.hasOpen "template" then
    if b.inScope .ordinary "form" then b.close "form" else b
  else
    match b.form with
    | none => b
    | some id =>
        let b := { b with form := none }
        if Builder.inScopeBy .ordinary (·.id == id) b.stack then (b.endImplied "").forget id else b

/-- The end tags of the body, other than those of the body and the root. -/
def bodyEndTag (b : Builder) (name : String) : Builder :=
  let closeIn := fun (s : Scope) => if b.inScope s name then b.close name else b
  match name with
  | "template" => endTemplate b
  | "form" => endForm b
  | "p" => (if b.inScope .button "p" then b else b.insertImplied "p").close "p"
  | "li" => closeIn .listItem
  | "dd" | "dt" => closeIn .ordinary
  | "h1" | "h2" | "h3" | "h4" | "h5" | "h6" =>
      if Builder.inScopeBy .ordinary (·.kind.isHeading) b.stack then
        (b.endImplied "").popThrough (·.isHeading)
      else b
  | "applet" | "marquee" | "object" =>
      if b.inScope .ordinary name then (b.close name).clearFormatting else b
  | "br" => bodyTag b ⟨"br", [], false⟩
  | "button" | "listing" | "pre" => closeIn .ordinary
  | _ =>
      if isBlock name then closeIn .ordinary
      else if isFormattingName name then b.endFormatting name
      else b.endOther name

/-- Closes the innermost template at the end of the text. -/
def closeTemplate (b : Builder) : Step :=
  if b.hasOpen "template" then
    let b := (b.popNamed "template").clearFormatting
    { b with templates := b.templates.tail }.againReset
  else b.done

/-- The rules in the body. -/
def inBody (b : Builder) (token : Token) : Step :=
  match token with
  | .char c =>
      if c = '\x00' then b.done
      else
        let b := b.reopenFormatting
        (if isGap c then b else b.noFrameset).done
  | .opening name attributes selfClosing => (bodyTag b ⟨name, attributes, selfClosing⟩).done
  | .closing name =>
      if name = "body" then (if b.inScope .ordinary "body" then b.enter .afterBody else b).done
      else if name = "html" then
        if b.inScope .ordinary "body" then b.again .afterBody else b.done
      else (bodyEndTag b name).done
  | .done => if b.templates.isEmpty then b.done else closeTemplate b
  | .doctype _ | .nothing => b.done

end StyleAudit.Markup
