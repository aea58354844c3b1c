import StyleAudit.Markup.Rule.Select

/-! # After the body, in framesets and in foreign elements

* **`afterBody`, `afterRoot`, `inFrameset`, `afterFrameset`, `afterFramesetRoot`** — the rules after
  the body and in framesets.
* **`inText`** — the rules in an element that holds only text.
* **`Builder.byMode`** — the rules that hold.
* **`isForeign`, `inForeign`** — when the rules for foreign elements hold, and what they are. -/

namespace StyleAudit.Markup

/-- The rules after the body. -/
def afterBody (b : Builder) (token : Token) : Step :=
  match token with
  | .char c => if isGap c then inBody b token else b.again .inBody
  | .opening name attributes selfClosing =>
      if name = "html" then (b.mergeRoot ⟨name, attributes, selfClosing⟩).done
      else b.again .inBody
  | .closing name => if name = "html" then (b.enter .afterRoot).done else b.again .inBody
  | _ => b.done

/-- The rules after the root. -/
def afterRoot (b : Builder) (token : Token) : Step :=
  match token with
  | .char c => if isGap c then inBody b token else b.again .inBody
  | .opening name attributes selfClosing =>
      if name = "html" then (b.mergeRoot ⟨name, attributes, selfClosing⟩).done
      else b.again .inBody
  | .closing _ => b.again .inBody
  | _ => b.done

/-- The rules in a frameset. -/
def inFrameset (b : Builder) (token : Token) : Step :=
  match token with
  | .opening name attributes selfClosing =>
      let t : Tag := ⟨name, attributes, selfClosing⟩
      match name with
      | "html" => (b.mergeRoot t).done
      | "frameset" => (b.insert t).done
      | "frame" => (b.insertVoid t).done
      | "noframes" => (headTag b t).done
      | _ => b.done
  | .closing name =>
      if name = "frameset" && 1 < b.stack.length then
        let b := b.pop
        (if b.isIn "frameset" then b else b.enter .afterFrameset).done
      else b.done
  | _ => b.done

/-- The rules after a frameset. -/
def afterFrameset (b : Builder) (token : Token) : Step :=
  match token with
  | .opening name attributes selfClosing =>
      let t : Tag := ⟨name, attributes, selfClosing⟩
      match name with
      | "html" => (b.mergeRoot t).done
      | "noframes" => (headTag b t).done
      | _ => b.done
  | .closing name => (if name = "html" then b.enter .afterFramesetRoot else b).done
  | _ => b.done

/-- The rules after the root of a document with a frameset. -/
def afterFramesetRoot (b : Builder) (token : Token) : Step :=
  match token with
  | .opening _ _ _ => afterFrameset b token
  | .char c => if isGap c then inBody b token else b.done
  | _ => b.done

/-- The rules in an element that holds only text. -/
def inText (b : Builder) (token : Token) : Step :=
  match token with
  | .closing _ => (b.pop.enter b.resume).done
  | .done => b.pop.again b.resume
  | _ => b.done

/-- Follows the rules that hold. -/
def Builder.byMode (b : Builder) (token : Token) : Step :=
  match b.mode with
  | .initial => initial b token
  | .beforeRoot => beforeRoot b token
  | .beforeHead => beforeHead b token
  | .inHead => inHead b token
  | .afterHead => afterHead b token
  | .inBody => inBody b token
  | .inText => inText b token
  | .inTable => inTable b token
  | .inCaption => inCaption b token
  | .inColumns => inColumns b token
  | .inTableBody => inTableBody b token
  | .inRow => inRow b token
  | .inCell => inCell b token
  | .inSelect => inSelect b token
  | .inSelectInTable => inSelectInTable b token
  | .inTemplate => inTemplate b token
  | .afterBody => afterBody b token
  | .inFrameset => inFrameset b token
  | .afterFrameset => afterFrameset b token
  | .afterRoot => afterRoot b token
  | .afterFramesetRoot => afterFramesetRoot b token

/-! ## Foreign elements -/

/-- Whether the rules for foreign elements hold for a token. -/
def isForeign (b : Builder) (token : Token) : Bool :=
  match b.stack with
  | [] => false
  | e :: _ =>
      let isText := match token with
        | .char _ => true
        | _ => false
      let tag? := match token with
        | .opening name _ _ => some name
        | _ => none
      if e.kind.vocabulary == .html || token == .done then false
      else if e.kind.holdsFormulaText &&
          (isText || tag?.any fun n => n != "mglyph" && n != "malignmark") then false
      else if e.kind.holdsMarkup && (isText || tag?.isSome) then false
      else if e.kind == ⟨.mathml, "annotation-xml"⟩ && (isText || tag?.isSome) then
        !(tag? == some "svg" || e.annotation)
      else true

/-- Tags of ordinary elements that end the foreign elements around them. -/
def endsForeign (t : Tag) : Bool :=
  ["b", "big", "blockquote", "body", "br", "center", "code", "dd", "div", "dl", "dt", "em", "embed",
    "h1", "h2", "h3", "h4", "h5", "h6", "head", "hr", "i", "img", "li", "listing", "menu", "meta",
    "nobr", "ol", "p", "pre", "ruby", "s", "small", "span", "strong", "strike", "sub", "sup",
    "table", "tt", "u", "ul", "var"].contains t.name ||
  (t.name == "font" && t.attributes.any fun a => ["color", "face", "size"].contains a.key)

/-- Closes foreign elements up to one that holds ordinary elements. -/
def leaveForeign (b : Builder) : Builder :=
  b.popTo fun k => k.vocabulary == .html || k.holdsFormulaText || k.holdsMarkup

/-- Looks for the foreign element that an end tag closes; none if an ordinary element is met, whose
rules then hold. -/
def closeForeign (name : String) : List OpenElement → Option (List OpenElement)
  | [] => none
  | e :: es =>
      if e.kind.vocabulary == .html then none
      else if e.kind.name.toLower == name then some es
      else closeForeign name es

/-- The rules in foreign elements. -/
def inForeign (b : Builder) (token : Token) : Step :=
  match token with
  | .char c => (if isGap c || c == '\x00' then b else b.noFrameset).done
  | .opening name attributes selfClosing =>
      let t : Tag := ⟨name, attributes, selfClosing⟩
      if endsForeign t then (leaveForeign b).byMode token
      else
        let v := b.current.vocabulary
        (insertForeign b v (if v = .svg then { t with name := drawingName name } else t)).done
  | .closing name =>
      if name = "br" || name = "p" then (leaveForeign b).byMode token
      else match closeForeign name b.stack with
        | some stack => { b with stack := stack }.done
        | none => b.byMode token
  | _ => b.done

end StyleAudit.Markup
