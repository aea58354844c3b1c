import StyleAudit.Markup.Rule.Body

/-! # In tables

The rules in a table and its parts. Parts that were left out are put in; what belongs into no part
is put before the table.

* **`fosterInBody`** — puts what does not belong into a table before it.
* **`inTable`, `inCaption`, `inColumns`, `inTableBody`, `inRow`, `inCell`** — the rules. -/

namespace StyleAudit.Markup

/-- Follows the rules of the body, but puts elements before the table. -/
def fosterInBody (b : Builder) (token : Token) : Step :=
  match inBody { b with fostering := true } token with
  | .done b => .done { b with fostering := false }
  | .again b => .again { b with fostering := false }

/-- Closes what is open in a table. -/
def backToTable (b : Builder) : Builder := b.popTo (·.isOneOf ["html", "table", "template"])

/-- Closes what is open in a group of rows. -/
def backToTableBody (b : Builder) : Builder :=
  b.popTo (·.isOneOf ["tbody", "tfoot", "thead", "template", "html"])

/-- Closes what is open in a row. -/
def backToRow (b : Builder) : Builder := b.popTo (·.isOneOf ["tr", "template", "html"])

/-- The rules directly in a table. -/
def inTable (b : Builder) (token : Token) : Step :=
  match token with
  | .char c =>
      -- Blanks between the parts of a table are of no effect.
      if b.current.isTablePart && (isGap c || c == '\x00') then b.done else fosterInBody b token
  | .opening name attributes selfClosing =>
      let t : Tag := ⟨name, attributes, selfClosing⟩
      match name with
      | "caption" => (((backToTable b).mark.insert t).enter .inCaption).done
      | "colgroup" => (((backToTable b).insert t).enter .inColumns).done
      | "col" => ((backToTable b).insertImplied "colgroup").again .inColumns
      | "tbody" | "tfoot" | "thead" => (((backToTable b).insert t).enter .inTableBody).done
      | "td" | "th" | "tr" => ((backToTable b).insertImplied "tbody").again .inTableBody
      | "table" => if b.inScope .table "table" then (b.popNamed "table").againReset else b.done
      | "style" | "script" | "template" => (headTag b t).done
      | "input" => if isHidden t then (b.insertVoid t).done else fosterInBody b token
      | "form" =>
          if b.hasOpen "template" || b.form.isSome then b.done
          else
            let b := b.insert t
            { b with form := some b.currentId }.pop.done
      | _ => fosterInBody b token
  | .closing name =>
      match name with
      | "table" =>
          (if b.inScope .table "table" then (b.popNamed "table").resetMode else b).done
      | "body" | "caption" | "col" | "colgroup" | "html" | "tbody" | "td" | "tfoot" | "th"
      | "thead" | "tr" => b.done
      | "template" => (endTemplate b).done
      | _ => fosterInBody b token
  | .done => inBody b token
  | .doctype _ | .nothing => b.done

/-- Start tags of the parts of a table. -/
def isPartTag (name : String) : Bool :=
  ["caption", "col", "colgroup", "tbody", "td", "tfoot", "th", "thead", "tr"].contains name

/-- The rules in a caption. -/
def inCaption (b : Builder) (token : Token) : Step :=
  let closed := (b.close "caption").clearFormatting
  let isOpen := b.inScope .table "caption"
  match token with
  | .opening name _ _ =>
      if isPartTag name then (if isOpen then closed.again .inTable else b.done)
      else inBody b token
  | .closing name =>
      if name = "caption" then (if isOpen then closed.enter .inTable else b).done
      else if name = "table" then (if isOpen then closed.again .inTable else b.done)
      else if isPartTag name || name == "body" || name == "html" then b.done
      else inBody b token
  | _ => inBody b token

/-- The rules in a group of columns. -/
def inColumns (b : Builder) (token : Token) : Step :=
  let leave := if b.isIn "colgroup" then b.pop.again .inTable else b.done
  match token with
  | .char c => if isGap c then b.done else leave
  | .opening name attributes selfClosing =>
      let t : Tag := ⟨name, attributes, selfClosing⟩
      match name with
      | "html" => (b.mergeRoot t).done
      | "col" => (b.insertVoid t).done
      | "template" => (headTag b t).done
      | _ => leave
  | .closing name =>
      match name with
      | "colgroup" => (if b.isIn "colgroup" then b.pop.enter .inTable else b).done
      | "col" => b.done
      | "template" => (endTemplate b).done
      | _ => leave
  | .done => inBody b token
  | .doctype _ | .nothing => b.done

/-- The rules in a group of rows. -/
def inTableBody (b : Builder) (token : Token) : Step :=
  let leave :=
    if Builder.inScopeBy .table (·.kind.isOneOf ["table", "tbody", "tfoot"]) b.stack then
      (backToTableBody b).pop.again .inTable
    else b.done
  match token with
  | .opening name attributes selfClosing =>
      match name with
      | "tr" => (((backToTableBody b).insert ⟨name, attributes, selfClosing⟩).enter .inRow).done
      | "th" | "td" => ((backToTableBody b).insertImplied "tr").again .inRow
      | "caption" | "col" | "colgroup" | "tbody" | "tfoot" | "thead" => leave
      | _ => inTable b token
  | .closing name =>
      match name with
      | "tbody" | "tfoot" | "thead" =>
          (if b.inScope .table name then (backToTableBody b).pop.enter .inTable else b).done
      | "table" => leave
      | "body" | "caption" | "col" | "colgroup" | "html" | "td" | "th" | "tr" => b.done
      | _ => inTable b token
  | _ => inTable b token

/-- The rules in a row. -/
def inRow (b : Builder) (token : Token) : Step :=
  let closed := (backToRow b).pop
  let isOpen := b.inScope .table "tr"
  let leave := if isOpen then closed.again .inTableBody else b.done
  match token with
  | .opening name attributes selfClosing =>
      match name with
      | "th" | "td" =>
          (((backToRow b).insert ⟨name, attributes, selfClosing⟩).enter .inCell).mark.done
      | "caption" | "col" | "colgroup" | "tbody" | "tfoot" | "thead" | "tr" => leave
      | _ => inTable b token
  | .closing name =>
      match name with
      | "tr" => (if isOpen then closed.enter .inTableBody else b).done
      | "table" => leave
      | "tbody" | "tfoot" | "thead" => if b.inScope .table name then leave else b.done
      | "body" | "caption" | "col" | "colgroup" | "html" | "td" | "th" => b.done
      | _ => inTable b token
  | _ => inTable b token

/-- The rules in a cell. -/
def inCell (b : Builder) (token : Token) : Step :=
  let closed := ((b.endImplied "").popThrough (·.isCell)).clearFormatting
  match token with
  | .opening name _ _ =>
      if isPartTag name then
        if Builder.inScopeBy .table (·.kind.isCell) b.stack then closed.again .inRow else b.done
      else inBody b token
  | .closing name =>
      match name with
      | "td" | "th" =>
          (if b.inScope .table name then (b.close name).clearFormatting.enter .inRow else b).done
      | "body" | "caption" | "col" | "colgroup" | "html" => b.done
      | "table" | "tbody" | "tfoot" | "thead" | "tr" =>
          if b.inScope .table name then closed.again .inRow else b.done
      | _ => inBody b token
  | _ => inBody b token

end StyleAudit.Markup
