import StyleAudit.Markup.Rule.Table

/-! # In lists of choices and in templates

A list of choices holds only options and groups of them. What a template holds follows the rules of
the place that its first element fits.

* **`inSelect`, `inSelectInTable`** — the rules in a list of choices.
* **`inTemplate`** — the rules in a template. -/

namespace StyleAudit.Markup

/-- Closes an open option, then an open group of options. -/
def closeGroup (b : Builder) : Builder :=
  let b := if b.isIn "option" then b.pop else b
  if b.isIn "optgroup" then b.pop else b

/-- The rules in a list of choices. -/
def inSelect (b : Builder) (token : Token) : Step :=
  let isOpen := b.inScope .select "select"
  match token with
  | .opening name attributes selfClosing =>
      let t : Tag := ⟨name, attributes, selfClosing⟩
      match name with
      | "html" => (b.mergeRoot t).done
      | "option" => ((if b.isIn "option" then b.pop else b).insert t).done
      | "optgroup" => ((closeGroup b).insert t).done
      | "hr" => ((closeGroup b).insertVoid t).done
      | "select" => (if isOpen then (b.popNamed "select").resetMode else b).done
      | "input" | "keygen" | "textarea" =>
          if isOpen then (b.popNamed "select").againReset else b.done
      | "script" | "template" => (headTag b t).done
      | _ => b.done
  | .closing name =>
      match name with
      | "optgroup" =>
          let inGroup := (b.stack.drop 1).head?.any (·.kind.isNamed "optgroup")
          let b := if b.isIn "option" && inGroup then b.pop else b
          (if b.isIn "optgroup" then b.pop else b).done
      | "option" => (if b.isIn "option" then b.pop else b).done
      | "select" => (if isOpen then (b.popNamed "select").resetMode else b).done
      | "template" => (endTemplate b).done
      | _ => b.done
  | .done => inBody b token
  | _ => b.done

/-- Tags of a table that close a list of choices in it. -/
def isTableTag (name : String) : Bool :=
  ["caption", "table", "tbody", "tfoot", "thead", "tr", "td", "th"].contains name

/-- The rules in a list of choices inside a table. -/
def inSelectInTable (b : Builder) (token : Token) : Step :=
  match token with
  | .opening name _ _ =>
      if isTableTag name then (b.popNamed "select").againReset else inSelect b token
  | .closing name =>
      if isTableTag name then
        if b.inScope .table name then (b.popNamed "select").againReset else b.done
      else inSelect b token
  | _ => inSelect b token

/-- Changes the rules of the innermost template. -/
def enterTemplate (b : Builder) (m : Mode) : Step :=
  { b with templates := m :: b.templates.tail }.again m

/-- The rules in a template. -/
def inTemplate (b : Builder) (token : Token) : Step :=
  match token with
  | .char c => if c = '\x00' then b.done else inBody b token
  | .opening name attributes selfClosing =>
      match name with
      | "caption" | "colgroup" | "tbody" | "tfoot" | "thead" => enterTemplate b .inTable
      | "col" => enterTemplate b .inColumns
      | "tr" => enterTemplate b .inTableBody
      | "td" | "th" => enterTemplate b .inRow
      | _ =>
          if isHeadTag name then (headTag b ⟨name, attributes, selfClosing⟩).done
          else enterTemplate b .inBody
  | .closing name => (if name = "template" then endTemplate b else b).done
  | .done => closeTemplate b
  | .doctype _ | .nothing => b.done

end StyleAudit.Markup
