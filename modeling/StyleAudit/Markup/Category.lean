import StyleAudit.Markup.Dom

/-! # Kinds of elements

Which elements end others, which ones a search for an open element stops at, and which foreign
elements hold ordinary ones.

* **`Kind`** — an element's name and vocabulary.
* **`Kind.isSpecial`, `Kind.isFormatting`, …** — classes of elements.
* **`Scope`** — where a search among the open elements stops. -/

namespace StyleAudit.Markup

/-- What an element is. -/
structure Kind where
  vocabulary : Vocabulary
  name : String
  deriving DecidableEq, Repr, Inhabited

namespace Kind

/-- An ordinary element. -/
def html (name : String) : Kind := ⟨.html, name⟩

/-- Whether an element is ordinary and has one of the given names. -/
def isOneOf (k : Kind) (names : List String) : Bool := k.vocabulary == .html && names.contains k.name

/-- Whether an element is ordinary and has the given name. -/
def isNamed (k : Kind) (name : String) : Bool := k.vocabulary == .html && k.name == name

/-- Foreign elements of formulas that hold ordinary text. -/
def holdsFormulaText (k : Kind) : Bool :=
  k.vocabulary == .mathml && ["mi", "mo", "mn", "ms", "mtext"].contains k.name

/-- Foreign elements of drawings that hold ordinary elements. -/
def holdsMarkup (k : Kind) : Bool :=
  k.vocabulary == .svg && ["foreignObject", "desc", "title"].contains k.name

/-- Elements that a stray end tag does not reach beyond. -/
def isSpecial (k : Kind) : Bool :=
  k.isOneOf ["address", "applet", "area", "article", "aside", "base", "basefont", "bgsound",
    "blockquote", "body", "br", "button", "caption", "center", "col", "colgroup", "dd", "details",
    "dir", "div", "dl", "dt", "embed", "fieldset", "figcaption", "figure", "footer", "form",
    "frame", "frameset", "h1", "h2", "h3", "h4", "h5", "h6", "head", "header", "hgroup", "hr",
    "html", "iframe", "img", "input", "isindex", "li", "link", "listing", "main", "marquee",
    "menu", "meta", "nav", "noembed", "noframes", "noscript", "object", "ol", "p", "param",
    "plaintext", "pre", "script", "section", "select", "source", "style", "summary", "table",
    "tbody", "td", "template", "textarea", "tfoot", "th", "thead", "title", "tr", "track", "ul",
    "wbr", "xmp"]

/-- Elements whose end tag may be left out. -/
def endIsImplied (k : Kind) : Bool :=
  k.isOneOf ["dd", "dt", "li", "option", "optgroup", "p", "rb", "rp", "rt", "rtc"]

/-- Elements that the end of a template closes. -/
def endIsImpliedInTemplate (k : Kind) : Bool :=
  k.endIsImplied ||
    k.isOneOf ["caption", "colgroup", "tbody", "td", "tfoot", "th", "thead", "tr"]

/-- Headings. -/
def isHeading (k : Kind) : Bool := k.isOneOf ["h1", "h2", "h3", "h4", "h5", "h6"]

/-- Cells of a table. -/
def isCell (k : Kind) : Bool := k.isOneOf ["td", "th"]

/-- Parts of a table that hold no text and no elements but further parts. -/
def isTablePart (k : Kind) : Bool := k.isOneOf ["table", "tbody", "tfoot", "thead", "tr"]

end Kind

/-- Where a search among the open elements stops. -/
inductive Scope where
  | ordinary
  | listItem
  | button
  | table
  | select
  deriving DecidableEq, Repr

/-- Whether a search stops at an element. -/
def Scope.stopsAt (s : Scope) (k : Kind) : Bool :=
  let ordinary := k.holdsFormulaText || k.holdsMarkup ||
    k.isOneOf ["applet", "caption", "html", "table", "td", "th", "marquee", "object", "template"]
  match s with
  | .ordinary => ordinary
  | .listItem => ordinary || k.isOneOf ["ol", "ul"]
  | .button => ordinary || k.isOneOf ["button"]
  | .table => k.isOneOf ["html", "table", "template"]
  | .select => !k.isOneOf ["optgroup", "option"]

/-- The spelling of a drawing element's name, which tags give in lower case. -/
def drawingName (name : String) : String :=
  let spellings := ["altGlyph", "altGlyphDef", "altGlyphItem", "animateColor", "animateMotion",
    "animateTransform", "clipPath", "feBlend", "feColorMatrix", "feComponentTransfer",
    "feComposite", "feConvolveMatrix", "feDiffuseLighting", "feDisplacementMap",
    "feDistantLight", "feDropShadow", "feFlood", "feFuncA", "feFuncB", "feFuncG", "feFuncR",
    "feGaussianBlur", "feImage", "feMerge", "feMergeNode", "feMorphology", "feOffset",
    "fePointLight", "feSpecularLighting", "feSpotLight", "feTile", "feTurbulence",
    "foreignObject", "glyphRef", "linearGradient", "radialGradient", "textPath"]
  (spellings.find? (·.toLower == name)).getD name

end StyleAudit.Markup
