import StyleAudit.Markup.Rule.Foreign

/-! # Reading a document

* **`process`** — takes a token into the document.
* **`build`** — takes a text into the document.
* **`elementsOf`** — the elements of a text.
* **`usedByMarkup`** — the selectors that a text uses. -/

namespace StyleAudit.Markup

/-- Takes a token into the document. A token is read again under other rules at most once for each
open element and each kind of rules. -/
def process (token : Token) : (fuel : Nat) → Builder → Builder
  | 0, b => b
  | fuel + 1, b =>
      match if isForeign b token then inForeign b token else b.byMode token with
      | .done b => b
      | .again b => process token fuel b

/-- Enough steps for one token. -/
def Builder.steps (b : Builder) : Nat := 2 * b.stack.length + 40

/-- Takes a text into the document, after passing over the characters of a token. -/
def build : (skip : Nat) → Builder → List Char → Builder
  | _, b, [] => process .done b.steps b
  | skip + 1, b, _ :: cs => build skip b cs
  | 0, b, c :: cs =>
      let (token, size, reading) := nextToken b.reading b.inForeign c cs
      let b := { b with reading := reading }
      match token with
      | .nothing => build size b cs
      | _ => build size (process token b.steps b) cs

/-- Line ends are line feeds. -/
def normalizeLines : List Char → List Char
  | '\r' :: '\n' :: cs => '\n' :: normalizeLines cs
  | '\r' :: cs => '\n' :: normalizeLines cs
  | c :: cs => c :: normalizeLines cs
  | [] => []

/-- The elements of a text, as a browser that runs scripts sees them. A byte order mark in front is
no part of the text. -/
def elementsOf (text : String) : List Element :=
  let cs := match text.toList with
    | '\ufeff' :: cs => cs
    | cs => cs
  (build 0 .start (normalizeLines cs)).dom.forest

/-- The selectors that a text uses. -/
def usedByMarkup (text : String) : SelectorSet := usedBy (elementsOf text)

end StyleAudit.Markup
