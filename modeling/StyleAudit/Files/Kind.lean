import StyleAudit.Files.Path
import StyleAudit.Markup.Document
import StyleAudit.Script.Usage

/-! # Kinds of files

* **`FileKind`** — what a file holds.
* **`FileKind.ofPath?`** — the kind that a file's extension tells.
* **`used`** — the selectors that a file uses. -/

namespace StyleAudit.Files

/-- What a file holds. -/
inductive FileKind where
  | stylesheet
  | markup
  | script
  | component
  deriving DecidableEq, Repr, Inhabited

/-- The kind of an extension in lower case. -/
def FileKind.ofExtension? : String → Option FileKind
  | "css" => some .stylesheet
  | "html" | "htm" => some .markup
  | "ts" | "mts" | "cts" | "js" | "mjs" | "cjs" => some .script
  | "tsx" | "jsx" => some .component
  | _ => none

/-- The kind of a file, by its extension; the case of ASCII letters does not matter. -/
def FileKind.ofPath? (p : Path) : Option FileKind :=
  p.extension?.bind fun e => FileKind.ofExtension? (String.ofList (Text.asciiLower e.toList))

/-- The selectors that a file uses. A stylesheet uses none. -/
def used (kind : FileKind) (text : String) : SelectorSet :=
  match kind with
  | .stylesheet => .empty
  | .markup => Markup.usedByMarkup text
  | .script => Script.usedByScript text
  | .component => Script.usedByComponent text

end StyleAudit.Files
