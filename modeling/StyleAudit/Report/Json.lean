import StyleAudit.Project.Check

/-! # Reports for programs

* **`Value`** — numbers, texts, truth values, lists and records.
* **`Value.compact`, `Value.pretty`** — a value on one line, and on indented lines.
* **`resultValue`** — the result of an audit as a value. -/

namespace StyleAudit.Report

open Project

/-- A value of a report. Lists and records are made of their items from the first to the last. -/
inductive Value where
  | number (n : Nat)
  | text (s : String)
  | truth (b : Bool)
  | list (items : List Value)
  | record (fields : List (String × Value))
  deriving Inhabited

/-- The digits of a control character's code. -/
def controlDigits (n : Nat) : String :=
  String.ofList ['0', '0', Nat.digitChar (n / 16), Nat.digitChar (n % 16)]

/-- A character as it stands in a quoted text. -/
def escapeChar (c : Char) : String :=
  match c with
  | '"' => "\\\""
  | '\\' => "\\\\"
  | '\x08' => "\\b"
  | '\x0c' => "\\f"
  | '\n' => "\\n"
  | '\r' => "\\r"
  | '\t' => "\\t"
  | c => if c.toNat < 32 then "\\u" ++ controlDigits c.toNat else c.toString

/-- A quoted text. -/
def quote (s : String) : String := "\"" ++ String.join (s.toList.map escapeChar) ++ "\""

/-- A truth value. -/
def truthText (b : Bool) : String := if b then "true" else "false"

mutual

/-- A value on one line. -/
def Value.compact : Value → String
  | .number n => toString n
  | .text s => quote s
  | .truth b => truthText b
  | .list items => "[" ++ ",".intercalate (compactItems items) ++ "]"
  | .record fields => "\x7b" ++ ",".intercalate (compactFields fields) ++ "\x7d"

/-- Values, each on one line. -/
def compactItems : List Value → List String
  | [] => []
  | v :: vs => v.compact :: compactItems vs

/-- Fields, each on one line. -/
def compactFields : List (String × Value) → List String
  | [] => []
  | (key, v) :: rest => (quote key ++ ":" ++ v.compact) :: compactFields rest

end

/-- The start of a line that is indented `n` times. -/
def indentation (n : Nat) : String := "\n" ++ String.ofList (List.replicate (2 * n) ' ')

/-- Items on lines of their own between two marks. -/
def enclose (first last : String) (n : Nat) (items : List String) : String :=
  if items.isEmpty then first ++ last
  else first ++ ",".intercalate (items.map (indentation (n + 1) ++ ·)) ++ indentation n ++ last

mutual

/-- A value on lines that are indented `n` times. -/
def Value.pretty (n : Nat) : Value → String
  | .list items => enclose "[" "]" n (prettyItems (n + 1) items)
  | .record fields => enclose "\x7b" "\x7d" n (prettyFields (n + 1) fields)
  | .number k => toString k
  | .text s => quote s
  | .truth b => truthText b

/-- Values on lines that are indented `n` times. -/
def prettyItems (n : Nat) : List Value → List String
  | [] => []
  | v :: vs => v.pretty n :: prettyItems n vs

/-- Fields on lines that are indented `n` times. -/
def prettyFields (n : Nat) : List (String × Value) → List String
  | [] => []
  | (key, v) :: rest => (quote key ++ ": " ++ v.pretty n) :: prettyFields n rest

end

/-- A finding as a value. -/
def findingValue (f : Finding) : Value :=
  .record [("file", .text f.file), ("selector", .text f.selector), ("line", .number f.line.toNat),
    ("column", .number f.column.toNat)]

/-- A stylesheet that was left out as a value. -/
def skippedValue (s : Skipped) : Value :=
  .record [("file", .text s.file), ("reason", .text s.reason)]

/-- A fix as a value. -/
def fixValue (f : Fix) : Value :=
  .record [("file", .text f.file), ("removed", .list (f.removed.map .text)),
    ("edits", .number f.edits), ("written", .truth f.written)]

/-- The result of an audit as a value. -/
def resultValue (r : CheckResult) : Value :=
  .record [("findings", .list (r.findings.map findingValue)),
    ("skipped", .list (r.skipped.map skippedValue)), ("fixes", .list (r.fixes.map fixValue)),
    ("files_analyzed", .number r.filesAnalyzed),
    ("stylesheets_analyzed", .number r.stylesheetsAnalyzed)]

/-- The result of an audit on indented lines. -/
def jsonText (r : CheckResult) : String := (resultValue r).pretty 0 ++ "\n"

/-- The result of an audit on one line. -/
def jsonLine (r : CheckResult) : String := (resultValue r).compact ++ "\n"

end StyleAudit.Report
