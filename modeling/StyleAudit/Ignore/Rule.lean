import StyleAudit.Ignore.Glob
import StyleAudit.Files.Tree
import StyleAudit.Text.Blank

/-! # Ignore rules

A line of an ignore file hides the paths that its pattern matches, or brings them back if it begins
with an exclamation mark. Of several lines that match a path, the last one counts.

* **`Rule.ofLine?`** — the rule that a line states.
* **`Verdict`** — what rules say about a path.
* **`judge`** — what a list of rules says about a path.
* **`rulesOf`** — the rules of an ignore file. -/

namespace StyleAudit.Ignore

open Files

/-- A rule about paths. -/
structure Rule where
  glob : Glob
  /-- Whether it brings paths back. -/
  restores : Bool
  /-- Whether it is about directories only. -/
  onlyDirectories : Bool
  deriving Repr, Inhabited

/-- What rules say about a path. -/
inductive Verdict where
  | silent
  | hidden
  | shown
  deriving DecidableEq, Repr, Inhabited

/-- The first verdict, unless it is silent. -/
def Verdict.orElse : Verdict → Verdict → Verdict
  | .silent, v => v
  | v, _ => v

/-- A line without the blanks at its end, unless the last one is escaped. -/
def trimLine (cs : List Char) : List Char :=
  match cs.reverse with
  | ' ' :: '\\' :: _ => cs
  | _ => Text.trimEnd cs

/-- Takes away a slash at the end of a pattern, and a backslash before it: the rest, and whether
there was a slash. -/
def dropFinalSlash (cs : List Char) : List Char × Bool :=
  match cs.reverse with
  | '/' :: '\\' :: rest => (rest.reverse, true)
  | '/' :: rest => (rest.reverse, true)
  | _ => (cs, false)

/-- The pattern for whole paths that a pattern in a line stands for. A pattern without slash matches
names in all directories; one that ends with two stars does not match the directory itself. -/
def spreadPattern (anchored : Bool) (cs : List Char) : List Char :=
  let deep := "**/".toList
  let cs :=
    if anchored || cs.contains '/' || deep.isPrefixOf cs || cs == ['*', '*'] then cs
    else deep ++ cs
  if "/**".toList.isSuffixOf cs then cs ++ ['/', '*'] else cs

/-- The rule that a line states; none for blank lines and comments. -/
def Rule.ofLine? (lenient : Bool) (line : List Char) : Except GlobError (Option Rule) :=
  if line.head? == some '#' then .ok none
  else
    let line := trimLine line
    if line.isEmpty then .ok none
    else
      let (restores, anchored, pattern) := match line with
        | '\\' :: '!' :: _ | '\\' :: '#' :: _ => (false, false, line.tail)
        | '!' :: '/' :: rest => (true, true, rest)
        | '!' :: rest => (true, false, rest)
        | '/' :: rest => (false, true, rest)
        | _ => (false, false, line)
      let (pattern, onlyDirectories) := dropFinalSlash pattern
      match Glob.ofText? lenient (String.ofList (spreadPattern anchored pattern)) with
      | .ok glob => .ok (some ⟨glob, restores, onlyDirectories⟩)
      | .error e => .error e

/-- Whether a rule is about a path. -/
def Rule.covers (r : Rule) (path : List UInt8) (isDirectory : Bool) : Bool :=
  (!r.onlyDirectories || isDirectory) && r.glob.accepts path

/-- The bytes of a path that is given by its names. -/
def pathBytes (l : Location) : List UInt8 := ("/".intercalate l).toUTF8.toList

/-- What a list of rules says about a path: the last rule that is about it counts. -/
def judge (rules : List Rule) (l : Location) (isDirectory : Bool) : Verdict :=
  match rules.reverse.find? (·.covers (pathBytes l) isDirectory) with
  | some r => if r.restores then .shown else .hidden
  | none => .silent

/-! ## Ignore files -/

/-- What stands between line feeds. A carriage return before a line feed belongs to it. -/
def splitLines {α : Type} [DecidableEq α] (feed carriageReturn : α) : List α → List (List α)
  | [] => [[]]
  | c :: cs =>
      let lines := splitLines feed carriageReturn cs
      if c = feed then [] :: lines
      else if c = carriageReturn ∧ cs.head? = some feed then lines
      else match lines with
        | l :: ls => (c :: l) :: ls
        | [] => [[c]]

/-- The lines of a text. -/
def linesOf (cs : List Char) : List (List Char) := splitLines '\n' '\r' cs

/-- The lines of bytes. -/
def byteLines (bs : List UInt8) : List (List UInt8) := splitLines 10 13 bs

/-- The texts of lines, up to the first line that is no text. -/
def textLines : List (List UInt8) → List (List Char)
  | [] => []
  | l :: ls =>
      match String.fromUTF8? ⟨l.toArray⟩ with
      | some t => t.toList :: textLines ls
      | none => []

/-- The lines of a file that can be read. -/
def readLines : Content → List (List Char)
  | .text t => linesOf t.toList
  | .bytes b => textLines (byteLines b)

/-- The rules of an ignore file. A byte order mark in front is no part of its first line, and lines
that state no rule are passed over. -/
def rulesOf (c : Content) : List Rule :=
  let lines := match readLines c with
    | l :: ls => l.dropWhile (· == '\ufeff') :: ls
    | [] => []
  lines.filterMap fun l =>
    match Rule.ofLine? true l with
    | .ok r => r
    | .error _ => none

end StyleAudit.Ignore
