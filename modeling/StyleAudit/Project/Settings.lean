import StyleAudit.Files.Collect

/-! # Settings of an audit

* **`Workspace`** — the files and the directory that relative paths are read from.
* **`Settings`** — what an audit is asked to do.
* **`AuditError`** — why an audit fails.
* **`findRepository?`** — the root of the repository around the working directory.
* **`Settings.prepare`** — settings with their root and stylesheet found. -/

namespace StyleAudit.Project

open Files

/-- The files, and the directory that relative paths are read from. -/
structure Workspace where
  tree : FileTree
  here : Location
  deriving Inhabited

/-- How a result is written. -/
inductive Format where
  | text
  | json
  deriving DecidableEq, Repr, Inhabited

/-- What an audit is asked to do. -/
structure Settings where
  /-- The root of the project; without it, the root of the repository. -/
  root : Option Path := none
  exclude : List String := []
  /-- The only stylesheet to report on and to fix. -/
  stylesheet : Option Path := none
  /-- The only selectors to remove; without any, all of them. -/
  selectors : List String := []
  /-- Whether unused selectors are removed. -/
  fix : Bool := false
  /-- Whether removals are only planned. -/
  dryRun : Bool := false
  format : Format := .text
  /-- Whether the audit is repeated on request. -/
  listen : Bool := false
  deriving DecidableEq, Repr, Inhabited

/-- Why an audit fails. -/
inductive AuditError where
  | noRoot
  | noRepository
  | collect (cause : CollectError)
  | noStylesheets (root : Path)
  | cancelled
  | edit (path : Path)
  | write (path : Path)
  /-- A line of the input is no text. -/
  | input
  deriving DecidableEq, Repr

/-- The wording of an audit error. -/
def AuditError.message : AuditError → String
  | .noRoot => "Config not initialized - call initialize() first"
  | .noRepository => "Could not find .git directory in any parent folder"
  | .collect e => e.message
  | .noStylesheets root => "No stylesheets found under " ++ root.text
  | .cancelled => "Analysis was cancelled"
  | .edit p => "Failed to apply edits to " ++ p.text
  | .write p => "Failed to write " ++ p.text
  | .input => "stream did not contain valid UTF-8"

/-- The root of the repository around the working directory. -/
def findRepository? (w : Workspace) : Option Path :=
  ((beginnings w.here).reverse.find? fun d => w.tree.has (d ++ [".git"])).map .ofLocation

/-- The absolute path of what a path leads to; a path that leads nowhere stays as it is. -/
def Workspace.settle (w : Workspace) (p : Path) : Path :=
  match w.tree.resolve w.here p with
  | .ok l => .ofLocation l
  | .error _ => p

namespace Settings

/-- Finds the root and the stylesheet, which is read from the root. -/
def prepare (s : Settings) (w : Workspace) : Except AuditError Settings :=
  match s.root.elim (findRepository? w) (fun r => some (w.settle r)) with
  | none => .error .noRepository
  | some root =>
      .ok { s with root := some root, stylesheet := s.stylesheet.map fun p => w.settle (root.join p) }

/-- Whether a stylesheet is reported on. -/
def includesSheet (s : Settings) (p : Path) : Bool := s.stylesheet.all (·.parts == p.parts)

/-- Whether a selector may be removed. -/
def includesSelector (s : Settings) (selector : String) : Bool :=
  s.selectors.isEmpty || s.selectors.contains selector

end Settings

end StyleAudit.Project
