import StyleAudit.Files.Kind
import StyleAudit.Ignore.Rule

/-! # Collecting files

The files of a project are the files of known kinds below its root, without those that an exclusion
or an ignore file hides. A hidden directory hides all that lies in it.

Rules of `.ignore` files come first, then those of `.gitignore` files, then those of a repository's
`info/exclude`. Nearer directories come before farther ones. The files of a repository hold only in
a repository, and no farther than its root.

* **`Exclusions.ofGlobs?`** — reads the patterns of exclusions.
* **`hides`** — whether a file or directory is hidden.
* **`collect`** — the files of a project, by their parts. -/

namespace StyleAudit.Files

open Ignore

/-- A file and what it holds. -/
structure SourceFile where
  path : Path
  kind : FileKind
  deriving DecidableEq, Repr, Inhabited

/-- Why no files can be collected. -/
inductive CollectError where
  | invalidGlob (glob : String)
  | unreachable (path : Path) (cause : LookupError)
  deriving DecidableEq, Repr

/-- The wording of a collection error. -/
def CollectError.message : CollectError → String
  | .invalidGlob g => "Invalid exclude glob '" ++ g ++ "'"
  | .unreachable p e =>
      p.text ++ ": IO error for operation on " ++ p.text ++ ": " ++ e.message

/-! ## Exclusions -/

/-- What is always excluded. -/
def standardExclusions : List String := ["**/node_modules/**"]

/-- The rule of an exclusion. -/
def exclusion? (glob : String) : Except CollectError (Option Rule) :=
  match Rule.ofLine? false ('!' :: glob.toList) with
  | .ok r => .ok r
  | .error _ => .error (.invalidGlob glob)

/-- The rules of exclusions, or the first one that is no pattern. -/
def exclusions? : List String → Except CollectError (List Rule)
  | [] => .ok []
  | g :: gs =>
      match exclusion? g with
      | .error e => .error e
      | .ok r =>
          match exclusions? gs with
          | .error e => .error e
          | .ok rs => .ok (r.toList ++ rs)

/-! ## Ignore files -/

/-- Whether a directory is the root of a repository. -/
def isRepository (t : FileTree) (d : Location) : Bool := t.has (d ++ [".git"]) || t.has (d ++ [".jj"])

/-- The rules of an ignore file, none if it is not there. -/
def rulesAt (t : FileTree) (l : Location) : List Rule := ((t.file? l).map rulesOf).getD []

/-- The first line of a file. -/
def firstLine? (t : FileTree) (here : Location) (p : Path) : Option String :=
  (t.read? here p).bind fun s => ((linesOf s.toList).head?).map String.ofList

/-- The directory that holds the settings of the repository at `d`. Where a file stands for it, the
file names it. -/
def settingsPlace? (t : FileTree) (here d : Location) : Option Location :=
  match t.get? (d ++ [".git"]) with
  | some (.file _) =>
      (firstLine? t here (.ofLocation (d ++ [".git"]))).bind fun line =>
        let mark := "gitdir: "
        if mark.toList.isPrefixOf line.toList then
          let own : Path := ⟨String.ofList (line.toList.drop mark.length)⟩
          (firstLine? t here (own.join ⟨"commondir"⟩)).bind fun shared =>
            let place := if shared.toList.head? == some '.' then own.join ⟨shared⟩ else ⟨shared⟩
            (t.resolve here place).toOption
        else none
  | _ => some (d ++ [".git"])

/-- The first verdict that is not silent. -/
def firstVerdict (vs : List Verdict) : Verdict := vs.foldr Verdict.orElse .silent

/-- The directories around a place, nearest first. -/
def directoriesAround (l : Location) : List Location := (beginnings l.dropLast).reverse

/-- The elements of a list up to and with the first that satisfies `p`. -/
def upTo (p : α → Bool) : List α → List α
  | [] => []
  | a :: as => if p a then [a] else a :: upTo p as

/-- What the ignore files around a place say about it. -/
def ignoreVerdict (t : FileTree) (here l : Location) (isDirectory : Bool) : Verdict :=
  let around := directoriesAround l
  let say := fun (rules : Location → List Rule) (d : Location) =>
    judge (rules d) (l.drop d.length) isDirectory
  let own := firstVerdict (around.map (say fun d => rulesAt t (d ++ [".ignore"])))
  let repository := if around.any (isRepository t) then upTo (isRepository t) around else []
  let shared := firstVerdict (repository.map (say fun d => rulesAt t (d ++ [".gitignore"])))
  let settings := firstVerdict (repository.map (say fun d =>
    ((settingsPlace? t here d).map fun s => rulesAt t (s ++ ["info", "exclude"])).getD []))
  firstVerdict [own, shared, settings]

/-- Whether exclusions or ignore files hide a file or directory; `names` lead to it from `root`. -/
def hides (t : FileTree) (here : Location) (rules : List Rule) (root names : Location)
    (isDirectory : Bool) : Bool :=
  judge rules names isDirectory != .silent ||
    ignoreVerdict t here (root ++ names) isDirectory == .hidden

/-- Whether a file is shown: neither it nor a directory on the way to it is hidden. -/
def isShown (t : FileTree) (here : Location) (rules : List Rule) (root names : Location) : Bool :=
  !hides t here rules root names false &&
    ((beginnings names.dropLast).drop 1).all fun d => !hides t here rules root d true

/-! ## Files of a project -/

/-- A file with the kind that its path tells. -/
def SourceFile.ofPath? (p : Path) : Option SourceFile := (FileKind.ofPath? p).map fun k => ⟨p, k⟩

/-- The files of known kinds below `root` that are not hidden, in the order of their parts. A root
that is a file has itself. -/
def collect (t : FileTree) (here : Location) (root : Path) (globs : List String) :
    Except CollectError (List SourceFile) :=
  match exclusions? (standardExclusions ++ globs) with
  | .error e => .error e
  | .ok rules =>
      match t.resolve here root with
      | .error e => .error (.unreachable root e)
      | .ok place =>
          if t.isDirectory place then
            let shown := (t.filesIn place).filter (isShown t here rules place)
            let files := shown.filterMap fun names =>
              SourceFile.ofPath? (root.join ⟨"/".intercalate names⟩)
            .ok (files.mergeSort fun a b => partsLe a.path.parts b.path.parts)
          else .ok (SourceFile.ofPath? root).toList

end StyleAudit.Files
