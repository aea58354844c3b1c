import StyleAudit.Files.Path

/-! # Trees of files

The files that a project is made of. A place in the tree is given by the names that lead to it from
the root. All directories on the way to a file are in the tree too.

* **`FileTree`** — files and directories by place.
* **`FileTree.put`, `remove`, `make`** — changes.
* **`FileTree.resolve`** — the place that a path leads to.
* **`FileTree.textAt?`** — the text of a file. -/

namespace StyleAudit.Files

/-- The names that lead to a place from the root. -/
abbrev Location := List String

/-- The places on the way to a place, from the root on, and the place itself. -/
def beginnings : Location → List Location
  | [] => [[]]
  | n :: ns => [] :: (beginnings ns).map (n :: ·)

/-- What a file holds: a text, or bytes that are no text. -/
inductive Content where
  | text (text : String)
  | bytes (bytes : List UInt8)
  deriving DecidableEq, Inhabited

/-- The content that bytes make. -/
def Content.ofBytes (bytes : ByteArray) : Content :=
  match String.fromUTF8? bytes with
  | some t => .text t
  | none => .bytes bytes.toList

/-- A file or a directory. -/
inductive Entry where
  | file (content : Content)
  | directory
  deriving DecidableEq, Inhabited

/-- Files and directories by place. -/
structure FileTree where
  entries : List (Location × Entry)
  deriving Inhabited

/-- Why a path leads nowhere. -/
inductive LookupError where
  | notFound
  | notDirectory
  deriving DecidableEq, Repr

/-- The wording of a lookup error. -/
def LookupError.message : LookupError → String
  | notFound => "No such file or directory (os error 2)"
  | notDirectory => "Not a directory (os error 20)"

namespace FileTree

/-- The tree without files. -/
def empty : FileTree := ⟨[]⟩

/-- What stands at a place. -/
def get? (t : FileTree) (l : Location) : Option Entry :=
  if l.isEmpty then some .directory else t.entries.lookup l

/-- Whether there is something at a place. -/
def has (t : FileTree) (l : Location) : Bool := (t.get? l).isSome

/-- Whether there is a directory at a place. -/
def isDirectory (t : FileTree) (l : Location) : Bool := t.get? l == some .directory

/-- The content of the file at a place. -/
def file? (t : FileTree) (l : Location) : Option Content :=
  match t.get? l with
  | some (.file c) => some c
  | _ => none

/-- The text of the file at a place. -/
def textAt? (t : FileTree) (l : Location) : Option String :=
  match t.file? l with
  | some (.text s) => some s
  | _ => none

/-- Puts something at a place, where it replaces what was there. -/
def put (t : FileTree) (l : Location) (e : Entry) : FileTree :=
  if t.entries.any (·.1 == l) then
    ⟨t.entries.map fun (k, f) => if k = l then (k, e) else (k, f)⟩
  else ⟨t.entries ++ [(l, e)]⟩

/-- Takes away what is at a place. -/
def remove (t : FileTree) (l : Location) : FileTree := ⟨t.entries.filter (·.1 != l)⟩

/-- Makes the directories on the way to a place. -/
def makeWay (t : FileTree) (l : Location) : FileTree :=
  (beginnings l.dropLast).foldl (fun t d => if t.has d then t else t.put d .directory) t

/-- Puts something at a place, with the directories on the way to it. -/
def make (t : FileTree) (l : Location) (e : Entry) : FileTree := (t.makeWay l).put l e

/-- The files of a tree that lie in a directory, by the names that lead to them from there. -/
def filesIn (t : FileTree) (l : Location) : List Location :=
  t.entries.filterMap fun (k, e) =>
    match e with
    | .file _ => if l.isPrefixOf k && k.length != l.length then some (k.drop l.length) else none
    | .directory => none

/-- Follows one part of a path. -/
def follow (t : FileTree) (l : Location) (p : Part) : Except LookupError Location :=
  match p with
  | .root => .ok []
  | .current => if t.isDirectory l then .ok l else .error .notDirectory
  | .parent => if t.isDirectory l then .ok l.dropLast else .error .notDirectory
  | .name n =>
      if !t.isDirectory l then .error .notDirectory
      else if t.has (l ++ [n]) then .ok (l ++ [n])
      else .error .notFound

/-- The place that a path leads to from the directory `here`. A path that ends with a slash leads
to directories only. -/
def resolve (t : FileTree) (here : Location) (p : Path) : Except LookupError Location := do
  if p.text.isEmpty then throw .notFound
  let l ← p.parts.foldlM t.follow here
  if (pieces p.text.toList).getLast?.any isIdle && !t.isDirectory l then throw .notDirectory
  return l

/-- The text of the file that a path leads to. -/
def read? (t : FileTree) (here : Location) (p : Path) : Option String :=
  match t.resolve here p with
  | .ok l => t.textAt? l
  | .error _ => none

/-- Writes a text to the place that a path leads to; none if there is no place for a file. -/
def write? (t : FileTree) (here : Location) (p : Path) (text : String) : Option FileTree :=
  match t.resolve here p with
  | .ok l => if t.isDirectory l then none else some (t.put l (.file (.text text)))
  | .error _ =>
      match p.parts.getLast?, p.parts.dropLast.foldlM t.follow here with
      | some (.name n), .ok d =>
          if t.isDirectory d && !t.has (d ++ [n]) then some (t.put (d ++ [n]) (.file (.text text)))
          else none
      | _, _ => none

end FileTree

/-- The absolute path of a place. -/
def Path.ofLocation (l : Location) : Path := ⟨"/" ++ "/".intercalate l⟩

end StyleAudit.Files
