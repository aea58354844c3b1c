/-! # Paths

A path is a text whose parts are divided by slashes. Its parts are what it means: empty parts and
dots inside it say nothing, so differently written paths may have the same parts.

* **`Path.parts`** — the parts of a path.
* **`Path.join`** — one path after another.
* **`Path.extension?`** — what follows the last dot of the last name.
* **`Path.within`** — a path as seen from a directory above it.
* **`relative?`** — the parts that lead from one directory to another place.
* **`Path.wayFrom?`** — the relative path that they make. -/

namespace StyleAudit.Files

/-- A part of a path. -/
inductive Part where
  /-- The slash that an absolute path begins with. -/
  | root
  /-- The dot that a path begins with. -/
  | current
  | parent
  | name (text : String)
  deriving DecidableEq, Repr, Inhabited

namespace Part

/-- The kinds of parts in the order in which they sort. -/
def rank : Part → Nat
  | root => 0
  | current => 1
  | parent => 2
  | name _ => 3

/-- The name of a part; other parts have none. -/
def label : Part → String
  | name t => t
  | _ => ""

/-- Parts sort by kind, names by their characters. -/
def before (p q : Part) : Bool := p.rank < q.rank || (p.rank == q.rank && p.label < q.label)

/-- Whether a part leads somewhere: it is neither the slash nor the dot that a path begins with. -/
def isStep : Part → Bool
  | root | current => false
  | parent | name _ => true

/-- The spelling of a part inside a path. -/
def spelling : Part → String
  | root => ""
  | current => "."
  | parent => ".."
  | name t => t

end Part

/-- Whether one list of parts sorts before or with another. -/
def partsLe : List Part → List Part → Bool
  | [], _ => true
  | _ :: _, [] => false
  | p :: ps, q :: qs => p.before q || (p == q && partsLe ps qs)

/-- The pieces of a text between its slashes. -/
def pieces : List Char → List (List Char)
  | [] => [[]]
  | c :: cs =>
      if c = '/' then [] :: pieces cs
      else match pieces cs with
        | p :: ps => (c :: p) :: ps
        | [] => [[c]]

/-- Whether a piece says nothing. -/
def isIdle (piece : List Char) : Bool := piece == [] || piece == ['.']

/-- The part that a piece stands for. -/
def Part.ofPiece? (piece : List Char) : Option Part :=
  if isIdle piece then none
  else if piece = ['.', '.'] then some .parent
  else some (.name (String.ofList piece))

/-- A path as it is written. -/
structure Path where
  text : String
  deriving DecidableEq, Repr, Inhabited

namespace Path

/-- Whether a path begins at the root. -/
def isAbsolute (p : Path) : Bool := p.text.toList.head? == some '/'

/-- The parts of a path. -/
def parts (p : Path) : List Part :=
  let cs := p.text.toList
  let body := (pieces cs).filterMap Part.ofPiece?
  if p.isAbsolute then .root :: body
  else match pieces cs with
    | ['.'] :: _ => .current :: body
    | _ => body

/-- The path `q`, read from `p`. -/
def join (p q : Path) : Path :=
  if q.isAbsolute then q
  else if p.text.isEmpty || p.text.toList.getLast? == some '/' then ⟨p.text ++ q.text⟩
  else ⟨p.text ++ "/" ++ q.text⟩

/-- The last name of a path, if it ends with one. -/
def name? (p : Path) : Option String :=
  match p.parts.getLast? with
  | some (.name t) => some t
  | _ => none

/-- What follows the last dot of the last name, unless the name begins with that dot. -/
def extension? (p : Path) : Option String :=
  p.name?.bind fun name =>
    let backwards := name.toList.reverse
    let last := backwards.takeWhile (· != '.')
    match backwards.drop last.length with
    | _ :: _ :: _ => some (String.ofList last.reverse)
    | _ => none

/-- Drops the pieces of the first `n` parts. -/
def dropPieces : Nat → List (List Char) → List (List Char)
  | 0, ps => ps
  | _ + 1, [] => []
  | n + 1, p :: ps => if isIdle p then dropPieces (n + 1) ps else dropPieces n ps

/-- The pieces up to the last one that says something. -/
def trimPieces (ps : List (List Char)) : List (List Char) := (ps.reverse.dropWhile isIdle).reverse

/-- A path without the pieces at its end that say nothing. -/
def trimEnd (p : Path) : Path :=
  let ps := pieces p.text.toList
  let rest := trimPieces ps.tail
  if rest.isEmpty && p.isAbsolute then ⟨"/"⟩
  else ⟨String.ofList (['/'].intercalate (ps.take 1 ++ rest))⟩

/-- What is left of a path after its first `n` names, as it is written. -/
def dropNames (p : Path) (n : Nat) : Path :=
  let rest := (dropPieces n (pieces p.text.toList)).dropWhile isIdle
  ⟨String.ofList (['/'].intercalate (trimPieces rest))⟩

/-- A path as seen from `base`; a path that does not lie in it stays as it is. -/
def within (base p : Path) : Path :=
  let start := base.parts
  if start.isPrefixOf p.parts then
    if start.isEmpty then p.trimEnd else p.dropNames (start.countP Part.isStep)
  else p

end Path

/-- What is left of two lists after their common beginning, and how long that is. -/
def splitCommon : List Part → List Part → Nat × List Part × List Part
  | p :: ps, q :: qs =>
      if p = q then
        let (n, ps, qs) := splitCommon ps qs
        (n + 1, ps, qs)
      else (0, p :: ps, q :: qs)
  | ps, qs => (0, ps, qs)

/-- The parts that lead from the directory `base` to `target`; none if they have no common
beginning. -/
def relative? (target base : List Part) : Option (List Part) :=
  match splitCommon target base with
  | (0, _, _) => none
  | (_, down, up) => some (up.map (fun _ => Part.parent) ++ down.filter Part.isStep)

/-- A relative path with the given parts; without parts, the place itself. -/
def Path.ofParts (parts : List Part) : Path :=
  if parts.isEmpty then ⟨"."⟩ else ⟨"/".intercalate (parts.map Part.spelling)⟩

/-- The relative path that leads from the directory `base` to a path; none if they have no common
beginning. -/
def Path.wayFrom? (p base : Path) : Option Path := (relative? p.parts base.parts).map Path.ofParts

end StyleAudit.Files
