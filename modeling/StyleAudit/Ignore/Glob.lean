/-! # Patterns of paths

A pattern is matched against the bytes of a whole path. Stars and question marks do not match
slashes; two stars between slashes match any number of directories.

* **`GlobPart`** — a part of a pattern.
* **`Glob.ofText?`** — reads a pattern.
* **`Glob.accepts`** — whether a pattern matches a path. -/

namespace StyleAudit.Ignore

/-- A part of a pattern. -/
inductive GlobPart where
  /-- A character. -/
  | literal (c : Char)
  /-- Any byte other than a slash. -/
  | any
  /-- Any bytes other than slashes. -/
  | many
  /-- Any number of directories at the front of a pattern. -/
  | anyDepth
  /-- A slash and all that follows. -/
  | allBelow
  /-- A slash, or any number of directories between two. -/
  | between
  /-- A byte that is in one of the ranges, or in none. -/
  | oneOf (negated : Bool) (ranges : List (Char × Char))
  /-- One of several patterns. -/
  | choice (options : List (List GlobPart))
  deriving Repr, Inhabited

/-- A pattern. -/
structure Glob where
  parts : List GlobPart
  deriving Repr, Inhabited

/-- Why a text is no pattern. -/
inductive GlobError where
  /-- A `[` is never closed. -/
  | unclosedClass
  /-- A range ends before it begins. -/
  | invalidRange (first last : Char)
  /-- A closing brace has no opening one. -/
  | unopenedChoice
  /-- An opening brace has no closing one. -/
  | unclosedChoice
  /-- Nothing follows a backslash. -/
  | danglingEscape
  deriving DecidableEq, Repr

/-! ## Reading patterns -/

/-- Reads the ranges of a class up to its `]`. `first` holds before the first member; `ranges` are
those that were read, last one first; `open` holds after the hyphen of a range. Gives the ranges and
the number of characters, or none if the class is never closed. -/
def scanRanges (first isOpen : Bool) (ranges : List (Char × Char)) :
    List Char → Except GlobError (Option (List (Char × Char) × Nat))
  | [] => .ok none
  | c :: cs =>
      let next := fun isOpen ranges =>
        match scanRanges false isOpen ranges cs with
        | .ok (some (rs, n)) => Except.ok (some (rs, n + 1))
        | r => r
      if c = ']' && !first then
        .ok (some ((if isOpen then ('-', '-') :: ranges else ranges).reverse, 1))
      else if c = '-' && !first && !isOpen then next true ranges
      else if isOpen then
        match ranges with
        | (lo, _) :: rs => if c < lo then .error (.invalidRange lo c) else next false ((lo, c) :: rs)
        | [] => next false [(c, c)]
      else next false ((c, c) :: ranges)

/-- What a `[` begins. -/
inductive ClassScan where
  | closed (part : GlobPart) (size : Nat)
  | unclosed

/-- Reads a class after its `[`. -/
def scanClass (cs : List Char) : Except GlobError ClassScan :=
  let negated := cs.head? == some '!' || cs.head? == some '^'
  let skip := if negated then 1 else 0
  match scanRanges true false [] (cs.drop skip) with
  | .ok (some (ranges, n)) => .ok (.closed (.oneOf negated ranges) (n + skip))
  | .ok none => .ok .unclosed
  | .error e => .error e

/-- The part of a pattern that has been read. -/
structure GlobSoFar where
  /-- The alternatives that are open, last one first, each with its last part first. -/
  branches : List (List GlobPart)
  /-- How many branches there were at each open brace, last one first. -/
  starts : List Nat
  /-- Whether a `[` was found to be a plain character. -/
  plainBrackets : Bool

namespace GlobSoFar

/-- Nothing has been read. -/
def start : GlobSoFar := ⟨[[]], [], false⟩

/-- Adds a part to the last branch. -/
def push (s : GlobSoFar) (p : GlobPart) : GlobSoFar :=
  match s.branches with
  | b :: bs => { s with branches := (p :: b) :: bs }
  | [] => { s with branches := [[p]] }

/-- The parts of the last branch, last one first. -/
def branch (s : GlobSoFar) : List GlobPart := s.branches.headD []

/-- Puts a part in the place of the last one; parts that stand for any number of directories stay. -/
def replaceLast (s : GlobSoFar) (p : GlobPart) : GlobSoFar :=
  match s.branches with
  | (.anyDepth :: _) :: _ | (.allBelow :: _) :: _ => s
  | (_ :: b) :: bs => { s with branches := (p :: b) :: bs }
  | _ => s.push p

/-- Reads one or two stars, with the character before the first and those after it: the state, and
the number of characters of `cs` that belong to them. -/
def star (s : GlobSoFar) (before : Option Char) (cs : List Char) : GlobSoFar × Nat :=
  let loose := ((s.push .many).push .many, 1)
  let nested := 2 ≤ s.branches.length
  match cs with
  | '*' :: rest =>
      if s.branch.isEmpty then
        match rest with
        | [] => (s.push .anyDepth, 1)
        | c :: _ => if c = '/' then (s.push .anyDepth, 2) else loose
      else if before != some '/' &&
          (!nested || (before != some ',' && before != some '{')) then loose
      else
        match rest with
        | [] => (s.replaceLast .allBelow, 1)
        | c :: _ =>
            if c = '/' then (s.replaceLast .between, 2)
            else if nested && (c = ',' || c = '}') then (s.replaceLast .allBelow, 1)
            else loose
  | _ => (s.push .many, 0)

/-- Ends the alternatives of the last open brace. -/
def endChoice (s : GlobSoFar) : Except GlobError GlobSoFar :=
  match s.starts with
  | [] => .error .unopenedChoice
  | n :: starts =>
      let count := s.branches.length - n
      let options := (s.branches.take count).reverse.map List.reverse
      .ok ({ s with branches := s.branches.drop count, starts := starts }.push (.choice options))

end GlobSoFar

/-- Reads a pattern, after passing over `skip` characters. With `lenient`, a `[` that is never closed
is a plain character. -/
def scanGlob (lenient : Bool) : (skip : Nat) → (before : Option Char) → GlobSoFar → List Char →
    Except GlobError GlobSoFar
  | _, _, s, [] => .ok s
  | skip + 1, _, s, c :: cs => scanGlob lenient skip (some c) s cs
  | 0, before, s, c :: cs =>
      if c = '?' then scanGlob lenient 0 (some c) (s.push .any) cs
      else if c = '*' then
        let (s, n) := s.star before cs
        scanGlob lenient n (some c) s cs
      else if c = '[' && !s.plainBrackets then
        match scanClass cs with
        | .error e => .error e
        | .ok (.closed p n) => scanGlob lenient n (some c) (s.push p) cs
        | .ok .unclosed =>
            if lenient then
              scanGlob lenient 0 (some c) { s.push (.literal '[') with plainBrackets := true } cs
            else .error .unclosedClass
      else if c = '{' then
        scanGlob lenient 0 (some c)
          { s with branches := [] :: s.branches, starts := s.branches.length :: s.starts } cs
      else if c = '}' then
        match s.endChoice with
        | .ok s => scanGlob lenient 0 (some c) s cs
        | .error e => .error e
      else if c = ',' && !s.starts.isEmpty then
        scanGlob lenient 0 (some c) { s with branches := [] :: s.branches } cs
      else if c = '\\' then
        match cs with
        | [] => .error .danglingEscape
        | d :: _ => scanGlob lenient 1 (some c) (s.push (.literal d)) cs
      else scanGlob lenient 0 (some c) (s.push (.literal c)) cs

/-- Reads a pattern. -/
def Glob.ofText? (lenient : Bool) (text : String) : Except GlobError Glob :=
  match scanGlob lenient 0 none .start text.toList with
  | .error e => .error e
  | .ok s => if s.starts.isEmpty then .ok ⟨s.branch.reverse⟩ else .error .unclosedChoice

/-! ## Matching -/

/-- The bytes of a character. -/
def bytesOf (c : Char) : List UInt8 := (String.singleton c).toUTF8.toList

/-- The byte of a slash. -/
def slash : UInt8 := 47

/-- What follows each slash. -/
def afterSlashes : List UInt8 → List (List UInt8)
  | [] => []
  | b :: bs => if b = slash then bs :: afterSlashes bs else afterSlashes bs

/-- What may follow any bytes. -/
def endings : List UInt8 → List (List UInt8)
  | [] => [[]]
  | b :: bs => (b :: bs) :: endings bs

/-- What may follow any bytes other than slashes. -/
def endingsInPart : List UInt8 → List (List UInt8)
  | [] => [[]]
  | b :: bs => if b = slash then [b :: bs] else (b :: bs) :: endingsInPart bs

/-- Whether a byte is in a range of characters. Characters count by their bytes, so a range runs from
the last byte of its first character to the first byte of its last. -/
def inRange (b : UInt8) (range : Char × Char) : Bool :=
  let lo := bytesOf range.1
  let hi := bytesOf range.2
  if range.1 = range.2 then lo.contains b
  else lo.dropLast.contains b || (lo.getLastD 0 ≤ b && b ≤ hi.headD 0) || hi.tail.contains b

mutual

/-- Whether a part matches only the empty text because it says nothing. -/
def GlobPart.isVoid : GlobPart → Bool
  | .choice options => allVoid options
  | _ => false

/-- Whether all parts of a pattern say nothing. -/
def isVoidAll : List GlobPart → Bool
  | [] => true
  | p :: ps => p.isVoid && isVoidAll ps

/-- Whether all patterns say nothing. -/
def allVoid : List (List GlobPart) → Bool
  | [] => true
  | o :: os => isVoidAll o && allVoid os

end

mutual

/-- What may be left of a text after a part. -/
def GlobPart.rests (bs : List UInt8) : GlobPart → List (List UInt8)
  | .literal c =>
      let start := bytesOf c
      if start.isPrefixOf bs then [bs.drop start.length] else []
  | .any =>
      match bs with
      | b :: rest => if b = slash then [] else [rest]
      | [] => []
  | .many => endingsInPart bs
  | .anyDepth => (bs :: afterSlashes bs).eraseDups
  | .allBelow =>
      match bs with
      | b :: rest => if b = slash then endings rest else []
      | [] => []
  | .between =>
      match bs with
      | b :: rest => if b = slash then rest :: afterSlashes rest else []
      | [] => []
  | .oneOf negated ranges =>
      match bs with
      | b :: rest => if ranges.any (inRange b) != negated then [rest] else []
      | [] => []
  | .choice options =>
      -- Alternatives that say nothing do not count, unless there are no others.
      if allVoid options then [bs] else restsOfChoice bs options

/-- What may be left of a text after all parts of a pattern. -/
def restsOfAll (bs : List UInt8) : List GlobPart → List (List UInt8)
  | [] => [bs]
  | p :: ps => ((p.rests bs).flatMap fun rest => restsOfAll rest ps).eraseDups

/-- What may be left of a text after one of several patterns. -/
def restsOfChoice (bs : List UInt8) : List (List GlobPart) → List (List UInt8)
  | [] => []
  | o :: os => (if isVoidAll o then [] else restsOfAll bs o) ++ restsOfChoice bs os

end

/-- Whether a pattern matches a path. Two stars alone match every path. -/
def Glob.accepts (g : Glob) (path : List UInt8) : Bool :=
  match g.parts with
  | [.anyDepth] => true
  | parts => (restsOfAll path parts).contains []

end StyleAudit.Ignore
