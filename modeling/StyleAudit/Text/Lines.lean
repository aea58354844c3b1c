import StyleAudit.Text.Bytes

/-! # Lines and columns

A line ends with `'\n'`; the last line may have no end. Lines and columns count from one, and
columns count bytes. The line of an offset is searched for among the offsets that lines begin at.

* **`lineStarts cs`** — the offset of the first byte of each line.
* **`search xs x`** — where `x` is, or belongs, in an ordered list.
* **`lineStart n cs`** — where the line that holds offset `n` begins.
* **`Position.of cs n`** — the line and column of offset `n`, which may lie past the end. -/

namespace StyleAudit.Text

/-- The offsets right after each newline of a text that begins at offset `start`. -/
def breaksFrom (start : Nat) : List Char → List Nat
  | [] => []
  | c :: cs =>
      let next := start + c.utf8Size
      if c = '\n' then next :: breaksFrom next cs else breaksFrom next cs

/-- The offset of the first byte of each line, in order. -/
def lineStarts (cs : List Char) : List Nat := 0 :: breaksFrom 0 cs

/-! ## Searching by halves -/

/-- Halves a stretch of an ordered list, which begins at index `base`, until one element is left. The
second half is given up if its first element is greater than `x`, and the first half otherwise. -/
def narrow (xs : List Nat) (x base size : Nat) : Nat :=
  if 1 < size then
    let half := size / 2
    let middle := base + half
    if x < xs.getD middle 0 then narrow xs x base (size - half)
    else narrow xs x middle (size - half)
  else base
termination_by size

/-- Searches an ordered list for `x`: the index of a hit, or, if it is missed, the index where it could
be inserted. -/
def search (xs : List Nat) (x : Nat) : Except Nat Nat :=
  if xs.isEmpty then .error 0
  else
    let i := narrow xs x 0 xs.length
    let found := xs.getD i 0
    if found = x then .ok i
    else if found < x then .error (i + 1)
    else .error i

/-! ## The line of an offset -/

/-- The index of the line that holds offset `n`: the one that begins there, or the one before the first
that begins later. -/
def lineIndex (n : Nat) (cs : List Char) : Nat :=
  match search (lineStarts cs) n with
  | .ok line => line
  | .error line => line - 1

/-- The offset of the first byte of the line that holds offset `n`. -/
def lineStart (n : Nat) (cs : List Char) : Nat :=
  match search (lineStarts cs) n with
  | .ok line => (lineStarts cs).getD line 0
  | .error line => (lineStarts cs).getD (line - 1) 0

/-- A line and a column, each counted from one in 32-bit words. -/
structure Position where
  line : UInt32
  column : UInt32
  deriving DecidableEq, Repr, Inhabited

/-- The line and column of byte offset `n`. -/
def Position.of (cs : List Char) (n : Nat) : Position :=
  let line := lineIndex n cs
  let column := n - (lineStarts cs).getD line 0
  ⟨line.toUInt32 + 1, column.toUInt32 + 1⟩

end StyleAudit.Text
