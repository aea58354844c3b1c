import StyleAudit.Markup.Reference.Table
import StyleAudit.Text.Blank
import StyleAudit.Text.Hex

/-! # Character references

A character reference is `&`, a name or a number, and usually a semicolon. Numbers that stand for no
character are replaced, and some control characters stand for what old encodings had at their place.

* **`scanReference`** — the reference after an ampersand.
* **`decode`** — a text with its references resolved, as in the value of an attribute. -/

namespace StyleAudit.Markup

/-- A named reference. -/
structure Reference where
  name : List Char
  /-- Whether the semicolon may be left out. -/
  lenient : Bool
  value : List Char

/-- Reads code points in hexadecimal joined by `+`; `acc` is the one being read. -/
def readCodePoints (acc : Nat) : List Char → List Char
  | [] => [Char.ofNat acc]
  | c :: cs =>
      if c = '+' then Char.ofNat acc :: readCodePoints 0 cs
      else readCodePoints (acc * 16 + Text.tableDigit c) cs

/-- Reads an entry of the table. -/
def readReference (entry : List Char) : Reference :=
  let lenient := entry.head? == some '*'
  let body := if lenient then entry.drop 1 else entry
  ⟨body.takeWhile (· != '='), lenient, readCodePoints 0 ((body.dropWhile (· != '=')).drop 1)⟩

/-- The named references. -/
def references : List Reference := (Text.words referenceTable.toList).map readReference

/-- The number of characters of the reference `r` at the beginning of `cs`, if it stands there. -/
def Reference.size? (r : Reference) (cs : List Char) : Option Nat :=
  if r.name.isPrefixOf cs then
    if (cs.drop r.name.length).head? == some ';' then some (r.name.length + 1)
    else if r.lenient then some r.name.length
    else none
  else none

/-- The longer of two references with their sizes. -/
def longer (best : Option (Nat × List Char)) (r : Reference) (size : Nat) :
    Option (Nat × List Char) :=
  match best with
  | some (n, v) => if n < size then some (size, r.value) else some (n, v)
  | none => some (size, r.value)

/-- The longest named reference at the beginning of `cs`: its size and its value. -/
def longestReference? (cs : List Char) : Option (Nat × List Char) :=
  references.foldl (fun best r =>
    match r.size? cs with
    | some n => longer best r n
    | none => best) none

/-- What the numbers from 128 to 159 stand for, in order; zero marks those that stand for
themselves. -/
def legacyCodePoints : List Nat :=
  [0x20AC, 0, 0x201A, 0x192, 0x201E, 0x2026, 0x2020, 0x2021, 0x2C6, 0x2030, 0x160, 0x2039, 0x152, 0,
    0x17D, 0, 0, 0x2018, 0x2019, 0x201C, 0x201D, 0x2022, 0x2013, 0x2014, 0x2DC, 0x2122, 0x161, 0x203A,
    0x153, 0, 0x17E, 0x178]

/-- The character that a number stands for. -/
def numberedChar (n : Nat) : Char :=
  if n = 0 ∨ ¬ n.isValidChar then '\ufffd'
  else if 0x80 ≤ n ∧ n ≤ 0x9F then
    let m := legacyCodePoints.getD (n - 0x80) 0
    Char.ofNat (if m = 0 then n else m)
  else Char.ofNat n

/-- Reads a numeric reference after its `#`: the character and the number of characters. -/
def scanNumbered (cs : List Char) : Option (Char × Nat) :=
  let hex := cs.head? == some 'x' || cs.head? == some 'X'
  let digits := if hex then (cs.drop 1).takeWhile fun c => (Text.hexDigit? c).isSome
    else cs.takeWhile Char.isDigit
  if digits.isEmpty then none
  else
    let value := digits.foldl
      (fun acc c => acc * (if hex then 16 else 10) + (Text.hexDigit? c).getD 0) 0
    let size := digits.length + if hex then 1 else 0
    some (numberedChar value, size + if (cs.drop size).head? == some ';' then 1 else 0)

/-- Reads the reference after an ampersand: its value and the number of characters. In an attribute,
a name without semicolon is none if a letter, a digit or `=` follows. -/
def scanReference (inAttribute : Bool) (cs : List Char) : Option (List Char × Nat) :=
  match cs with
  | '#' :: rest => (scanNumbered rest).map fun (c, n) => ([c], n + 1)
  | _ =>
      match longestReference? cs with
      | none => none
      | some (n, value) =>
          let closed := (cs.drop (n - 1)).head? == some ';'
          let extended := (cs.drop n).head?.any fun c => c.isAlphanum || c == '='
          if inAttribute && !closed && extended then none else some (value, n)

/-- Resolves the references of the value of an attribute, after passing over `skip` characters. -/
def decodeFrom : (skip : Nat) → List Char → List Char
  | _, [] => []
  | skip + 1, _ :: cs => decodeFrom skip cs
  | 0, c :: cs =>
      if c = '&' then
        match scanReference true cs with
        | some (value, n) => value ++ decodeFrom n cs
        | none => c :: decodeFrom 0 cs
      else c :: decodeFrom 0 cs

/-- The value of an attribute with its references resolved. -/
def decode (cs : List Char) : List Char := decodeFrom 0 cs

end StyleAudit.Markup
