/-! # Blank characters

The characters of Unicode's `White_Space` property, and the operations on character
lists that depend on it.

* **`isBlank c`** — `c` has the property.
* **`trim cs`** — `cs` without its leading and trailing blanks.
* **`words cs`** — the maximal blank-free pieces of `cs`, in order. -/

namespace StyleAudit.Text

/-- Membership in Unicode's `White_Space` property. -/
def isBlank (c : Char) : Bool :=
  let n := c.toNat
  (9 ≤ n && n ≤ 13) || n == 0x20 || n == 0x85 || n == 0xA0 || n == 0x1680 ||
    (0x2000 ≤ n && n ≤ 0x200A) || n == 0x2028 || n == 0x2029 || n == 0x202F ||
    n == 0x205F || n == 0x3000

/-- No visible character of ASCII is a blank. -/
theorem isBlank_eq_false {c : Char} (hlow : 0x20 < c.toNat) (hhigh : c.toNat < 0x7F) :
    isBlank c = false := by
  simp only [isBlank, Bool.or_eq_false_iff, Bool.and_eq_false_iff, decide_eq_false_iff_not,
    beq_eq_false_iff_ne]
  omega

/-- `cs` without its leading blanks. -/
def trimStart (cs : List Char) : List Char := cs.dropWhile isBlank

/-- `cs` without its trailing blanks. -/
def trimEnd (cs : List Char) : List Char := (cs.reverse.dropWhile isBlank).reverse

/-- `cs` without its leading and trailing blanks. -/
def trim (cs : List Char) : List Char := trimEnd (trimStart cs)

/-- The word that a text begins with, empty when it begins with a blank, and the words after it. -/
def wordsFrom : List Char → List Char × List (List Char)
  | [] => ([], [])
  | c :: cs =>
      let (word, rest) := wordsFrom cs
      if isBlank c then ([], if word.isEmpty then rest else word :: rest) else (c :: word, rest)

/-- The maximal blank-free pieces of `cs`, in order. -/
def words (cs : List Char) : List (List Char) :=
  let (word, rest) := wordsFrom cs
  if word.isEmpty then rest else word :: rest

/-- A name is not empty and holds no blank. -/
def isName (cs : List Char) : Bool := !cs.isEmpty && !cs.any isBlank

/-- Lower-cases the ASCII letters and leaves every other character alone. -/
def asciiLower (cs : List Char) : List Char := cs.map Char.toLower

/-- Whether `cs` begins with `start`. -/
def startsWith (start cs : List Char) : Bool := start.isPrefixOf cs

end StyleAudit.Text
