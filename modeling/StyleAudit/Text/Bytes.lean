/-! # Byte offsets

Positions in a text are offsets into its UTF-8 encoding. A text is a list of characters, and
an offset is a measure on it: the sum of the encoded sizes of the characters before it.

* **`byteSize cs`** — the encoded length of `cs`.
* **`takeBytes n cs`, `dropBytes n cs`** — the two sides of the cut at offset `n`.
* **`slice a b cs`** — the characters between two offsets.
* **`isBoundary n cs`** — offset `n` falls between two characters, or at either end. -/

namespace StyleAudit.Text

/-- The length of the UTF-8 encoding of `cs`. -/
def byteSize : List Char → Nat
  | [] => 0
  | c :: cs => c.utf8Size + byteSize cs

/-- The empty text has no bytes. -/
@[simp] theorem byteSize_nil : byteSize [] = 0 := rfl

/-- Cons reading of `byteSize`. -/
@[simp] theorem byteSize_cons (c : Char) (cs : List Char) :
    byteSize (c :: cs) = c.utf8Size + byteSize cs := rfl

/-- Encoded length is additive. -/
@[simp] theorem byteSize_append (xs ys : List Char) :
    byteSize (xs ++ ys) = byteSize xs + byteSize ys := by
  induction xs with
  | nil => simp
  | cons c cs ih => simp [ih, Nat.add_assoc]

/-- The part of `cs` before byte offset `n`; a cut inside a character keeps that character. -/
def takeBytes : Nat → List Char → List Char
  | _, [] => []
  | n, c :: cs => if n = 0 then [] else c :: takeBytes (n - c.utf8Size) cs

/-- The part of `cs` from byte offset `n` on; a cut inside a character drops that character. -/
def dropBytes : Nat → List Char → List Char
  | _, [] => []
  | n, c :: cs => if n = 0 then c :: cs else dropBytes (n - c.utf8Size) cs

/-- The two sides of a cut make up the whole text. -/
theorem takeBytes_append_dropBytes (n : Nat) (cs : List Char) :
    takeBytes n cs ++ dropBytes n cs = cs := by
  induction cs generalizing n with
  | nil => simp [takeBytes, dropBytes]
  | cons c cs ih =>
      by_cases h : n = 0
      · simp [takeBytes, dropBytes, h]
      · simp [takeBytes, dropBytes, h, ih]

/-- The characters of `cs` between byte offsets `a` and `b`. -/
def slice (a b : Nat) (cs : List Char) : List Char := takeBytes (b - a) (dropBytes a cs)

/-- Whether byte offset `n` falls between two characters of `cs`, or at either end. -/
def isBoundary : Nat → List Char → Bool
  | 0, _ => true
  | _ + 1, [] => false
  | n + 1, c :: cs => c.utf8Size ≤ n + 1 && isBoundary (n + 1 - c.utf8Size) cs

end StyleAudit.Text
