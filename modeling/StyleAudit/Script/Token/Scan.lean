import StyleAudit.Script.Token
import StyleAudit.Text.Hex
import StyleAudit.Text.Identifier

/-! # Reading script tokens

Each scanner takes the characters ahead and returns what it read and the characters that are left.
Where an escape takes more than one character, a skip counter passes over the rest of it, so that
every scanner is structurally recursive.

What a `/`, a `}` or a quote begins depends on the grammar, so the scanners for regular
expressions, template parts and markup strings are called by the parser where it expects them.

* **`skipTrivia`** — blanks, line breaks and comments.
* **`scanWord`, `scanString`, `scanNumber`, `scanTemplate`, `scanRegex`** — the kinds of token.
* **`scanToken`** — the token that begins a text. -/

namespace StyleAudit.Script

/-! ## Blanks and comments -/

/-- The characters that end a line. -/
def isLineEnd (c : Char) : Bool := c == '\n' || c == '\r' || c == '\u2028' || c == '\u2029'

/-- The blanks other than line ends. -/
def isGap (c : Char) : Bool :=
  let n := c.toNat
  n == 0x20 || n == 9 || n == 0x0b || n == 0x0c || n == 0x85 || n == 0xA0 || n == 0xFEFF ||
    n == 0x1680 || n == 0x180E || (0x2000 ≤ n && n ≤ 0x200B) || n == 0x202F || n == 0x205F ||
    n == 0x3000

/-- What the characters between two tokens belong to. -/
inductive Trivia where
  | gap
  | lineComment
  /-- At the star that opens a block comment, which does not close it. -/
  | blockStart
  | blockComment
  /-- In a block comment, right after a star. -/
  | blockStar
  deriving DecidableEq

/-- What a slash between two tokens begins when `cs` follows it: a comment or nothing. -/
def commentAhead : List Char → Option Trivia
  | '/' :: _ => some .lineComment
  | '*' :: _ => some .blockStart
  | _ => none

/-- Passes over blanks and comments: whether a line end was among them, and what is left. None when
a comment has no end. -/
def skipTrivia (mode : Trivia) (newline : Bool) : List Char → Option (Bool × List Char)
  | [] => if mode = .gap ∨ mode = .lineComment then some (newline, []) else none
  | c :: cs =>
      match mode with
      | .gap =>
          if isLineEnd c then skipTrivia .gap true cs
          else if isGap c then skipTrivia .gap newline cs
          else if c = '/' then
            match commentAhead cs with
            | some comment => skipTrivia comment newline cs
            | none => some (newline, c :: cs)
          else some (newline, c :: cs)
      | .lineComment =>
          if isLineEnd c then skipTrivia .gap true cs else skipTrivia .lineComment newline cs
      | .blockStart => skipTrivia .blockComment newline cs
      | .blockComment =>
          skipTrivia (if c = '*' then .blockStar else .blockComment) (newline || isLineEnd c) cs
      | .blockStar =>
          if c = '/' then skipTrivia .gap newline cs
          else
            skipTrivia (if c = '*' then .blockStar else .blockComment) (newline || isLineEnd c) cs

/-! ## Escapes -/

/-- Reads the digits of `\u{…}` up to the brace: the value and the number of characters. -/
def scanBraced (acc : Nat) : List Char → Option (Nat × Nat)
  | [] => none
  | '}' :: _ => some (acc, 1)
  | c :: cs =>
      match Text.hexDigit? c with
      | some d =>
          if acc * 16 + d ≤ 0x10FFFF then
            (scanBraced (acc * 16 + d) cs).map fun (v, k) => (v, k + 1)
          else none
      | none => none

/-- Reads what follows the backslash of a Unicode escape: the value and the number of
characters. -/
def scanUnicodeEscape : List Char → Option (Nat × Nat)
  | 'u' :: '{' :: '}' :: _ => none
  | 'u' :: '{' :: cs => (scanBraced 0 cs).map fun (v, k) => (v, k + 2)
  | 'u' :: a :: b :: c :: d :: _ => (Text.hexValue? 0 [a, b, c, d]).map fun v => (v, 5)
  | _ => none

/-- The value of an octal digit. -/
def octalDigit? (c : Char) : Option Nat :=
  if '0' ≤ c && c ≤ '7' then some (c.toNat - 48) else none

/-- Reads at most `n` octal digits while the value stays below 256: the value and the number of
characters. -/
def scanOctal : Nat → Nat → List Char → Nat × Nat
  | n + 1, acc, c :: cs =>
      match octalDigit? c with
      | some d =>
          if acc * 8 + d < 256 then
            let (v, k) := scanOctal n (acc * 8 + d) cs
            (v, k + 1)
          else (acc, 0)
      | none => (acc, 0)
  | _, acc, _ => (acc, 0)

/-- A code unit that begins a surrogate pair. -/
def isHighHalf (n : Nat) : Bool := 0xD800 ≤ n && n ≤ 0xDBFF

/-- A code unit that ends a surrogate pair. -/
def isLowHalf (n : Nat) : Bool := 0xDC00 ≤ n && n ≤ 0xDFFF

/-- Reads what follows the backslash of a Unicode escape in a string: the value and the number of
characters. Two escapes of four digits each that are the halves of a pair are read as one. -/
def scanPair (cs : List Char) : Option (Nat × Nat) :=
  (scanUnicodeEscape cs).map fun (a, k) =>
    match cs.drop k with
    | '\\' :: rest =>
        match scanUnicodeEscape rest with
        | some (b, l) =>
            if isHighHalf a && isLowHalf b && k == 5 && l == 5 then
              (0x10000 + (a - 0xD800) * 0x400 + (b - 0xDC00), k + 1 + l)
            else (a, k)
        | none => (a, k)
    | _ => (a, k)

/-- Reads what follows a backslash in a string: the code points meant and the number of characters. -/
def scanEscape : List Char → Option (List Nat × Nat)
  | [] => none
  | c :: cs =>
      match c with
      | 'n' => some ([10], 1)
      | 't' => some ([9], 1)
      | 'b' => some ([8], 1)
      | 'v' => some ([11], 1)
      | 'f' => some ([12], 1)
      | 'r' => some ([13], 1)
      | '\r' => some ([], if cs.head? = some '\n' then 2 else 1)
      | 'x' => (Text.hexValue? 0 (cs.take 2)).bind fun v =>
          if 2 ≤ cs.length then some ([v], 3) else none
      | 'u' => (scanPair (c :: cs)).map fun (v, k) => ([v], k)
      | _ =>
          if isLineEnd c then some ([], 1)
          else if (octalDigit? c).isSome then
            let (v, k) := scanOctal 3 0 (c :: cs)
            some ([v], k)
          else some ([c.toNat], 1)

/-! ## Words -/

/-- A word as it was read. -/
structure ScannedWord where
  chars : List Char
  escaped : Bool
  valid : Bool
  rest : List Char

/-- Reads the rest of a word after passing over `skip` characters. -/
def scanWordFrom (first : Bool) : (skip : Nat) → List Char → ScannedWord
  | _, [] => ⟨[], false, true, []⟩
  | skip + 1, _ :: cs => scanWordFrom first skip cs
  | 0, c :: cs =>
      let allowed (d : Char) : Bool :=
        if first then Text.isIdentifierStart d else Text.isIdentifierPart d
      if allowed c then
        let w := scanWordFrom false 0 cs
        { w with chars := c :: w.chars }
      else if c = '\\' then
        match scanUnicodeEscape cs with
        | some (n, k) =>
            let d := Char.ofNat n
            let w := scanWordFrom false k cs
            { w with chars := d :: w.chars, escaped := true, valid := w.valid && allowed d }
        | none => ⟨[], true, false, cs⟩
      else ⟨[], false, true, c :: cs⟩

/-- Reads a word. -/
def scanWord (cs : List Char) : ScannedWord := scanWordFrom true 0 cs

/-! ## Strings -/

/-- Reads a string after its quote, passing over `skip` characters first: its code points, and
what is left. None when the string has no end on its line or holds a malformed escape. -/
def scanStringFrom (quote : Char) : (skip : Nat) → List Char → Option (List Nat × List Char)
  | _, [] => none
  | skip + 1, _ :: cs => scanStringFrom quote skip cs
  | 0, c :: cs =>
      if c = quote then some ([], cs)
      else if c = '\n' || c = '\r' then none
      else if c = '\\' then
        match scanEscape cs with
        | some (points, k) => (scanStringFrom quote k cs).map fun (v, r) => (points ++ v, r)
        | none => none
      else (scanStringFrom quote 0 cs).map fun (v, r) => (c.toNat :: v, r)

/-- Four hexadecimal digits. -/
def fourDigits (n : Nat) : List Char :=
  let ds := Nat.toDigits 16 n
  List.replicate (4 - ds.length) '0' ++ ds

/-- The text of a list of code points. When one of them is half a pair without its other half, it is
written as a replacement character and its four digits, and so is every replacement character. -/
def textOfPoints (points : List Nat) : List Char :=
  if points.any fun n => isHighHalf n || isLowHalf n then
    points.flatMap fun n =>
      if isHighHalf n || isLowHalf n || n == 0xFFFD then '\ufffd' :: fourDigits n
      else [Char.ofNat n]
  else points.map Char.ofNat

/-! ## Numbers -/

/-- Reads digits with separators between them. None when a separator is not between two digits. -/
def scanDigits (ok : Char → Bool) (afterDigit : Bool) : List Char → Option (List Char)
  | [] => some []
  | c :: cs =>
      if c = '_' then
        if afterDigit && (cs.head?.any ok) then scanDigits ok false cs else none
      else if ok c then scanDigits ok true cs
      else some (c :: cs)

/-- Reads digits of which there must be at least one. -/
def scanDigits1 (ok : Char → Bool) (cs : List Char) : Option (List Char) :=
  if cs.head?.any ok then scanDigits ok false cs else none

/-- No digit, letter or escape may follow a number directly. -/
def endNumber (cs : List Char) : Option (List Char) :=
  if cs.head?.any fun c => c.isDigit || Text.isIdentifierStart c || c == '\\' then none
  else some cs

/-- Reads the `n` that makes an integer a big integer. -/
def scanBigSuffix : List Char → List Char
  | 'n' :: cs => cs
  | cs => cs

/-- Reads an exponent if there is one. -/
def scanExponent : List Char → Option (List Char)
  | c :: cs =>
      if c = 'e' || c = 'E' then
        match cs with
        | '+' :: ds | '-' :: ds => scanDigits1 Char.isDigit ds
        | ds => scanDigits1 Char.isDigit ds
      else some (c :: cs)
  | [] => some []

/-- Reads what follows the integer part of a decimal number. -/
def scanDecimalTail : List Char → Option (List Char)
  | '.' :: cs =>
      if cs.head? = some '_' then none
      else (scanDigits Char.isDigit false cs).bind scanExponent
  | 'n' :: cs => some cs
  | cs => scanExponent cs

/-- Reads a number: what is left, or none when it is malformed. -/
def scanNumber (cs : List Char) : Option (List Char) :=
  let read : Option (List Char) :=
    match cs with
    | '0' :: c :: rest =>
        if c = 'x' || c = 'X' then
          (scanDigits1 (fun d => (Text.hexDigit? d).isSome) rest).map scanBigSuffix
        else if c = 'o' || c = 'O' then
          (scanDigits1 (fun d => (octalDigit? d).isSome) rest).map scanBigSuffix
        else if c = 'b' || c = 'B' then
          (scanDigits1 (fun d => d == '0' || d == '1') rest).map scanBigSuffix
        else if c = '_' then none
        else if c.isDigit then
          let digits := (c :: rest).takeWhile Char.isDigit
          let left := (c :: rest).dropWhile Char.isDigit
          if digits.all fun d => (octalDigit? d).isSome then some left
          else if left.head? = some 'n' then none
          else scanDecimalTail left
        else scanDecimalTail (c :: rest)
    | '.' :: rest => (scanDigits1 Char.isDigit rest).bind scanExponent
    | _ => (scanDigits Char.isDigit false cs).bind scanDecimalTail
  read.bind endNumber

/-! ## Templates and regular expressions -/

/-- Whether the escape after a backslash is well formed in a template, where octal escapes are
not. -/
def isTemplateEscape : List Char → Bool
  | '0' :: cs => !(cs.head?.any Char.isDigit)
  | c :: cs => !c.isDigit && (scanEscape (c :: cs)).isSome
  | [] => false

/-- Reads a part of a template, passing over `skip` characters first: whether a backtick ends it,
whether its escapes are well formed, and what is left. -/
def scanTemplateFrom : (skip : Nat) → List Char → Option (Bool × Bool × List Char)
  | _, [] => none
  | skip + 1, _ :: cs => scanTemplateFrom skip cs
  | 0, c :: cs =>
      if c = '`' then some (true, true, cs)
      else
        match c, cs with
        | '$', '{' :: rest => some (false, true, rest)
        | '\\', _ =>
            let sound := isTemplateEscape cs
            (scanTemplateFrom 1 cs).map fun (last, ok, r) => (last, ok && sound, r)
        | _, _ => scanTemplateFrom 0 cs

/-- The token of a template part after its backtick or brace, and what is left. -/
def scanTemplate (cs : List Char) : Token × List Char :=
  match scanTemplateFrom 0 cs with
  | some (last, sound, rest) => (.template last sound, rest)
  | none => (.invalid, [])

/-- Reads the body of a regular expression through its closing slash. A slash in a class and
a character after a backslash do not end it. -/
def scanRegexBody (inClass escaped : Bool) : List Char → Option (List Char)
  | [] => none
  | c :: cs =>
      if isLineEnd c then none
      else if escaped then scanRegexBody inClass false cs
      else if c = '/' && !inClass then some cs
      else
        scanRegexBody (if c = '[' then true else if c = ']' then false else inClass) (c = '\\') cs

/-- The flags of a regular expression. -/
def regexFlags : List Char := ['d', 'g', 'i', 'm', 's', 'u', 'v', 'y']

/-- Whether a list of flags is one: each is known and stands once, and the two that choose how
characters are read exclude each other. -/
def areRegexFlags (flags : List Char) : Bool :=
  flags.all regexFlags.contains && decide flags.Nodup && !(flags.contains 'u' && flags.contains 'v')

/-- Reads a regular expression after its opening slash: what is left. -/
def scanRegex (cs : List Char) : Option (List Char) :=
  (scanRegexBody false false cs).bind fun rest =>
    let flags := rest.takeWhile Text.isIdentifierPart
    if areRegexFlags flags then
      some (rest.dropWhile Text.isIdentifierPart)
    else none

/-! ## Marks -/

/-- The marks, longer ones before their beginnings. A `>` stands alone: whether more of them form an
operator depends on the grammar. -/
def marks : List (List Char) :=
  ["...", "===", "!==", "**=", "<<=", "&&=", "||=", "??=", "=>", "==", "!=", "<=", "<<", "&&", "||",
    "??", "?.", "++", "--", "+=", "-=", "*=", "/=", "%=", "&=", "|=", "^=", "**", openBrace, closeBrace, "(", ")",
    "[", "]", ";", ",", "<", ">", "+", "-", "*", "/", "%", "&", "|", "^", "!", "~", "?", ":", "=",
    "@", "."].map String.toList

/-- The operators that begin with `>`, longest first. -/
def angleMarks : List (List Char) := [">>>=", ">>>", ">>=", ">>", ">=", ">"].map String.toList

/-- Reads the first of `ms` that the text begins with. -/
def scanMark (ms : List (List Char)) (cs : List Char) : Token × List Char :=
  match ms.find? (·.isPrefixOf cs) with
  | some m => (.mark (String.ofList m), cs.drop m.length)
  | none => (.invalid, [])

/-- The token that a text begins with, and what is left. -/
def scanToken : List Char → Token × List Char
  | [] => (.done, [])
  | c :: cs =>
      if Text.isIdentifierStart c || c = '\\' then
        let w := scanWord (c :: cs)
        if w.valid then (.word (String.ofList w.chars) w.escaped, w.rest) else (.invalid, [])
      else if c.isDigit || (c = '.' && cs.head?.any Char.isDigit) then
        match scanNumber (c :: cs) with
        | some rest => (.number, rest)
        | none => (.invalid, [])
      else if c = '"' || c = '\'' then
        match scanStringFrom c 0 cs with
        | some (points, rest) => (.string (String.ofList (textOfPoints points)), rest)
        | none => (.invalid, [])
      else if c = '`' then scanTemplate cs
      else if c = '#' then
        let w := scanWord cs
        if w.valid && !w.chars.isEmpty then (.privateName (String.ofList w.chars), w.rest)
        else (.invalid, [])
      else
        match c, cs with
        | '?', '.' :: d :: _ => if d.isDigit then (.mark "?", cs) else (.mark "?.", cs.drop 1)
        | _, _ => scanMark marks (c :: cs)

end StyleAudit.Script
