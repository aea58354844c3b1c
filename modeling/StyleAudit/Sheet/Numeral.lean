import StyleAudit.Decimal.Shortest
import StyleAudit.Sheet.Token

/-! # The text of numbers

A number in a selector is written from its value, not from its digits: the value is computed in
double precision, narrowed to single precision, and written as the shortest decimal of at most six
significant digits. A number that was written with a point or an exponent keeps a point.

* **`Numeral.toFloat`** — the value in double precision.
* **`renderSingle`** — the decimal text of a single-precision value.
* **`Numeral.render`, `Numeral.renderPercent`** — the text of a number and of a percentage. -/

namespace StyleAudit.Sheet

open Decimal

/-- The value of the digits before the point. -/
def wholeValue (ds : List Nat) : Float := ds.foldl (fun acc d => acc * 10 + Float.ofNat d) 0

/-- The value of the digits after the point. -/
def fractionValue (ds : List Nat) : Float :=
  (ds.foldl (fun (acc : Float × Float) d => (acc.1 + Float.ofNat d * acc.2, acc.2 * 0.1)) (0, 0.1)).1

/-- The value of a numeral in double precision. -/
def Numeral.toFloat (n : Numeral) : Float :=
  let sign : Float := if n.sign == some '-' then -1 else 1
  let value := sign * (wholeValue n.whole + fractionValue n.fraction)
  match n.exponent with
  | none => value
  | some (negative, ds) => value * Float.pow 10 ((if negative then -1 else 1) * wholeValue ds)

/-- The parts of a single-precision value. -/
inductive Single where
  | zero (negative : Bool)
  | finite (negative : Bool) (magnitude : Binary)
  | infinite (negative : Bool)
  | nan

/-- The mantissa has 23 bits after its leading one. -/
def hiddenBit : Nat := 0x800000

/-- Takes the bits of a single-precision value apart. -/
def Single.ofBits (bits : UInt32) : Single :=
  let n := bits.toNat
  let negative := n / hiddenBit / 256 == 1
  let exponent : Nat := n / hiddenBit % 256
  let fraction : Nat := n % hiddenBit
  if exponent = 255 then (if fraction = 0 then .infinite negative else .nan)
  else if exponent = 0 then
    (if fraction = 0 then .zero negative else .finite negative ⟨fraction, -149, false⟩)
  else .finite negative ⟨fraction + hiddenBit, (exponent : Int) - 150, fraction == 0 && exponent != 1⟩

/-- Whether `m · 2^q` is a whole number. -/
def isWhole (b : Binary) : Bool := 0 ≤ b.exponent || b.mantissa % down 2 b.exponent == 0

/-- The characters of decimal digits. -/
def digitChars (ds : List Nat) : List Char := ds.map Nat.digitChar

/-- The text of a number, and whether it has a point and an exponent. -/
structure DecimalText where
  chars : List Char
  hasPoint : Bool
  hasExponent : Bool

/-- The positional text of a decimal. -/
def positional (d : Digits) : DecimalText :=
  if d.point ≤ 0 then
    ⟨['0', '.'] ++ List.replicate (-d.point).toNat '0' ++ digitChars d.digits, true, false⟩
  else
    let whole := d.point.toNat
    if d.digits.length ≤ whole then
      ⟨digitChars d.digits ++ List.replicate (whole - d.digits.length) '0', false, false⟩
    else
      ⟨digitChars (d.digits.take whole) ++ '.' :: digitChars (d.digits.drop whole), true, false⟩

/-- Decimals from `10^-6` up to `10^21` are positional; all others have an exponent. The exponent is
chosen before the digits are cut to six. -/
def decimalText (d : Digits) : DecimalText :=
  if -6 < d.point && d.point ≤ 21 then positional (d.roundTo 6)
  else
    let scaled := positional (({ d with point := 1 } : Digits).roundTo 6)
    ⟨scaled.chars ++ 'e' :: (toString (d.point - 1)).toList, scaled.hasPoint, true⟩

/-- The text of a single-precision value. A whole value that was not written as an integer gets
a point and a zero, and a written plus sign is kept. -/
def renderSingle (value : Float32) (isInteger signed : Bool) : List Char :=
  let mark (text : DecimalText) (whole : Bool) : List Char :=
    if !isInteger && whole && !text.hasPoint && !text.hasExponent then text.chars ++ ['.', '0']
    else text.chars
  let lead (negative : Bool) : List Char :=
    if negative then ['-'] else if signed then ['+'] else []
  match Single.ofBits value.toBits with
  | .zero negative => lead negative ++ mark ⟨['0'], false, false⟩ true
  | .finite negative b => lead negative ++ mark (decimalText b.shortest) (isWhole b)
  | .infinite negative => lead negative ++ ['i', 'n', 'f']
  | .nan => ['N', 'a', 'N']

/-- The text of a number. -/
def Numeral.render (n : Numeral) : List Char :=
  renderSingle n.toFloat.toFloat32 n.isInteger n.sign.isSome

/-- The text of a percentage: its value is kept as a fraction of one and multiplied back. -/
def Numeral.renderPercent (n : Numeral) : List Char :=
  renderSingle ((n.toFloat / 100).toFloat32 * 100) n.isInteger n.sign.isSome ++ ['%']

end StyleAudit.Sheet
