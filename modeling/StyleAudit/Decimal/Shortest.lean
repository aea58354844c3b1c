/-! # The shortest decimal that reads back

A binary floating-point value `m · 2^q` stands for an interval of reals, all of which round to it.
The shortest decimal is the one with the fewest digits in that interval, and the nearest to the
value among those.

* **`Binary`** — a positive value `m · 2^q` and how far its interval reaches down.
* **`Binary.shortest`** — its shortest decimal, as digits and the place of the point. -/

namespace StyleAudit.Decimal

/-- A positive binary value `m · 2^q`. The gap below the least mantissa of a binade is half the
gap above it, which `atBinadeStart` records. -/
structure Binary where
  mantissa : Nat
  exponent : Int
  atBinadeStart : Bool
  deriving DecidableEq, Repr

/-- A decimal value `0.d₁d₂… · 10^point`. -/
structure Digits where
  digits : List Nat
  point : Int
  deriving DecidableEq, Repr

/-- `2^e` and `10^e` as a factor of a numerator. -/
def up (base : Nat) (e : Int) : Nat := Nat.pow base e.toNat

/-- `2^e` and `10^e` as a factor of a denominator. -/
def down (base : Nat) (e : Int) : Nat := Nat.pow base (-e).toNat

/-- The decimal digits of a number, most significant first. -/
def digitsOf (n : Nat) : List Nat := (Nat.toDigits 10 n).map (·.toNat - 48)

namespace Binary

/-- The least `e` such that the value is below `10^e`; the value must be at least `10^-60`. -/
def magnitude (b : Binary) : Int :=
  let scaled := b.mantissa * up 2 b.exponent * Nat.pow 10 60 / down 2 b.exponent
  (Nat.toDigits 10 scaled).length - 60

/-- The nearest multiple of `10^grid` to the value among the two around it that lie in the
interval, as a count of `10^grid`. -/
def onGrid? (b : Binary) (grid : Int) : Option Nat :=
  let scale := up 2 b.exponent * down 10 grid
  let unit := 4 * up 10 grid * down 2 b.exponent
  let value := 4 * b.mantissa * scale
  let low := (4 * b.mantissa - if b.atBinadeStart then 1 else 2) * scale
  let high := (4 * b.mantissa + 2) * scale
  let inside (d : Nat) : Bool :=
    if b.mantissa % 2 = 0 then low ≤ d * unit && d * unit ≤ high
    else low < d * unit && d * unit < high
  let below := value / unit
  let above := below + 1
  match inside below, inside above with
  | true, true => some (if 2 * value ≤ (below + above) * unit then below else above)
  | true, false => some below
  | false, true => some above
  | false, false => none

/-- Tries grids of `n`, `n + 1`, … digits, `fuel` of them. -/
def search (b : Binary) (magnitude : Int) (n : Nat) : (fuel : Nat) → Digits
  | 0 => ⟨[], 0⟩
  | fuel + 1 =>
      let grid := magnitude - n
      match b.onGrid? grid with
      | some d => if d = 0 then search b magnitude (n + 1) fuel
          else
            let ds := digitsOf d
            ⟨(ds.reverse.dropWhile (· == 0)).reverse, grid + ds.length⟩
      | none => search b magnitude (n + 1) fuel

/-- The shortest decimal that reads back as the value. Seventeen digits always suffice for a
mantissa of at most 53 bits. -/
def shortest (b : Binary) : Digits := search b b.magnitude 1 17

end Binary

/-- Rounds to at most `n` digits, halves away from zero, and drops trailing zeros. A carry out of
the first digit moves the point. -/
def Digits.roundTo (n : Nat) (d : Digits) : Digits :=
  if d.digits.length ≤ n then d
  else
    let kept := (d.digits.take n).foldl (fun acc x => acc * 10 + x) 0
    let rounded := if 5 ≤ d.digits.getD n 0 then kept + 1 else kept
    let ds := digitsOf rounded
    ⟨(ds.reverse.dropWhile (· == 0)).reverse, d.point + (ds.length - n : Int)⟩

end StyleAudit.Decimal
