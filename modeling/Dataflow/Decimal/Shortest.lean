/-!
# The shortest decimal of a binary fraction

A binary floating-point number `m · 2^q` stands for every real that rounds to it, an interval around
it that reaches half-way to its neighbours.  Its shortest decimal is the one of fewest digits in
that interval, and of those the nearest; of two equally near the one that ends in an even digit.

Whether a decimal with `n` digits exists is decided on the grid of multiples of `10^k` that gives
`n` digits: if any point of the grid lies in the interval, then so does one of the two next to the
number.  Everything is exact arithmetic on natural numbers; both sides of a comparison are
multiplied by the same powers of two and ten.
-/

namespace Dataflow

/-- The decimal `digits · 10^exponent`. -/
structure Decimal where
  digits : Nat
  exponent : Int
deriving DecidableEq, Repr

namespace Decimal

/-- The positive number `mantissa · 2^exponent`, and whether its lower neighbour is nearer than its
upper one. -/
structure Binary where
  mantissa : Nat
  exponent : Int
  narrowBelow : Bool
deriving DecidableEq, Repr

/-- The integer and the fraction of a floating-point number's bits, without its sign; `none` for
zero and for what is not finite. -/
def Binary.ofFloat? (x : Float) : Option Binary :=
  let bits : Nat := x.toBits.toNat % (UInt64.size / 2)
  let fraction : Nat := bits % Nat.pow 2 52
  let level : Nat := bits / Nat.pow 2 52
  if level = 2047 then none
  else if level = 0 then
    if fraction = 0 then none else some ⟨fraction, -1074, false⟩
  else some ⟨Nat.pow 2 52 + fraction, (level : Int) - 1075, fraction = 0 && 1 < level⟩

namespace Binary

/-- A fraction equal to the number, as numerator and denominator. -/
def ratio (b : Binary) : Nat × Nat :=
  (b.mantissa * Nat.pow 2 b.exponent.toNat, Nat.pow 2 (-b.exponent).toNat)

/-- The number of decimal digits. -/
def digitCount (n : Nat) : Nat := (Nat.toDigits 10 n).length

/-- The power of ten of the leading digit. -/
def leading (b : Binary) : Int :=
  let (num, den) := b.ratio
  if den ≤ num then (digitCount (num / den) : Int) - 1
  else -(digitCount ((den + num - 1) / num - 1) : Int)

/-- Whether the grid point `d · 10^k` rounds to the number, and how far from it it lies; lengths are
in quarters of the last place of the mantissa, times a common factor. -/
def fits (b : Binary) (k : Int) (d : Nat) : Bool × Nat :=
  let quarter := b.exponent - 2
  let scale := Nat.pow 2 quarter.toNat * Nat.pow 10 (-k).toNat
  let point := d * (Nat.pow 10 k.toNat * Nat.pow 2 (-quarter).toNat)
  let value := 4 * b.mantissa * scale
  let low := (4 * b.mantissa - if b.narrowBelow then 1 else 2) * scale
  let high := (4 * b.mantissa + 2) * scale
  let inside := if b.mantissa % 2 = 0 then low ≤ point && point ≤ high
    else low < point && point < high
  (inside, (value - point) + (point - value))

/-- The grid point at or below the number. -/
def below (b : Binary) (k : Int) : Nat :=
  let quarter := b.exponent - 2
  4 * b.mantissa * (Nat.pow 2 quarter.toNat * Nat.pow 10 (-k).toNat)
    / (Nat.pow 10 k.toNat * Nat.pow 2 (-quarter).toNat)

/-- The nearest point of a grid that rounds to the number. -/
def onGrid? (b : Binary) (k : Int) : Option Decimal :=
  let d := b.below k
  match b.fits k d, b.fits k (d + 1) with
  | (true, near), (true, far) =>
    if near < far || (near = far && d % 2 = 0) then some ⟨d, k⟩ else some ⟨d + 1, k⟩
  | (true, _), (false, _) => some ⟨d, k⟩
  | (false, _), (true, _) => some ⟨d + 1, k⟩
  | (false, _), (false, _) => none

/-- **The shortest decimal** that rounds to the number.  Seventeen digits are always enough. -/
def shortest (b : Binary) : Decimal :=
  let grids := (List.range 17).map fun n : Nat => b.leading - (n : Int)
  match grids.findSome? b.onGrid? with
  | some d => d
  | none => ⟨b.mantissa, b.exponent⟩

end Binary

/-- Moves zeros at the end of the digits into the exponent; there are at most `fuel` of them. -/
def strip (fuel : Nat) (d : Decimal) : Decimal :=
  match fuel with
  | 0 => d
  | fuel + 1 =>
    if d.digits % 10 = 0 then strip fuel ⟨d.digits / 10, d.exponent + 1⟩ else d

/-- The decimal without zeros at the end. -/
def normal (d : Decimal) : Decimal :=
  if d.digits = 0 then ⟨0, 0⟩ else d.strip (Binary.digitCount d.digits)

/-! ## Small examples -/

-- one tenth, and the smallest positive number
example : Binary.shortest ⟨7205759403792794, -56, false⟩ = ⟨1, -1⟩ := by decide +kernel
example : Binary.shortest ⟨1, -1074, false⟩ = ⟨5, -324⟩ := by decide +kernel

end Decimal

end Dataflow
