import Dataflow.Decimal.Shortest

/-!
# Numbers in JSON

A number without fraction and exponent is an integer, if it fits sixty-four bits (with a sign, if it
is negative); every other number, and minus zero, is a floating-point number.

A floating-point number is read in two steps.  The digits, whole part and fraction alike, are taken
as one integer as long as that fits sixty-four bits, and those beyond only count as places.  Then
that integer is multiplied or divided once by the power of ten that is left.  A number too large for
this has no value.

In text an integer is its digits, and a floating-point number its shortest decimal: with a point for
exponents from -5 to 15, and otherwise with an exponent that always has a sign.
-/

namespace Dataflow

namespace Json

/-- A number. -/
inductive Number where
  /-- A natural number. -/
  | natural (n : Nat)
  /-- The negative of a positive number. -/
  | negative (n : Nat)
  /-- A floating-point number. -/
  | real (x : Float)

namespace Number

/-! ## Reading -/

/-- The largest integer of sixty-four bits. -/
def maxWord : Nat := UInt64.size - 1

/-- Takes digits into an integer while it fits a word.  Answers the integer and the digits left. -/
def absorb (n : Nat) : List Nat → Nat × List Nat
  | [] => (n, [])
  | d :: ds => if n * 10 + d ≤ maxWord then absorb (n * 10 + d) ds else (n, d :: ds)

/-- Divides by a power of ten, at most 308 places at a time. -/
def shrink (x : Float) (places : Nat) : Float :=
  if places ≤ 308 then x / Float.ofScientific 1 false places
  else if x == 0 then x
  else shrink (x / Float.ofScientific 1 false 308) (places - 308)
termination_by places

/-- The number `n · 10^exponent`; `none` if it is too large. -/
def scale? (n : Nat) (exponent : Int) : Option Float :=
  let x := n.toUInt64.toFloat
  if exponent < 0 then some (shrink x exponent.natAbs)
  else if exponent ≤ 308 then
    let y := x * Float.ofScientific 1 false exponent.toNat
    if y.isInf then none else some y
  else if n = 0 then some x
  else none

/-- The parts of a number's text. -/
structure Parts where
  negative : Bool
  whole : List Nat
  fraction : Option (List Nat) := none
  /-- Whether the exponent is negative, and its digits. -/
  exponent : Option (Bool × List Nat) := none
deriving DecidableEq, Repr

/-- The natural number of these digits. -/
def ofDigits (ds : List Nat) : Nat := ds.foldl (fun n d => n * 10 + d) 0

/-- The value of an exponent. -/
def exponentOf : Option (Bool × List Nat) → Int
  | none => 0
  | some (true, ds) => -(ofDigits ds : Int)
  | some (false, ds) => ofDigits ds

/-- The number of a text; `none` if it is too large. -/
def ofParts? (p : Parts) : Option Number :=
  let (n, beyond) := absorb 0 p.whole
  if p.fraction.isNone && p.exponent.isNone && beyond.isEmpty then
    if p.negative then
      if 0 < n && n ≤ UInt64.size / 2 then some (.negative n) else some (.real (-n.toUInt64.toFloat))
    else some (.natural n)
  else
    let digits := p.fraction.getD []
    let (n, dropped) := absorb n digits
    let places : Int := (beyond.length : Int) - ((digits.length - dropped.length : Nat) : Int)
    (scale? n (places + exponentOf p.exponent)).map fun x => .real (if p.negative then -x else x)

/-! ## Writing -/

/-- A decimal with a point or with an exponent. -/
def decimalText (d : Decimal) : String :=
  let digits := Nat.toDigits 10 d.digits
  let leading := d.exponent + digits.length - 1
  if -5 ≤ leading && leading ≤ 15 then
    if 0 ≤ d.exponent then
      String.ofList (digits ++ List.replicate d.exponent.toNat '0') ++ ".0"
    else if 0 ≤ leading then
      let whole := leading.toNat + 1
      String.ofList (digits.take whole) ++ "." ++ String.ofList (digits.drop whole)
    else
      "0." ++ String.ofList (List.replicate (-leading - 1).toNat '0' ++ digits)
  else
    let point := if digits.length = 1 then "" else "."
    String.ofList (digits.take 1) ++ point ++ String.ofList (digits.drop 1)
      ++ (if leading < 0 then "e-" else "e+") ++ toString leading.natAbs

/-- A floating-point number. -/
def realText (x : Float) : String :=
  let sign := if x.toBits.toNat < UInt64.size / 2 then "" else "-"
  match Decimal.Binary.ofFloat? x with
  | some b => sign ++ decimalText b.shortest.normal
  | none => sign ++ "0.0"

/-- A number. -/
def text : Number → String
  | .natural n => toString n
  | .negative n => "-" ++ toString n
  | .real x => realText x

/-! ## Small examples -/

example : decimalText ⟨15, -1⟩ = "1.5" := by decide +kernel
example : decimalText ⟨1, 2⟩ = "100.0" := by decide +kernel
example : decimalText ⟨1, -5⟩ = "0.00001" := by decide +kernel
example : decimalText ⟨1, -6⟩ = "1e-6" := by decide +kernel
example : decimalText ⟨12, 15⟩ = "1.2e+16" := by decide +kernel

end Number

end Json

end Dataflow
