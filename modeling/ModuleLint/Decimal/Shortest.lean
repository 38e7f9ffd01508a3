/-
ModuleLint/Decimal/Shortest.lean

The shortest decimal that reads back as a given binary floating-point number.

A finite number is `m * 2 ^ q` for natural `m` and an exponent `q`.  All reals nearer
to it than to its neighbours read back as that number; those halfway do if `m` is
even.  For one digit, two digits and so on, the two decimals of that many digits
around the number are tried, and the first that reads back is taken, the nearer if
both do.  All arithmetic is exact.
-/
namespace ModuleLint

namespace Shortest

/-- The reals that read back as one number, as fractions over a common denominator. -/
structure Interval where
  low : Nat
  value : Nat
  high : Nat
  denominator : Nat
  closed : Bool

/-- The interval around `m * 2 ^ q`; `atPower` tells that the gap below is half as wide. -/
def interval (m : Nat) (q : Int) (atPower : Bool) : Interval :=
  let up := Nat.pow 2 q.toNat
  let down := Nat.pow 2 (-q).toNat
  { low := (4 * m - (if atPower then 1 else 2)) * up
    value := 4 * m * up
    high := (4 * m + 2) * up
    denominator := 4 * down
    closed := m % 2 == 0 }

/-- Whether `d * 10 ^ e` lies in the interval. -/
def Interval.holds (i : Interval) (d : Nat) (e : Int) : Bool :=
  let n := d * Nat.pow 10 e.toNat * i.denominator
  let scale := Nat.pow 10 (-e).toNat
  if i.closed then Nat.ble (i.low * scale) n && Nat.ble n (i.high * scale)
  else Nat.blt (i.low * scale) n && Nat.blt n (i.high * scale)

/-- Twice the distance of `d * 10 ^ e` from the value, up to a factor that `e` fixes. -/
def Interval.distance (i : Interval) (d : Nat) (e : Int) : Nat :=
  let n := d * Nat.pow 10 e.toNat * i.denominator
  let v := i.value * Nat.pow 10 (-e).toNat
  (n - v) + (v - n)

/-- The number of decimal digits before the point, zero or less for small numbers. -/
def Interval.magnitude (i : Interval) : Int :=
  ((Nat.toDigits 10 (i.value * Nat.pow 10 400 / i.denominator)).length : Int) - 400

/-- The value on the decimal grid of step `10 ^ e`, rounded down. -/
def Interval.floor (i : Interval) (e : Int) : Nat :=
  i.value * Nat.pow 10 (-e).toNat / (i.denominator * Nat.pow 10 e.toNat)

/-- A decimal of `digits` digits that reads back as the value, if there is one. -/
def Interval.onGrid? (i : Interval) (digits : Nat) : Option (Nat × Int) :=
  let e := i.magnitude - digits
  let d := i.floor e
  match i.holds d e, i.holds (d + 1) e with
  | true, true => if i.distance (d + 1) e < i.distance d e then some (d + 1, e) else some (d, e)
  | true, false => some (d, e)
  | false, true => some (d + 1, e)
  | false, false => none

/-- Removes zeros at the end of the digits, at most `n` of them. -/
def trimZeros : Nat → Nat × Int → Nat × Int
  | 0, x => x
  | n + 1, (d, e) => if d != 0 && d % 10 == 0 then trimZeros n (d / 10, e + 1) else (d, e)

/-- **The shortest decimal** `d * 10 ^ e` that reads back as `m * 2 ^ q`. -/
def decimal (m : Nat) (q : Int) (atPower : Bool) : Nat × Int :=
  let i := interval m q atPower
  match (List.range 17).findSome? fun n => i.onGrid? (n + 1) with
  | some x => trimZeros 20 x
  | none => (0, 0)

end Shortest

/-- A finite number as a decimal: whether it is negative, its digits and their exponent. -/
structure FloatDecimal where
  negative : Bool
  digits : Nat
  exponent : Int
  deriving Repr, Inhabited

/-- **A floating-point number as its shortest decimal**; infinity and what is no number
have none. -/
def FloatDecimal.of? (x : Float) : Option FloatDecimal :=
  let bits := x.toBits.toNat
  let unit := Nat.pow 2 52
  let fraction := bits % unit
  let exponent := bits / unit % 2048
  let negative := bits / unit / 2048 == 1
  if exponent = 2047 then none
  else if exponent = 0 then
    if fraction = 0 then some ⟨negative, 0, 0⟩
    else
      let (d, e) := Shortest.decimal fraction (-1074) false
      some ⟨negative, d, e⟩
  else
    let (d, e) :=
      Shortest.decimal (unit + fraction) ((exponent : Int) - 1075) (fraction == 0 && exponent != 1)
    some ⟨negative, d, e⟩

end ModuleLint
