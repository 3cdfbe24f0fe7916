/-!
# Shortest decimals

A finite binary fraction `m * 2 ^ q` is written with the fewest digits that
read back as the same fraction: the decimal grids with one, two, up to
seventeen digits are tried in turn, and on each the two neighbours of the
value. Of two hits the nearer one wins, and of two equally near ones the even
one. All arithmetic is on natural numbers.
-/

namespace GrammarTables

/-- The number `digits * 10 ^ exponent`. -/
structure Decimal where
  digits : Nat
  exponent : Int
  deriving DecidableEq, Repr

namespace Decimal

/-- How many decimal digits `n` has. -/
def length (n : Nat) : Nat := (Nat.toDigits 10 n).length

/-- The `e` with `10 ^ (e - 1) ≤ num / den < 10 ^ e`, for positive arguments. -/
def magnitude (num den : Nat) : Int :=
  if den ≤ num then length (num / den)
  else 1 - (length ((den + num - 1) / num - 1) : Int)

/-- The numbers that round to a fraction: its bounds, over the denominator of the fraction. -/
structure Interval where
  low : Nat
  value : Nat
  high : Nat
  den : Nat
  /-- Whether the bounds themselves round to the fraction. -/
  closed : Bool

namespace Interval

/-- The interval around the binary64 fraction `m * 2 ^ q`. Below a power of two the neighbour is
half as far away as above it, unless that neighbour is subnormal. -/
def around (m : Nat) (q : Int) : Interval :=
  let up := Nat.pow 2 q.toNat
  let below := if m = Nat.pow 2 52 ∧ -1074 < q then 1 else 2
  { low := (4 * m - below) * up
    value := 4 * m * up
    high := (4 * m + 2) * up
    den := 4 * Nat.pow 2 (-q).toNat
    closed := m % 2 = 0 }

/-- Whether `c * 10 ^ k` is in the interval. -/
def holds (i : Interval) (c : Nat) (k : Int) : Bool :=
  let x := c * Nat.pow 10 k.toNat * i.den
  let scale := Nat.pow 10 (-k).toNat
  if i.closed then i.low * scale ≤ x && x ≤ i.high * scale
  else i.low * scale < x && x < i.high * scale

/-- The point of the grid `10 ^ k` that stands for the interval, if the grid has one. -/
def gridPoint? (i : Interval) (k : Int) : Option Nat :=
  let unit := Nat.pow 10 k.toNat * i.den
  let x := i.value * Nat.pow 10 (-k).toNat
  let c := x / unit
  match i.holds c k, i.holds (c + 1) k with
  | false, false => none
  | true, false => some c
  | false, true => some (c + 1)
  | true, true =>
    let twice := 2 * (x % unit)
    if twice < unit then some c
    else if unit < twice then some (c + 1)
    else if c % 2 = 0 then some c
    else some (c + 1)

end Interval

/-- Takes zeros off the end of the digits; `fuel` bounds their number. -/
def trim : Nat → Nat → Int → Decimal
  | 0, c, k => ⟨c, k⟩
  | fuel + 1, c, k => if c ≠ 0 ∧ c % 10 = 0 then trim fuel (c / 10) (k + 1) else ⟨c, k⟩

/-- The shortest decimal that reads back as `m * 2 ^ q`, for positive `m`. -/
def shortest (m : Nat) (q : Int) : Decimal :=
  let i := Interval.around m q
  let e := magnitude i.value i.den
  let found := (List.range 17).findSome? fun (n : Nat) =>
    let k := e - ((n : Nat) + 1 : Int)
    (i.gridPoint? k).map fun c => trim 20 c k
  found.getD ⟨m, 0⟩

/-- The sign, significand and exponent of a finite double: `(-1) ^ sign * m * 2 ^ q`. -/
def parts (x : Float) : Bool × Nat × Int :=
  let bits : Nat := x.toBits.toNat
  let sign := bits / Nat.pow 2 63 == 1
  let biased : Nat := bits / Nat.pow 2 52 % Nat.pow 2 11
  let fraction : Nat := bits % Nat.pow 2 52
  if biased = 0 then (sign, fraction, -1074)
  else (sign, Nat.pow 2 52 + fraction, (biased : Int) - 1075)

end Decimal

end GrammarTables
