import GrammarTables.Decimal.Shortest

/-!
# Decimal notation

A number is written out with a point when its leading digit stands for
`10 ^ -5` up to `10 ^ 15`, and with at least one digit on each side of the
point. Others are written with one digit before the point, no point when there
is only that digit, and a signed exponent.
-/

namespace GrammarTables.Decimal

/-- The exponents of the leading digit that are written out with a point. -/
def isPositional (lead : Int) : Bool := -5 ≤ lead && lead ≤ 15

def positional (d : Decimal) : String :=
  let ds := Nat.toDigits 10 d.digits
  let point : Int := ds.length + d.exponent
  let cs :=
    if 0 ≤ d.exponent then ds ++ List.replicate d.exponent.toNat '0' ++ ['.', '0']
    else if 0 < point then ds.take point.toNat ++ '.' :: ds.drop point.toNat
    else '0' :: '.' :: (List.replicate (-point).toNat '0' ++ ds)
  String.ofList cs

def scientific (d : Decimal) : String :=
  let ds := Nat.toDigits 10 d.digits
  let lead : Int := ds.length + d.exponent - 1
  let tail := ds.drop 1
  let mantissa := ds.take 1 ++ (if tail.isEmpty then [] else '.' :: tail)
  let sign := if lead < 0 then '-' else '+'
  String.ofList (mantissa ++ 'e' :: sign :: Nat.toDigits 10 lead.natAbs)

/-- A positive decimal in the notation that its size asks for. -/
def text (d : Decimal) : String :=
  if isPositional (length d.digits + d.exponent - 1) then d.positional else d.scientific

/-- The text of a finite double. -/
def ofFloat (x : Float) : String :=
  let (negative, m, q) := parts x
  let sign := if negative then "-" else ""
  if m = 0 then sign ++ "0.0" else sign ++ (shortest m q).text

end GrammarTables.Decimal
