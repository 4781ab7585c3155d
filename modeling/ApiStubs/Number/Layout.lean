import ApiStubs.Number.Shortest

/-!
# Decimal layout

How the digits of a floating-point number are set: where the notation changes from positional to
scientific, and what the parts of the scientific one look like.
-/

namespace ApiStubs.Number

structure Layout where
  /-- the least and the greatest decimal exponent that is written positionally -/
  positional : Int × Int
  /-- the least number of digits of a scientific exponent -/
  exponentWidth : Nat
  /-- the text of infinity -/
  infinity : String

namespace Layout

/-- Digits without the zeros at their end, and how many there were. -/
def stripZeros (digits : List Char) : List Char :=
  (digits.reverse.dropWhile (· = '0')).reverse

/-- A number with its point after the first `point` digits: zeros are put in where digits are
missing, and at least one place follows the point. -/
def positionalText (digits : List Char) (point : Int) : List Char :=
  if point ≤ 0 then
    '0' :: '.' :: List.replicate (-point).toNat '0' ++ digits
  else
    let whole := digits.take point.toNat
    let places := digits.drop point.toNat
    whole ++ List.replicate (point.toNat - whole.length) '0' ++
      '.' :: (if places.isEmpty then ['0'] else places)

/-- A number with its point after the first digit, if there are more, and its exponent. -/
def scientificText (width : Nat) (digits : List Char) (exponent : Int) : List Char :=
  let size := Nat.toDigits 10 exponent.natAbs
  let places := digits.drop 1
  digits.take 1 ++ (if places.isEmpty then [] else '.' :: places) ++
    'e' :: (if exponent < 0 then '-' else '+') ::
    List.replicate (width - size.length) '0' ++ size

def decimalText (layout : Layout) (x : Decimal) : List Char :=
  let all := Nat.toDigits 10 x.digits
  let point := x.exponent + all.length
  let digits := stripZeros all
  if layout.positional.1 ≤ point - 1 && point - 1 ≤ layout.positional.2 then
    positionalText digits point
  else
    scientificText layout.exponentWidth digits (point - 1)

def magnitudeText (layout : Layout) (x : Binary64) : List Char :=
  if x.isInfinite then layout.infinity.toList
  else if x.isZero then ['0', '.', '0']
  else layout.decimalText (Shortest.ofRank x.rank.val)

def text (layout : Layout) (x : Binary64) : List Char :=
  if x.negative then '-' :: layout.magnitudeText x else layout.magnitudeText x

end Layout

end ApiStubs.Number
