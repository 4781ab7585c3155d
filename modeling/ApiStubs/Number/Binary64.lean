/-!
# Binary floating-point numbers

The numbers of IEEE 754 binary64 other than NaN, as a sign and the rank of the magnitude in
increasing order: rank 0 is zero, rank 1 the least positive number and the last rank infinity.
Every value is exact, and reading a decimal rounds the exact quotient to the nearest rank, a tie
to the even one.
-/

namespace ApiStubs.Number

/-- A floating-point number: its sign and the place of its magnitude among all magnitudes. -/
structure Binary64 where
  negative : Bool
  rank : Fin (0x7FF0000000000000 + 1)
deriving DecidableEq

/-- A decimal number `digits · 10 ^ exponent`. -/
structure Decimal where
  digits : Nat
  exponent : Int
deriving DecidableEq

namespace Binary64

/-- How many ranks share a step between neighbours: `2 ^ 52`. -/
def ranksPerStep : Nat := Nat.pow 2 52

/-- The least positive number is one part in this many, `2 ^ 1074`. -/
def unitsPerOne : Nat := Nat.pow 2 1074

def infinityRank : Nat := 0x7FF0000000000000

/-- How many multiples of the least positive number the magnitude of a finite rank is. -/
def unitsOfRank (rank : Nat) : Nat :=
  if rank < ranksPerStep then rank
  else (ranksPerStep + rank % ranksPerStep) * Nat.pow 2 (rank / ranksPerStep - 1)

/-- The rank nearest to `n / d` units, a tie going to the even rank; infinity ends the scale. -/
def rankOfQuotient (n d : Nat) : Nat :=
  let shift := Nat.log2 (n / d) - 52
  let step := d * Nat.pow 2 shift
  let down := n / step
  let rest := n % step
  let roundsUp := 2 * rest > step || (2 * rest = step && down % 2 = 1)
  min infinityRank (shift * ranksPerStep + down + if roundsUp then 1 else 0)

/-- The rank nearest to a decimal.  Beyond the range of the format no power of ten is computed. -/
def rankOfDecimal (x : Decimal) : Nat :=
  let size := x.exponent + (Nat.toDigits 10 x.digits).length
  if x.digits = 0 || size < -330 then 0
  else if size > 400 then infinityRank
  else if 0 ≤ x.exponent then rankOfQuotient (x.digits * Nat.pow 10 x.exponent.toNat * unitsPerOne) 1
  else rankOfQuotient (x.digits * unitsPerOne) (Nat.pow 10 (-x.exponent).toNat)

/-- The number with the given sign that is nearest to a decimal. -/
def ofDecimal (negative : Bool) (x : Decimal) : Binary64 :=
  ⟨negative, Fin.ofNat _ (rankOfDecimal x)⟩

def infinity (negative : Bool) : Binary64 :=
  ⟨negative, Fin.ofNat _ infinityRank⟩

def isZero (x : Binary64) : Bool :=
  x.rank.val = 0

def isInfinite (x : Binary64) : Bool :=
  x.rank.val = infinityRank

end Binary64

end ApiStubs.Number
