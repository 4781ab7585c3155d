import ApiStubs.Number.Binary64

/-!
# Shortest decimals

The fewest digits that read back as a given number, and of the decimals with that many digits the
one nearest to it.  Seventeen digits always suffice; the search tries one digit, two digits and so
on, each time the two decimals of that many digits around the number.
-/

namespace ApiStubs.Number.Shortest

/-- Where the first digit of a positive finite rank stands: the least `k` with the number below
`10 ^ k`. -/
def pointPosition (rank : Nat) : Int :=
  (Nat.toDigits 10
    (Binary64.unitsOfRank rank * Nat.pow 10 324 / Binary64.unitsPerOne)).length - 324

/-- The magnitude of `units` least positive numbers in steps of `10 ^ exponent`, as a quotient. -/
def scaled (units : Nat) (exponent : Int) : Nat × Nat :=
  if 0 ≤ exponent then (units, Binary64.unitsPerOne * Nat.pow 10 exponent.toNat)
  else (units * Nat.pow 10 (-exponent).toNat, Binary64.unitsPerOne)

/-- The decimals below and above a quotient in steps of `10 ^ exponent`, the nearer one first, a tie
going to the even digit. -/
def neighbours (quotient : Nat × Nat) (exponent : Int) : List Decimal :=
  let (n, d) := quotient
  let below : Decimal := ⟨n / d, exponent⟩
  let above : Decimal := ⟨n / d + 1, exponent⟩
  let rest := n % d
  let prefersBelow := 2 * rest < d || (2 * rest = d && n / d % 2 = 0)
  if prefersBelow then [below, above] else [above, below]

/-- The decimal of `count` digits that reads back as the rank, the nearer one of two. -/
def withDigits? (rank : Nat) (count : Nat) : Option Decimal :=
  let exponent := pointPosition rank - count
  (neighbours (scaled (Binary64.unitsOfRank rank) exponent) exponent).find? fun x =>
    Binary64.rankOfDecimal x = rank

/-- The exact decimal of a rank, for which all digits are written. -/
def exact (rank : Nat) : Decimal :=
  ⟨Binary64.unitsOfRank rank * Nat.pow 5 1074, -1074⟩

/-- The shortest decimal that reads back as a positive finite rank. -/
def ofRank (rank : Nat) : Decimal :=
  ((List.range' 1 17).findSome? (withDigits? rank)).getD (exact rank)

end ApiStubs.Number.Shortest
