import ApiStubs.Json.Value

/-!
# JSON numerals

A numeral is an integer part, a fraction and an exponent.  With neither of the last two it names a
whole number of any size, else the floating-point number nearest to it.
-/

namespace ApiStubs.Json.Numeral

def ofDigits (cs : List Char) : Nat :=
  cs.foldl (fun n c => 10 * n + (c.toNat - 0x30)) 0

/-- The digits at the start of a text, at least one, and what follows them. -/
def digits? (cs : List Char) : Option (List Char × List Char) :=
  let digits := cs.takeWhile Char.isDigit
  if digits.isEmpty then none else some (digits, cs.dropWhile Char.isDigit)

/-- The integer part: a lone zero or digits that do not start with one. -/
def whole? : List Char → Option (List Char × List Char)
  | '0' :: rest => some (['0'], rest)
  | cs => digits? cs

/-- The fraction, if there is one: digits after a point. -/
def fraction? : List Char → Option (Option (List Char) × List Char)
  | '.' :: rest => (digits? rest).map fun (digits, rest) => (some digits, rest)
  | cs => some (none, cs)

def exponent? : List Char → Option (Option Int)
  | [] => some none
  | e :: rest =>
    if e = 'e' || e = 'E' then
      let (negative, size) : Bool × List Char := match rest with
        | '-' :: r => (true, r)
        | '+' :: r => (false, r)
        | r => (false, r)
      match digits? size with
      | some (digits, []) =>
        some (some (if negative then -(ofDigits digits : Int) else ofDigits digits))
      | _ => none
    else none

def magnitude? (negative : Bool) (cs : List Char) : Option Value := do
  let (whole, rest) ← whole? cs
  let (fraction, rest) ← fraction? rest
  let exponent ← exponent? rest
  match fraction, exponent with
  | none, none => some (.int (if negative then -(ofDigits whole : Int) else ofDigits whole))
  | _, _ =>
    let places := fraction.getD []
    let shift := exponent.getD 0
    some (.float (.ofDecimal negative ⟨ofDigits (whole ++ places), shift - places.length⟩))

def read? : List Char → Option Value
  | '-' :: rest => magnitude? true rest
  | cs => magnitude? false cs

end ApiStubs.Json.Numeral
