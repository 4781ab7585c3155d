import ApiStubs.Json.Display
import ApiStubs.Text.Hex
import ApiStubs.Text.Split

/-!
# Addresses of services

Which texts are absolute addresses of the schemes `http` and `https`.  An address is cut into its
scheme, which ends at the first colon, and its authority, which follows two slashes and ends at the
next slash, question mark or number sign.  An authority can be malformed, which is another matter
than being missing.
-/

namespace ApiStubs.Url

/-! ## Numeric addresses in brackets -/

/-- Whether a text is an octet: up to three decimal digits without leading zeros, at most 255. -/
def isOctet (cs : List Char) : Bool :=
  !cs.isEmpty && cs.all Char.isDigit && cs.length ≤ 3 && (cs = ['0'] || cs.head? ≠ some '0') &&
    cs.foldl (fun n c => 10 * n + (c.toNat - 0x30)) 0 ≤ 255

/-- Whether a text is an address of version 4: four octets. -/
def isVersion4 (cs : List Char) : Bool :=
  let octets := Text.splitAtEach '.' cs
  octets.length = 4 && octets.all isOctet

/-- Whether a text is a group of up to four hexadecimal digits. -/
def isGroup (cs : List Char) : Bool :=
  !cs.isEmpty && cs.length ≤ 4 && cs.all fun c => (Text.Hex.value? c).isSome

/-- The number of groups in a row of them; an address of version 4 at the end of the address counts
as two. -/
def groupCount? (atEnd : Bool) (cs : List Char) : Option Nat :=
  if cs.isEmpty then some 0
  else
    let groups := Text.splitAtEach ':' cs
    match groups.getLast? with
    | none => none
    | some last =>
      if !groups.dropLast.all isGroup then none
      else if isGroup last then some groups.length
      else if atEnd && isVersion4 last then some (groups.length + 1)
      else none

/-- The parts of a text before and after its first two colons in a row. -/
def cutAtGap (before : List Char) : List Char → Option (List Char × List Char)
  | ':' :: ':' :: rest => some (before.reverse, rest)
  | c :: rest => cutAtGap (c :: before) rest
  | [] => none

/-- Whether a text is an address of version 6: eight groups, or fewer with one gap. -/
def isVersion6 (cs : List Char) : Bool :=
  match cutAtGap [] cs with
  | none => groupCount? true cs = some 8
  | some (before, after) =>
    match groupCount? false before, groupCount? true after with
    | some m, some n => m + n ≤ 7
    | _, _ => false

/-- Whether a text is an address of version 6 that may name its zone after a percent sign. -/
def isZonedVersion6 (cs : List Char) : Bool :=
  match Text.splitAtEach '%' cs with
  | [address] => isVersion6 address
  | [address, zone] => !zone.isEmpty && isVersion6 address
  | _ => false

/-- Whether a text is an address of a later version: its number after `v`, a point, and anything. -/
def isLaterVersion (cs : List Char) : Bool :=
  let number := (cs.drop 1).takeWhile fun c => (Text.Hex.value? c).isSome
  let rest := (cs.drop 1).dropWhile fun c => (Text.Hex.value? c).isSome
  !number.isEmpty && rest.head? = some '.' && 2 ≤ rest.length

/-- Whether a text is a numeric address that stands in brackets. -/
def isNumericHost (cs : List Char) : Bool :=
  if cs.head? = some 'v' then isLaterVersion cs else isZonedVersion6 cs

/-! ## Authorities -/

/-- The characters beyond ASCII whose compatibility form holds one of `/`, `?`, `#`, `@` and `:`. -/
def disguisedMarks : List Nat :=
  [0x2047, 0x2048, 0x2049, 0x2100, 0x2101, 0x2105, 0x2106, 0x2A74, 0xFE13, 0xFE16, 0xFE55, 0xFE56,
   0xFE5F, 0xFE6B, 0xFF03, 0xFF0F, 0xFF1A, 0xFF1F, 0xFF20]

/-- The host of an authority with its port: what follows the last at sign. -/
def hostAndPort (authority : List Char) : List Char :=
  (authority.reverse.takeWhile (· ≠ '@')).reverse

/-- The host without its port.  Where it stands in brackets, nothing may come before them, and
behind them only a colon and the port. -/
def host? (cs : List Char) : Option (List Char) :=
  match cs.dropWhile (· ≠ '[') with
  | [] => some (cs.takeWhile (· ≠ ':'))
  | _ :: inside =>
    let behind := (inside.dropWhile (· ≠ ']')).drop 1
    if cs.head? = some '[' && (behind.isEmpty || behind.head? = some ':') then
      some (inside.takeWhile (· ≠ ']'))
    else none

/-- Whether an authority is malformed: it has a bracket of one kind only, brackets although its
host is no numeric address, or a disguised mark. -/
def isMalformed (authority : List Char) : Bool :=
  let opens := authority.contains '['
  let closes := authority.contains ']'
  opens != closes || (opens && !(host? (hostAndPort authority)).any isNumericHost) ||
    authority.any fun c => disguisedMarks.contains c.toNat

/-- Whether a character may stand in a scheme. -/
def isSchemePart (c : Char) : Bool :=
  c.isAlphanum || c = '+' || c = '-' || c = '.'

/-- A text without the blanks and control characters at its start, and without tabs and line breaks
anywhere. -/
def clean (cs : List Char) : List Char :=
  (cs.dropWhile fun c => c.toNat ≤ 0x20).filter fun c => c ≠ '\t' && c ≠ '\r' && c ≠ '\n'

/-- The scheme of a text in lower case, if it has one, and the rest. -/
def cutScheme (cs : List Char) : List Char × List Char :=
  let scheme := cs.takeWhile (· ≠ ':')
  let rest := cs.dropWhile (· ≠ ':')
  if !rest.isEmpty && scheme.head?.any Char.isAlpha && scheme.all isSchemePart then
    (scheme.map Char.toLower, rest.drop 1)
  else ([], cs)

/-- The authority at the start of a text; empty if there is none. -/
def authorityOf : List Char → List Char
  | '/' :: '/' :: rest => rest.takeWhile fun c => c ≠ '/' && c ≠ '?' && c ≠ '#'
  | _ => []

/-- What is wrong with an address. -/
inductive Fault where
  /-- the authority is malformed -/
  | malformed
  /-- it is no absolute address of one of the two schemes -/
  | notAbsolute
deriving DecidableEq

/-- What is wrong with a text as an address. -/
def fault? (s : String) : Option Fault :=
  let (scheme, rest) := cutScheme (clean s.toList)
  let authority := authorityOf rest
  if isMalformed authority then some .malformed
  else if (scheme = "http".toList || scheme = "https".toList) && !authority.isEmpty then none
  else some .notAbsolute

end ApiStubs.Url
