import Mathlib.Algebra.Order.Ring.Int
import Memoark.Js.Strings

/-! The numbers of JavaScript, as `===` tells them apart, and `JSON.parse` and `JSON.stringify` of an
object with scalar members over code units. -/
namespace Memoark.Js

/-- The two zeros are equal, and a literal is never `NaN`. -/
inductive Number where
  | finite (x : Rat)
  | infinity (negative : Bool)
  deriving DecidableEq

/-- The exponent of the largest power of two that is at most `m / d`, for positive numbers. -/
def log2Floor (m d : Nat) : Int :=
  let e : Int := m.log2 - d.log2
  if d * 2 ^ e.toNat ≤ m * 2 ^ (-e).toNat then e else e - 1

def roundHalfEven (m d : Nat) : Nat :=
  let q := m / d
  let r := m % d
  if 2 * r < d ∨ 2 * r = d ∧ q % 2 = 0 then q else q + 1

def toDouble (x : Rat) : Number :=
  if x.num = 0 then .finite 0
  else
    let m := x.num.natAbs
    -- The significand has 53 bits, or fewer below the least normal number.
    let e := max (log2Floor m x.den - 52) (-1074)
    let q := roundHalfEven (m * 2 ^ (-e).toNat) (x.den * 2 ^ e.toNat)
    if 1024 ≤ q.log2 + e then .infinity (x.num < 0)
    else .finite (mkRat (x.num.sign * q * 2 ^ e.toNat) (2 ^ (-e).toNat))

def scaled (n : Int) (e : Int) : Rat := mkRat (n * 10 ^ e.toNat) (10 ^ (-e).toNat)

inductive JsonValue where
  | null
  | bool (b : Bool)
  | num (x : Number)
  | str (s : Units)
  | arr (items : List JsonValue)
  | obj (members : List (Units × JsonValue))

section scan

def isJsonSpace (u : UInt16) : Bool :=
  u = ascii ' ' || u = ascii '\t' || u = ascii '\n' || u = ascii '\r'

def skipSpace (us : Units) : Units := us.dropWhile isJsonSpace

def skipToken (c : Char) (us : Units) : Option Units :=
  match skipSpace us with
  | [] => none
  | u :: us => if u = ascii c then some us else none

def hexValue (u : UInt16) : Option Nat :=
  let n := u.toNat
  if 48 ≤ n ∧ n ≤ 57 then some (n - 48)
  else if 97 ≤ n ∧ n ≤ 102 then some (n - 87)
  else if 65 ≤ n ∧ n ≤ 70 then some (n - 55)
  else none

def hexUnit (a b c d : UInt16) : Option UInt16 := do
  let a ← hexValue a
  let b ← hexValue b
  let c ← hexValue c
  let d ← hexValue d
  pure (UInt16.ofNat (((a * 16 + b) * 16 + c) * 16 + d))

def unescape (u : UInt16) : Option UInt16 :=
  if u = ascii '"' ∨ u = ascii '\\' ∨ u = ascii '/' then some u
  else if u = ascii 'b' then some 8
  else if u = ascii 'f' then some 12
  else if u = ascii 'n' then some 10
  else if u = ascii 'r' then some 13
  else if u = ascii 't' then some 9
  else none

def plain (u : UInt16) : Option UInt16 := if u.toNat < 32 then none else some u

def push (u : Option UInt16) (scanned : Option (Units × Units)) : Option (Units × Units) :=
  match u, scanned with
  | some u, some (us, rest) => some (u :: us, rest)
  | _, _ => none

def scanString : Units → Option (Units × Units)
  | [] => none
  | u :: us =>
    if u = ascii '"' then some ([], us)
    else if u = ascii '\\' then
      match us with
      | [] => none
      | e :: us =>
        if e = ascii 'u' then
          match us with
          | a :: b :: c :: d :: us => push (hexUnit a b c d) (scanString us)
          | _ => none
        else push (unescape e) (scanString us)
    else push (plain u) (scanString us)

def isDigit (u : UInt16) : Bool := 48 ≤ u.toNat && u.toNat ≤ 57

def scanDigits (us : Units) : Units × Units := (us.takeWhile isDigit, us.dropWhile isDigit)

def scanDigits1 (us : Units) : Option (Units × Units) :=
  if (scanDigits us).1 = [] then none else some (scanDigits us)

def scanInt : Units → Option (Units × Units)
  | [] => none
  | u :: us =>
    -- No other digit follows a leading zero.
    if u = ascii '0' then some ([u], us)
    else if isDigit u then some (u :: (scanDigits us).1, (scanDigits us).2)
    else none

def scanFrac : Units → Option (Units × Units)
  | [] => some ([], [])
  | u :: us => if u = ascii '.' then scanDigits1 us else some ([], u :: us)

def scanSign : Units → Bool × Units
  | [] => (false, [])
  | u :: us =>
    if u = ascii '-' then (true, us) else if u = ascii '+' then (false, us) else (false, u :: us)

def digitsValue (us : Units) : Nat := us.foldl (fun n u => n * 10 + (u.toNat - 48)) 0

def scanExp : Units → Option (Int × Units)
  | [] => some (0, [])
  | u :: us =>
    if u = ascii 'e' ∨ u = ascii 'E' then
      (scanDigits1 (scanSign us).2).map fun (digits, rest) =>
        (if (scanSign us).1 then -digitsValue digits else digitsValue digits, rest)
    else some (0, u :: us)

def scanMinus : Units → Bool × Units
  | [] => (false, [])
  | u :: us => if u = ascii '-' then (true, us) else (false, u :: us)

def scanNumber (us : Units) : Option (Number × Units) := do
  let (int, rest) ← scanInt (scanMinus us).2
  let (frac, rest) ← scanFrac rest
  let (exp, rest) ← scanExp rest
  let n : Int := digitsValue (int ++ frac)
  pure (toDouble (scaled (if (scanMinus us).1 then -n else n) (exp - frac.length)), rest)

def scanScalar (us : Units) : Option (JsonValue × Units) :=
  if (utf16 "null").isPrefixOf us then some (.null, us.drop 4)
  else if (utf16 "true").isPrefixOf us then some (.bool true, us.drop 4)
  else if (utf16 "false").isPrefixOf us then some (.bool false, us.drop 5)
  else (scanNumber us).map fun (x, rest) => (.num x, rest)

def scanKey (us : Units) : Option (Units × Units) := do
  let us ← skipToken '"' us
  let (key, us) ← scanString us
  let us ← skipToken ':' us
  pure (key, us)

end scan

section parse

mutual

def parseValue : Nat → Units → Option (JsonValue × Units)
  | 0, _ => none
  | fuel + 1, us =>
    match skipSpace us with
    | [] => none
    | u :: us =>
      if u = ascii '"' then (scanString us).map fun (s, rest) => (.str s, rest)
      else if u = ascii '[' then
        match skipToken ']' us with
        | some rest => some (.arr [], rest)
        | none => (parseItems fuel us).map fun (vs, rest) => (.arr vs, rest)
      else if u = ascii '\x7b' then
        match skipToken '\x7d' us with
        | some rest => some (.obj [], rest)
        | none => (parseMembers fuel us).map fun (ms, rest) => (.obj ms, rest)
      else scanScalar (u :: us)

def parseItems : Nat → Units → Option (List JsonValue × Units)
  | 0, _ => none
  | fuel + 1, us =>
    match parseValue fuel us with
    | none => none
    | some (v, rest) =>
      match skipToken ',' rest with
      | some rest => (parseItems fuel rest).map fun (vs, rest) => (v :: vs, rest)
      | none => (skipToken ']' rest).map fun rest => ([v], rest)

def parseMembers : Nat → Units → Option (List (Units × JsonValue) × Units)
  | 0, _ => none
  | fuel + 1, us =>
    match scanKey us with
    | none => none
    | some (key, rest) =>
      match parseValue fuel rest with
      | none => none
      | some (v, rest) =>
        match skipToken ',' rest with
        | some rest => (parseMembers fuel rest).map fun (ms, rest) => ((key, v) :: ms, rest)
        | none => (skipToken '\x7d' rest).map fun rest => ([(key, v)], rest)

end

def jsonParse (us : Units) : Option JsonValue :=
  match parseValue (2 * us.length + 1) us with
  | some (v, rest) => if skipSpace rest = [] then some v else none
  | none => none

def lookup (key : Units) (members : List (Units × JsonValue)) : Option JsonValue :=
  (members.reverse.find? (·.1 = key)).map (·.2)

end parse

section stringify

def hexDigit (n : Nat) : UInt16 := UInt16.ofNat (if n < 10 then 48 + n else 87 + n)

def escapedUnit (u : UInt16) : Units :=
  [ascii '\\', ascii 'u', hexDigit (u.toNat / 4096), hexDigit (u.toNat / 256 % 16),
    hexDigit (u.toNat / 16 % 16), hexDigit (u.toNat % 16)]

def quoteUnit (u : UInt16) : Units :=
  if u = 8 then [ascii '\\', ascii 'b']
  else if u = 9 then [ascii '\\', ascii 't']
  else if u = 10 then [ascii '\\', ascii 'n']
  else if u = 12 then [ascii '\\', ascii 'f']
  else if u = 13 then [ascii '\\', ascii 'r']
  else if u = ascii '"' ∨ u = ascii '\\' then [ascii '\\', u]
  else if u.toNat < 32 ∨ isHighSurrogate u ∨ isLowSurrogate u then escapedUnit u
  else [u]

def quoteUnits : Units → Units
  | [] => []
  | [u] => quoteUnit u
  | u :: v :: us =>
    if isHighSurrogate u ∧ isLowSurrogate v then u :: v :: quoteUnits us
    else quoteUnit u ++ quoteUnits (v :: us)

def quoteJSONString (s : Units) : Units := ascii '"' :: quoteUnits s ++ [ascii '"']

/-- The values of the members; of the numbers, those with one digit. -/
inductive Scalar where
  | bool (b : Bool)
  | digit (n : Fin 10)
  | str (s : Units)

def Scalar.text : Scalar → Units
  | .bool true => utf16 "true"
  | .bool false => utf16 "false"
  | .digit n => [UInt16.ofNat (48 + n)]
  | .str s => quoteJSONString s

def Scalar.value : Scalar → JsonValue
  | .bool b => .bool b
  | .digit n => .num (.finite n)
  | .str s => .str s

def memberText (member : Units × Scalar) : Units :=
  quoteJSONString member.1 ++ ascii ':' :: member.2.text

def membersText : List (Units × Scalar) → Units
  | [] => [ascii '\x7d']
  | [member] => memberText member ++ [ascii '\x7d']
  | member :: members => memberText member ++ ascii ',' :: membersText members

def stringifyObject (members : List (Units × Option Scalar)) : Units :=
  ascii '\x7b' :: membersText (members.filterMap fun (key, value) => value.map (key, ·))

end stringify

end Memoark.Js
