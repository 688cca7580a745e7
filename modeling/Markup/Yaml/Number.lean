import Markup.Binary64
import Markup.Json.Reader
import Markup.Text.Basic
import Markup.Text.Lower
import Markup.Yaml.Trouble

namespace Markup.Yaml.Number

def plainChar (c : Char) : Char :=
  if c.toNat < 127 then c
  else if Text.isBlank c then ' '
  else
    match Text.digit? c with
    | some value => Char.ofNat ('0'.toNat + value)
    | none => '?'

def plainForm (s : List Char) : List Char :=
  if s.all fun c => c.toNat < 128 then s else s.map plainChar

def isSpace (c : Char) : Bool := c == ' ' || (0x09 ≤ c.toNat && c.toNat ≤ 0x0d)

def trim (s : List Char) : List Char := ((s.dropWhile isSpace).reverse.dropWhile isSpace).reverse

def digit? (base : Nat) (c : Char) : Option Nat := (Json.hexValue? c).filter (· < base)

def baseMark? : Nat → Option Char
  | 2 => some 'b'
  | 8 => some 'o'
  | 16 => some 'x'
  | _ => none

def skipMark (base : Nat) : List Char → List Char
  | '0' :: c :: rest =>
    if baseMark? base = some c.toLower then rest else '0' :: c :: rest
  | s => s

def digitsValue (base : Nat) (digits : List Char) : Nat :=
  digits.foldl (fun value c => value * base + (Json.hexValue? c).getD 0) 0

-- A whole numeral: blanks around it, a sign, for some bases a mark, digits.
-- Only a power of two as base allows any number of digits.
def whole (base : Nat) (s : List Char) : Except Trouble Int :=
  let (negative,body) := Json.readSign (trim (plainForm s))
  let body := skipMark base body
  let isDigit (c : Char) : Bool := (digit? base c).isSome
  let digits := body.takeWhile isDigit
  if base = 10 ∧ mostDigits < digits.length then .error (.manyDigits digits.length)
  else if digits.isEmpty ∨ digits.length < body.length then
    .error (.notWhole base (String.ofList s))
  else
    let value : Int := digitsValue base digits
    .ok (if negative then -value else value)

def decimal? (negative : Bool) (s : List Char) : Option Binary64 :=
  let digits := s.takeWhile Json.isDigit
  let rest := s.dropWhile Json.isDigit
  let (decimals,rest) :=
    match rest with
    | '.' :: rest => (rest.takeWhile Json.isDigit,rest.dropWhile Json.isDigit)
    | _ => ([],rest)
  let (exponent,rest) := Json.readExponent rest
  if (digits ++ decimals).isEmpty ∨ !rest.isEmpty then none
  else
    let power : Int := exponent.getD 0 - decimals.length
    some (.ofScientific negative (Json.digitsValue (digits ++ decimals)) power)

def fraction (s : List Char) : Except Trouble Binary64 :=
  let (negative,body) := Json.readSign (trim (plainForm s))
  let word := String.ofList (body.map Char.toLower)
  if word = "inf" ∨ word = "infinity" then .ok (.infinite negative)
  else if word = "nan" then .ok .undefined
  else
    match decimal? negative body with
    | some value => .ok value
    | none => .error (.notFraction (String.ofList s))

def readAll (read : List Char → Except Trouble α) : List (List Char) → Except Trouble (List α)
  | [] => .ok []
  | part :: rest =>
    match read part with
    | .error trouble => .error trouble
    | .ok value => (readAll read rest).map (value :: ·)

def signed (s : List Char) : Except Trouble (Bool × List Char) :=
  match s with
  | [] => .error .emptyNumber
  | _ => .ok (Json.readSign s)

def withoutLines (text : String) : List Char := text.toList.filter (· != '_')

def magnitude (body : List Char) : Except Trouble Int :=
  match body with
  | [] => .error .emptyNumber
  | ['0'] => .ok 0
  | '0' :: 'b' :: digits => whole 2 digits
  | '0' :: 'x' :: digits => whole 16 digits
  | '0' :: _ => whole 8 body
  | _ =>
    if body.contains ':' then
      (readAll (whole 10) (Text.split ':' body)).map (·.foldl (fun value group => value * 60 + group) 0)
    else whole 10 body

def ofWhole (text : String) : Except Trouble Int :=
  match signed (withoutLines text) with
  | .error trouble => .error trouble
  | .ok (negative,body) => (magnitude body).map fun value => if negative then -value else value

-- The last group counts one each, every group in front of it sixty times more.
-- Rounding happens group by group.
def sumGroups : Nat → Binary64 → List Binary64 → Except Trouble Binary64
  | _, sum, [] => .ok sum
  | unit, sum, group :: more =>
    match Binary64.ofInt unit with
    | .finite negative significand exponent =>
      sumGroups (unit * 60)
        (sum.add (group.multiply (.finite negative significand exponent))) more
    | _ => .error .groupRange

def fractionMagnitude (body : List Char) : Except Trouble Binary64 :=
  if body = ['.', 'i', 'n', 'f'] then .ok (.infinite false)
  else if body = ['.', 'n', 'a', 'n'] then .ok .undefined
  else if body.contains ':' then
    match readAll fraction (Text.split ':' body) with
    | .error trouble => .error trouble
    | .ok groups => sumGroups 1 (.finite false 0 0) groups.reverse
  else fraction body

def ofFraction (text : String) : Except Trouble Binary64 :=
  match signed (Text.lower (withoutLines text)) with
  | .error trouble => .error trouble
  | .ok (negative,body) =>
    (fractionMagnitude body).map fun value => if negative then value.negate else value

end Markup.Yaml.Number
