import Markup.Json.Basic

namespace Markup.Json

def isSpace (c : Char) : Bool := c == ' ' || c == '\n' || c == '\r' || c == '\t'

def skipSpace (s : List Char) : List Char := s.dropWhile isSpace

def hexValue? (c : Char) : Option Nat :=
  if '0' ≤ c ∧ c ≤ '9' then some (c.toNat - '0'.toNat)
  else if 'a' ≤ c ∧ c ≤ 'f' then some (c.toNat - 'a'.toNat + 10)
  else if 'A' ≤ c ∧ c ≤ 'F' then some (c.toNat - 'A'.toNat + 10)
  else none

def hexFour? (a b c d : Char) : Option Nat := do
  let a ← hexValue? a
  let b ← hexValue? b
  let c ← hexValue? c
  let d ← hexValue? d
  pure (((a * 16 + b) * 16 + c) * 16 + d)

def joinUnits? (high low : Nat) : Option Char :=
  if 0xd800 ≤ high ∧ high < 0xdc00 ∧ 0xdc00 ≤ low ∧ low < 0xe000 then
    some (Char.ofNat (0x10000 + (high - 0xd800) * 0x400 + (low - 0xdc00)))
  else none

def simpleEscape? : Char → Option Char
  | '"' => some '"'
  | '\\' => some '\\'
  | '/' => some '/'
  | 'b' => some '\x08'
  | 'f' => some '\x0c'
  | 'n' => some '\n'
  | 'r' => some '\r'
  | 't' => some '\t'
  | _ => none

def readString : List Char → Option (List Char × List Char)
  | [] => none
  | '"' :: rest => some ([], rest)
  | '\\' :: 'u' :: a :: b :: c :: d :: '\\' :: 'u' :: e :: f :: g :: h :: rest =>
    match hexFour? a b c d, hexFour? e f g h with
    | some high, some low =>
      match joinUnits? high low with
      | some joined => (readString rest).map fun (s, r) => (joined :: s, r)
      | none =>
        (readString ('\\' :: 'u' :: e :: f :: g :: h :: rest)).map fun (s, r) =>
          (Char.ofNat high :: s, r)
    | some high, none =>
      (readString ('\\' :: 'u' :: e :: f :: g :: h :: rest)).map fun (s, r) =>
        (Char.ofNat high :: s, r)
    | none, _ => none
  | '\\' :: 'u' :: a :: b :: c :: d :: rest =>
    match hexFour? a b c d with
    | some unit => (readString rest).map fun (s, r) => (Char.ofNat unit :: s, r)
    | none => none
  | '\\' :: c :: rest =>
    match simpleEscape? c with
    | some plain => (readString rest).map fun (s, r) => (plain :: s, r)
    | none => none
  | c :: rest =>
    if c.toNat < 0x20 ∨ c = '\\' then none
    else (readString rest).map fun (s, r) => (c :: s, r)

def isDigit (c : Char) : Bool := '0' ≤ c && c ≤ '9'

def digitsValue (digits : List Char) : Nat :=
  digits.foldl (fun value c => value * 10 + (c.toNat - '0'.toNat)) 0

def readSign : List Char → Bool × List Char
  | '-' :: rest => (true, rest)
  | '+' :: rest => (false, rest)
  | s => (false, s)

def readFraction : List Char → Option (List Char) × List Char
  | '.' :: rest =>
    match rest.takeWhile isDigit with
    | [] => (none, '.' :: rest)
    | digits => (some digits, rest.dropWhile isDigit)
  | s => (none, s)

def readExponent : List Char → Option Int × List Char
  | mark :: rest =>
    if mark = 'e' ∨ mark = 'E' then
      let (negative, digits) := readSign rest
      match digits.takeWhile isDigit with
      | [] => (none, mark :: rest)
      | exponent =>
        let value : Int := digitsValue exponent
        (some (if negative then -value else value), digits.dropWhile isDigit)
    else (none, mark :: rest)
  | [] => (none, [])

def readNumber (s : List Char) : Option (Json × List Char) :=
  let (negative, body) :=
    match s with
    | '-' :: rest => (true, rest)
    | _ => (false, s)
  match body.takeWhile isDigit with
  | [] => none
  | '0' :: _ :: _ => none
  | whole =>
    let (fraction, rest) := readFraction (body.dropWhile isDigit)
    let (exponent, rest) := readExponent rest
    match fraction, exponent with
    | none, none =>
      let value : Int := digitsValue whole
      some (.int (if negative then -value else value), rest)
    | _, _ =>
      let decimals := fraction.getD []
      let power : Int := exponent.getD 0 - decimals.length
      some (.float (.ofScientific negative (digitsValue (whole ++ decimals)) power), rest)

mutual
-- The counter bounds the nesting; the length of the text always suffices.
def readValue : Nat → List Char → Option (Json × List Char)
  | 0, _ => none
  | fuel + 1, s =>
    match skipSpace s with
    | 'n' :: 'u' :: 'l' :: 'l' :: rest => some (.null, rest)
    | 't' :: 'r' :: 'u' :: 'e' :: rest => some (.bool true, rest)
    | 'f' :: 'a' :: 'l' :: 's' :: 'e' :: rest => some (.bool false, rest)
    | '"' :: rest => (readString rest).map fun (value, r) => (.string (String.ofList value), r)
    | '[' :: rest =>
      match skipSpace rest with
      | ']' :: rest => some (.array [], rest)
      | _ => (readItems fuel rest).map fun (items, r) => (.array items, r)
    | '{' :: rest =>
      match skipSpace rest with
      | '}' :: rest => some (.object [], rest)
      | _ => (readFields fuel [] rest).map fun (fields, r) => (.object fields, r)
    | other => readNumber other
def readItems : Nat → List Char → Option (List Json × List Char)
  | 0, _ => none
  | fuel + 1, s => do
    let (item, rest) ← readValue fuel s
    match skipSpace rest with
    | ',' :: rest =>
      let (items, rest) ← readItems fuel rest
      pure (item :: items, rest)
    | ']' :: rest => pure ([item], rest)
    | _ => none
def readFields : Nat → List (String × Json) → List Char → Option (List (String × Json) × List Char)
  | 0, _, _ => none
  | fuel + 1, before, s => do
    match skipSpace s with
    | '"' :: rest =>
      let (key, rest) ← readString rest
      match skipSpace rest with
      | ':' :: rest =>
        let (value, rest) ← readValue fuel rest
        let fields := setField (String.ofList key) value before
        match skipSpace rest with
        | ',' :: rest => readFields fuel fields rest
        | '}' :: rest => pure (fields, rest)
        | _ => none
      | _ => none
    | _ => none
end

def read (text : String) : Option Json :=
  let s := text.toList
  match readValue (s.length + 1) s with
  | some (value, rest) => if (skipSpace rest).isEmpty then some value else none
  | none => none

end Markup.Json
