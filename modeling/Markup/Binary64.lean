namespace Markup

-- A number as IEEE binary64 holds it: significand * 2 ^ exponent with a
-- significand below 2 ^ 53, or one of the special values. The exponent is the
-- least that keeps the significand whole, and zero has exponent zero, so a
-- value has one form.
inductive Binary64 where
  | finite (negative : Bool) (significand : Nat) (exponent : Int)
  | infinite (negative : Bool)
  | undefined
  deriving DecidableEq, Repr

namespace Binary64

def leastExponent : Int := -1074
def greatestExponent : Int := 971

def roundQuotient (num den : Nat) : Nat :=
  let below := num / den
  let rest := 2 * (num % den)
  if rest < den then below
  else if den < rest then below + 1
  else if below % 2 = 0 then below else below + 1

def scaleUp (value : Nat) (exponent : Int) : Nat := value * Nat.pow 2 exponent.toNat

-- The nearest value to a positive or zero fraction. The first guess of the
-- exponent from the bit lengths is at most one too high.
def ofFraction (negative : Bool) (num den : Nat) : Binary64 :=
  if num = 0 then finite negative 0 0
  else
    let guess : Int := (num.log2 : Int) - (den.log2 : Int) - 52
    let low := scaleUp num (-guess) / scaleUp den guess < Nat.pow 2 52
    let exponent := max (if low then guess - 1 else guess) leastExponent
    let significand := roundQuotient (scaleUp num (-exponent)) (scaleUp den exponent)
    let carried := significand = Nat.pow 2 53
    let significand := if carried then Nat.pow 2 52 else significand
    let exponent := if carried then exponent + 1 else exponent
    if significand = 0 then finite negative 0 0
    else if greatestExponent < exponent then infinite negative
    else finite negative significand exponent

-- The nearest value to digits * 10 ^ power. The two bounds only keep the
-- powers small: beyond them the answer is infinity or zero whatever the digits.
def ofScientific (negative : Bool) (digits : Nat) (power : Int) : Binary64 :=
  let magnitude : Int := ((Nat.toDigits 10 digits).length : Int) + power
  if digits = 0 then finite negative 0 0
  else if 400 < magnitude then infinite negative
  else if magnitude < -400 then finite negative 0 0
  else if 0 ≤ power then ofFraction negative (digits * Nat.pow 10 power.toNat) 1
  else ofFraction negative digits (Nat.pow 10 (-power).toNat)

def isZero : Binary64 → Bool
  | finite _ 0 _ => true
  | _ => false

def toInt? : Binary64 → Option Int
  | finite negative significand exponent =>
    let signed (n : Nat) : Int := if negative then -(n : Int) else n
    if 0 ≤ exponent then some (signed (scaleUp significand exponent))
    else
      let unit := Nat.pow 2 (-exponent).toNat
      if significand % unit = 0 then some (signed (significand / unit)) else none
  | infinite _ => none
  | undefined => none

def ofInt (value : Int) : Binary64 := ofFraction (value < 0) value.natAbs 1

def ofScaled (negative : Bool) (significand : Nat) (exponent : Int) : Binary64 :=
  ofFraction negative (scaleUp significand exponent) (scaleUp 1 (-exponent))

def negate : Binary64 → Binary64
  | finite negative significand exponent => finite (!negative) significand exponent
  | infinite negative => infinite (!negative)
  | undefined => undefined

def add : Binary64 → Binary64 → Binary64
  | finite a m e, finite b n f =>
    let least := min e f
    let part (negative : Bool) (significand : Nat) (exponent : Int) : Int :=
      let aligned : Int := scaleUp significand (exponent - least)
      if negative then -aligned else aligned
    let sum := part a m e + part b n f
    if sum = 0 then finite (a && b) 0 0 else ofScaled (sum < 0) sum.natAbs least
  | infinite a, infinite b => if a = b then infinite a else undefined
  | infinite a, finite _ _ _ => infinite a
  | finite _ _ _, infinite b => infinite b
  | _, _ => undefined

def multiply : Binary64 → Binary64 → Binary64
  | finite a m e, finite b n f => ofScaled (a != b) (m * n) (e + f)
  | infinite a, infinite b => infinite (a != b)
  | infinite a, finite b n _ => if n = 0 then undefined else infinite (a != b)
  | finite a m _, infinite b => if m = 0 then undefined else infinite (a != b)
  | _, _ => undefined

def equal : Binary64 → Binary64 → Bool
  | finite a m e, finite b n f => (m == 0 && n == 0) || (a == b && m == n && e == f)
  | infinite a, infinite b => a == b
  | _, _ => false

structure Decimal where
  digits : Nat
  power : Int
  deriving DecidableEq, Repr

-- The interval of reals that round to a value, as numerators over one
-- denominator. Its ends belong to it when the significand is even; below a
-- power of two the neighbour is only half as far away.
structure Interval where
  lower : Nat
  exact : Nat
  upper : Nat
  denominator : Nat
  closed : Bool

def interval (significand : Nat) (exponent : Int) : Interval :=
  let narrow := significand = Nat.pow 2 52 ∧ leastExponent < exponent
  let scaled (n : Nat) := scaleUp n (exponent - 2)
  ⟨scaled (4 * significand - if narrow then 1 else 2), scaled (4 * significand),
    scaled (4 * significand + 2),
    scaleUp 1 (2 - exponent), significand % 2 = 0⟩

def Interval.holds (i : Interval) (d : Decimal) : Bool :=
  let value := d.digits * Nat.pow 10 d.power.toNat * i.denominator
  let unit := Nat.pow 10 (-d.power).toNat
  if i.closed then i.lower * unit ≤ value && value ≤ i.upper * unit
  else i.lower * unit < value && value < i.upper * unit

def Interval.distance (i : Interval) (d : Decimal) : Nat :=
  let value := d.digits * Nat.pow 10 d.power.toNat * i.denominator
  let exact := i.exact * Nat.pow 10 (-d.power).toNat
  (value - exact) + (exact - value)

def leadingPower (num den : Nat) : Int :=
  if den ≤ num then ((Nat.toDigits 10 (num / den)).length : Int) - 1
  else
    let length := (Nat.toDigits 10 (den / num)).length
    if den ≤ num * Nat.pow 10 (length - 1) then 1 - (length : Int) else -(length : Int)

def Interval.nearest? (i : Interval) (power : Int) : Option Decimal :=
  let floor := (i.exact * Nat.pow 10 (-power).toNat) / (i.denominator * Nat.pow 10 power.toNat)
  let below : Decimal := ⟨floor, power⟩
  let above : Decimal := ⟨floor + 1, power⟩
  match i.holds below, i.holds above with
  | true, true =>
    if i.distance below < i.distance above then some below
    else if i.distance above < i.distance below then some above
    else if floor % 2 = 0 then some below else some above
  | true, false => some below
  | false, true => some above
  | false, false => none

-- Coarse grids first: the first with a hit has the fewest digits. Seventeen
-- digits always have one.
def Interval.shortest (i : Interval) (leading : Int) : Nat → Decimal
  | 0 => ⟨i.exact / i.denominator, 0⟩
  | more + 1 =>
    match i.nearest? (leading - (16 - more : Nat)) with
    | some decimal => decimal
    | none => i.shortest leading more

def digitsText (n : Nat) : List Char := Nat.toDigits 10 n

def zeros (n : Nat) : List Char := List.replicate n '0'

def layOut (d : Decimal) : List Char :=
  let all := digitsText d.digits
  let power := d.power + (all.length : Int)
  let digits := (all.reverse.dropWhile (· == '0')).reverse
  let exponent := power - 1
  if -4 ≤ exponent ∧ exponent < 16 then
    if power ≤ 0 then '0' :: '.' :: zeros (-power).toNat ++ digits
    else if (digits.length : Int) ≤ power then
      digits ++ zeros (power - digits.length).toNat ++ ['.', '0']
    else digits.take power.toNat ++ '.' :: digits.drop power.toNat
  else
    let size := digitsText exponent.natAbs
    let mantissa :=
      match digits with
      | [] => []
      | [first] => [first]
      | first :: rest => first :: '.' :: rest
    mantissa ++ 'e' :: (if exponent < 0 then '-' else '+') :: zeros (2 - size.length) ++ size

def text : Binary64 → List Char
  | finite negative significand exponent =>
    let sign := if negative then ['-'] else []
    if significand = 0 then sign ++ ['0', '.', '0']
    else
      let i := interval significand exponent
      sign ++ layOut (i.shortest (leadingPower i.exact i.denominator) 17)
  | infinite negative => (if negative then ['-'] else []) ++ ['i', 'n', 'f']
  | undefined => ['n', 'a', 'n']

end Binary64

end Markup
