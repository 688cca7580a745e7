import Markup.Json.Reader
import Markup.Yaml.Trouble

namespace Markup.Yaml

structure ClockTime where
  hour : Nat
  minute : Nat
  second : Nat
  deriving DecidableEq, Repr

structure Moment where
  year : Nat
  month : Nat
  day : Nat
  time : Option (ClockTime × Option Int)
  deriving DecidableEq, Repr

namespace Moment

def exactly : Nat → List Char → Option (List Char × List Char)
  | 0, s => some ([],s)
  | n + 1, c :: rest =>
    if Json.isDigit c then (exactly n rest).map fun (digits,rest) => (c :: digits,rest) else none
  | _ + 1, [] => none

def number (n : Nat) (s : List Char) : Option (Nat × List Char) :=
  (exactly n s).map fun (digits,rest) => (Json.digitsValue digits,rest)

def oneOrTwo (s : List Char) : Option (Nat × List Char) :=
  match number 2 s with
  | some found => some found
  | none => number 1 s

def behind (char : Char) : List Char → Option (List Char)
  | c :: rest => if c = char then some rest else none
  | [] => none

def isGap (c : Char) : Bool := c == ' ' || c == '\t'

def date (s : List Char) : Option ((Nat × Nat × Nat) × List Char) := do
  let (year,s) ← number 4 s
  let (month,s) ← (behind '-' s).bind oneOrTwo
  let (day,s) ← (behind '-' s).bind oneOrTwo
  pure ((year,month,day),s)

def afterDate : List Char → Option (List Char)
  | c :: rest =>
    if c = 'T' ∨ c = 't' then some rest
    else if isGap c then some (rest.dropWhile isGap)
    else none
  | [] => none

def clockTime (s : List Char) : Option (ClockTime × List Char) := do
  let (hour,s) ← oneOrTwo s
  let (minute,s) ← (behind ':' s).bind (number 2)
  let (second,s) ← (behind ':' s).bind (number 2)
  pure (⟨hour,minute,second⟩,s)

def skipDecimals : List Char → List Char
  | '.' :: rest => rest.dropWhile Json.isDigit
  | s => s

def minutes : List Char → Option Nat
  | [] => some 0
  | s => do
    let (minute,rest) ← (behind ':' s).bind (number 2)
    if rest.isEmpty then pure minute else none

def zone (s : List Char) : Option (Option Int) :=
  match s with
  | [] => some none
  | _ =>
    match s.dropWhile isGap with
    | ['Z'] => some (some 0)
    | sign :: rest =>
      if sign = '+' ∨ sign = '-' then do
        let (hours,rest) ← oneOrTwo rest
        let minutes ← minutes rest
        let offset : Int := hours * 60 + minutes
        pure (some (if sign = '-' then -offset else offset))
      else none
    | [] => none

def read (s : List Char) : Option Moment := do
  let ((year,month,day),rest) ← date s
  match rest with
  | [] => pure ⟨year,month,day,none⟩
  | _ =>
    let (time,rest) ← (afterDate rest).bind clockTime
    let offset ← zone (skipDecimals rest)
    pure ⟨year,month,day,some (time,offset)⟩

-- Without a time of day a moment is taken for one only if its month and day
-- have two digits each.
def implied (s : List Char) : Bool :=
  match read s with
  | some moment => moment.time.isSome || s.length == 10
  | none => false

def isLeap (year : Nat) : Bool := year % 4 == 0 && (year % 100 != 0 || year % 400 == 0)

def daysIn (year month : Nat) : Nat :=
  if month = 2 then if isLeap year then 29 else 28
  else if month = 4 ∨ month = 6 ∨ month = 9 ∨ month = 11 then 30
  else 31

def dayMinutes : Int := 24 * 60

def spanText (offset : Int) : String :=
  let days := offset.fdiv dayMinutes
  let seconds := offset.fmod dayMinutes * 60
  let shown := "datetime.timedelta(days=" ++ days.repr
  if seconds = 0 then shown ++ ")" else shown ++ ", seconds=" ++ seconds.repr ++ ")"

def fault? (m : Moment) : Option String :=
  let dateFault :=
    if m.year = 0 then some "year 0 is out of range"
    else if m.month = 0 ∨ 12 < m.month then some "month must be in 1..12"
    else if m.day = 0 ∨ daysIn m.year m.month < m.day then some "day is out of range for month"
    else none
  match m.time with
  | none => dateFault
  | some (time,offset) =>
    match offset.filter fun minutes => dayMinutes ≤ minutes.natAbs with
    | some minutes =>
      some ("offset must be a timedelta strictly between -timedelta(hours=24) and " ++
        "timedelta(hours=24), not " ++ spanText minutes ++ ".")
    | none =>
      match dateFault with
      | some what => some what
      | none =>
        if 23 < time.hour then some "hour must be in 0..23"
        else if 59 < time.minute then some "minute must be in 0..59"
        else if 59 < time.second then some "second must be in 0..59"
        else none

def check (s : List Char) : Except Trouble Unit :=
  match read s with
  | none => .error .notMoment
  | some moment =>
    match moment.fault? with
    | some what => .error (.momentRange what)
    | none => .ok ()

end Moment

end Markup.Yaml
