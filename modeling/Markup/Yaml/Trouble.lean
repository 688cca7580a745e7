import Markup.Text.Basic

namespace Markup.Yaml

-- Why a text has no value. Malformed covers everything that the format or the
-- supported tags rule out; the rest are contents that match their tag in form
-- and still have no value.
inductive Trouble where
  | malformed
  | characterRange
  | characterSize
  | emptyNumber
  | notWhole (base : Nat) (text : String)
  | manyDigits (count : Nat)
  | notFraction (text : String)
  | groupRange
  | notBoolean (word : String)
  | notMoment
  | momentEntries
  | momentRange (what : String)
  deriving DecidableEq, Repr

def Number.mostDigits : Nat := 4300

def Trouble.kind? : Trouble → Option String
  | .malformed => none
  | .characterRange | .notWhole .. | .manyDigits _ | .notFraction _ | .momentRange _ =>
    some "ValueError"
  | .characterSize | .groupRange => some "OverflowError"
  | .emptyNumber => some "IndexError"
  | .notBoolean _ => some "KeyError"
  | .notMoment => some "AttributeError"
  | .momentEntries => some "TypeError"

def Trouble.message : Trouble → String
  | .malformed => ""
  | .characterRange => "chr() arg not in range(0x110000)"
  | .characterSize => "Python int too large to convert to C int"
  | .emptyNumber => "string index out of range"
  | .notWhole base text =>
    "invalid literal for int() with base " ++ base.repr ++ ": " ++
      String.ofList ((Text.quote text).toList.take 200)
  | .manyDigits count =>
    "Exceeds the limit (4300 digits) for integer string conversion: value has " ++ count.repr ++
      " digits; use sys.set_int_max_str_digits() to increase the limit"
  | .notFraction text => "could not convert string to float: " ++ Text.quote text
  | .groupRange => "int too large to convert to float"
  | .notBoolean word => Text.quote word
  | .notMoment => "'NoneType' object has no attribute 'groupdict'"
  | .momentEntries => "expected string or bytes-like object, got 'list'"
  | .momentRange what => what

end Markup.Yaml
