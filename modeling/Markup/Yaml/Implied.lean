import Markup.Yaml.Moment

namespace Markup.Yaml

inductive Tag where
  | null
  | bool
  | whole
  | fraction
  | bytes
  | moment
  | text
  | list
  | pairs
  | mapping
  | set
  | merge
  | value
  | unknown
  deriving DecidableEq, Repr

def Tag.space : String := "tag:yaml.org,2002:"

def Tag.names : List (String × Tag) :=
  [("null",.null), ("bool",.bool), ("int",.whole), ("float",.fraction), ("binary",.bytes),
   ("timestamp",.moment), ("str",.text), ("seq",.list), ("omap",.pairs), ("pairs",.pairs),
   ("map",.mapping), ("set",.set), ("merge",.merge), ("value",.value)]

def Tag.ofUri (uri : String) : Tag :=
  match Tag.names.find? fun (name,_) => Tag.space ++ name == uri with
  | some (_,tag) => tag
  | none => .unknown

namespace Implied

def isDigit (c : Char) : Bool := Json.isDigit c

def isDigitOrLine (c : Char) : Bool := isDigit c || c == '_'

def unsigned : List Char → List Char
  | '-' :: rest => rest
  | '+' :: rest => rest
  | s => s

def trueWords : List String := ["yes", "Yes", "YES", "true", "True", "TRUE", "on", "On", "ON"]
def falseWords : List String := ["no", "No", "NO", "false", "False", "FALSE", "off", "Off", "OFF"]

def isBool (s : List Char) : Bool :=
  let word := String.ofList s
  trueWords.contains word || falseWords.contains word

def isNull (s : List Char) : Bool :=
  ["", "~", "null", "Null", "NULL"].contains (String.ofList s)

def sixties : Nat → List Char → List Char
  | groups + 1, ':' :: a :: rest =>
    if !isDigit a then ':' :: a :: rest
    else
      match rest with
      | b :: more =>
        if a ≤ '5' ∧ isDigit b then sixties groups more else sixties groups rest
      | [] => []
  | _, s => s

def sexagesimal (s : List Char) : Option (List Char) :=
  match s with
  | c :: _ =>
    if isDigit c then
      let rest := s.dropWhile isDigitOrLine
      let after := sixties rest.length rest
      if after.length < rest.length then some after else none
    else none
  | [] => none

def isWhole (s : List Char) : Bool :=
  match unsigned s with
  | '0' :: 'b' :: rest => !rest.isEmpty && rest.all fun c => c == '0' || c == '1' || c == '_'
  | '0' :: 'x' :: rest => !rest.isEmpty && rest.all fun c => (Json.hexValue? c).isSome || c == '_'
  | ['0'] => true
  | '0' :: rest => rest.all fun c => ('0' ≤ c && c ≤ '7') || c == '_'
  | c :: rest =>
    isDigit c && (rest.all isDigitOrLine || sexagesimal (c :: rest) == some [])
  | [] => false

def isExponent : List Char → Bool
  | mark :: sign :: digits =>
    (mark == 'e' || mark == 'E') && (sign == '-' || sign == '+') && !digits.isEmpty &&
      digits.all isDigit
  | _ => false

def endsFraction (s : List Char) : Bool := s.isEmpty || isExponent s

def isFraction (s : List Char) : Bool :=
  let body := unsigned s
  let infinite := [".inf", ".Inf", ".INF"].contains (String.ofList body)
  let undefined := [".nan", ".NaN", ".NAN"].contains (String.ofList s)
  let pointFirst :=
    match s with
    | '.' :: c :: rest => isDigit c && endsFraction (rest.dropWhile isDigitOrLine)
    | _ => false
  let pointLater :=
    body.head?.any isDigit &&
      match body.dropWhile isDigitOrLine with
      | '.' :: rest => endsFraction (rest.dropWhile isDigitOrLine)
      | _ => false
  let sixty :=
    match sexagesimal body with
    | some ('.' :: rest) => rest.all isDigitOrLine
    | _ => false
  infinite || undefined || pointFirst || pointLater || sixty

def withoutBreak (s : List Char) : List Char :=
  match s.reverse with
  | '\n' :: c :: rest => (c :: rest).reverse
  | _ => s

end Implied

def implied (text : String) : Tag :=
  let s := Implied.withoutBreak text.toList
  if Implied.isBool s then .bool
  else if Implied.isFraction s then .fraction
  else if Implied.isWhole s then .whole
  else if s = ['<', '<'] then .merge
  else if Implied.isNull s then .null
  else if Moment.implied s then .moment
  else if s = ['='] then .value
  else if s = ['!'] ∨ s = ['&'] ∨ s = ['*'] then .unknown
  else .text

end Markup.Yaml
