import Markup.Problem
import Markup.Json.Basic

namespace Markup

structure Options where
  voidTags : List String
  selfCloseVoid : Bool
  doctype : Option String
  deriving DecidableEq, Repr

namespace Options

def htmlVoidTags : List String :=
  ["area", "base", "br", "col", "embed", "hr", "img", "input", "link", "meta", "source",
   "track", "wbr"]

def default : Options := ⟨htmlVoidTags,false,none⟩

def isVoid (options : Options) (tag : String) : Bool := tag ∈ options.voidTags

inductive Setting where
  | null
  | bool (value : Bool)
  | int (value : Int)
  | float (value : Binary64)
  | text (value : String)
  | bytes (value : List UInt8)
  | list (items : List Setting)
  | set (items : List Setting)
  | other

mutual
def Setting.ofJson : Json → Setting
  | .null => .null
  | .bool value => .bool value
  | .int value => .int value
  | .float value => .float value
  | .string value => .text value
  | .array items => .list (Setting.ofItems items)
  | .object _ => .other
def Setting.ofItems : List Json → List Setting
  | [] => []
  | item :: rest => Setting.ofJson item :: Setting.ofItems rest
end

def decodeText (bytes : List UInt8) : Option String :=
  String.fromUTF8? (ByteArray.mk bytes.toArray)

def text : Setting → Checked String
  | .text value => .ok value
  | .bytes value =>
    match decodeText value with
    | some decoded => .ok decoded
    | none => .fail .notUnicode
  | _ => .fail .notText

def lower (c : Char) : Char :=
  if 'A' ≤ c ∧ c ≤ 'Z' then Char.ofNat (c.toNat + 32) else c

def falseWords : List String := ["0", "off", "f", "false", "n", "no"]
def trueWords : List String := ["1", "on", "t", "true", "y", "yes"]

def wordValue (word : String) : Checked Bool :=
  let word := String.ofList (word.toList.map lower)
  if word ∈ falseWords then .ok false
  else if word ∈ trueWords then .ok true
  else .fail .unclearBoolean

def wholeValue (value : Int) : Checked Bool :=
  if value = 0 then .ok false
  else if value = 1 then .ok true
  else .fail .unclearBoolean

-- A whole number outside the signed 64-bit range is no candidate for a truth
-- value at all, nor is a number with a fraction.
def flag : Setting → Checked Bool
  | .bool value => .ok value
  | .int value =>
    if -Int.pow 2 63 ≤ value ∧ value < Int.pow 2 63 then wholeValue value else .fail .notBoolean
  | .float value =>
    match value.toInt? with
    | some whole =>
      if -Int.pow 2 63 < whole ∧ whole < Int.pow 2 63 then wholeValue whole else .fail .notBoolean
    | none => .fail .notBoolean
  | .text word => wordValue word
  | .bytes value =>
    match decodeText value with
    | some word => wordValue word
    | none => .fail .unclearBoolean
  | _ => .fail .notBoolean

def textsFrom : Nat → List Setting → Checked (List String)
  | _, [] => .ok []
  | place, item :: rest =>
    .map (fun (word,words) => word :: words)
      (.both (.under (.index place) (text item)) (textsFrom (place + 1) rest))

-- A set of names is kept in ascending order without repetition, so that equal
-- sets are equal lists.
def insertName (name : String) : List String → List String
  | [] => [name]
  | first :: rest =>
    if name < first then name :: first :: rest
    else if name = first then first :: rest
    else first :: insertName name rest

def nameSet (names : List String) : List String := names.foldr insertName []

def names : Setting → Checked (List String)
  | .list items => .map nameSet (textsFrom 0 items)
  | .set items => .map nameSet (textsFrom 0 items)
  | _ => .fail .notSet

def optionalText : Setting → Checked (Option String)
  | .null => .ok none
  | value => .map some (text value)

abbrev Settings := List (String × Setting)

def either (first second : String) (settings : Settings) : Option (String × Setting) :=
  match Json.lookup first settings with
  | some value => some (first,value)
  | none =>
    match Json.lookup second settings with
    | some value => some (second,value)
    | none => none

def field (found : Option (String × Setting)) (read : Setting → Checked α) (absent : α) :
    Checked α :=
  match found with
  | some (key,value) => .under (.field key) (read value)
  | none => .ok absent

def ofSettings (settings : Settings) : Checked Options :=
  .map (fun ((voidTags,selfCloseVoid),doctype) => ⟨voidTags,selfCloseVoid,doctype⟩)
    (.both
      (.both (field (either "voidElements" "void_elements" settings) names htmlVoidTags)
        (field (either "selfCloseVoid" "self_close_void" settings) flag false))
      (field (either "doctype" "doctype" settings) optionalText none))

def settingsOf (fields : List (String × Json)) : Settings :=
  fields.map fun (key,value) => (key,Setting.ofJson value)

def validate : Json → Checked Options
  | .object fields => ofSettings (settingsOf fields)
  | _ => .fail (.notModel "RenderOptions")

def dump (options : Options) : Json :=
  .object [("void_elements", .array (options.voidTags.map .string)),
    ("self_close_void", .bool options.selfCloseVoid),
    ("doctype", match options.doctype with
      | some doctype => .string doctype
      | none => .null)]

end Options

end Markup
