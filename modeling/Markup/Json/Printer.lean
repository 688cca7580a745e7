import Markup.Json.Basic
import Markup.Text.Basic

namespace Markup.Json

def escape : Char → List Char
  | '"' => ['\\', '"']
  | '\\' => ['\\', '\\']
  | '\n' => ['\\', 'n']
  | '\r' => ['\\', 'r']
  | '\t' => ['\\', 't']
  | '\x08' => ['\\', 'b']
  | '\x0c' => ['\\', 'f']
  | c => if c.toNat < 0x20 then '\\' :: 'u' :: Text.Quoted.hex 4 c.toNat else [c]

def writeString (s : String) : List Char := '"' :: s.toList.flatMap escape ++ ['"']

def writeFloat : Binary64 → List Char
  | .infinite false => "Infinity".toList
  | .infinite true => "-Infinity".toList
  | .undefined => "NaN".toList
  | value => value.text

inductive Layout where
  | line
  | indented (step : Nat)

def Layout.break : Layout → Nat → List Char
  | .line, _ => []
  | .indented step, depth => '\n' :: List.replicate (step * depth) ' '

def Layout.colon : Layout → List Char
  | .line => [':']
  | .indented _ => [':', ' ']

mutual
def write (layout : Layout) (depth : Nat) : Json → List Char
  | .null => ['n', 'u', 'l', 'l']
  | .bool true => ['t', 'r', 'u', 'e']
  | .bool false => ['f', 'a', 'l', 's', 'e']
  | .int value => value.repr.toList
  | .float value => writeFloat value
  | .string value => writeString value
  | .array [] => ['[', ']']
  | .array (item :: rest) =>
    '[' :: layout.break (depth + 1) ++ write layout (depth + 1) item ++
      writeItems layout (depth + 1) rest ++ layout.break depth ++ [']']
  | .object [] => ['{', '}']
  | .object ((key, value) :: rest) =>
    '{' :: layout.break (depth + 1) ++ writeString key ++ layout.colon ++
      write layout (depth + 1) value ++ writeFields layout (depth + 1) rest ++
      layout.break depth ++ ['}']
def writeItems (layout : Layout) (depth : Nat) : List Json → List Char
  | [] => []
  | item :: rest =>
    ',' :: layout.break depth ++ write layout depth item ++ writeItems layout depth rest
def writeFields (layout : Layout) (depth : Nat) : List (String × Json) → List Char
  | [] => []
  | (key, value) :: rest =>
    ',' :: layout.break depth ++ writeString key ++ layout.colon ++ write layout depth value ++
      writeFields layout depth rest
end

def insertField (name : String) (value : Json) : List (String × Json) → List (String × Json)
  | [] => [(name, value)]
  | (key, other) :: rest =>
    if key < name then (key, other) :: insertField name value rest
    else (name, value) :: (key, other) :: rest

mutual
def sorted : Json → Json
  | .array items => .array (sortedItems items)
  | .object fields => .object (sortedFields fields)
  | .null => .null
  | .bool value => .bool value
  | .int value => .int value
  | .float value => .float value
  | .string value => .string value
def sortedItems : List Json → List Json
  | [] => []
  | item :: rest => sorted item :: sortedItems rest
def sortedFields : List (String × Json) → List (String × Json)
  | [] => []
  | (key, value) :: rest => insertField key (sorted value) (sortedFields rest)
end

def line (value : Json) : String := String.ofList (write .line 0 value.sorted)

def document (value : Json) : String :=
  String.ofList (write (.indented 2) 0 value.sorted ++ ['\n'])

end Markup.Json
