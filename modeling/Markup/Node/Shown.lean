import Markup.Node.Basic
import Markup.Text.Basic

namespace Markup

variable {κ : Type}

def commaSeparated (parts : List String) : String := ", ".intercalate parts

def shownRow : List String → String
  | [only] => "(" ++ only ++ ",)"
  | parts => "(" ++ commaSeparated parts ++ ")"

def shownFields (fields : List (String × String)) : List String :=
  fields.map fun (name, value) => name ++ "=" ++ value

def shownModel (kind : String) (fields : List (String × String)) : String :=
  kind ++ "(" ++ commaSeparated (shownFields fields) ++ ")"

mutual
def Json.shown : Json → String
  | .null => "None"
  | .bool true => "True"
  | .bool false => "False"
  | .int value => value.repr
  | .float value => String.ofList value.text
  | .string value => Text.quote value
  | .array items => "[" ++ commaSeparated (Json.shownAll items) ++ "]"
  | .object fields => "\x7b" ++ commaSeparated (Json.shownFields fields) ++ "\x7d"
def Json.shownAll : List Json → List String
  | [] => []
  | item :: rest => item.shown :: Json.shownAll rest
def Json.shownFields : List (String × Json) → List String
  | [] => []
  | (key, value) :: rest => (Text.quote key ++ ": " ++ value.shown) :: Json.shownFields rest
end

def Json.plain : Json → String
  | .string value => value
  | value => value.shown

def Attr.fields : Attr κ → List (String × String)
  | .fixed name value =>
    [("name", Text.quote name), ("value", Text.quote value), ("kind", Text.quote "attribute")]
  | .driven .. | .named .. => [("kind", Text.quote "async_attribute"), ("thunk", "<function>")]

def Attr.shown (value : Attr κ) : String := shownModel value.kind value.fields

def Node.fieldsWith (children : List String) : Node κ → List (String × String)
  | .element tag attributes _ =>
    [("kind", Text.quote "element"), ("tag", Text.quote tag),
      ("attributes", "[" ++ commaSeparated (attributes.map Attr.shown) ++ "]"),
      ("children", "[" ++ commaSeparated children ++ "]")]
  | .text value => [("kind", Text.quote "text"), ("value", Text.quote value)]
  | .raw value => [("kind", Text.quote "raw"), ("value", Text.quote value)]
  | .comment value => [("kind", Text.quote "comment"), ("value", Text.quote value)]
  | .fragment _ =>
    [("kind", Text.quote "fragment"), ("children", "[" ++ commaSeparated children ++ "]")]
  | .deferred _ => [("kind", Text.quote "async_node"), ("thunk", "<function>")]
  | .sequence _ => [("kind", Text.quote "async_seq"), ("items", "<async_generator>")]
  | .foreign _ => []

mutual
def Node.shown : Node κ → String
  | .foreign value => value.shown
  | .element tag attributes children =>
    shownModel "Element"
      (Node.fieldsWith (Node.shownAll children) (.element tag attributes children))
  | .fragment children =>
    shownModel "Fragment" (Node.fieldsWith (Node.shownAll children) (.fragment children))
  | node => shownModel node.kind (node.fieldsWith [])
def Node.shownAll : List (Node κ) → List String
  | [] => []
  | node :: rest => node.shown :: Node.shownAll rest
def Foreign.shown : Foreign κ → String
  | .null => "None"
  | .bool true => "True"
  | .bool false => "False"
  | .int value => value.repr
  | .float value => String.ofList value.text
  | .string value | .safe value => Text.quote value
  | .list items | .marked _ false items _ => "[" ++ commaSeparated (Node.shownAll items) ++ "]"
  | .tuple items | .marked _ true items _ => shownRow (Node.shownAll items)
  | .record fields => (Json.object fields).shown
  | .attr value => value.shown
  | .pair name value =>
    shownModel "HAttribute" [("name", Text.quote name), ("value", Text.quote value)]
  | other => "<" ++ other.kind ++ ">"
end

def Node.shownChildren : Node κ → List String
  | .element _ _ children => Node.shownAll children
  | .fragment children => Node.shownAll children
  | _ => []

def Node.plain : Node κ → String
  | .foreign (.string value) | .foreign (.safe value) => value
  | .foreign (.attr value) => " ".intercalate (shownFields value.fields)
  | .foreign (.pair name value) =>
    " ".intercalate (shownFields [("name", Text.quote name), ("value", Text.quote value)])
  | .foreign value => value.shown
  | node => " ".intercalate (shownFields (node.fieldsWith node.shownChildren))

end Markup
