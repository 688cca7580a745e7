import Markup.Options.Basic
import Markup.Yaml.Node
import Markup.Yaml.Number
import Markup.Yaml.Octets

namespace Markup.Yaml

open Options (Setting)

namespace Node

def bare : Node → Node
  | .named _ node => node.bare
  | node => node

def tag : Node → Tag
  | .scalar tag _ => tag
  | .sequence tag _ => tag
  | .mapping tag _ => tag
  | .named _ node => node.tag
  | .enclosing _ => .unknown

def isCollection (node : Node) : Bool :=
  match node.tag with
  | .list | .pairs | .mapping | .set => true
  | _ => false

mutual
def textOf : Node → Except Trouble String
  | .scalar _ text => .ok text
  | .mapping _ entries => valueText entries
  | .named _ node => textOf node
  | _ => .error .malformed
def valueText : List (Node × Node) → Except Trouble String
  | [] => .error .malformed
  | (key,value) :: rest => if key.tag = .value then textOf value else valueText rest
end

def boolWords : List (String × Bool) :=
  [("yes",true), ("no",false), ("true",true), ("false",false), ("on",true), ("off",false)]

def boolOf (text : String) : Except Trouble Setting :=
  let word := String.ofList (Text.lower text.toList)
  match Json.lookup word boolWords with
  | some value => .ok (.bool value)
  | none => .error (.notBoolean word)

def octetsOf (text : String) : Except Trouble Setting :=
  match Octets.ofText text with
  | some octets => .ok (.bytes octets)
  | none => .error .malformed

def momentOf (node : Node) (text : String) : Except Trouble Setting :=
  match node.bare with
  | .mapping .. => .error .momentEntries
  | _ => (Moment.check (Implied.withoutBreak text.toList)).map fun () => .other

def plainValue (node : Node) : Except Trouble Setting :=
  let ofText (convert : String → Except Trouble Setting) : Except Trouble Setting :=
    match node.textOf with
    | .ok text => convert text
    | .error trouble => .error trouble
  match node.tag with
  | .null => ofText fun _ => .ok .null
  | .bool => ofText boolOf
  | .whole => ofText fun text => (Number.ofWhole text).map .int
  | .fraction => ofText fun text => (Number.ofFraction text).map .float
  | .bytes => ofText octetsOf
  | .moment => ofText node.momentOf
  | .text => ofText fun text => .ok (.text text)
  | _ => .error .malformed

def asText (key : Node) : Node :=
  match key.bare with
  | .scalar .value text => .scalar .text text
  | _ => key

-- Entries with those of merged mappings in front, so that own entries win; of
-- several mappings merged at once the first one wins.
mutual
def merged : List (Node × Node) → Except Trouble (List (Node × Node) × List (Node × Node))
  | [] => .ok ([],[])
  | (key,value) :: rest => do
    if key.tag = .merge then
      let first ← mergedEntries value
      let (more,own) ← merged rest
      pure (first ++ more,own)
    else
      let (more,own) ← merged rest
      pure (more,(key.asText,value) :: own)
def mergedEntries : Node → Except Trouble (List (Node × Node))
  | .mapping _ entries => do
    let (more,own) ← merged entries
    pure (more ++ own)
  | .sequence _ items => mergedItems items
  | .named _ node => mergedEntries node
  | .scalar .. => .error .malformed
  | .enclosing _ => .ok []
def mergedItems : List Node → Except Trouble (List (Node × Node))
  | [] => .ok []
  | item :: rest => do
    let first ← mergedItem item
    let more ← mergedItems rest
    pure (more ++ first)
def mergedItem : Node → Except Trouble (List (Node × Node))
  | .mapping _ entries => do
    let (more,own) ← merged entries
    pure (more ++ own)
  | .named _ node => mergedItem node
  | .enclosing true => .ok []
  | _ => .error .malformed
end

def flatEntries (entries : List (Node × Node)) : Except Trouble (List (Node × Node)) :=
  (merged entries).map fun (more,own) => more ++ own

end Node

inductive Duty where
  | convert (node : Node)
  | convertKey (node : Node)
  | fail

namespace Duty

def ofPair (item : Node) : List Duty :=
  match item.bare with
  | .mapping _ [(key,value)] => [.convert key, .convert value]
  | .enclosing true => []
  | _ => [.fail]

def ofCollection (node : Node) : List Duty :=
  match node.tag, node.bare with
  | .list, .sequence _ items => items.map .convert
  | .pairs, .sequence _ items => items.flatMap ofPair
  | .mapping, .mapping _ entries | .set, .mapping _ entries =>
    match Node.flatEntries entries with
    | .ok entries => entries.flatMap fun (key,value) => [.convertKey key, .convert value]
    | .error _ => [.fail]
  | _, _ => [.fail]

-- Collections wait until all else of their level is converted, and a named one
-- is converted once. A collection is no key.
def perform : List Duty → List Node → List String → Except Trouble (List Node × List String)
  | [], later, seen => .ok (later,seen)
  | .fail :: _, _, _ => .error .malformed
  | .convertKey node :: rest, later, seen =>
    match node.plainValue with
    | .ok _ => perform rest later seen
    | .error trouble => .error trouble
  | .convert node :: rest, later, seen =>
    match node with
    | .enclosing _ => perform rest later seen
    | .named name inner =>
      if !inner.isCollection then
        match inner.plainValue with
        | .ok _ => perform rest later seen
        | .error trouble => .error trouble
      else if seen.contains name then perform rest later seen
      else perform rest (later ++ [inner]) (name :: seen)
    | _ =>
      if node.isCollection then perform rest (later ++ [node]) seen
      else
        match node.plainValue with
        | .ok _ => perform rest later seen
        | .error trouble => .error trouble

-- Level by level, so that of several troubles the outermost is reported.
def levels : Nat → List Node → List String → Except Trouble Unit
  | 0, _, _ => .ok ()
  | fuel + 1, nodes, seen =>
    match nodes with
    | [] => .ok ()
    | _ =>
      match perform (nodes.flatMap ofCollection) [] seen with
      | .ok (later,seen) => levels fuel later seen
      | .error trouble => .error trouble

end Duty

inductive Content where
  | nothing
  | settings (values : Options.Settings)
  | other

namespace Content

def isNothing : Setting → Bool
  | .null => true
  | .bool value => !value
  | .int value => value == 0
  | .float value => value.isZero
  | .text value => value.isEmpty
  | .bytes value => value.isEmpty
  | .list items => items.isEmpty
  | .set items => items.isEmpty
  | .other => false

def plain (node : Node) : Setting :=
  match node.plainValue with
  | .ok value => value
  | .error _ => .other

def ofNode (node : Node) : Setting :=
  match node.tag, node.bare with
  | .list, .sequence _ items => .list (items.map plain)
  | .pairs, .sequence _ items => .list (items.map fun _ => .other)
  | .set, .mapping _ entries =>
    match Node.flatEntries entries with
    | .ok entries => .set (entries.map fun (key,_) => plain key)
    | .error _ => .other
  | _, _ => plain node

def addSetting (values : Options.Settings) : Node × Node → Options.Settings
  | (key,value) =>
    match plain key with
    | .text name => Json.setField name (ofNode value) values
    | _ => values

def ofRoot (node : Node) : Content :=
  match node.tag, node.bare with
  | .mapping, .mapping _ entries =>
    match Node.flatEntries entries with
    | .ok [] => .nothing
    | .ok entries => .settings (entries.foldl addSetting [])
    | .error _ => .other
  | _, _ => if isNothing (ofNode node) then .nothing else .other

end Content

def read (text : String) : Except Trouble Content :=
  let chars := text.toList
  if !chars.all isAllowed then .error .malformed
  else
    match Node.ofText chars with
    | .error trouble => .error trouble
    | .ok none => .ok .nothing
    | .ok (some node) =>
      match Duty.perform [.convert node] [] [] with
      | .error trouble => .error trouble
      | .ok (later,seen) =>
        match Duty.levels (chars.length + 2) later seen with
        | .error trouble => .error trouble
        | .ok () => .ok (Content.ofRoot node)

end Markup.Yaml
