import Markup.Problem
import Markup.Node.Basic
import Markup.Node.Shown

namespace Markup.Schema

variable {κ : Type}

inductive Model where
  | element
  | text
  | raw
  | comment
  | fragment
  | deferred
  | sequence
  | attr
  | deferredAttr
  | pair
  deriving DecidableEq, Repr

def Model.name : Model → String
  | .element => "Element"
  | .text => "Text"
  | .raw => "Raw"
  | .comment => "Comment"
  | .fragment => "Fragment"
  | .deferred => "AsyncNode"
  | .sequence => "AsyncSeqNode"
  | .attr => "Attribute"
  | .deferredAttr => "AsyncAttribute"
  | .pair => "HAttribute"

abbrev Fields := List (String × Json)

def textOf : Json → Checked String
  | .string value => .ok value
  | _ => .fail .notText

def required (name : String) (read : Json → Checked α) (fields : Fields) : Checked α :=
  .under (.field name) <|
    match Json.lookup name fields with
    | some value => read value
    | none => .fail .missing

def kindIs (expected : String) (fields : Fields) : Checked Unit :=
  match Json.lookup "kind" fields with
  | none => .ok ()
  | some (.string kind) =>
    if kind = expected then .ok () else .under (.field "kind") (.fail (.wrongKind expected))
  | some _ => .under (.field "kind") (.fail (.wrongKind expected))

def pairOf (fields : Fields) : Checked (String × String) :=
  .both (required "name" textOf fields) (required "value" textOf fields)

def fixedOf (fields : Fields) : Checked (Attr κ) :=
  .map (fun (pair,_) => .fixed pair.1 pair.2)
    (.both (pairOf fields) (kindIs "attribute" fields))

-- Data holds no functions, so the field that must be one is missing or wrong.
def callableIn (name : String) (fields : Fields) : Checked α :=
  required name (fun _ => .fail .notCallable) fields

def deferredAttrOf (fields : Fields) : Checked (Attr κ) :=
  .map Prod.snd (.both (kindIs "async_attribute" fields) (callableIn "thunk" fields))

def deferredOf (fields : Fields) : Checked (Node κ) :=
  .map Prod.snd (.both (kindIs "async_node" fields) (callableIn "thunk" fields))

def sequenceOf (fields : Fields) : Checked (Node κ) :=
  .map Prod.snd
    (.both (kindIs "async_seq" fields) (required "items" (fun _ => .fail .notIterable) fields))

def leafOf (kind : String) (make : String → Node κ) (fields : Fields) : Checked (Node κ) :=
  .map (fun (_,value) => make value) (.both (kindIs kind fields) (required "value" textOf fields))

def chosen (kind : String) (read : Fields → Checked α) (fields : Fields) : Checked α :=
  .under (.field kind) (read fields)

def attrOf : Json → Checked (Attr κ)
  | .object fields =>
    match Json.lookup "kind" fields with
    | none => .fail .noTag
    | some kind =>
      if kind.plain = "attribute" then chosen "attribute" fixedOf fields
      else if kind.plain = "async_attribute" then chosen "async_attribute" deferredAttrOf fields
      else .fail (.unknownTag kind.plain .attr)
  | _ => .fail .notObject

def indexed (read : Json → Checked α) : Nat → List Json → List (Checked α)
  | _, [] => []
  | place, item :: rest => .under (.index place) (read item) :: indexed read (place + 1) rest

def listOf (read : Json → Checked α) : Json → Checked (List α)
  | .array items => .all (indexed read 0 items)
  | _ => .fail .notList

def attrsOf (fields : Fields) : Checked (List (Attr κ)) :=
  match Json.lookup "attributes" fields with
  | none => .ok []
  | some value => .under (.field "attributes") (listOf attrOf value)

def elementOf (children : Checked (List (Node κ))) (fields : Fields) : Checked (Node κ) :=
  .map (fun (((_,tag),attributes),children) => .element tag attributes children)
    (.both (.both (.both (kindIs "element" fields) (required "tag" textOf fields))
      (attrsOf fields)) children)

def fragmentOf (children : Checked (List (Node κ))) (fields : Fields) : Checked (Node κ) :=
  .map (fun (_,children) => .fragment children) (.both (kindIs "fragment" fields) children)

mutual
def nodeOf : Json → Checked (Node κ)
  | .object fields =>
    match Json.lookup "kind" fields with
    | none => .fail .noTag
    | some kind =>
      if kind.plain = "element" then chosen "element" (elementOf (childrenIn fields)) fields
      else if kind.plain = "text" then chosen "text" (leafOf "text" .text) fields
      else if kind.plain = "raw" then chosen "raw" (leafOf "raw" .raw) fields
      else if kind.plain = "comment" then chosen "comment" (leafOf "comment" .comment) fields
      else if kind.plain = "fragment" then
        chosen "fragment" (fragmentOf (childrenIn fields)) fields
      else if kind.plain = "async_node" then chosen "async_node" deferredOf fields
      else if kind.plain = "async_seq" then chosen "async_seq" sequenceOf fields
      else .fail (.unknownTag kind.plain .node)
  | _ => .fail .notObject
def childrenIn : Fields → Checked (List (Node κ))
  | [] => .ok []
  | (key,value) :: rest =>
    if key = "children" then .under (.field "children") (childrenOf value) else childrenIn rest
def childrenOf : Json → Checked (List (Node κ))
  | .array items => nodesFrom 0 items
  | _ => .fail .notList
def nodesFrom : Nat → List Json → Checked (List (Node κ))
  | _, [] => .ok []
  | place, item :: rest =>
    .map (fun (node,nodes) => node :: nodes)
      (.both (.under (.index place) (nodeOf item)) (nodesFrom (place + 1) rest))
end

def modelOf (model : Model) (fields : Fields) : Checked (Node κ) :=
  match model with
  | .element => elementOf (childrenIn fields) fields
  | .text => leafOf "text" .text fields
  | .raw => leafOf "raw" .raw fields
  | .comment => leafOf "comment" .comment fields
  | .fragment => fragmentOf (childrenIn fields) fields
  | .deferred => deferredOf fields
  | .sequence => sequenceOf fields
  | .attr => .map (fun value => .foreign (.attr value)) (fixedOf fields)
  | .deferredAttr => .map (fun value => .foreign (.attr value)) (deferredAttrOf fields)
  | .pair => .map (fun (name,value) => .foreign (.pair name value)) (pairOf fields)

def validate (model : Model) : Json → Checked (Node κ)
  | .object fields => modelOf model fields
  | _ => .fail (.notModel model.name)

def validateIn (family : Family) (data : Json) : Checked (Node κ) :=
  match family with
  | .node => nodeOf data
  | .attr => .map (fun value => .foreign (.attr value)) (attrOf data)

end Markup.Schema
