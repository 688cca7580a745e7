import Markup.Json.Basic

namespace Markup

-- What tells apart two parts that look the same: every deferred part, sequence
-- and one-off value has a number of its own.
abbrev Ident := Nat

inductive Token where
  | named (name : String)
  | fresh (serial : Ident)
  | own (wait : Ident)
  deriving DecidableEq, Repr

inductive Entry (κ : Type) where
  | act (code : κ)
  | item (code : κ)

-- The parameter κ is the code of bodies written elsewhere. Nothing here looks
-- into it; what running it does is a parameter of every function that runs it.
mutual

-- A markup tree. A foreign value may stand wherever a node may, because a body
-- can return anything; it is found out when the tree is composed or rendered.
inductive Node (κ : Type) where
  | element (tag : String) (attributes : List (Attr κ)) (children : List (Node κ))
  | text (value : String)
  | raw (value : String)
  | comment (value : String)
  | fragment (children : List (Node κ))
  | deferred (pending : Pending κ)
  | sequence (feed : Feed κ)
  | foreign (value : Foreign κ)

inductive Attr (κ : Type) where
  | fixed (name value : String)
  | driven (id : Ident) (label : String) (code : κ)
  | named (id : Ident) (name source : Node κ)

-- A node that is not known yet. Besides the bodies written elsewhere these are
-- the waits that composition builds: for the left side, for the right side
-- behind a sequence, for the node that takes an attribute; the coercion of a
-- source; and an element constructor standing where a body is expected.
inductive Pending (κ : Type) where
  | body (id : Ident) (label : String) (code : κ)
  | append (id : Ident) (first : Pending κ) (second : Node κ)
  | appendTo (id : Ident) (feed : Feed κ) (last : Pending κ)
  | attach (id : Ident) (inner : Pending κ) (attr : Attr κ)
  | coerce (id : Ident) (source : Node κ)
  | maker (value : Foreign κ)

-- A lazily produced sequence with one cursor. An endless one has an item at every
-- place. A refused feed was announced over a value that has no items, which shows
-- at the first pull.
inductive Feed (κ : Type) where
  | body (id : Ident) (label : String) (entries : List (Entry κ))
  | endless (id : Ident) (label : String) (code : Nat → κ)
  | items (id : Ident) (nodes : List (Node κ))
  | chain (id : Ident) (first second : Feed κ)
  | coerce (id : Ident) (inner : Feed κ)
  | refused (id : Ident) (kind : String)

-- Values that are no nodes. A list or tuple of a class of its own can bring
-- markup besides its items. A shadowed constructor holds its template, a scoped
-- one takes it as the first argument.
inductive Foreign (κ : Type) where
  | null
  | bool (value : Bool)
  | int (value : Int)
  | float (value : Binary64)
  | string (value : String)
  | safe (markup : String)
  | list (items : List (Node κ))
  | tuple (items : List (Node κ))
  | marked (kind : String) (tuple : Bool) (items : List (Node κ)) (markup : Node κ)
  | record (fields : List (String × Json))
  | attr (value : Attr κ)
  | pair (name value : String)
  | html (id : Ident) (markup : Node κ)
  | source (id : Ident) (label : String) (code : κ)
  | once (id : Ident) (label : String) (code : κ)
  | feed (feed : Feed κ)
  | lazy (id : Ident) (items : List κ)
  | shadowed (id : Ident) (selector : String) (template : Node κ)
  | scoped (id : Ident) (selector : String)
  | scopedTag (tag : String)
  | token (value : Token)

end

variable {κ : Type}

def Attr.kind : Attr κ → String
  | .fixed .. => "Attribute"
  | .driven .. | .named .. => "AsyncAttribute"

def Foreign.kind : Foreign κ → String
  | .null => "NoneType"
  | .bool _ => "bool"
  | .int _ => "int"
  | .float _ => "float"
  | .string _ => "str"
  | .safe _ => "Markup"
  | .list _ => "list"
  | .tuple _ => "tuple"
  | .marked kind .. => kind
  | .record _ => "dict"
  | .attr value => value.kind
  | .pair .. => "HAttribute"
  | .html .. => "Html"
  | .source .. | .shadowed .. | .scoped .. | .scopedTag .. => "function"
  | .once .. => "coroutine"
  | .feed _ => "async_generator"
  | .lazy .. => "generator"
  | .token _ => "CancellationToken"

def Node.kind : Node κ → String
  | .element .. => "Element"
  | .text _ => "Text"
  | .raw _ => "Raw"
  | .comment _ => "Comment"
  | .fragment _ => "Fragment"
  | .deferred _ => "AsyncNode"
  | .sequence _ => "AsyncSeqNode"
  | .foreign value => value.kind

def Node.isNode : Node κ → Bool
  | .foreign _ => false
  | _ => true

def Node.isLeaf : Node κ → Bool
  | .text _ | .raw _ | .comment _ => true
  | _ => false

def Node.attr? : Node κ → Option (Attr κ)
  | .foreign (.attr value) => some value
  | _ => none

def Node.string (value : String) : Node κ := .foreign (.string value)

def Node.null : Node κ := .foreign .null

def Node.pieces : Node κ → List (Node κ)
  | .fragment children => children
  | node => [node]

@[simp] theorem Node.pieces_fragment (children : List (Node κ)) :
    (Node.fragment children).pieces = children := rfl

end Markup
