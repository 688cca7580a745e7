import Markup.Drive
import Markup.Options.Basic
import Markup.Text.Basic

namespace Markup

variable {κ : Type}

-- What is still to be written, in document order. A tag keeps the attributes
-- that are resolved apart from those that are still to be resolved.
inductive Task (κ : Type) where
  | chunk (text : String)
  | show (node : Node κ)
  | tag (name : String) (shown : List (String × String)) (attributes : List (Attr κ))
      (children : List (Node κ))
  | pull (feed : Feed κ)

-- Rendering in progress. Between two chunks everything about it is in here and
-- in the store; a stream with no work left is at its end.
structure Stream (κ : Type) where
  token : Token
  options : Options
  work : List (Task κ)

inductive Step (κ : Type) where
  | done
  | quiet (next : Stream κ)
  | emit (chunk : String) (next : Stream κ)

namespace Stream

def attributeText (pair : String × String) : String :=
  pair.1 ++ "=\"" ++ Text.escaped pair.2 ++ "\""

def attributesText (pairs : List (String × String)) : String :=
  if pairs.isEmpty then "" else " " ++ " ".intercalate (pairs.map attributeText)

def declaration (options : Options) : List (Task κ) :=
  match options.doctype with
  | some doctype => if doctype = "" then [] else [.chunk ("<!DOCTYPE " ++ doctype ++ ">")]
  | none => []

def start (token : Token) (options : Options) (node : Node κ) : Stream κ :=
  ⟨token,options,declaration options ++ [.show node]⟩

def openTag (tag attributes : String) : String := "<" ++ tag ++ attributes ++ ">"

def closeTag (tag : String) : String := "</" ++ tag ++ ">"

def voidTag (options : Options) (tag attributes : String) : String :=
  if options.selfCloseVoid then "<" ++ tag ++ attributes ++ "/>" else openTag tag attributes

-- A tag with all its attributes, and the work inside the element. Whether it
-- is void hangs on the children as they were given.
def opening (options : Options) (name : String) (shown : List (String × String))
    (children : List (Node κ)) : String × List (Task κ) :=
  if options.isVoid name ∧ children.isEmpty then
    (voidTag options name (attributesText shown),[])
  else (openTag name (attributesText shown),children.map .show ++ [.chunk (closeTag name)])

-- Attributes are resolved in order; the token is looked at before each one
-- that has to be driven.
def stepTag (host : Host κ) (stream : Stream κ) (rest : List (Task κ)) (name : String)
    (shown : List (String × String)) (children : List (Node κ)) :
    List (Attr κ) → Action (Step κ)
  | [] =>
    let (text,inside) := opening stream.options name shown children
    return .emit text {stream with work := inside ++ rest}
  | .fixed key value :: more =>
    return .quiet {stream with work := .tag name (shown ++ [(key,value)]) more children :: rest}
  | attr :: more => do
    Action.check stream.token
    let pair ← attr.drive host stream.token
    return .quiet {stream with work := .tag name (shown ++ [pair]) more children :: rest}

def stepNode (host : Host κ) (stream : Stream κ) (rest : List (Task κ)) :
    Node κ → Action (Step κ)
  | .text value => return .emit (Text.escaped value) {stream with work := rest}
  | .raw value => return .emit value {stream with work := rest}
  | .comment value => return .emit ("<!--" ++ value ++ "-->") {stream with work := rest}
  | .element tag attributes children =>
    return .quiet {stream with work := .tag tag [] attributes children :: rest}
  | .fragment children => return .quiet {stream with work := children.map .show ++ rest}
  | .deferred pending => do
    Action.check stream.token
    let resolved ← pending.drive host stream.token
    Action.log (.resolved resolved.kind)
    return .quiet {stream with work := .show resolved :: rest}
  | .sequence feed => do
    Action.check stream.token
    return .quiet {stream with work := .pull feed :: rest}
  | .foreign value => throw (.unrenderable value.kind)

def step (host : Host κ) (stream : Stream κ) : Action (Step κ) := do
  match stream.work with
  | [] => return .done
  | .chunk text :: rest => return .emit text {stream with work := rest}
  | .show node :: rest => stream.stepNode host rest node
  | .tag name shown attributes children :: rest =>
    stream.stepTag host rest name shown children attributes
  | .pull feed :: rest =>
    match ← feed.pull host with
    | none => return .quiet {stream with work := rest}
    | some node =>
      Action.check stream.token
      return .quiet {stream with work := .show node :: .pull feed :: rest}

def Fault.isCancellation : Fault → Bool
  | .cancelled _ => true
  | _ => false

-- The next chunk and what is left, or none at the end. The counter bounds the
-- steps between two chunks, for a body may return another deferred node.
def next (host : Host κ) : Nat → Stream κ → Action (Option (String × Stream κ))
  | 0, _ => throw .tooDeep
  | fuel + 1, stream => do
    match ← tryCatch (stream.step host) fun fault => do
        if Fault.isCancellation fault then Action.log .cancelled
        throw fault with
    | .done => return none
    | .emit chunk after => return some (chunk,after)
    | .quiet after => next host fuel after

inductive Ending (κ : Type) where
  | more (stream : Stream κ)
  | finished
  | failed (fault : Fault)

def read (host : Host κ) (fuel : Nat) : Nat → List String → Stream κ →
    Action (List String × Ending κ)
  | 0, chunks, stream => return (chunks.reverse,.more stream)
  | count + 1, chunks, stream => do
    let found : Except Fault (Option (String × Stream κ)) ←
      tryCatch (do return .ok (← stream.next host fuel)) fun fault => return .error fault
    match found with
    | .error fault => return (chunks.reverse,.failed fault)
    | .ok none => return (chunks.reverse,.finished)
    | .ok (some (chunk,after)) => read host fuel count (chunk :: chunks) after

end Stream

def renderText (host : Host κ) (fuel : Nat) (node : Node κ) (token : Option Token)
    (options : Options) : Action String := do
  let token ← Action.tokenOr token
  let (chunks,ending) ← (Stream.start token options node).read host fuel fuel []
  match ending with
  | .failed fault => throw fault
  | .more _ => throw .tooDeep
  | .finished => return String.join chunks

end Markup
