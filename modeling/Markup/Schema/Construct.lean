import Markup.Schema.Data
import Markup.LazyList

namespace Markup.Schema

variable {κ : Type}

-- Values given to a constructor: nodes that exist are taken as they are, plain
-- data is read, anything else is a problem at its place.
def characters : Node κ → Checked String
  | .foreign (.string value) | .foreign (.safe value) => .ok value
  | _ => .fail .notText

def textField (name : String) (value : Node κ) : Checked String :=
  .under (.field name) (characters value)

-- What a value offers where a union is expected: the tag of a model, nothing
-- to extract from, or an object without a tag.
def refuse (family : Family) : Node κ → Checked α
  | .element .. => .fail (.unknownTag "element" family)
  | .text _ => .fail (.unknownTag "text" family)
  | .raw _ => .fail (.unknownTag "raw" family)
  | .comment _ => .fail (.unknownTag "comment" family)
  | .fragment _ => .fail (.unknownTag "fragment" family)
  | .deferred _ => .fail (.unknownTag "async_node" family)
  | .sequence _ => .fail (.unknownTag "async_seq" family)
  | .foreign (.attr (.fixed ..)) => .fail (.unknownTag "attribute" family)
  | .foreign (.attr _) => .fail (.unknownTag "async_attribute" family)
  | .foreign (.pair ..) | .foreign (.html ..) | .foreign (.safe _) | .foreign (.marked ..)
  | .foreign (.token _) =>
    .fail .noTag
  | .foreign _ => .fail .notObject

def acceptNode : Node κ → Checked (Node κ)
  | .foreign (.record fields) => nodeOf (.object fields)
  | .foreign value => refuse .node (.foreign value)
  | node => .ok node

def acceptAttr : Node κ → Checked (Attr κ)
  | .foreign (.record fields) => attrOf (.object fields)
  | .foreign (.attr value) => .ok value
  | value => refuse .attr value

def acceptAll (accept : Node κ → Checked α) : Nat → List (Node κ) → Checked (List α)
  | _, [] => .ok []
  | place, value :: rest =>
    .map (fun (a,as) => a :: as)
      (.both (.under (.index place) (accept value)) (acceptAll accept (place + 1) rest))

def fieldCount : Node κ → Option Nat
  | .element .. => some 4
  | .text _ | .raw _ | .comment _ | .fragment _ | .deferred _ | .sequence _ => some 2
  | .foreign (.attr (.fixed ..)) => some 3
  | .foreign (.attr _) | .foreign (.pair ..) => some 2
  | .foreign _ => none

def acceptNext (accept : Node κ → Checked α) (state : Nat × Checked (List α)) (value : Node κ) :
    Nat × Checked (List α) :=
  (state.1 + 1,
    .map (fun (as,a) => as ++ [a]) (.both state.2 (.under (.index state.1) (accept value))))

-- A generator is read as it goes; if an item cannot be computed, that is the
-- only problem reported.
def acceptLazy (host : Host κ) (accept : Node κ → Checked α) (id : Ident) (items : List κ) :
    Action (Checked (List α)) :=
  go (items.length + 1) (0,.ok [])
where
  go : Nat → Nat × Checked (List α) → Action (Checked (List α))
    | 0, _ => throw .tooDeep
    | fuel + 1, state => do
      let found : Except Fault (Option (Node κ)) ←
        tryCatch (do return .ok (← LazyList.next host id items)) fun fault => return .error fault
      match found with
      | .error fault => return .under (.index state.1) (.fail (.iteration fault.inline))
      | .ok none => return state.2
      | .ok (some value) => go fuel (acceptNext accept state value)

def acceptList (host : Host κ) (accept : Node κ → Checked α) :
    Node κ → Action (Checked (List α))
  | .foreign (.list items) | .foreign (.tuple items) | .foreign (.marked _ _ items _) =>
    return acceptAll accept 0 items
  | .foreign (.lazy id items) => acceptLazy host accept id items
  | value =>
    match fieldCount value with
    | some count =>
      return .error ((List.range count).map fun place => ⟨[.index place],.notObject⟩)
    | none => return .fail .notList

abbrev Arguments (κ : Type) := List (String × Node κ)

def kindGiven (expected : String) (arguments : Arguments κ) : Checked Unit :=
  match Json.lookup "kind" arguments with
  | none => .ok ()
  | some value =>
    match characters value with
    | .ok kind =>
      if kind = expected then .ok () else .under (.field "kind") (.fail (.wrongKind expected))
    | .error _ => .under (.field "kind") (.fail (.wrongKind expected))

def given (name : String) (read : Node κ → Checked α) (arguments : Arguments κ) : Checked α :=
  .under (.field name) <|
    match Json.lookup name arguments with
    | some value => read value
    | none => .fail .missing

def listGiven (host : Host κ) (name : String) (accept : Node κ → Checked α)
    (arguments : Arguments κ) : Action (Checked (List α)) := do
  match Json.lookup name arguments with
  | none => return .ok []
  | some value => return .under (.field name) (← acceptList host accept value)

def callable : Node κ → Checked (Pending κ)
  | .foreign (.source id label code) => .ok (.body id label code)
  | .foreign (.shadowed id selector template) => .ok (.maker (.shadowed id selector template))
  | .foreign (.scoped id selector) => .ok (.maker (.scoped id selector))
  | .foreign (.scopedTag tag) => .ok (.maker (.scopedTag tag))
  | _ => .fail .notCallable

def attrSource : Node κ → Checked (Attr κ)
  | .foreign (.source id label code) => .ok (.driven id label code)
  | _ => .fail .notCallable

def feedGiven : Node κ → Checked (Feed κ)
  | .foreign (.feed feed) => .ok feed
  | _ => .fail .notIterable

def leaf (kind : String) (make : String → Node κ) (arguments : Arguments κ) : Checked (Node κ) :=
  .map (fun (_,value) => make value)
    (.both (kindGiven kind arguments) (given "value" characters arguments))

def construct (host : Host κ) (model : Model) (arguments : Arguments κ) : Action (Node κ) := do
  match model with
  | .element =>
    let attributes ← listGiven host "attributes" acceptAttr arguments
    let children ← listGiven host "children" acceptNode arguments
    Action.ofChecked <|
      .map (fun (((_,tag),attributes),children) => .element tag attributes children)
        (.both (.both (.both (kindGiven "element" arguments) (given "tag" characters arguments))
          attributes) children)
  | .fragment =>
    let children ← listGiven host "children" acceptNode arguments
    Action.ofChecked <|
      .map (fun (_,children) => .fragment children)
        (.both (kindGiven "fragment" arguments) children)
  | .text => Action.ofChecked (leaf "text" .text arguments)
  | .raw => Action.ofChecked (leaf "raw" .raw arguments)
  | .comment => Action.ofChecked (leaf "comment" .comment arguments)
  | .deferred =>
    Action.ofChecked <|
      .map (fun (_,pending) => .deferred pending)
        (.both (kindGiven "async_node" arguments) (given "thunk" callable arguments))
  | .sequence =>
    Action.ofChecked <|
      .map (fun (_,feed) => .sequence feed)
        (.both (kindGiven "async_seq" arguments) (given "items" feedGiven arguments))
  | .attr =>
    Action.ofChecked <|
      .map (fun ((name,value),_) => .foreign (.attr (.fixed name value)))
        (.both (.both (given "name" characters arguments) (given "value" characters arguments))
          (kindGiven "attribute" arguments))
  | .pair =>
    Action.ofChecked <|
      .map (fun (name,value) => .foreign (.pair name value))
        (.both (given "name" characters arguments) (given "value" characters arguments))
  | .deferredAttr =>
    Action.ofChecked <|
      .map (fun (_,value) => .foreign (.attr value))
        (.both (kindGiven "async_attribute" arguments) (given "thunk" attrSource arguments))

def assign (field : String) (target : Node κ) : Action Unit :=
  match fieldCount target with
  | some _ => throw (.invalid [⟨[.field field],.frozen⟩])
  | none => throw (.noMember target.kind field)

def fragment (children : List (Node κ)) : Action (Node κ) :=
  Action.ofChecked (.map .fragment (.under (.field "children") (acceptAll acceptNode 0 children)))

theorem acceptAll_nodes (nodes : List (Node κ)) (place : Nat)
    (proper : ∀ node ∈ nodes, node.isNode = true) :
    acceptAll acceptNode place nodes = .ok nodes := by
  induction nodes generalizing place with
  | nil => rfl
  | cons node rest ih =>
      have here : acceptNode node = .ok node := by
        have := proper node List.mem_cons_self
        cases node <;> simp_all [acceptNode,Node.isNode]
      simp [acceptAll,here,ih (place + 1) fun other inside =>
        proper other (List.mem_cons_of_mem _ inside),Checked.under,Checked.both,Checked.map]

end Markup.Schema
