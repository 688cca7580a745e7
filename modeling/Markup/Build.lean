import Markup.Append

namespace Markup

variable {κ : Type}

def Foreign.leaf? : Foreign κ → Option (Node κ)
  | .safe markup => some (.raw markup)
  | .html _ markup | .marked _ _ _ markup => some (.raw markup.plain)
  | .string value => some (.text value)
  | _ => none

mutual
-- A list becomes a fragment without its null items; how a list is read that is
-- computed on the way is left open here.
def Node.coerceWith (read : Ident → List κ → Action (List (Node κ))) :
    Node κ → Action (Node κ)
  | .foreign value => value.coerceWith read
  | node => return node
def Foreign.coerceWith (read : Ident → List κ → Action (List (Node κ))) :
    Foreign κ → Action (Node κ)
  | .list items => return .fragment (← Node.coerceAll read items)
  | .tuple items => return .fragment (← Node.coerceAll read items)
  | .lazy id items => return .fragment (← read id items)
  | value =>
    match value.leaf? with
    | some node => return node
    | none => throw (.unusable value.kind)
def Node.coerceAll (read : Ident → List κ → Action (List (Node κ))) :
    List (Node κ) → Action (List (Node κ))
  | [] => return []
  | .foreign .null :: rest => Node.coerceAll read rest
  | item :: rest => do
    let node ← item.coerceWith read
    return node :: (← Node.coerceAll read rest)
end

def Node.isNull : Node κ → Bool
  | .foreign .null => true
  | _ => false

theorem Node.coerceAll_cons (read : Ident → List κ → Action (List (Node κ))) (item : Node κ)
    (rest : List (Node κ)) :
    Node.coerceAll read (item :: rest) =
      if item.isNull then Node.coerceAll read rest
      else do
        let node ← item.coerceWith read
        return node :: (← Node.coerceAll read rest) := by
  cases item with
  | foreign value => cases value <;> rfl
  | _ => rfl

def Node.coerceTo (host : Host κ) : Nat → Node κ → Action (Node κ)
  | 0 => Node.coerceWith fun _ _ => throw .tooDeep
  | depth + 1 => Node.coerceWith fun id items =>
    LazyList.fold host id items
      (fun nodes item => do
        if item.isNull then return nodes
        return nodes ++ [← Node.coerceTo host depth item])
      []

def Node.coerce (host : Host κ) (value : Node κ) : Action (Node κ) :=
  value.coerceTo host host.depth

def Node.ofSource (source : Node κ) : Action (Node κ) :=
  return .deferred (.coerce (← Action.fresh) source)

def Node.ofFeed : Node κ → Action (Node κ)
  | .foreign (.feed feed) => return .sequence (.coerce (← Action.fresh) feed)
  | value => return .sequence (.refused (← Action.fresh) value.kind)

def Attr.ofSource (name source : Node κ) : Action (Attr κ) :=
  return .named (← Action.fresh) name source

mutual
-- Adds one argument to the node built so far: nothing for null, attributes as
-- attributes, lists item by item whatever markup they bring, sources as deferred
-- nodes.
def Node.addWith (read : Ident → List κ → Node κ → Action (Node κ)) (node : Node κ) :
    Node κ → Action (Node κ)
  | .foreign value => value.addWith read node
  | child => node.append child
def Foreign.addWith (read : Ident → List κ → Node κ → Action (Node κ)) (node : Node κ) :
    Foreign κ → Action (Node κ)
  | .null => return node
  | .attr value => node.addAttribute value
  | .list items => Node.addAllWith read node items
  | .tuple items => Node.addAllWith read node items
  | .marked _ _ items _ => Node.addAllWith read node items
  | .lazy id items => read id items node
  | .feed feed => do node.append (← Node.ofFeed (.foreign (.feed feed)))
  | .once id label code => do
    node.append (← Node.ofSource (.foreign (.once id label code)))
  | value =>
    match value.leaf? with
    | some child => node.append child
    | none => throw (.unusable value.kind)
def Node.addAllWith (read : Ident → List κ → Node κ → Action (Node κ)) (node : Node κ) :
    List (Node κ) → Action (Node κ)
  | [] => return node
  | item :: rest => do
    let node ← node.addWith read item
    Node.addAllWith read node rest
end

def Node.addTo (host : Host κ) : Nat → Node κ → Node κ → Action (Node κ)
  | 0 => Node.addWith fun _ _ _ => throw .tooDeep
  | depth + 1 => Node.addWith fun id items node =>
    LazyList.fold host id items (fun node item => Node.addTo host depth node item) node

def Node.add (host : Host κ) (node value : Node κ) : Action (Node κ) :=
  Node.addTo host host.depth node value

def Node.appendEach (host : Host κ) (node : Node κ) : Node κ → Action (Node κ)
  | .foreign (.list items) => node.appendAll items
  | .foreign (.tuple items) => node.appendAll items
  | .foreign (.marked _ _ items _) => node.appendAll items
  | .foreign (.lazy id items) => LazyList.fold host id items Node.append node
  | .foreign (.string value) | .foreign (.safe value) =>
    node.appendAll (value.toList.map fun c => Node.string (String.singleton c))
  | .foreign (.record fields) => node.appendAll (fields.map fun (key,_) => Node.string key)
  | value =>
    match Schema.fieldCount value with
    | some count => node.appendAll (List.replicate count (.foreign (.tuple [])))
    | none => throw .notIterable

def Selector.element (selector : Selector) : Node κ :=
  .element selector.tag (selector.attributes.map fun part => .fixed part.name part.value) []

def parseElement (selector : String) : Action (Node κ) :=
  match Selector.read selector with
  | .ok found => return found.element
  | .error fault => do
    Action.log (.rejected fault)
    throw (.selector fault)

def Node.selector : Node κ → Action String
  | .foreign (.string value) | .foreign (.safe value) => return value
  | value => throw (.notSelector value.kind)

def build (host : Host κ) (selector : String) (arguments : List (Node κ)) : Action (Node κ) := do
  arguments.foldlM (Node.add host) (← parseElement selector)

def gather (host : Host κ) (arguments : List (Node κ)) : Action (Node κ) :=
  arguments.foldlM (Node.add host) (.fragment [])

def templateSelector : String := "template[shadowrootmode=open]"

def templateNode (host : Host κ) (shadow : Node κ) : Action (Node κ) :=
  build host templateSelector [shadow]

def shadowMaker (host : Host κ) (selector : String) (template : Node κ) : Action (Foreign κ) := do
  let wrapper ← templateNode host template
  return .shadowed (← Action.fresh) selector wrapper

def scopeMaker (selector : String) : Action (Foreign κ) :=
  return .scoped (← Action.fresh) selector

def scopeTags : List String :=
  ["article", "aside", "div", "footer", "header", "main", "nav", "section", "span"]

def scopeMakerOf (tag : String) : Action (Foreign κ) :=
  if tag ∈ scopeTags then return .scopedTag tag else throw (.noScope tag)

def applyScoped (host : Host κ) (selector : String) : List (Node κ) → Action (Node κ)
  | [] => throw .missingShadow
  | shadow :: children => do
    let wrapper ← templateNode host shadow
    build host selector (wrapper :: children)

def Foreign.apply (host : Host κ) (arguments : List (Node κ)) : Foreign κ → Action (Node κ)
  | .shadowed _ selector wrapper => build host selector (wrapper :: arguments)
  | .scoped _ selector => applyScoped host selector arguments
  | .scopedTag tag => applyScoped host tag arguments
  | value => throw (.notCallable value.kind)

end Markup
