import Markup.Build
import Markup.Node.Equal

namespace Markup

variable {κ : Type}

-- Waits for what a source gives. A function is asked anew each time, a wait of
-- its own can be made once; a constructor of elements is handed the token as
-- its first argument, which is no node.
def awaitSource (host : Host κ) (token : Token) : Node κ → Action (Node κ)
  | .foreign (.source _ label code) => do
    Action.log (.drive label)
    host.run code (some token)
  | .foreign (.once id label code) => do
    if (← Action.cursor id).phase = .closed then throw .spent
    Action.close id
    Action.log (.drive label)
    host.run code (some (.own id))
  | .foreign (.shadowed id selector template) => do
    let made ← Foreign.apply host [.foreign (.token token)] (.shadowed id selector template)
    throw (.noWait made.kind)
  | .foreign (.scoped id selector) => do
    let made ← Foreign.apply host [.foreign (.token token)] (.scoped id selector)
    throw (.noWait made.kind)
  | .foreign (.scopedTag tag) => do
    let made ← Foreign.apply host [.foreign (.token token)] (.scopedTag tag)
    throw (.noWait made.kind)
  | value => throw (.noWait value.kind)

-- Drives a deferred node. Each wait that composition built checks the token
-- before it drives what is inside.
def Pending.drive (host : Host κ) (token : Token) : Pending κ → Action (Node κ)
  | .body _ label code => do
    Action.log (.drive label)
    host.run code (some token)
  | .append _ first second => do
    Action.check token
    let resolved ← first.drive host token
    resolved.append second
  | .appendTo _ feed last => do
    Action.check token
    let resolved ← last.drive host token
    let id ← Action.fresh
    return .sequence (.chain id feed (.items (← Action.fresh) [resolved]))
  | .attach _ inner attr => do
    Action.check token
    let resolved ← inner.drive host token
    resolved.addAttribute attr
  | .coerce _ source => do
    let value ← awaitSource host token source
    value.coerce host
  | .maker value => awaitSource host token (.foreign value)

def Attr.answer (host : Host κ) (token : Token) : Attr κ → Action (Node κ)
  | .fixed name value => return .foreign (.pair name value)
  | .driven _ label code => do
    Action.log (.drive label)
    host.run code (some token)
  | .named _ name source => do
    let value ← awaitSource host token source
    let (name,value) ← Action.ofChecked (.both (Schema.textField "name" name) (.ok value.plain))
    return .foreign (.pair name value)

-- The name and the value that are read off the answer of an attribute. A body
-- may answer with an attribute that has both at hand instead of a pair.
def Node.pair : Node κ → Action (String × String)
  | .foreign (.pair name value) | .foreign (.attr (.fixed name value)) => return (name,value)
  | other => throw (.noMember other.kind "name")

def Attr.drive (host : Host κ) (token : Token) (attr : Attr κ) : Action (String × String) := do
  (← attr.answer host token).pair

@[simp] theorem Attr.drive_fixed (host : Host κ) (token : Token) (name value : String) :
    (Attr.fixed name value).drive host token = pure (name,value) := rfl

-- What the body of a sequence does from a place on until it has an item.
-- A body that fails is finished, and so is one that ran past its last entry.
def pullEntries (host : Host κ) (id : Ident) (label : String) :
    Nat → List (Entry κ) → Action (Option (Node κ))
  | place, [] => do
    Action.setCursor id ⟨place,.closed⟩
    Action.log (.finish label)
    return none
  | place, .act code :: rest => do
    Action.setCursor id ⟨place + 1,.ready⟩
    discard <| Action.closing id (host.run code none)
    pullEntries host id label (place + 1) rest
  | place, .item code :: _ => do
    Action.setCursor id ⟨place + 1,.ready⟩
    Action.log (.pull label place)
    let value ← Action.closing id (host.run code none)
    return some value

-- One item of a sequence, or none at its end. In a chain the position tells
-- whether the second part was begun.
def Feed.pull (host : Host κ) : Feed κ → Action (Option (Node κ))
  | .body id label entries => do
    let cursor ← Action.cursor id
    if cursor.phase = .closed then return none
    pullEntries host id label cursor.position (entries.drop cursor.position)
  | .endless id label code => do
    let cursor ← Action.cursor id
    if cursor.phase = .closed then return none
    pullEntries host id label cursor.position [.item (code cursor.position)]
  | .items id nodes => do
    let cursor ← Action.cursor id
    if cursor.phase = .closed then return none
    match nodes[cursor.position]? with
    | some node =>
      Action.setCursor id ⟨cursor.position + 1,.ready⟩
      return some node
    | none =>
      Action.close id
      return none
  | .chain id first second => do
    let cursor ← Action.cursor id
    if cursor.phase = .closed then return none
    if cursor.position = 0 then
      if let some node ← Action.closing id (first.pull host) then return some node
      Action.setCursor id ⟨1,.ready⟩
    if let some node ← Action.closing id (second.pull host) then return some node
    Action.close id
    return none
  | .coerce id inner => do
    let cursor ← Action.cursor id
    if cursor.phase = .closed then return none
    match ← Action.closing id (inner.pull host) with
    | some value => return some (← Action.closing id (value.coerce host))
    | none =>
      Action.close id
      return none
  | .refused id kind => do
    let cursor ← Action.cursor id
    if cursor.phase = .closed then return none
    Action.close id
    throw (.noFeed kind)

theorem Feed.pull_closed (host : Host κ) {feed : Feed κ} {store : Store}
    (closed : (store.cursor feed.ident).phase = .closed) : feed.pull host store = .ok none store := by
  have ends : ∀ more : Action (Option (Node κ)),
      (if (store.cursor feed.ident).phase = .closed then pure none else more) store =
        .ok none store := by
    intro more
    rw [if_pos closed]
    rfl
  cases feed <;> rw [Feed.pull] <;> exact ends _

-- More items than this a feed never yields, apart from an endless one, which is
-- asked for so many at most.
def Feed.capacity (limit : Nat) : Feed κ → Nat
  | .body _ _ entries => entries.length
  | .endless .. => limit
  | .items _ nodes => nodes.length
  | .chain _ first second => first.capacity limit + second.capacity limit
  | .coerce _ inner => inner.capacity limit
  | .refused .. => 0

def Node.drive (host : Host κ) (node : Node κ) (token : Option Token) : Action (Node κ) := do
  let token ← Action.tokenOr token
  Action.check token
  match node with
  | .deferred pending => pending.drive host token
  | .foreign (.attr (.fixed ..)) => throw (.noMember "Attribute" "thunk")
  | .foreign (.attr value) => value.answer host token
  | node => throw (.noMember node.kind "thunk")

def Feed.collect (host : Host κ) (token : Token) (limit : Nat) (feed : Feed κ) :
    Action (List (Node κ)) :=
  go (feed.capacity limit + 1)
where
  go : Nat → Action (List (Node κ))
    | 0 => throw .tooDeep
    | fuel + 1 => do
      match ← feed.pull host with
      | none => return []
      | some node =>
        Action.check token
        return node :: (← go fuel)

def Node.collect (host : Host κ) (node : Node κ) (token : Option Token) (limit : Nat := 4000) :
    Action (List (Node κ)) := do
  let token ← Action.tokenOr token
  Action.check token
  match node with
  | .sequence feed => feed.collect host token limit
  | node => throw (.noMember node.kind "items")

def Node.driveAttribute (host : Host κ) (node : Node κ) (token : Option Token) :
    Action (Node κ) := do
  let token ← Action.tokenOr token
  match node with
  | .foreign (.attr (.fixed ..)) => throw (.noMember "Attribute" "thunk")
  | .foreign (.attr value) => value.answer host token
  | .deferred pending => pending.drive host token
  | node => throw (.noMember node.kind "thunk")

end Markup
