import Markup.Fault
import Markup.Node.Basic

namespace Markup

inductive Event where
  | drive (label : String)
  | pull (label : String) (index : Nat)
  | finish (label : String)
  | discarded (payload : String)
  | rejected (fault : Selector.Fault)
  | resolved (kind : String)
  | cancelled
  | note (text : String)
  deriving DecidableEq, Repr

def Event.line : Event → String
  | .drive label => "drive " ++ label
  | .pull label index => "pull " ++ label ++ ":" ++ index.repr
  | .finish label => "end " ++ label
  | .discarded payload =>
    "WARNING hox.node_ops: Raw content " ++ Text.quote payload ++
      " appended to a Text node was discarded"
  | .rejected fault => "DEBUG hox.selector: Selector rejected: " ++ fault.message
  | .resolved kind => "DEBUG hox.rendering: Resolved deferred node into " ++ kind
  | .cancelled => "DEBUG hox.rendering: Rendering cancelled"
  | .note text => text

-- How far a single-pass source has been consumed. A busy one is producing an
-- item just now; a closed one yields nothing more.
inductive Phase where
  | ready
  | busy
  | closed
  deriving DecidableEq, Repr

structure Cursor where
  position : Nat := 0
  phase : Phase := .ready
  deriving DecidableEq, Repr

-- Everything that outlives a single operation: the next unused identity, the
-- cursor of every single-pass source, the tokens that were cancelled, and the
-- journal, newest entry first.
structure Store where
  supply : Ident := 0
  cursor : Ident → Cursor := fun _ => {}
  cancelled : Token → Bool := fun _ => false
  journal : List Event := []

-- An operation that failed keeps what it did to the store before.
abbrev Action := EStateM Fault Store

namespace Action

def fresh : Action Ident :=
  modifyGet fun store => (store.supply,{store with supply := store.supply + 1})

def log (event : Event) : Action Unit :=
  modify fun store => {store with journal := event :: store.journal}

def cursor (id : Ident) : Action Cursor := do return (← get).cursor id

def setCursor (id : Ident) (value : Cursor) : Action Unit :=
  modify fun store =>
    {store with cursor := fun other => if other = id then value else store.cursor other}

def close (id : Ident) : Action Unit := do
  let cursor ← Action.cursor id
  setCursor id {cursor with phase := .closed}

def isCancelled (token : Token) : Action Bool := do return (← get).cancelled token

def cancel (token : Token) : Action Unit :=
  modify fun store =>
    {store with cancelled := fun other => if other = token then true else store.cancelled other}

def check (token : Token) : Action Unit := do
  if ← isCancelled token then throw Fault.stopped

def tokenOr : Option Token → Action Token
  | some token => return token
  | none => do return .fresh (← fresh)

def ofChecked : Checked α → Action α
  | .ok value => return value
  | .error problems => throw (.invalid problems)

-- A failure inside a wrapper ends the wrapper for good and goes on unchanged.
def closing (id : Ident) (action : Action α) : Action α :=
  tryCatch action fun fault => do
    close id
    throw fault

end Action

-- The world outside: what running the code of a body does, and how deep lists
-- that are computed while they are read may lie in one another. A body is
-- handed the token of the run; a place in a sequence or a list is handed none.
structure Host (κ : Type) where
  run : κ → Option Token → Action (Node κ)
  depth : Nat

end Markup
