import Markup.Schema.Construct

namespace Markup

variable {κ : Type}

namespace Node

def payload : Node κ → String
  | .text value | .raw value | .comment value => value
  | _ => ""

-- Leaves run together. A comment on either side makes a comment, raw markup on
-- the left stays raw; raw markup behind a text is left out and reported.
def joinLeaves : Node κ → Node κ → Action (Node κ)
  | .comment value, b => return .comment (value ++ b.payload)
  | a, .comment value => return .comment (a.payload ++ value)
  | .raw value, b => return .raw (value ++ b.payload)
  | a, .raw value => do
    Action.log (.discarded value)
    return a
  | a, b => return .text (a.payload ++ b.payload)

def requireNode (value : Node κ) : Action Unit :=
  if value.isNode then return () else throw (.notNode value.kind)

-- Appends b to a. Nothing deferred is driven: with a deferred side the result
-- is deferred and composes when that side is known.
def append (a b : Node κ) : Action (Node κ) := do
  requireNode a
  requireNode b
  match a with
  | .element tag attributes children => return .element tag attributes (children ++ b.pieces)
  | .fragment children => Schema.fragment (children ++ b.pieces)
  | .deferred pending => return .deferred (.append (← Action.fresh) pending b)
  | .sequence feed =>
    match b with
    | .sequence other => return .sequence (.chain (← Action.fresh) feed other)
    | .deferred pending => return .deferred (.appendTo (← Action.fresh) feed pending)
    | b =>
      let id ← Action.fresh
      return .sequence (.chain id feed (.items (← Action.fresh) b.pieces))
  | leaf => if b.isLeaf then joinLeaves leaf b else Schema.fragment (leaf :: b.pieces)

def appendAll (node : Node κ) (others : List (Node κ)) : Action (Node κ) :=
  others.foldlM append node

def addAttribute (node : Node κ) (attr : Attr κ) : Action (Node κ) := do
  match node with
  | .element tag attributes children => return .element tag (attributes ++ [attr]) children
  | .deferred pending => return .deferred (.attach (← Action.fresh) pending attr)
  | node =>
    requireNode node
    return node

def attach (node value : Node κ) : Action (Node κ) :=
  match value.attr? with
  | some attr => node.addAttribute attr
  | none => throw (.notAttribute value.kind)

def extend (node value : Node κ) : Action (Node κ) :=
  match value.attr? with
  | some attr => node.addAttribute attr
  | none => node.append value

end Node

theorem requireNode_ok {node : Node κ} (proper : node.isNode = true) (store : Store) :
    node.requireNode store = .ok () store := by
  rw [Node.requireNode,if_pos proper]
  rfl

theorem append_element {b : Node κ} (proper : b.isNode = true) (tag : String)
    (attributes : List (Attr κ)) (children : List (Node κ)) (store : Store) :
    (Node.element tag attributes children).append b store =
      .ok (.element tag attributes (children ++ b.pieces)) store := by
  have first : (Node.element tag attributes children).requireNode = pure () := if_pos rfl
  have second : b.requireNode = pure () := if_pos proper
  rw [Node.append,first,second]
  rfl

theorem append_refused {b : Node κ} (other : b.isNode = false) (tag : String)
    (attributes : List (Attr κ)) (children : List (Node κ)) :
    (Node.element tag attributes children).append b = throw (.notNode b.kind) := by
  have first : (Node.element tag attributes children).requireNode = pure () := if_pos rfl
  have second : b.requireNode = throw (.notNode b.kind) := if_neg (by simp [other])
  rw [Node.append,first,second]
  rfl

end Markup
