import Markup.Store

namespace Markup.LazyList

variable {κ : Type}

-- One item of a list that is computed while it is read. Reading on from inside
-- the computation of an item is refused; a computation that failed was the last.
def next (host : Host κ) (id : Ident) (items : List κ) : Action (Option (Node κ)) := do
  let cursor ← Action.cursor id
  match cursor.phase with
  | .busy => throw .busyList
  | .closed => return none
  | .ready =>
    match items[cursor.position]? with
    | none =>
      Action.setCursor id {cursor with phase := .closed}
      return none
    | some code =>
      Action.setCursor id {cursor with phase := .busy}
      let value ← Action.closing id (host.run code none)
      Action.setCursor id ⟨cursor.position + 1,.ready⟩
      return some value

-- Reads to the end, handing every item on at once. A read either ends or moves
-- the cursor, so one more read than there are items always reaches the end.
def fold (host : Host κ) (id : Ident) (items : List κ) (step : α → Node κ → Action α) :
    α → Action α :=
  go (items.length + 1)
where
  go : Nat → α → Action α
    | 0, _ => throw .tooDeep
    | fuel + 1, state => do
      match ← next host id items with
      | none => return state
      | some value => go fuel (← step state value)

end Markup.LazyList
