import Markup.Proofs.Content
import Markup.Proofs.Renaming.Holdings
import Markup.Proofs.Renaming.Settling
import Markup.Proofs.Rendering.Settled

namespace Markup

variable {κ : Type}

-- A value among the arguments of an element, and a late node in its place. The
-- two runs are told apart by what belongs together in them; what only the right
-- one knows is its own.

section stores

variable {token : Token} {pairs wider : Pairing} {left right left' right' : Store}

structure Private (ids : List Ident) (begun : Ident → Cursor) (pairs : Pairing) (store : Store) :
    Prop where
  low : ∀ id ∈ ids, id < store.supply
  apart : ∀ id ∈ ids, ∀ a, ¬pairs a id
  unmoved : ∀ id ∈ ids, store.cursor id = begun id

variable {ids : List Ident} {begun : Ident → Cursor}

theorem Private.further (own : Private ids begun pairs right)
    (further : Further token pairs right wider left' right') : Private ids begun wider right' where
  low id inside := Nat.lt_of_lt_of_le (own.low id inside) further.spares.supply
  apart id inside a same := by
    rcases further.fresh a id same with old | late
    · exact own.apart id inside a old
    · exact Nat.not_lt.mpr late (own.low id inside)
  unmoved id inside := by
    rw [further.spares.cursor id (own.low id inside) (own.apart id inside)]
    exact own.unmoved id inside

theorem Private.tied (own : Private ids begun pairs right) (beside : Beside ids right right')
    (tied : Tied token pairs left right) : Tied token pairs left right' := by
  refine tied.aside (Nat.le_of_eq beside.supply.symm) ?_ beside.cancelled ⟨?_,?_⟩
  · exact fun a b same => beside.cursor b fun inside => own.apart b inside a same
  · intro id late
    rw [beside.supply] at late
    rw [beside.cursor id fun inside => Nat.not_lt.mpr late (own.low id inside)]
    exact tied.unread'.cursor id late
  · intro made id serial late
    rw [beside.cancelled]
    exact tied.unread'.cancelled made id serial (beside.supply ▸ late)

theorem Private.again (own : Private ids begun pairs right) :
    Private ids right.cursor pairs right :=
  ⟨own.low,own.apart,fun _ _ => rfl⟩

theorem Private.moved (own : Private ids begun pairs right) (beside : Beside ids right right') :
    Private ids right'.cursor pairs right' :=
  ⟨fun id inside => beside.supply ▸ own.low id inside,own.apart,fun _ _ => rfl⟩

end stores

section building

variable {host : Host κ} {token : Token} {sense : Sense κ} {pairs : Pairing}

end building

section settling

variable {host : Host κ} {token run run' : Token} {sense : Sense κ} {pairs : Pairing}
  {ids : List Ident} {begun : Ident → Cursor} {left right left' : Store}

end settling

section sources

variable {host : Host κ} {token : Token} {sense : Sense κ} {pairs : Pairing} {code : κ}
  {value : Node κ} {ids : List Ident} {begun : Ident → Cursor}

end sources

section sequences

variable {host : Host κ} {token : Token} {sense : Sense κ} {pairs : Pairing}

end sequences

section rendering

variable {host : Host κ} {token run : Token} {sense : Sense κ} {reach : Ident → Prop}
  {store begun last start : Store} {selector : String} {shape : Selector}
  {before behind : List (Node κ)} {value node : Node κ} {given : Option Token} {tree : Tree}
  {options : Options}

end rendering

end Markup
