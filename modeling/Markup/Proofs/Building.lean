import Markup.Proofs.LogicalRelation

namespace Markup

variable {κ : Type}

def leftBy : EStateM.Result Fault Store α → Store
  | .ok _ after | .error _ after => after

def Leaves (kept : Store → Store → Prop) (action : Action α) : Prop :=
  ∀ store, kept store (leftBy (action store))

-- What giving out identities and writing about other things does not break.
structure KeptByIssuing (kept : Store → Store → Prop) : Prop where
  refl : ∀ store, kept store store
  trans : ∀ {before middle after}, kept before middle → kept middle after → kept before after
  issued : ∀ store, kept store store.issued
  noted : ∀ store (event : Event), event.isDriving = false → kept store (store.noted event)

def Undriven (before after : Store) : Prop :=
  ∃ written, after.journal = written ++ before.journal ∧ ∀ event ∈ written, event.isDriving = false

structure Untouched (before after : Store) : Prop where
  cursor : after.cursor = before.cursor
  cancelled : after.cancelled = before.cancelled
  undriven : Undriven before after

theorem undriven_idle : KeptByIssuing Undriven where
  refl store := ⟨[],rfl,by simp⟩
  trans := by
    rintro before middle after ⟨one,same,quiet⟩ ⟨other,same',quiet'⟩
    refine ⟨other ++ one,by rw [same',same,List.append_assoc],fun event inside => ?_⟩
    exact (List.mem_append.mp inside).elim (quiet' event) (quiet event)
  issued store := ⟨[],rfl,by simp⟩
  noted store event quiet := ⟨[event],rfl,by simpa using quiet⟩

theorem undriven_moved (store : Store) (id : Ident) (value : Cursor) :
    Undriven store (store.moved id value) := ⟨[],rfl,by simp⟩

theorem untouched_idle : KeptByIssuing Untouched where
  refl store := ⟨rfl,rfl,undriven_idle.refl store⟩
  trans one other := ⟨other.cursor.trans one.cursor,other.cancelled.trans one.cancelled,
    undriven_idle.trans one.undriven other.undriven⟩
  issued store := ⟨rfl,rfl,undriven_idle.issued store⟩
  noted store event quiet := ⟨rfl,rfl,undriven_idle.noted store event quiet⟩

section building

variable {kept : Store → Store → Prop} {host : Host κ}

theorem KeptByIssuing.bind (idle : KeptByIssuing kept) {one : Action α} {next : α → Action β}
    (first : Leaves kept one) (later : ∀ value, Leaves kept (next value)) :
    Leaves kept (one >>= next) := by
  intro store
  have before := first store
  rw [Action.bind_apply]
  cases run : one store with
  | error fault middle => rwa [run] at before
  | ok value middle =>
    rw [run] at before
    exact idle.trans before (later value middle)

theorem KeptByIssuing.composing (idle : KeptByIssuing kept) :
    Composing fun _ one _ => Leaves kept one where
  pure := fun _ => idle.refl
  throw := fun _ => idle.refl
  bind := idle.bind
  fresh := idle.issued
  noted := fun quiet store => idle.noted store _ quiet

theorem append_leaves (idle : KeptByIssuing kept) (a b : Node κ) : Leaves kept (a.append b) :=
  idle.composing.append a b

theorem appendAll_leaves (idle : KeptByIssuing kept) (others : List (Node κ)) (node : Node κ) :
    Leaves kept (node.appendAll others) :=
  idle.composing.appendAll others node

theorem attach_leaves (idle : KeptByIssuing kept) (node value : Node κ) :
    Leaves kept (node.attach value) :=
  idle.composing.attach node value

theorem extend_leaves (idle : KeptByIssuing kept) (node value : Node κ) :
    Leaves kept (node.extend value) :=
  idle.composing.extend node value

theorem closing_leaves (idle : KeptByIssuing kept) (moved : ∀ store id value, kept store (Store.moved store id value))
    (id : Ident) {action : Action α} (leaves : Leaves kept action) :
    Leaves kept (Action.closing id action) := by
  intro store
  have before := leaves store
  rw [Action.closing_apply]
  cases run : action store with
  | ok value after => rwa [run] at before
  | error fault after =>
    rw [run] at before
    exact idle.trans before (moved _ _ _)

theorem undriven_reading (places : ∀ code, Leaves Undriven (host.run code none)) :
    Reading (fun _ one _ => Leaves Undriven one) host host where
  toComposing := undriven_idle.composing
  closing := fun id => closing_leaves undriven_idle undriven_moved id
  cursor := fun _ => undriven_idle.refl
  setCursor := fun id value store => undriven_moved store id value
  depth := rfl
  place := places

theorem build_undriven (places : ∀ code, Leaves Undriven (host.run code none)) (selector : String)
    (arguments : List (Node κ)) : Leaves Undriven (build host selector arguments) :=
  (undriven_reading places).build selector arguments

theorem gather_undriven (places : ∀ code, Leaves Undriven (host.run code none))
    (arguments : List (Node κ)) : Leaves Undriven (gather host arguments) :=
  (undriven_reading places).gather arguments

end building

end Markup
