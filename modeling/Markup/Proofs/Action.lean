import Markup.Stream

namespace Markup

-- What the single steps of an action do to the store. Later proofs run an
-- action by these equations and do not look into the monad.
namespace Store

def noted (store : Store) (event : Event) : Store :=
  {store with journal := event :: store.journal}

def issued (store : Store) : Store := {store with supply := store.supply + 1}

def moved (store : Store) (id : Ident) (value : Cursor) : Store :=
  {store with cursor := fun other => if other = id then value else store.cursor other}

def shut (store : Store) (id : Ident) : Store :=
  store.moved id {store.cursor id with phase := .closed}

def stopped (store : Store) (token : Token) : Store :=
  {store with cancelled := fun other => if other = token then true else store.cancelled other}

@[simp] theorem noted_supply (store : Store) (event : Event) :
    (store.noted event).supply = store.supply := rfl
@[simp] theorem noted_cursor (store : Store) (event : Event) :
    (store.noted event).cursor = store.cursor := rfl
@[simp] theorem noted_cancelled (store : Store) (event : Event) :
    (store.noted event).cancelled = store.cancelled := rfl

@[simp] theorem issued_supply (store : Store) : store.issued.supply = store.supply + 1 := rfl
@[simp] theorem issued_cursor (store : Store) : store.issued.cursor = store.cursor := rfl
@[simp] theorem issued_cancelled (store : Store) : store.issued.cancelled = store.cancelled := rfl

@[simp] theorem moved_supply (store : Store) (id : Ident) (value : Cursor) :
    (store.moved id value).supply = store.supply := rfl
@[simp] theorem moved_cancelled (store : Store) (id : Ident) (value : Cursor) :
    (store.moved id value).cancelled = store.cancelled := rfl
@[simp] theorem moved_cursor_self (store : Store) (id : Ident) (value : Cursor) :
    (store.moved id value).cursor id = value := by simp [moved]
theorem moved_cursor_other (store : Store) (value : Cursor) {id other : Ident}
    (apart : other ≠ id) : (store.moved id value).cursor other = store.cursor other := by
  simp [moved,apart]
@[simp] theorem shut_phase (store : Store) (id : Ident) :
    ((store.shut id).cursor id).phase = .closed := by simp [shut]

end Store

namespace Action

@[simp] theorem bind_apply (first : Action α) (next : α → Action β) (store : Store) :
    (first >>= next) store =
      match first store with
      | .ok value after => next value after
      | .error fault after => .error fault after := by
  change EStateM.bind first next store = _
  unfold EStateM.bind
  cases first store <;> rfl

@[simp] theorem pure_apply (value : α) (store : Store) :
    (pure value : Action α) store = .ok value store := rfl

@[simp] theorem map_apply (change : α → β) (action : Action α) (store : Store) :
    (change <$> action) store =
      match action store with
      | .ok value after => .ok (change value) after
      | .error fault after => .error fault after := by
  change EStateM.map change action store = _
  unfold EStateM.map
  cases action store <;> rfl

@[simp] theorem discard_apply (action : Action α) (store : Store) :
    (discard action : Action PUnit) store =
      match action store with
      | .ok _ after => .ok ⟨⟩ after
      | .error fault after => .error fault after := by
  change ((fun _ => PUnit.unit) <$> action) store = _
  rw [map_apply]

theorem discard_bind (action : Action α) :
    (discard action : Action PUnit) = (do let _ ← action; return ⟨⟩) := by
  funext store
  rw [discard_apply,bind_apply]
  rfl

@[simp] theorem throw_apply (fault : Fault) (store : Store) :
    (throw fault : Action α) store = .error fault store := rfl

@[simp] theorem tryCatch_apply (action : Action α) (handle : Fault → Action α) (store : Store) :
    (tryCatch action handle : Action α) store =
      match action store with
      | .ok value after => .ok value after
      | .error fault after => handle fault after := by
  change EStateM.tryCatch action handle store = _
  unfold EStateM.tryCatch
  cases action store <;> rfl

@[simp] theorem fresh_apply (store : Store) : fresh store = .ok store.supply store.issued := rfl

@[simp] theorem log_apply (event : Event) (store : Store) :
    log event store = .ok () (store.noted event) := rfl

@[simp] theorem cursor_apply (id : Ident) (store : Store) :
    cursor id store = .ok (store.cursor id) store := rfl

@[simp] theorem setCursor_apply (id : Ident) (value : Cursor) (store : Store) :
    setCursor id value store = .ok () (store.moved id value) := rfl

@[simp] theorem close_apply (id : Ident) (store : Store) :
    close id store = .ok () (store.shut id) := rfl

@[simp] theorem cancel_apply (token : Token) (store : Store) :
    cancel token store = .ok () (store.stopped token) := rfl

theorem check_apply (token : Token) (store : Store) :
    check token store =
      if store.cancelled token = true then .error Fault.stopped store else .ok () store := by
  have flag : isCancelled token store = .ok (store.cancelled token) store := rfl
  rw [check,bind_apply,flag]
  cases store.cancelled token <;> rfl

theorem check_live (live : store.cancelled token = false) : check token store = .ok () store := by
  simp [check_apply,live]

theorem check_stopped (cancelled : store.cancelled token = true) :
    check token store = .error Fault.stopped store := by
  simp [check_apply,cancelled]

@[simp] theorem closing_apply (id : Ident) (action : Action α) (store : Store) :
    closing id action store =
      match action store with
      | .ok value after => .ok value after
      | .error fault after => .error fault (after.shut id) := by
  unfold closing
  rw [tryCatch_apply]
  cases action store <;> rfl

@[simp] theorem ofChecked_ok (value : α) (store : Store) :
    ofChecked (.ok value) store = .ok value store := rfl

theorem tokenOr_some (token : Token) (store : Store) :
    tokenOr (some token) store = .ok token store := rfl

theorem tokenOr_none (store : Store) :
    tokenOr none store = .ok (.fresh store.supply) store.issued := rfl

end Action

end Markup
