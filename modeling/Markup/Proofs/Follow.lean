import Markup.Proofs.LogicalRelation

namespace Markup

variable {κ : Type}

-- Two runs side by side: a tie says what the two stores have in common.
abbrev Tie := Store → Store → Prop

inductive Agree (tie : Tie) : EStateM.Result Fault Store α → EStateM.Result Fault Store α → Prop where
  | ok (tied : tie left right) : Agree tie (.ok value left) (.ok value right)
  | error (tied : tie left right) : Agree tie (.error fault left) (.error fault right)

def Follows (before after : Tie) (one other : Action α) : Prop :=
  ∀ left right, before left right → Agree after (one left) (other right)

-- A tie that no step of the interpreter breaks by itself: both stores hold the
-- same cursors and the same supply, and may go on to be written alike.
structure Bond (tie : Tie) : Prop where
  supply : ∀ {left right}, tie left right → right.supply = left.supply
  cursor : ∀ {left right}, tie left right → right.cursor = left.cursor
  noted : ∀ {left right} event, tie left right → tie (left.noted event) (right.noted event)
  issued : ∀ {left right}, tie left right → tie left.issued right.issued
  moved : ∀ {left right} id value, tie left right → tie (left.moved id value) (right.moved id value)

namespace Follows

variable {before middle after tie : Tie}

theorem pure (value : α) : Follows tie tie (Pure.pure value) (Pure.pure value) :=
  fun _ _ tied => .ok tied

theorem throw (fault : Fault) : Follows tie tie (MonadExcept.throw fault : Action α)
    (MonadExcept.throw fault) :=
  fun _ _ tied => .error tied

theorem bind {one other : Action α} {next next' : α → Action β}
    (first : Follows before middle one other)
    (later : ∀ value, Follows middle after (next value) (next' value))
    (kept : ∀ left right, middle left right → after left right) :
    Follows before after (one >>= next) (other >>= next') := by
  intro left right tied
  have agree := first left right tied
  rw [Action.bind_apply,Action.bind_apply]
  generalize one left = found at agree ⊢
  generalize other right = found' at agree ⊢
  cases agree with
  | ok tied => exact later _ _ _ tied
  | error tied => exact .error (kept _ _ tied)

theorem andThen {one other : Action α} {next next' : α → Action β}
    (first : Follows before after one other)
    (later : ∀ value, Follows after after (next value) (next' value)) :
    Follows before after (one >>= next) (other >>= next') :=
  first.bind later fun _ _ tied => tied

theorem tryCatch {one other : Action α} {handle handle' : Fault → Action α}
    (first : Follows before after one other)
    (later : ∀ fault, Follows after after (handle fault) (handle' fault)) :
    Follows before after (MonadExcept.tryCatch one handle) (MonadExcept.tryCatch other handle') := by
  intro left right tied
  have agree := first left right tied
  rw [Action.tryCatch_apply,Action.tryCatch_apply]
  generalize one left = found at agree ⊢
  generalize other right = found' at agree ⊢
  cases agree with
  | ok tied => exact .ok tied
  | error tied => exact later _ _ _ tied

theorem opened {one other : Action α} (first : Follows middle after one other)
    (within : ∀ left right, before left right → middle left right) :
    Follows before after one other :=
  fun left right tied => first left right (within left right tied)

end Follows

namespace Bond

variable {before after tie : Tie}

theorem log (bond : Bond tie) (event : Event) :
    Follows tie tie (Action.log event) (Action.log event) :=
  fun _ _ tied => .ok (bond.noted event tied)

theorem fresh (bond : Bond tie) : Follows tie tie Action.fresh Action.fresh := by
  intro left right tied
  rw [Action.fresh_apply,Action.fresh_apply,bond.supply tied]
  exact .ok (bond.issued tied)

theorem readCursor (bond : Bond tie) (id : Ident) :
    Follows tie tie (Action.cursor id) (Action.cursor id) := by
  intro left right tied
  rw [Action.cursor_apply,Action.cursor_apply,bond.cursor tied]
  exact .ok tied

theorem setCursor (bond : Bond tie) (id : Ident) (value : Cursor) :
    Follows tie tie (Action.setCursor id value) (Action.setCursor id value) :=
  fun _ _ tied => .ok (bond.moved id value tied)

theorem close (bond : Bond tie) (id : Ident) :
    Follows tie tie (Action.close id) (Action.close id) :=
  (bond.readCursor id).andThen fun _ => bond.setCursor id _

theorem closing (bond : Bond after) (id : Ident) {one other : Action α}
    (first : Follows before after one other) :
    Follows before after (Action.closing id one) (Action.closing id other) :=
  first.tryCatch fun fault => (bond.close id).andThen fun _ => .throw fault

end Bond

-- Reading a list or a sequence runs the code of its places, which is handed no
-- token. Two hosts that run places alike read alike.
structure Places (tie : Tie) (host host' : Host κ) : Prop where
  bond : Bond tie
  depth : host'.depth = host.depth
  place : ∀ code, Follows tie tie (host.run code none) (host'.run code none)

theorem Bond.composing (bond : Bond tie) : Composing fun _ => Follows tie tie where
  pure := .pure
  throw := .throw
  bind := .andThen
  fresh := bond.fresh
  noted := fun _ => bond.log _

theorem Places.pulling (places : Places tie host host') :
    Pulling (fun _ => Follows tie tie) host host' where
  toComposing := places.bond.composing
  closing := places.bond.closing
  cursor := places.bond.readCursor
  setCursor := places.bond.setCursor
  depth := places.depth
  place := places.place
  log := places.bond.log

theorem build_follows (places : Places tie host host') (selector : String)
    (arguments : List (Node κ)) :
    Follows tie tie (build host selector arguments) (build host' selector arguments) :=
  places.pulling.build selector arguments

theorem pull_follows (places : Places tie host host') (feed : Feed κ) :
    Follows tie tie (feed.pull host) (feed.pull host') :=
  places.pulling.pull feed

-- Driving hands the token of the run to the code of a body, or to a one-off
-- wait a token of its own; up to that moment the token is not cancelled.
structure Alike (before after : Tie) (token : Token) (host host' : Host κ) : Prop
    extends Places after host host' where
  start : Bond before
  opened : ∀ left right, before left right → after left right
  live : ∀ left right, before left right →
    left.cancelled token = false ∧ right.cancelled token = false
  thunk : ∀ code, Follows before after (host.run code (some token)) (host'.run code (some token))
  wait : ∀ own code,
    Follows before after (host.run code (some (.own own))) (host'.run code (some (.own own)))

section driving

variable {before after : Tie} {host host' : Host κ} {token : Token}

theorem Alike.check (alike : Alike before after token host host') :
    Follows before before (Action.check token) (Action.check token) := by
  intro left right tied
  obtain ⟨liveLeft,liveRight⟩ := alike.live left right tied
  rw [Action.check_live liveLeft,Action.check_live liveRight]
  exact .ok tied

theorem Alike.driving (alike : Alike before after token host host') :
    Driving (fun _ => Follows before before) (fun _ => Follows before after)
      (fun _ => Follows after after) token host host' where
  toPulling := alike.toPlaces.pulling
  check := alike.check
  begin := alike.start.log
  look := alike.start.readCursor
  spend := alike.start.close
  andThen := fun first later => first.bind later alike.opened
  behind := .andThen
  within := fun follows => follows.opened alike.opened
  thunk := alike.thunk
  wait := alike.wait

theorem drive_follows (alike : Alike before after token host host') (pending : Pending κ) :
    Follows before after (pending.drive host token) (pending.drive host' token) :=
  alike.driving.drive pending

theorem driveAttr_follows (alike : Alike before after token host host') (attr : Attr κ) :
    Follows before after (attr.drive host token) (attr.drive host' token) :=
  alike.driving.driveAttr attr

end driving

end Markup
