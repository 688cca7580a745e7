import Markup.Proofs.LogicalRelation

namespace Markup

variable {κ : Type}

def SucceedsLike (one other : Action α) : Prop :=
  ∀ store value after, one store = .ok value after → other store = .ok value after

-- A host that does what another does wherever that one succeeds. It may succeed
-- where the other fails.
structure Host.Extends (host other : Host κ) : Prop where
  depth : other.depth = host.depth
  run : ∀ code given, SucceedsLike (host.run code given) (other.run code given)

namespace SucceedsLike

theorem refl (action : Action α) : SucceedsLike action action := fun _ _ _ done => done

theorem bind {one other : Action α} {next next' : α → Action β} (first : SucceedsLike one other)
    (later : ∀ value, SucceedsLike (next value) (next' value)) :
    SucceedsLike (one >>= next) (other >>= next') := by
  intro store value after done
  rw [Action.bind_apply] at done ⊢
  cases run : one store with
  | error fault middle => simp only [run,reduceCtorEq] at done
  | ok found middle =>
    rw [first _ _ _ run]
    rw [run] at done
    exact later found _ _ _ done

theorem closing (id : Ident) {one other : Action α} (first : SucceedsLike one other) :
    SucceedsLike (Action.closing id one) (Action.closing id other) := by
  intro store value after done
  rw [Action.closing_apply] at done ⊢
  cases run : one store with
  | error fault middle => simp only [run,reduceCtorEq] at done
  | ok found middle =>
    rw [first _ _ _ run]
    rwa [run] at done

theorem composing : Composing fun _ => SucceedsLike where
  pure := fun _ => .refl _
  throw := fun _ => .refl _
  bind := .bind
  fresh := .refl _
  noted := fun _ => .refl _

end SucceedsLike

namespace Host.Extends

variable {host other : Host κ}

theorem pulling (wider : host.Extends other) : Pulling (fun _ => SucceedsLike) host other where
  toComposing := SucceedsLike.composing
  closing := SucceedsLike.closing
  cursor := fun _ => .refl _
  setCursor := fun _ _ => .refl _
  depth := wider.depth
  place := fun code => wider.run code none
  log := fun _ => .refl _

theorem driving (wider : host.Extends other) (token : Token) :
    Driving (fun _ => SucceedsLike) (fun _ => SucceedsLike) (fun _ => SucceedsLike) token host
      other where
  toPulling := wider.pulling
  check := .refl _
  begin := fun _ => .refl _
  look := fun _ => .refl _
  spend := fun _ => .refl _
  andThen := .bind
  behind := .bind
  within := id
  thunk := fun code => wider.run code _
  wait := fun _ code => wider.run code _

theorem drive (wider : host.Extends other) (token : Token) (pending : Pending κ) :
    SucceedsLike (pending.drive host token) (pending.drive other token) :=
  (wider.driving token).drive pending

theorem driveAttr (wider : host.Extends other) (token : Token) (attr : Attr κ) :
    SucceedsLike (attr.drive host token) (attr.drive other token) :=
  (wider.driving token).driveAttr attr

theorem pull (wider : host.Extends other) (feed : Feed κ) :
    SucceedsLike (feed.pull host) (feed.pull other) :=
  wider.pulling.pull feed

end Host.Extends

end Markup
