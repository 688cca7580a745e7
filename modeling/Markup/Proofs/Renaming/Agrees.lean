import Markup.Proofs.Action
import Markup.Proofs.Renaming.Alike

namespace Markup

-- Two runs of the same thing, the right one in a store that others use as well.
-- Pairs tell which identities of the two belong together. The identity of a
-- token that was made for a wait or for a run is one of them.
abbrev Pairing := Ident → Ident → Prop

def Pairing.Within (pairs wider : Pairing) : Prop := ∀ a b, pairs a b → wider a b

def Pairing.joined (pairs : Pairing) (own own' : Ident) : Pairing :=
  fun a b => pairs a b ∨ a = own ∧ b = own'

def Pairing.on (reach : Ident → Prop) : Pairing := fun a b => a = b ∧ reach a

def Token.serial? : Token → Option Ident
  | .named _ => none
  | .fresh serial => some serial
  | .own wait => some wait

inductive Token.Alike (token : Token) (pairs : Pairing) : Token → Token → Prop where
  | run : Token.Alike token pairs token token
  | fresh (same : pairs serial serial') : Token.Alike token pairs (.fresh serial) (.fresh serial')
  | own (same : pairs wait wait') : Token.Alike token pairs (.own wait) (.own wait')

theorem Token.Alike.mono {token : Token} {pairs wider : Pairing} (within : pairs.Within wider)
    {one other : Token} : Token.Alike token pairs one other → Token.Alike token wider one other
  | .run => .run
  | .fresh same => .fresh (within _ _ same)
  | .own same => .own (within _ _ same)

structure Unread (store : Store) : Prop where
  cursor : ∀ id, store.supply ≤ id → store.cursor id = {}
  cancelled : ∀ token id, Token.serial? token = some id → store.supply ≤ id →
    store.cancelled token = false

structure Tied (token : Token) (pairs : Pairing) (left right : Store) : Prop where
  one : ∀ a b, pairs a b → ∀ a' b', pairs a' b' → (a = a' ↔ b = b')
  low : ∀ a b, pairs a b → a < left.supply ∧ b < right.supply
  apart : ∀ a b, pairs a b → token.serial? ≠ some a ∧ token.serial? ≠ some b
  issued : ∀ id, token.serial? = some id → id < left.supply ∧ id < right.supply
  cursor : ∀ a b, pairs a b → right.cursor b = left.cursor a
  cancelled : ∀ one other, Token.Alike token pairs one other →
    right.cancelled other = left.cancelled one
  unread : Unread left
  unread' : Unread right

structure LeavesOthers (token : Token) (pairs : Pairing) (before after : Store) : Prop where
  supply : before.supply ≤ after.supply
  cursor : ∀ id, id < before.supply → (∀ a, ¬pairs a id) → after.cursor id = before.cursor id
  cancelled : ∀ other : Token, other ≠ token →
    (∀ id, other.serial? = some id → id < before.supply ∧ ∀ a, ¬pairs a id) →
      after.cancelled other = before.cancelled other

-- How far both runs may get: more identities belong together, all of them new
-- on the right.
structure Further (token : Token) (pairs : Pairing) (right : Store) (wider : Pairing)
    (left' right' : Store) : Prop where
  tied : Tied token wider left' right'
  within : pairs.Within wider
  fresh : ∀ a b, wider a b → pairs a b ∨ right.supply ≤ b
  spares : LeavesOthers token pairs right right'

inductive Both (token : Token) (pairs : Pairing) (right : Store) (alike : Pairing → α → β → Prop) :
    EStateM.Result Fault Store α → EStateM.Result Fault Store β → Prop where
  | ok (further : Further token pairs right wider left' right') (same : alike wider one other) :
      Both token pairs right alike (.ok one left') (.ok other right')
  | error (further : Further token pairs right wider left' right') :
      Both token pairs right alike (.error fault left') (.error fault right')

-- From tied stores both actions come to alike values or to the same fault, and
-- the stores are tied after.
def Agrees (token : Token) (pairs : Pairing) (alike : Pairing → α → β → Prop) (one : Action α)
    (other : Action β) : Prop :=
  ∀ left right, Tied token pairs left right → Both token pairs right alike (one left) (other right)

section stores

variable {token : Token} {pairs wider : Pairing} {left right left' right' : Store}

theorem Pairing.Within.trans {widest : Pairing} (one : pairs.Within wider)
    (other : wider.Within widest) : pairs.Within widest :=
  fun a b same => other a b (one a b same)

theorem Further.refl (tied : Tied token pairs left right) :
    Further token pairs right pairs left right :=
  ⟨tied,fun _ _ same => same,fun _ _ same => .inl same,
    ⟨Nat.le_refl _,fun _ _ _ => rfl,fun _ _ _ => rfl⟩⟩

theorem Further.trans {widest : Pairing} {left'' right'' : Store}
    (one : Further token pairs right wider left' right')
    (other : Further token wider right' widest left'' right'') :
    Further token pairs right widest left'' right'' := by
  have outside : ∀ id, id < right.supply → (∀ a, ¬pairs a id) → ∀ a, ¬wider a id := by
    intro id low out a new
    rcases one.fresh a id new with old | late
    · exact out a old
    · exact Nat.not_lt.mpr late low
  refine ⟨other.tied,one.within.trans other.within,?_,?_,?_,?_⟩
  · intro a b new
    rcases other.fresh a b new with old | late
    · exact one.fresh a b old
    · exact .inr (Nat.le_trans one.spares.supply late)
  · exact Nat.le_trans one.spares.supply other.spares.supply
  · intro id low out
    rw [other.spares.cursor id (Nat.lt_of_lt_of_le low one.spares.supply) (outside id low out),
      one.spares.cursor id low out]
  · intro other' differs out
    rw [other.spares.cancelled other' differs fun id serial => ?_,
      one.spares.cancelled other' differs out]
    obtain ⟨low,out⟩ := out id serial
    exact ⟨Nat.lt_of_lt_of_le low one.spares.supply,outside id low out⟩

theorem Tied.same_token (tied : Tied token pairs left right) {one other one' other' : Token}
    (alike : Token.Alike token pairs one other) (alike' : Token.Alike token pairs one' other') :
    one = one' ↔ other = other' := by
  have own : ∀ {serial serial'}, pairs serial serial' → ∀ {made}, Token.serial? made = some serial →
      token ≠ made :=
    fun same _ serial equal => (tied.apart _ _ same).1 (equal ▸ serial)
  have own' : ∀ {serial serial'}, pairs serial serial' → ∀ {made}, Token.serial? made = some serial' →
      token ≠ made :=
    fun same _ serial equal => (tied.apart _ _ same).2 (equal ▸ serial)
  cases alike with
  | run =>
    cases alike' with
    | run => simp
    | fresh same | own same => exact iff_of_false (own same rfl) (own' same rfl)
  | fresh same =>
    cases alike' with
    | run => exact iff_of_false (own same rfl).symm (own' same rfl).symm
    | fresh same' => simpa using tied.one _ _ same _ _ same'
    | own => simp
  | own same =>
    cases alike' with
    | run => exact iff_of_false (own same rfl).symm (own' same rfl).symm
    | fresh => simp
    | own same' => simpa using tied.one _ _ same _ _ same'

theorem Unread.noted {store : Store} (unread : Unread store) (event : Event) :
    Unread (store.noted event) := ⟨unread.cursor,unread.cancelled⟩

theorem Tied.noted (tied : Tied token pairs left right) (event event' : Event) :
    Further token pairs right pairs (left.noted event) (right.noted event') where
  tied := ⟨tied.one,tied.low,tied.apart,tied.issued,tied.cursor,tied.cancelled,
    tied.unread.noted event,tied.unread'.noted event'⟩
  within := fun _ _ same => same
  fresh := fun _ _ same => .inl same
  spares := ⟨Nat.le_refl _,fun _ _ _ => rfl,fun _ _ _ => rfl⟩

theorem Unread.issued {store : Store} (unread : Unread store) : Unread store.issued where
  cursor id late := unread.cursor id (Nat.le_of_succ_le late)
  cancelled token id serial late := unread.cancelled token id serial (Nat.le_of_succ_le late)

theorem Unread.moved {store : Store} (unread : Unread store) {own : Ident} (low : own < store.supply)
    (value : Cursor) : Unread (store.moved own value) where
  cursor id late := by
    rw [Store.moved_cursor_other _ _ (Nat.ne_of_gt (Nat.lt_of_lt_of_le low late))]
    exact unread.cursor id late
  cancelled := unread.cancelled

theorem Tied.issued_further (tied : Tied token pairs left right) :
    Further token pairs right (pairs.joined left.supply right.supply) left.issued right.issued where
  tied := by
    refine ⟨?_,?_,?_,?_,?_,?_,tied.unread.issued,tied.unread'.issued⟩
    · rintro a b (same | ⟨rfl,rfl⟩) a' b' (same' | ⟨rfl,rfl⟩)
      · exact tied.one a b same a' b' same'
      · obtain ⟨low,low'⟩ := tied.low a b same
        exact iff_of_false (Nat.ne_of_lt low) (Nat.ne_of_lt low')
      · obtain ⟨low,low'⟩ := tied.low a' b' same'
        exact iff_of_false (Nat.ne_of_gt low) (Nat.ne_of_gt low')
      · simp
    · rintro a b (same | ⟨rfl,rfl⟩)
      · exact (tied.low a b same).imp Nat.lt_succ_of_lt Nat.lt_succ_of_lt
      · exact ⟨Nat.lt_succ_self _,Nat.lt_succ_self _⟩
    · rintro a b (same | ⟨rfl,rfl⟩)
      · exact tied.apart a b same
      · exact ⟨fun serial => Nat.lt_irrefl _ (tied.issued _ serial).1,
          fun serial => Nat.lt_irrefl _ (tied.issued _ serial).2⟩
    · exact fun id serial => (tied.issued id serial).imp Nat.lt_succ_of_lt Nat.lt_succ_of_lt
    · rintro a b (same | ⟨rfl,rfl⟩)
      · exact tied.cursor a b same
      · exact (tied.unread'.cursor _ (Nat.le_refl _)).trans
          (tied.unread.cursor _ (Nat.le_refl _)).symm
    · have made : ∀ {made made' : Token}, made.serial? = some left.supply →
          made'.serial? = some right.supply → right.cancelled made' = left.cancelled made :=
        fun serial serial' => (tied.unread'.cancelled _ _ serial' (Nat.le_refl _)).trans
          (tied.unread.cancelled _ _ serial (Nat.le_refl _)).symm
      rintro one other (_ | (same | ⟨rfl,rfl⟩) | (same | ⟨rfl,rfl⟩))
      · exact tied.cancelled _ _ .run
      · exact tied.cancelled _ _ (.fresh same)
      · exact made rfl rfl
      · exact tied.cancelled _ _ (.own same)
      · exact made rfl rfl
  within := fun _ _ same => .inl same
  fresh := by
    rintro a b (same | ⟨rfl,rfl⟩)
    · exact .inl same
    · exact .inr (Nat.le_refl _)
  spares := ⟨Nat.le_succ _,fun _ _ _ => rfl,fun _ _ _ => rfl⟩

theorem Tied.moved (tied : Tied token pairs left right) {own own' : Ident} (same : pairs own own')
    (value : Cursor) :
    Further token pairs right pairs (left.moved own value) (right.moved own' value) where
  tied := by
    obtain ⟨low,low'⟩ := tied.low own own' same
    refine ⟨tied.one,tied.low,tied.apart,tied.issued,?_,tied.cancelled,
      tied.unread.moved low value,tied.unread'.moved low' value⟩
    intro a b here
    by_cases equal : a = own
    · obtain rfl := equal
      obtain rfl := (tied.one _ _ here _ _ same).mp rfl
      simp
    · have differs : b ≠ own' := fun equal' => equal ((tied.one _ _ here _ _ same).mpr equal')
      rw [Store.moved_cursor_other _ _ equal,Store.moved_cursor_other _ _ differs]
      exact tied.cursor a b here
  within := fun _ _ same => same
  fresh := fun _ _ same => .inl same
  spares := by
    refine ⟨Nat.le_refl _,fun id _ out => ?_,fun _ _ _ => rfl⟩
    exact Store.moved_cursor_other _ _ fun equal => out own (equal ▸ same)

theorem Unread.stopped {store : Store} (unread : Unread store) {made : Token}
    (low : ∀ id, made.serial? = some id → id < store.supply) : Unread (store.stopped made) where
  cursor := unread.cursor
  cancelled other id serial late := by
    have differs : other ≠ made := fun equal => Nat.not_lt.mpr late (low id (equal ▸ serial))
    simpa [Store.stopped,differs] using unread.cancelled other id serial late

theorem Tied.stopped (tied : Tied token pairs left right) {one other : Token}
    (alike : Token.Alike token pairs one other) :
    Further token pairs right pairs (left.stopped one) (right.stopped other) where
  tied := by
    have low : ∀ id, one.serial? = some id → id < left.supply := by
      intro id serial
      cases alike with
      | run => exact (tied.issued id serial).1
      | fresh same | own same => exact Option.some.inj serial ▸ (tied.low _ _ same).1
    have low' : ∀ id, other.serial? = some id → id < right.supply := by
      intro id serial
      cases alike with
      | run => exact (tied.issued id serial).2
      | fresh same | own same => exact Option.some.inj serial ▸ (tied.low _ _ same).2
    refine ⟨tied.one,tied.low,tied.apart,tied.issued,tied.cursor,?_,
      tied.unread.stopped low,tied.unread'.stopped low'⟩
    intro one' other' alike'
    simp only [Store.stopped,tied.same_token alike' alike,tied.cancelled one' other' alike']
  within := fun _ _ same => same
  fresh := fun _ _ same => .inl same
  spares := by
    refine ⟨Nat.le_refl _,fun _ _ _ => rfl,fun other' differs out => ?_⟩
    have apart : other' ≠ other := by
      rintro rfl
      cases alike with
      | run => exact differs rfl
      | fresh same | own same => exact (out _ rfl).2 _ same
    simp [Store.stopped,apart]

theorem Tied.aside (tied : Tied token pairs left right) (supply : right.supply ≤ right'.supply)
    (cursor : ∀ a b, pairs a b → right'.cursor b = right.cursor b)
    (cancelled : right'.cancelled = right.cancelled) (unread : Unread right') :
    Tied token pairs left right' where
  one := tied.one
  low a b same := (tied.low a b same).imp_right (Nat.lt_of_lt_of_le · supply)
  apart := tied.apart
  issued id made := (tied.issued id made).imp_right (Nat.lt_of_lt_of_le · supply)
  cursor a b same := (cursor a b same).trans (tied.cursor a b same)
  cancelled one other alike := by rw [cancelled,tied.cancelled one other alike]
  unread := tied.unread
  unread' := unread

theorem Tied.self {reach : Ident → Prop} {store : Store}
    (low : ∀ own, reach own → own < store.supply)
    (serial : ∀ id, token.serial? = some id → id < store.supply ∧ ¬reach id)
    (unread : Unread store) : Tied token (.on reach) store store := by
  refine ⟨?_,?_,?_,fun id made => ⟨(serial id made).1,(serial id made).1⟩,?_,?_,unread,unread⟩
  · rintro a b ⟨rfl,_⟩ a' b' ⟨rfl,_⟩
    rfl
  · rintro a b ⟨rfl,here⟩
    exact ⟨low a here,low a here⟩
  · rintro a b ⟨rfl,here⟩
    exact ⟨fun made => (serial a made).2 here,fun made => (serial a made).2 here⟩
  · rintro a b ⟨rfl,_⟩
    rfl
  · rintro one other (_ | ⟨rfl,_⟩ | ⟨rfl,_⟩) <;> rfl

theorem Tied.spared {token' : Token} {pairs' : Pairing} (tied : Tied token pairs left right)
    (spares : LeavesOthers token' pairs' right right') (unread : Unread right')
    (differs : token ≠ token')
    (apart : ∀ a b own, pairs a own → ¬pairs' b own)
    (serial : ∀ id, token.serial? = some id → ∀ a, ¬pairs' a id)
    (serial' : ∀ id, token'.serial? = some id → ∀ a, ¬pairs a id) :
    Tied token pairs left right' := by
  refine ⟨tied.one,?_,tied.apart,?_,?_,?_,tied.unread,unread⟩
  · intro a b same
    exact ⟨(tied.low a b same).1,Nat.lt_of_lt_of_le (tied.low a b same).2 spares.supply⟩
  · intro id made
    exact ⟨(tied.issued id made).1,Nat.lt_of_lt_of_le (tied.issued id made).2 spares.supply⟩
  · intro a b same
    rw [spares.cursor b (tied.low a b same).2 fun a' => apart a a' b same]
    exact tied.cursor a b same
  · intro one other alike
    rw [← tied.cancelled one other alike]
    have outside : ∀ a b, pairs a b → b < right.supply ∧ ∀ a', ¬pairs' a' b :=
      fun a b same => ⟨(tied.low a b same).2,fun a' => apart a a' b same⟩
    cases alike with
    | run =>
      exact spares.cancelled _ differs fun id made => ⟨(tied.issued id made).2,serial id made⟩
    | @fresh a b same =>
      refine spares.cancelled _ (fun equal => serial' b (equal ▸ rfl) a same) fun id made => ?_
      obtain rfl := Option.some.inj made
      exact outside a b same
    | @own a b same =>
      refine spares.cancelled _ (fun equal => serial' b (equal ▸ rfl) a same) fun id made => ?_
      obtain rfl := Option.some.inj made
      exact outside a b same

end stores

namespace Agrees

variable {token : Token} {pairs : Pairing} {alike : Pairing → α → β → Prop}
  {alike' : Pairing → γ → δ → Prop}

theorem found {one : Action α} {other : Action β} {left right left' : Store} {value : α}
    (agrees : Agrees token pairs alike one other) (tied : Tied token pairs left right)
    (run : one left = .ok value left') :
    ∃ value' right' wider, other right = .ok value' right' ∧
      Further token pairs right wider left' right' ∧ alike wider value value' := by
  have both := agrees left right tied
  rw [run] at both
  generalize other right = result at both ⊢
  cases both with
  | ok further same => exact ⟨_,_,_,rfl,further,same⟩

theorem failed {one : Action α} {other : Action β} {left right left' : Store} {fault : Fault}
    (agrees : Agrees token pairs alike one other) (tied : Tied token pairs left right)
    (run : one left = .error fault left') :
    ∃ right' wider, other right = .error fault right' ∧
      Further token pairs right wider left' right' := by
  have both := agrees left right tied
  rw [run] at both
  generalize other right = result at both ⊢
  cases both with
  | error further => exact ⟨_,_,rfl,further⟩

theorem pure {one : α} {other : β} (same : alike pairs one other) :
    Agrees token pairs alike (Pure.pure one) (Pure.pure other) :=
  fun _ _ tied => .ok (.refl tied) same

theorem throw (fault : Fault) :
    Agrees token pairs alike (MonadExcept.throw fault) (MonadExcept.throw fault) :=
  fun _ _ tied => .error (.refl tied)

theorem bind {one : Action α} {other : Action β} {next : α → Action γ} {next' : β → Action δ}
    (first : Agrees token pairs alike one other)
    (later : ∀ wider, pairs.Within wider → ∀ value value',
      alike wider value value' → Agrees token wider alike' (next value) (next' value')) :
    Agrees token pairs alike' (one >>= next) (other >>= next') := by
  intro left right tied
  have both := first left right tied
  rw [Action.bind_apply,Action.bind_apply]
  generalize one left = found at both ⊢
  generalize other right = found' at both ⊢
  cases both with
  | error further => exact .error further
  | ok further same =>
    have rest := later _ further.within _ _ same _ _ further.tied
    dsimp only
    generalize next _ _ = last at rest ⊢
    generalize next' _ _ = last' at rest ⊢
    cases rest with
    | ok further' same' => exact .ok (further.trans further') same'
    | error further' => exact .error (further.trans further')

theorem tryCatch {one : Action α} {other : Action β} {handle : Fault → Action α}
    {handle' : Fault → Action β} (first : Agrees token pairs alike one other)
    (later : ∀ wider, pairs.Within wider → ∀ fault,
      Agrees token wider alike (handle fault) (handle' fault)) :
    Agrees token pairs alike (MonadExcept.tryCatch one handle)
      (MonadExcept.tryCatch other handle') := by
  intro left right tied
  have both := first left right tied
  rw [Action.tryCatch_apply,Action.tryCatch_apply]
  generalize one left = found at both ⊢
  generalize other right = found' at both ⊢
  cases both with
  | ok further same => exact .ok further same
  | @error wider _ _ fault further =>
    have rest := later _ further.within fault _ _ further.tied
    dsimp only
    generalize handle fault _ = last at rest ⊢
    generalize handle' fault _ = last' at rest ⊢
    cases rest with
    | ok further' same' => exact .ok (further.trans further') same'
    | error further' => exact .error (further.trans further')

theorem ofChecked {one : Checked α} {other : Checked β}
    (checked : Checked.Alike (alike pairs) one other) :
    Agrees token pairs alike (Action.ofChecked one) (Action.ofChecked other) := by
  cases checked with
  | ok same => exact .pure same
  | error => exact .throw _

theorem checked (found : Checked α) :
    Agrees token pairs (fun _ => Eq) (Action.ofChecked found) (Action.ofChecked found) := by
  cases found with
  | ok value => exact .pure rfl
  | error problems => exact .throw _

theorem log (event event' : Event) :
    Agrees token pairs (fun _ _ _ => True) (Action.log event) (Action.log event') :=
  fun _ _ tied => .ok (tied.noted event event') trivial

theorem fresh : Agrees token pairs (fun pairs => pairs) Action.fresh Action.fresh :=
  fun _ _ tied => .ok tied.issued_further (.inr ⟨rfl,rfl⟩)

section cursors

variable {own own' : Ident}

theorem readCursor (same : pairs own own') :
    Agrees token pairs (fun _ => Eq) (Action.cursor own) (Action.cursor own') :=
  fun _ _ tied => .ok (.refl tied) (tied.cursor own own' same).symm

theorem setCursor (same : pairs own own') (value : Cursor) :
    Agrees token pairs (fun _ _ _ => True) (Action.setCursor own value)
      (Action.setCursor own' value) :=
  fun _ _ tied => .ok (tied.moved same value) trivial

theorem close (same : pairs own own') :
    Agrees token pairs (fun _ _ _ => True) (Action.close own) (Action.close own') := by
  refine (readCursor same).bind fun wider within cursor _ found => ?_
  cases found
  exact setCursor (within _ _ same) _

theorem closing {one : Action α} {other : Action β} (same : pairs own own')
    (first : Agrees token pairs alike one other) :
    Agrees token pairs alike (Action.closing own one) (Action.closing own' other) :=
  first.tryCatch fun _ within fault =>
    (close (within _ _ same)).bind fun _ _ _ _ _ => throw fault

end cursors

theorem check {one other : Token} (same : Token.Alike token pairs one other) :
    Agrees token pairs (fun _ _ _ => True) (Action.check one) (Action.check other) := by
  intro left right tied
  rw [Action.check_apply,Action.check_apply,tied.cancelled one other same]
  split
  · exact .error (.refl tied)
  · exact .ok (.refl tied) trivial

theorem cancel {one other : Token} (same : Token.Alike token pairs one other) :
    Agrees token pairs (fun _ _ _ => True) (Action.cancel one) (Action.cancel other) :=
  fun _ _ tied => .ok (tied.stopped same) trivial

theorem discard {one : Action α} {other : Action β} (first : Agrees token pairs alike one other) :
    Agrees token pairs (fun _ _ _ => True) (Functor.discard one : Action PUnit)
      (Functor.discard other) := by
  rw [Action.discard_bind,Action.discard_bind]
  exact first.bind fun _ _ _ _ _ => pure trivial

end Agrees

variable {κ : Type}

-- What it means for code of two runs to do the same, given which identities
-- belong together.
structure Sense (κ : Type) where
  code : Pairing → κ → κ → Prop
  mono : ∀ {pairs wider : Pairing}, pairs.Within wider →
    ∀ {one other}, code pairs one other → code wider one other

def Sense.world (sense : Sense κ) (pairs : Pairing) : World κ := ⟨pairs,sense.code pairs⟩

abbrev Sense.node (sense : Sense κ) (pairs : Pairing) : Node κ → Node κ → Prop :=
  Node.Alike (sense.world pairs)

theorem Sense.within (sense : Sense κ) (within : pairs.Within wider) :
    (sense.world pairs).Within (sense.world wider) :=
  ⟨within,fun _ _ => sense.mono within⟩

-- Running code that does the same touches nothing but what belongs together,
-- what it makes and the token it is handed.
structure Host.Local (host : Host κ) (token : Token) (sense : Sense κ) : Prop where
  run : ∀ {pairs code code' given given'}, sense.code pairs code code' →
    Option.Rel (Token.Alike token pairs) given given' →
      Agrees token pairs sense.node (host.run code given) (host.run code' given')

end Markup
