import Markup.Proofs.Feed

namespace Markup

variable {κ : Type}

def Event.isDriving : Event → Bool
  | .drive _ | .pull .. | .finish _ | .resolved _ => true
  | _ => false

-- A relation between the actions of two runs. One that the steps of composing,
-- reading and driving keep is kept by everything that is made of them.
abbrev Relation := (α : Type) → Action α → Action α → Prop

structure Composing (rel : Relation) : Prop where
  pure : ∀ {α} (value : α), rel α (Pure.pure value) (Pure.pure value)
  throw : ∀ {α} (fault : Fault), rel α (MonadExcept.throw fault) (MonadExcept.throw fault)
  bind : ∀ {α β} {one other : Action α} {next next' : α → Action β}, rel α one other →
    (∀ value, rel β (next value) (next' value)) → rel β (one >>= next) (other >>= next')
  fresh : rel _ Action.fresh Action.fresh
  noted : ∀ {event : Event}, event.isDriving = false → rel _ (Action.log event) (Action.log event)

structure Reading (rel : Relation) (host host' : Host κ) : Prop extends Composing rel where
  closing : ∀ {α} (id : Ident) {one other : Action α}, rel α one other →
    rel α (Action.closing id one) (Action.closing id other)
  cursor : ∀ id, rel _ (Action.cursor id) (Action.cursor id)
  setCursor : ∀ id value, rel _ (Action.setCursor id value) (Action.setCursor id value)
  depth : host'.depth = host.depth
  place : ∀ code, rel _ (host.run code none) (host'.run code none)

structure Pulling (rel : Relation) (host host' : Host κ) : Prop extends Reading rel host host' where
  log : ∀ event, rel _ (Action.log event) (Action.log event)

-- Up to the moment at which code is handed a token, a drive may keep a relation
-- of its own; one from there to what comes after is kept by the whole of it.
structure Driving (early whole rel : Relation) (token : Token) (host host' : Host κ) : Prop
    extends Pulling rel host host' where
  check : early _ (Action.check token) (Action.check token)
  begin : ∀ event, early _ (Action.log event) (Action.log event)
  look : ∀ id, early _ (Action.cursor id) (Action.cursor id)
  spend : ∀ id, early _ (Action.close id) (Action.close id)
  andThen : ∀ {α β} {one other : Action α} {next next' : α → Action β}, early α one other →
    (∀ value, whole β (next value) (next' value)) → whole β (one >>= next) (other >>= next')
  behind : ∀ {α β} {one other : Action α} {next next' : α → Action β}, whole α one other →
    (∀ value, rel β (next value) (next' value)) → whole β (one >>= next) (other >>= next')
  within : ∀ {α} {one other : Action α}, rel α one other → whole α one other
  thunk : ∀ code, whole _ (host.run code (some token)) (host'.run code (some token))
  wait : ∀ own code, whole _ (host.run code (some (.own own))) (host'.run code (some (.own own)))

namespace Composing

variable {rel : Relation}

theorem ofChecked (composing : Composing rel) (checked : Checked α) :
    rel _ (Action.ofChecked checked) (Action.ofChecked checked) := by
  cases checked with
  | ok value => exact composing.pure value
  | error problems => exact composing.throw _

theorem discard (composing : Composing rel) {one other : Action α} (first : rel _ one other) :
    rel _ (Functor.discard one : Action PUnit) (Functor.discard other) := by
  rw [Action.discard_bind,Action.discard_bind]
  exact composing.bind first fun _ => composing.pure _

theorem foldl (composing : Composing rel) {step step' : α → β → Action α}
    (steps : ∀ state value, rel _ (step state value) (step' state value)) (values : List β) :
    ∀ state, rel _ (values.foldlM step state) (values.foldlM step' state) := by
  induction values with
  | nil => exact composing.pure
  | cons value rest ih =>
    intro state
    rw [List.foldlM_cons,List.foldlM_cons]
    exact composing.bind (steps state value) ih

theorem requireNode (composing : Composing rel) (value : Node κ) :
    rel _ value.requireNode value.requireNode := by
  unfold Node.requireNode
  split
  · exact composing.pure _
  · exact composing.throw _

theorem joinLeaves (composing : Composing rel) (a b : Node κ) :
    rel _ (a.joinLeaves b) (a.joinLeaves b) := by
  unfold Node.joinLeaves
  split
  · exact composing.pure _
  · exact composing.pure _
  · exact composing.pure _
  · exact composing.bind (composing.noted rfl) fun _ => composing.pure _
  · exact composing.pure _

theorem append (composing : Composing rel) (a b : Node κ) : rel _ (a.append b) (a.append b) := by
  refine composing.bind (composing.requireNode a) fun _ =>
    composing.bind (composing.requireNode b) fun _ => ?_
  split
  · exact composing.pure _
  · exact composing.ofChecked _
  · exact composing.bind composing.fresh fun _ => composing.pure _
  · split
    · exact composing.bind composing.fresh fun _ => composing.pure _
    · exact composing.bind composing.fresh fun _ => composing.pure _
    · exact composing.bind composing.fresh fun _ =>
        composing.bind composing.fresh fun _ => composing.pure _
  · split
    · exact composing.joinLeaves _ _
    · exact composing.ofChecked _

theorem appendAll (composing : Composing rel) (others : List (Node κ)) (node : Node κ) :
    rel _ (node.appendAll others) (node.appendAll others) :=
  composing.foldl composing.append others node

theorem addAttribute (composing : Composing rel) (node : Node κ) (attr : Attr κ) :
    rel _ (node.addAttribute attr) (node.addAttribute attr) := by
  unfold Node.addAttribute
  split
  · exact composing.pure _
  · exact composing.bind composing.fresh fun _ => composing.pure _
  · exact composing.bind (composing.requireNode _) fun _ => composing.pure _

theorem attach (composing : Composing rel) (node value : Node κ) :
    rel _ (node.attach value) (node.attach value) := by
  unfold Node.attach
  split
  · exact composing.addAttribute _ _
  · exact composing.throw _

theorem extend (composing : Composing rel) (node value : Node κ) :
    rel _ (node.extend value) (node.extend value) := by
  unfold Node.extend
  split
  · exact composing.addAttribute _ _
  · exact composing.append _ _

theorem ofSource (composing : Composing rel) (source : Node κ) :
    rel _ (Node.ofSource source) (Node.ofSource source) :=
  composing.bind composing.fresh fun _ => composing.pure _

theorem ofFeed (composing : Composing rel) (value : Node κ) :
    rel _ (Node.ofFeed value) (Node.ofFeed value) := by
  unfold Node.ofFeed
  split
  · exact composing.bind composing.fresh fun _ => composing.pure _
  · exact composing.bind composing.fresh fun _ => composing.pure _

theorem parseElement (composing : Composing rel) (selector : String) :
    rel (Node κ) (parseElement selector) (parseElement selector) := by
  unfold Markup.parseElement
  split
  · exact composing.pure _
  · exact composing.bind (composing.noted rfl) fun _ => composing.throw _

end Composing

section values

variable {rel : Relation}

mutual
theorem Composing.coerceWith (composing : Composing rel)
    {read read' : Ident → List κ → Action (List (Node κ))}
    (reads : ∀ id items, rel _ (read id items) (read' id items)) :
    ∀ value : Node κ, rel _ (value.coerceWith read) (value.coerceWith read')
  | .foreign value => composing.coerceForeign reads value
  | .element .. | .text _ | .raw _ | .comment _ | .fragment _ | .deferred _ | .sequence _ =>
    composing.pure _
theorem Composing.coerceForeign (composing : Composing rel)
    {read read' : Ident → List κ → Action (List (Node κ))}
    (reads : ∀ id items, rel _ (read id items) (read' id items)) :
    ∀ value : Foreign κ, rel _ (value.coerceWith read) (value.coerceWith read')
  | .list items | .tuple items =>
    composing.bind (composing.coerceAll reads items) fun _ => composing.pure _
  | .lazy id items => composing.bind (reads id items) fun _ => composing.pure _
  | .safe _ | .html .. | .string _ | .marked .. => composing.pure _
  | .null | .bool _ | .int _ | .float _ | .record _ | .attr _ | .pair .. | .source .. | .once ..
  | .feed _ | .shadowed .. | .scoped .. | .scopedTag _ | .token _ => composing.throw _
theorem Composing.coerceAll (composing : Composing rel)
    {read read' : Ident → List κ → Action (List (Node κ))}
    (reads : ∀ id items, rel _ (read id items) (read' id items)) :
    ∀ items : List (Node κ), rel _ (Node.coerceAll read items) (Node.coerceAll read' items)
  | [] => composing.pure _
  | item :: rest => by
    have later := composing.coerceAll reads rest
    have here := composing.coerceWith reads item
    rw [Node.coerceAll_cons,Node.coerceAll_cons]
    split
    · exact later
    · exact composing.bind here fun node => composing.bind later fun _ => composing.pure _
end

mutual
theorem Composing.addWith (composing : Composing rel)
    {read read' : Ident → List κ → Node κ → Action (Node κ)}
    (reads : ∀ id items node, rel _ (read id items node) (read' id items node)) (node : Node κ) :
    ∀ value : Node κ, rel _ (node.addWith read value) (node.addWith read' value)
  | .foreign value => composing.addForeign reads node value
  | .element .. | .text _ | .raw _ | .comment _ | .fragment _ | .deferred _ | .sequence _ =>
    composing.append node _
theorem Composing.addForeign (composing : Composing rel)
    {read read' : Ident → List κ → Node κ → Action (Node κ)}
    (reads : ∀ id items node, rel _ (read id items node) (read' id items node)) (node : Node κ) :
    ∀ value : Foreign κ, rel _ (value.addWith read node) (value.addWith read' node)
  | .null => composing.pure _
  | .attr value => composing.addAttribute node value
  | .list items | .tuple items | .marked _ _ items _ => composing.addAll reads node items
  | .lazy id items => reads id items node
  | .feed _ => composing.bind (composing.ofFeed _) fun _ => composing.append node _
  | .once .. => composing.bind (composing.ofSource _) fun _ => composing.append node _
  | .safe _ | .html .. | .string _ => composing.append node _
  | .bool _ | .int _ | .float _ | .record _ | .pair .. | .source .. | .shadowed .. | .scoped ..
  | .scopedTag _ | .token _ => composing.throw _
theorem Composing.addAll (composing : Composing rel)
    {read read' : Ident → List κ → Node κ → Action (Node κ)}
    (reads : ∀ id items node, rel _ (read id items node) (read' id items node)) (node : Node κ) :
    ∀ items : List (Node κ), rel _ (Node.addAllWith read node items) (Node.addAllWith read' node items)
  | [] => composing.pure _
  | item :: rest =>
    composing.bind (composing.addWith reads node item) fun next => composing.addAll reads next rest
end

end values

namespace Reading

variable {rel : Relation} {host host' : Host κ}

theorem close (reading : Reading rel host host') (id : Ident) :
    rel _ (Action.close id) (Action.close id) :=
  reading.bind (reading.cursor id) fun _ => reading.setCursor id _

theorem lazyNext (reading : Reading rel host host') (id : Ident) (items : List κ) :
    rel _ (LazyList.next host id items) (LazyList.next host' id items) := by
  refine reading.bind (reading.cursor id) fun cursor => ?_
  split
  · exact reading.throw _
  · exact reading.pure _
  · split
    · exact reading.bind (reading.setCursor _ _) fun _ => reading.pure _
    · refine reading.bind (reading.setCursor _ _) fun _ => ?_
      refine reading.bind (reading.closing id (reading.place _)) fun value => ?_
      exact reading.bind (reading.setCursor _ _) fun _ => reading.pure _

theorem lazyFold (reading : Reading rel host host') (id : Ident) (items : List κ)
    {step step' : α → Node κ → Action α}
    (steps : ∀ state value, rel _ (step state value) (step' state value)) (state : α) :
    rel _ (LazyList.fold host id items step state) (LazyList.fold host' id items step' state) := by
  unfold LazyList.fold
  induction items.length + 1 generalizing state with
  | zero => exact reading.throw _
  | succ fuel ih =>
    refine reading.bind (reading.lazyNext id items) fun found => ?_
    cases found with
    | none => exact reading.pure _
    | some value => exact reading.bind (steps state value) fun next => ih next

theorem coerceTo (reading : Reading rel host host') (depth : Nat) (value : Node κ) :
    rel _ (value.coerceTo host depth) (value.coerceTo host' depth) := by
  induction depth generalizing value with
  | zero => exact reading.coerceWith (fun _ _ => reading.throw _) value
  | succ depth ih =>
    refine reading.coerceWith (fun id items => ?_) value
    refine reading.lazyFold id items (fun nodes item => ?_) []
    split
    · exact reading.pure _
    · exact reading.bind (ih item) fun _ => reading.pure _

theorem coerce (reading : Reading rel host host') (value : Node κ) :
    rel _ (value.coerce host) (value.coerce host') := by
  unfold Node.coerce
  rw [reading.depth]
  exact reading.coerceTo _ value

theorem addTo (reading : Reading rel host host') (depth : Nat) (node value : Node κ) :
    rel _ (Node.addTo host depth node value) (Node.addTo host' depth node value) := by
  induction depth generalizing node value with
  | zero => exact reading.addWith (fun _ _ _ => reading.throw _) node value
  | succ depth ih =>
    refine reading.addWith (fun id items node => ?_) node value
    exact reading.lazyFold id items (fun node item => ih node item) node

theorem add (reading : Reading rel host host') (node value : Node κ) :
    rel _ (node.add host value) (node.add host' value) := by
  unfold Node.add
  rw [reading.depth]
  exact reading.addTo _ node value

theorem build (reading : Reading rel host host') (selector : String) (arguments : List (Node κ)) :
    rel _ (build host selector arguments) (build host' selector arguments) :=
  reading.bind (reading.parseElement selector) fun node => reading.foldl reading.add arguments node

theorem gather (reading : Reading rel host host') (arguments : List (Node κ)) :
    rel _ (gather host arguments) (gather host' arguments) :=
  reading.foldl reading.add arguments _

theorem applyScoped (reading : Reading rel host host') (selector : String)
    (arguments : List (Node κ)) :
    rel _ (applyScoped host selector arguments) (applyScoped host' selector arguments) := by
  cases arguments with
  | nil => exact reading.throw _
  | cons shadow children =>
    exact reading.bind (reading.build _ [shadow]) fun _ => reading.build _ _

theorem apply (reading : Reading rel host host') (arguments : List (Node κ)) (value : Foreign κ) :
    rel _ (value.apply host arguments) (value.apply host' arguments) := by
  unfold Foreign.apply
  split
  · exact reading.build _ _
  · exact reading.applyScoped _ _
  · exact reading.applyScoped _ _
  · exact reading.throw _

end Reading

namespace Pulling

variable {rel : Relation} {host host' : Host κ}

theorem pullEntries (pulling : Pulling rel host host') (id : Ident) (label : String)
    (entries : List (Entry κ)) : ∀ place,
      rel _ (pullEntries host id label place entries) (pullEntries host' id label place entries) := by
  induction entries with
  | nil =>
    intro place
    exact pulling.bind (pulling.setCursor _ _) fun _ =>
      pulling.bind (pulling.log _) fun _ => pulling.pure _
  | cons entry rest ih =>
    intro place
    cases entry with
    | act code =>
      refine pulling.bind (pulling.setCursor _ _) fun _ => ?_
      exact pulling.bind (pulling.discard (pulling.closing id (pulling.place code))) fun _ =>
        ih (place + 1)
    | item code =>
      refine pulling.bind (pulling.setCursor _ _) fun _ => pulling.bind (pulling.log _) fun _ => ?_
      exact pulling.bind (pulling.closing id (pulling.place code)) fun _ => pulling.pure _

theorem unclosed (pulling : Pulling rel host host') (id : Ident)
    {more more' : Cursor → Action (Option (Node κ))}
    (later : ∀ cursor, rel _ (more cursor) (more' cursor)) :
    rel _
      (do let cursor ← Action.cursor id
          if cursor.phase = .closed then return none
          more cursor)
      (do let cursor ← Action.cursor id
          if cursor.phase = .closed then return none
          more' cursor) := by
  refine pulling.bind (pulling.cursor id) fun cursor => ?_
  split
  · exact pulling.pure _
  · exact later cursor

theorem pull (pulling : Pulling rel host host') :
    ∀ feed : Feed κ, rel _ (feed.pull host) (feed.pull host')
  | .body id label entries => pulling.unclosed id fun _ => pulling.pullEntries id label _ _
  | .endless id label code => pulling.unclosed id fun _ => pulling.pullEntries id label _ _
  | .items id nodes => by
    refine pulling.unclosed id fun cursor => ?_
    split
    · exact pulling.bind (pulling.setCursor _ _) fun _ => pulling.pure _
    · exact pulling.bind (pulling.close id) fun _ => pulling.pure _
  | .refused id kind =>
    pulling.unclosed id fun _ => pulling.bind (pulling.close id) fun _ => pulling.throw _
  | .coerce id inner => by
    refine pulling.unclosed id fun _ => ?_
    refine pulling.bind (pulling.closing id (pulling.pull inner)) fun found => ?_
    cases found with
    | none => exact pulling.bind (pulling.close id) fun _ => pulling.pure _
    | some value =>
      exact pulling.bind (pulling.closing id (pulling.coerce value)) fun _ => pulling.pure _
  | .chain id first second => by
    have last : rel _ (Feed.pullSecond host id second) (Feed.pullSecond host' id second) := by
      refine pulling.bind (pulling.closing id (pulling.pull second)) fun found => ?_
      cases found with
      | none => exact pulling.bind (pulling.close id) fun _ => pulling.pure _
      | some node => exact pulling.pure _
    refine pulling.unclosed id fun cursor => ?_
    split
    · refine pulling.bind (pulling.closing id (pulling.pull first)) fun found => ?_
      cases found with
      | none => exact pulling.bind (pulling.setCursor _ _) fun _ => last
      | some node => exact pulling.pure _
    · exact last

end Pulling

namespace Driving

variable {early whole rel : Relation} {host host' : Host κ} {token : Token}

theorem awaitSource (driving : Driving early whole rel token host host') (source : Node κ) :
    whole _ (awaitSource host token source) (awaitSource host' token source) := by
  unfold Markup.awaitSource
  split
  · exact driving.andThen (driving.begin _) fun _ => driving.thunk _
  · refine driving.andThen (driving.look _) fun cursor => ?_
    split
    · exact driving.within (driving.throw _)
    · exact driving.andThen (driving.spend _) fun _ =>
        driving.andThen (driving.begin _) fun _ => driving.wait _ _
  · exact driving.behind (driving.within (driving.apply _ _)) fun _ => driving.throw _
  · exact driving.behind (driving.within (driving.apply _ _)) fun _ => driving.throw _
  · exact driving.behind (driving.within (driving.apply _ _)) fun _ => driving.throw _
  · exact driving.within (driving.throw _)

theorem drive (driving : Driving early whole rel token host host') :
    ∀ pending : Pending κ, whole _ (pending.drive host token) (pending.drive host' token)
  | .body _ _ code => driving.andThen (driving.begin _) fun _ => driving.thunk code
  | .append _ first second =>
    driving.andThen driving.check fun _ => driving.behind (driving.drive first) fun resolved =>
      driving.append resolved second
  | .appendTo _ _ last =>
    driving.andThen driving.check fun _ => driving.behind (driving.drive last) fun _ =>
      driving.bind driving.fresh fun _ => driving.bind driving.fresh fun _ => driving.pure _
  | .attach _ inner attr =>
    driving.andThen driving.check fun _ => driving.behind (driving.drive inner) fun resolved =>
      driving.addAttribute resolved attr
  | .coerce _ source => driving.behind (driving.awaitSource source) fun value => driving.coerce value
  | .maker value => driving.awaitSource (.foreign value)

theorem answer (driving : Driving early whole rel token host host') (attr : Attr κ) :
    whole _ (attr.answer host token) (attr.answer host' token) := by
  unfold Attr.answer
  split
  · exact driving.within (driving.pure _)
  · exact driving.andThen (driving.begin _) fun _ => driving.thunk _
  · exact driving.behind (driving.awaitSource _) fun _ =>
      driving.bind (driving.ofChecked _) fun _ => driving.pure _

theorem driveAttr (driving : Driving early whole rel token host host') (attr : Attr κ) :
    whole _ (attr.drive host token) (attr.drive host' token) := by
  refine driving.behind (driving.answer attr) fun given => ?_
  unfold Node.pair
  split
  · exact driving.pure _
  · exact driving.pure _
  · exact driving.throw _

end Driving

end Markup
