import Markup.Proofs.Building
import Markup.Proofs.Extension
import Markup.Proofs.Rendering.Cancellation
import Markup.Proofs.Rendering.Reading

namespace Markup.Rendering

variable {κ : Type}

-- Where the renderer stands at a moment of the trace. At the end of the tree and
-- at a part that failed there is no next step.
inductive StandsAt (host : Host κ) (start : Stream κ) (store : Store) :
    List (RenderEvent κ) → Extent → Store → Prop where
  | part (ran : RunEvents host start store events next after) :
      StandsAt host start store events .part after
  | whole (ran : RunEvents host start store events next after)
      (halts : Halts host next after trace .finished after) (silent : nextEvents next = []) :
      StandsAt host start store events .whole after
  | broke (ran : RunEvents host start store past next middle)
      (halts : Halts host next middle trace (.broke fault) after) :
      StandsAt host start store (past ++ nextEvents next) (.broke fault) after

section moments

variable {host other : Host κ} {token : Token} {options : Options} {node : Node κ}
  {stream next : Stream κ} {store middle after : Store} {events past : List (RenderEvent κ)}
  {trace : Trace κ} {extent : Extent}

theorem document_moment (document : Document host token options node store events extent after)
    (uncancelled : Uncancelled host token options node store) :
    StandsAt host (Stream.start token options node) store events extent after := by
  have reaches := document_runEvents document uncancelled
  cases extent with
  | part =>
    obtain ⟨left,ran⟩ := reaches
    exact .part ran
  | whole => exact .whole reaches .finished rfl
  | broke fault =>
    obtain ⟨past,next,middle,trace,ran,halts,rfl⟩ := reaches
    exact .broke ran halts

theorem halted_last {verdict : Verdict} {stream' : Stream κ} {last : Store}
    {events' : List (RenderEvent κ)} (ran : RunEvents host stream store events next middle)
    (halts : Halts host next middle trace verdict after)
    (ran' : RunEvents host stream store events' stream' last) :
    ∃ tail, RunEvents host stream' last tail next middle ∧ events = events' ++ tail := by
  rcases runEvents_ordered ran ran' with ⟨tail,more,rfl⟩ | before
  · obtain ⟨rfl,rfl,rfl⟩ := halted_runEvents halts more
    exact ⟨[],.refl,by simp⟩
  · exact before

theorem moment_last {verdict : Verdict} {last : Store} {events' : List (RenderEvent κ)}
    (ran : RunEvents host stream store past next middle)
    (halts : Halts host next middle trace verdict after)
    (moment : StandsAt host stream store events' extent last) :
    events' <+: past ++ nextEvents next := by
  cases moment with
  | part ran' | whole ran' =>
    obtain ⟨tail,_,rfl⟩ := halted_last ran halts ran'
    rw [List.append_assoc]
    exact List.prefix_append _ _
  | broke ran' halts' =>
    obtain ⟨tail,more,rfl⟩ := halted_last ran halts ran'
    obtain ⟨rfl,rfl,rfl⟩ := halted_runEvents halts' more
    exact ⟨[],by simp⟩

theorem document_last {extent' : Extent} {last : Store} {events' : List (RenderEvent κ)}
    (uncancelled : Uncancelled host token options node store)
    (one : Document host token options node store events extent after) (ended : extent ≠ .part)
    (document : Document host token options node store events' extent' last) : events' <+: events := by
  have moment := document_moment document uncancelled
  cases document_moment one uncancelled with
  | part ran => exact absurd rfl ended
  | whole ran halts silent =>
    have before := moment_last ran halts moment
    rwa [silent,List.append_nil] at before
  | broke ran halts => exact moment_last ran halts moment

theorem document_ordered {extent' : Extent} {last : Store} {events' : List (RenderEvent κ)}
    (uncancelled : Uncancelled host token options node store)
    (one : Document host token options node store events extent after)
    (document : Document host token options node store events' extent' last) :
    events <+: events' ∨ events' <+: events := by
  by_cases ended : extent = .part
  · by_cases ended' : extent' = .part
    · subst ended ended'
      cases document_moment one uncancelled with
      | part ran =>
        cases document_moment document uncancelled with
        | part ran' =>
          rcases runEvents_ordered ran ran' with ⟨tail,_,rfl⟩ | ⟨tail,_,rfl⟩
          · exact .inl (List.prefix_append _ _)
          · exact .inr (List.prefix_append _ _)
    · exact .inl (document_last uncancelled document ended' one)
  · exact .inr (document_last uncancelled one ended document)

theorem moves_extends (wider : host.Extends other)
    (moves : Moves host stream store trace next after) :
    Moves other stream store trace next after := by
  cases moves with
  | chunk => exact .chunk
  | leaf text => exact .leaf text
  | element => exact .element
  | fixed => exact .fixed
  | resolved driven live done => exact .resolved driven live (wider.driveAttr _ _ _ _ _ done)
  | opening => exact .opening
  | fragment => exact .fragment
  | deferred live done => exact .deferred live (wider.drive _ _ _ _ _ done)
  | sequence live => exact .sequence live
  | item given live => exact .item (wider.pull _ _ _ _ given) live
  | ended given => exact .ended (wider.pull _ _ _ _ given)

theorem runEvents_extends (wider : host.Extends other)
    (ran : RunEvents host stream store events next after) :
    RunEvents other stream store events next after := by
  induction ran with
  | refl => exact .refl
  | step moves _ ih => exact .step (moves_extends wider moves) ih

theorem moment_next {last : Store} {events' : List (RenderEvent κ)}
    (ran : RunEvents host stream store past next middle)
    (moment : StandsAt host stream store events' extent last) :
    events' <+: past ∨ past ++ nextEvents next <+: events' := by
  -- What is done from there on begins with the step that is next.
  have behind : ∀ {stream' : Stream κ} {last : Store} {tail : List (RenderEvent κ)},
      RunEvents host next middle tail stream' last →
        tail = [] ∧ stream' = next ∨ nextEvents next <+: tail := by
    intro stream' last tail more
    cases more with
    | refl => exact .inl ⟨rfl,rfl⟩
    | step moves _ => exact .inr (List.prefix_append _ _)
  cases moment with
  | part ran' | whole ran' =>
    rcases runEvents_ordered ran ran' with ⟨tail,more,rfl⟩ | ⟨tail,_,rfl⟩
    · rcases behind more with ⟨rfl,_⟩ | first
      · exact .inl (by simp)
      · exact .inr ((List.prefix_append_right_inj past).mpr first)
    · exact .inl (List.prefix_append _ _)
  | broke ran' halts' =>
    rcases runEvents_ordered ran ran' with ⟨tail,more,rfl⟩ | ⟨tail,more,rfl⟩
    · rcases behind more with ⟨rfl,rfl⟩ | first
      · exact .inr (by simp)
      · refine .inr (List.IsPrefix.trans ?_ (List.prefix_append _ _))
        exact (List.prefix_append_right_inj past).mpr first
    · obtain ⟨rfl,rfl,rfl⟩ := halted_runEvents halts' more
      exact .inr (by simp)

end moments

inductive PullReaches (host : Host κ) : Feed κ → Store → Feed κ → Store → Prop where
  | here : PullReaches host feed store feed store
  | first (opened : ¬(store.cursor own).phase = .closed) (unread : (store.cursor own).position = 0)
      (inner : PullReaches host first store feed middle) :
      PullReaches host (.chain own first second) store feed middle
  | second (opened : ¬(store.cursor own).phase = .closed) (unread : (store.cursor own).position = 0)
      (ended : first.pull host store = .ok none between)
      (inner : PullReaches host second (between.moved own ⟨1,.ready⟩) feed middle) :
      PullReaches host (.chain own first second) store feed middle
  | later (opened : ¬(store.cursor own).phase = .closed) (begun : ¬(store.cursor own).position = 0)
      (inner : PullReaches host second store feed middle) :
      PullReaches host (.chain own first second) store feed middle

section wrapping

variable {host : Host κ} {outer feed : Feed κ} {store middle after : Store}

theorem asks_gives (asks : PullReaches host outer store feed middle)
    (given : feed.pull host middle = .ok (some node) after) :
    outer.pull host store = .ok (some node) after := by
  induction asks with
  | here => exact given
  | first opened unread inner ih => rw [Feed.chain_first opened unread,ih given]
  | second opened unread ended inner ih =>
    rw [Feed.chain_first opened unread,ended]
    dsimp only
    rw [Feed.pullSecond_eq,ih given]
  | later opened begun inner ih => rw [Feed.chain_second opened begun,Feed.pullSecond_eq,ih given]

theorem asks_fails (asks : PullReaches host outer store feed middle)
    (failed : feed.pull host middle = .error fault after) :
    ∃ last, outer.pull host store = .error fault last ∧ last.journal = after.journal ∧
      last.cancelled = after.cancelled ∧ last.supply = after.supply := by
  induction asks with
  | here => exact ⟨after,failed,rfl,rfl,rfl⟩
  | first opened unread inner ih =>
    obtain ⟨last,run,same⟩ := ih failed
    exact ⟨last.shut _,by rw [Feed.chain_first opened unread,run],same⟩
  | @second _ _ _ own _ _ _ opened unread ended inner ih =>
    obtain ⟨last,run,same⟩ := ih failed
    refine ⟨last.shut own,?_,same⟩
    rw [Feed.chain_first opened unread,ended]
    dsimp only
    rw [Feed.pullSecond_eq,run]
  | later opened begun inner ih =>
    obtain ⟨last,run,same⟩ := ih failed
    exact ⟨last.shut _,by rw [Feed.chain_second opened begun,Feed.pullSecond_eq,run],same⟩

theorem build_unasked {other : Host κ} (depth : other.depth = host.depth)
    (places : ∀ code, other.run code none = host.run code none) (selector : String)
    (arguments : List (Node κ)) : build other selector arguments = build host selector arguments := by
  have alike : Places SameStore host other := by
    refine ⟨oneStore_bond _,depth,fun code left right tied => ?_⟩
    rw [places code,tied.1]
    exact agree_same _
  funext store
  exact agree_eq (build_follows alike selector arguments store store ⟨rfl,trivial⟩)

end wrapping

def NeverCancels (host : Host κ) (token : Token) : Prop :=
  ∀ code given, Leaves (fun before after =>
    before.cancelled token = false → after.cancelled token = false) (host.run code given)

section sparing

variable {host : Host κ} {token : Token} {store middle after : Store}

theorem neverCancels_follows (spares : NeverCancels host token) (code : κ) (given : Option Token) :
    Follows (SameLive token) (SameLive token) (host.run code given) (host.run code given) := by
  rintro left right ⟨rfl,live⟩
  have kept := spares code given right
  cases run : host.run code given right with
  | ok value after =>
    rw [run] at kept
    exact .ok ⟨rfl,kept live⟩
  | error fault after =>
    rw [run] at kept
    exact .error ⟨rfl,kept live⟩

theorem neverCancels_alike (spares : NeverCancels host token) :
    Alike (SameLive token) (SameLive token) token host host where
  bond := oneStore_bond _
  depth := rfl
  place := fun code => neverCancels_follows spares code none
  start := oneStore_bond _
  opened := fun _ _ tied => tied
  live := fun _ _ tied => ⟨tied.2,tied.1 ▸ tied.2⟩
  thunk := fun code => neverCancels_follows spares code (some token)
  wait := fun own code => neverCancels_follows spares code (some (.own own))

theorem follows_live {action : Action α}
    (follows : Follows (SameLive token) (SameLive token) action action)
    (live : store.cancelled token = false) (done : action store = .ok value after) :
    after.cancelled token = false := by
  have agree := follows store store ⟨rfl,live⟩
  rw [done] at agree
  cases agree with
  | ok tied => exact tied.2

theorem traced_live (spares : NeverCancels host token) {options : Options} {place : TracedPart κ}
    {events : List (RenderEvent κ)} {extent : Extent}
    (traced : Traced host token options place store events extent after)
    (live : store.cancelled token = false) (unbroken : ∀ fault, extent ≠ .broke fault) :
    after.cancelled token = false := by
  have alike := neverCancels_alike spares
  induction traced with
  | pause | leaf | void | nil => exact live
  | attrBroke | driveBroke | foreign | pullBroke => exact (unbroken _ rfl).elim
  | left _ ih => exact ih live nofun
  | closed _ _ ih => exact ih live nofun
  | element _ ih | fixed _ ih | opened _ _ _ ih | fragment _ ih | sequence _ ih | cut _ _ ih =>
    exact ih live unbroken
  | resolved _ done _ ih => exact ih (follows_live (driveAttr_follows alike _) live done) unbroken
  | deferred done _ ih =>
    have live' := follows_live (drive_follows alike _) live done
    exact ih live' unbroken
  | ended given => exact follows_live (pull_follows alike.toPlaces _) live given
  | itemCut given _ _ ih =>
    exact ih (follows_live (pull_follows alike.toPlaces _) live given) unbroken
  | cons _ _ ihFirst ihMore => exact ihMore (ihFirst live nofun) unbroken
  | item given _ _ ihHere ihMore =>
    have live' := follows_live (pull_follows alike.toPlaces _) live given
    exact ihMore (ihHere live' nofun) unbroken

theorem neverCancels_uncancelled (spares : NeverCancels host token)
    (live : store.cancelled token = false)
    (options : Options) (node : Node κ) : Uncancelled host token options node store := by
  intro events after document
  cases document with
  | before => exact live
  | behind traced => exact traced_live spares traced live nofun

end sparing

-- What a run shows at every moment: the trace up to there and nothing of what
-- comes later.
structure Lazily (host : Host κ) (token : Token) (options : Options) (node : Node κ)
    (store : Store) : Prop where
  delivered : ∀ {fuel count texts next after},
    (Stream.start token options node).read host fuel count [] store =
      .ok (texts,.more next) after →
        ∃ events, Document host token options node store events .part after ∧ EndsWithChunk events ∧
          textsOf events = texts ∧ texts.length = count
  reached : ∀ {events after}, Document host token options node store events .part after →
    EndsWithChunk events → ∃ bound next, ∀ fuel, bound ≤ fuel →
      (Stream.start token options node).read host fuel (textsOf events).length [] store =
        .ok (textsOf events,.more next) after
  single : ∀ {events after events' after'}, Document host token options node store events .part after →
    Document host token options node store events' .part after' →
      EndsWithChunk events → EndsWithChunk events' →
      (textsOf events).length = (textsOf events').length → events = events' ∧ after = after'
  ordered : ∀ {events extent after events' extent' after'},
    Document host token options node store events extent after →
      Document host token options node store events' extent' after' →
        events <+: events' ∨ events' <+: events
  last : ∀ {events extent after events' extent' after'},
    Document host token options node store events extent after → extent ≠ .part →
      Document host token options node store events' extent' after' → events' <+: events
  finished : ∀ {events after}, Document host token options node store events .whole after →
    ∃ bound, ∀ fuel count, bound ≤ fuel → bound ≤ count →
      (Stream.start token options node).read host fuel count [] store =
        .ok (textsOf events,.finished) after
  finishes : ∀ {fuel count texts after},
    (Stream.start token options node).read host fuel count [] store = .ok (texts,.finished) after →
      ∃ events, Document host token options node store events .whole after ∧ textsOf events = texts
  broken : ∀ {events fault after},
    Document host token options node store events (.broke fault) after →
      ∃ bound, ∀ fuel count, bound ≤ fuel → bound ≤ count →
        (Stream.start token options node).read host fuel count [] store =
          .ok (textsOf events,.failed fault) ((Verdict.broke fault).left after)
  breaks : ∀ {fuel count texts fault after},
    (Stream.start token options node).read host fuel count [] store =
      .ok (texts,.failed fault) after → fault ≠ .tooDeep →
        ∃ events middle, Document host token options node store events (.broke fault) middle ∧
          textsOf events = texts ∧ after = (Verdict.broke fault).left middle
  elsewhere : ∀ {events fault after},
    Document host token options node store events (.broke fault) after →
      ∃ past part middle, events = past ++ part ∧ part.length ≤ 1 ∧ textsOf part = [] ∧
        ∀ other, host.Extends other →
          Document other token options node store past .part middle ∧
          (∃ bound next last, ∀ fuel, bound ≤ fuel →
            (Stream.start token options node).read other fuel (textsOf events).length [] store =
              .ok (textsOf events,.more next) last) ∧
          (Uncancelled other token options node store → ∀ {events' extent' after'},
            Document other token options node store events' extent' after' →
              events' <+: past ∨ past ++ part <+: events')

-- The waits and chains of composition pass on what the part beneath them does.
structure Passes (host : Host κ) (token : Token) : Prop where
  drives : ∀ {store}, store.cancelled token = false → ∀ pending : Pending κ,
    pending.drive host token store = (do pending.finish (← pending.core.drive host token)) store
  fails : ∀ {pending : Pending κ} {store fault after}, store.cancelled token = false →
    pending.core.drive host token store = .error fault after →
      pending.drive host token store = .error fault after
  gives : ∀ {outer feed : Feed κ} {store middle node after}, PullReaches host outer store feed middle →
    feed.pull host middle = .ok (some node) after → outer.pull host store = .ok (some node) after
  breaks : ∀ {outer feed : Feed κ} {store middle fault after},
    PullReaches host outer store feed middle →
    feed.pull host middle = .error fault after →
      ∃ last, outer.pull host store = .error fault last ∧ last.journal = after.journal ∧
        last.cancelled = after.cancelled ∧ last.supply = after.supply

structure Builds (host : Host κ) : Prop where
  composed : ∀ a b : Node κ, Leaves Untouched (a.append b)
  composedAll : ∀ (others : List (Node κ)) (node : Node κ), Leaves Untouched (node.appendAll others)
  attached : ∀ node value : Node κ, Leaves Untouched (node.attach value)
  extended : ∀ node value : Node κ, Leaves Untouched (node.extend value)
  built : (∀ code, Leaves Undriven (host.run code none)) →
    ∀ selector arguments, Leaves Undriven (build host selector arguments)
  gathered : (∀ code, Leaves Undriven (host.run code none)) →
    ∀ arguments, Leaves Undriven (gather host arguments)
  unasked : ∀ other : Host κ, other.depth = host.depth →
    (∀ code, other.run code none = host.run code none) →
      ∀ selector arguments, build other selector arguments = build host selector arguments

section laziness

variable {host other : Host κ} {token : Token} {options : Options} {node : Node κ}
  {store middle after : Store} {events : List (RenderEvent κ)} {fault : Fault}

theorem halts_texts {stream : Stream κ} {trace : Trace κ}
    (halts : Halts host stream store trace (.broke fault) after) :
    (nextEvents stream).length ≤ 1 ∧ textsOf (nextEvents stream) = [] := by
  cases halts with
  | tagBroke driven live failed =>
    rw [nextEvents_driven driven]
    exact ⟨Nat.le_refl 1,rfl⟩
  | deferredBroke | pullBroke => exact ⟨Nat.le_refl 1,rfl⟩
  | foreign => exact ⟨Nat.zero_le 1,rfl⟩

theorem document_reached (uncancelled : Uncancelled host token options node store)
    (document : Document host token options node store events .part after)
    (delivers : EndsWithChunk events) :
    ∃ bound next, ∀ fuel, bound ≤ fuel →
      (Stream.start token options node).read host fuel (textsOf events).length [] store =
        .ok (textsOf events,.more next) after := by
  cases document_moment document uncancelled with
  | part ran =>
    obtain ⟨bound,next,middle,ends,read⟩ := runEvents_read ran rfl
    exact ⟨bound,next,fun fuel enough => ends delivers ▸ read fuel [] enough⟩

theorem document_single {after' : Store} {events' : List (RenderEvent κ)}
    (uncancelled : Uncancelled host token options node store)
    (document : Document host token options node store events .part after)
    (document' : Document host token options node store events' .part after')
    (delivers : EndsWithChunk events) (delivers' : EndsWithChunk events')
    (counted : (textsOf events).length = (textsOf events').length) :
    events = events' ∧ after = after' := by
  have behind : ∀ {one tail : List (RenderEvent κ)}, EndsWithChunk (one ++ tail) →
      (textsOf one).length = (textsOf (one ++ tail)).length → tail = [] := by
    intro one tail whole same
    rw [textsOf_append,List.length_append] at same
    exact whole.behind.silent (List.length_eq_zero_iff.mp (by omega))
  have same : events = events' := by
    rcases document_ordered uncancelled document document' with ⟨tail,rfl⟩ | ⟨tail,rfl⟩
    · rw [behind delivers' counted,List.append_nil]
    · rw [behind delivers counted.symm,List.append_nil]
  subst same
  obtain ⟨bound,next,reached⟩ := document_reached uncancelled document delivers
  obtain ⟨bound',next',reached'⟩ := document_reached uncancelled document' delivers
  have both := (reached (max bound bound') (Nat.le_max_left ..)).symm.trans
    (reached' (max bound bound') (Nat.le_max_right ..))
  cases both
  exact ⟨rfl,rfl⟩

theorem document_breaks {fuel count : Nat} {texts : List String}
    (uncancelled : Uncancelled host token options node store)
    (run : (Stream.start token options node).read host fuel count [] store =
      .ok (texts,.failed fault) after) (deep : fault ≠ .tooDeep) :
    ∃ events middle, Document host token options node store events (.broke fault) middle ∧
      textsOf events = texts ∧ after = (Verdict.broke fault).left middle := by
  obtain ⟨past,next,middle,trace,verdict,last,ran,halts,rfl,ends,rfl⟩ := read_ends run nofun
    (fun same => deep (Stream.Ending.failed.inj same))
  cases verdict with
  | finished => cases ends
  | stopped => exact (never_stopped uncancelled ran halts).elim
  | broke found =>
    cases ends
    refine ⟨_,last,breaks_document ran halts,?_,rfl⟩
    rw [textsOf_append,(halts_texts halts).2,List.append_nil]

theorem document_elsewhere (uncancelled : Uncancelled host token options node store)
    (document : Document host token options node store events (.broke fault) after) :
    ∃ past part middle, events = past ++ part ∧ part.length ≤ 1 ∧ textsOf part = [] ∧
      ∀ other, host.Extends other →
        Document other token options node store past .part middle ∧
        (∃ bound next last, ∀ fuel, bound ≤ fuel →
          (Stream.start token options node).read other fuel (textsOf events).length [] store =
            .ok (textsOf events,.more next) last) ∧
        (Uncancelled other token options node store → ∀ {events' extent' after'},
          Document other token options node store events' extent' after' →
            events' <+: past ∨ past ++ part <+: events') := by
  cases document_moment document uncancelled with
  | @broke past next middle trace _ _ ran halts =>
    obtain ⟨short,silent⟩ := halts_texts halts
    refine ⟨past,nextEvents next,middle,rfl,short,silent,fun other wider => ?_⟩
    have ran' := runEvents_extends wider ran
    refine ⟨runEvents_document ran',?_,fun stays events' extent' after' document' => ?_⟩
    · obtain ⟨bound,later,last,_,read⟩ := runEvents_read ran' rfl
      rw [textsOf_append,silent,List.append_nil]
      exact ⟨bound,later,last,fun fuel enough => read fuel [] enough⟩
    · exact moment_next ran' (document_moment document' stays)

-- Rendering drives what is deferred when it comes to it, once and in document
-- order, and building drives nothing.
theorem rendering_lazy (uncancelled : Uncancelled host token options node store) :
    Lazily host token options node store ∧ Passes host token ∧ Builds host := by
  refine ⟨?_,?_,?_⟩
  · refine ⟨?_,document_reached uncancelled,document_single uncancelled,
      document_ordered uncancelled,document_last uncancelled,?_,?_,?_,document_breaks uncancelled,
      document_elsewhere uncancelled⟩
    · intro fuel count texts next after run
      obtain ⟨events,ran,delivers,rfl,counted⟩ := read_runEvents run
      exact ⟨events,runEvents_document ran,delivers,rfl,counted⟩
    · intro events after document
      cases document_moment document uncancelled with
      | whole ran halts => exact runEvents_ends ran halts
    · intro fuel count texts after run
      obtain ⟨events,next,middle,trace,verdict,last,ran,halts,rfl,ends,rfl⟩ :=
        read_ends run nofun nofun
      cases verdict with
      | finished => exact ⟨events,finishes_document ran halts,rfl⟩
      | stopped | broke => cases ends
    · intro events fault after document
      cases document_moment document uncancelled with
      | broke ran halts =>
        rw [textsOf_append,(halts_texts halts).2,List.append_nil]
        exact runEvents_ends ran halts
  · exact ⟨drive_core,drive_fails,asks_gives,asks_fails⟩
  · exact ⟨append_leaves untouched_idle,appendAll_leaves untouched_idle,
      attach_leaves untouched_idle,extend_leaves untouched_idle,build_undriven,gather_undriven,
      fun other depth places => build_unasked depth places⟩

end laziness

def brittleHost : Host Nat where
  depth := 0
  run
    | 0,_ => return .text "early"
    | 1,_ => return .foreign (.pair "title" "x")
    | _,_ => throw (.raised "ValueError" "lost")

def brittlePage : Node Nat :=
  .fragment [.element "p" [.driven 0 "name" 1] [.deferred (.body 1 "early" 0)],
    .deferred (.append 2 (.body 3 "lost" 2) (.text "!")),.deferred (.body 4 "late" 0)]

theorem brittleHost_neverCancels (token : Token) : NeverCancels brittleHost token := by
  intro code given store live
  match code with
  | 0 | 1 | _ + 2 => exact live

theorem brittlePage_lazy : ∃ events after,
    Document brittleHost (.fresh 0) .default brittlePage {} events
      (.broke (.raised "ValueError" "lost")) after ∧
        textsOf events = ["<p title=\"x\">","early","</p>"] ∧
          Lazily brittleHost (.fresh 0) .default brittlePage {} := by
  have uncancelled : Uncancelled brittleHost (.fresh 0) .default brittlePage {} :=
    neverCancels_uncancelled (brittleHost_neverCancels _) rfl _ _
  refine ⟨_,_,.behind (.fragment (.cons (.element (.resolved rfl rfl (.closed (by decide)
    (.cons (.deferred rfl (.leaf rfl)) .nil)))) (.cut (.driveBroke rfl) nofun))),?_,
    (rendering_lazy uncancelled).1⟩
  decide +kernel

end Markup.Rendering
