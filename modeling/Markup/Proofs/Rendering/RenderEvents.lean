import Markup.Proofs.Rendering.Settled

namespace Markup

variable {κ : Type}

def Pending.core : Pending κ → Pending κ
  | .append _ first _ => first.core
  | .appendTo _ _ last => last.core
  | .attach _ inner _ => inner.core
  | pending => pending

def Pending.finish : Pending κ → Node κ → Action (Node κ)
  | .append _ first second,value => do (← first.finish value).append second
  | .appendTo _ feed last,value => do
    let resolved ← last.finish value
    let id ← Action.fresh
    return .sequence (.chain id feed (.items (← Action.fresh) [resolved]))
  | .attach _ inner attr,value => do (← inner.finish value).addAttribute attr
  | _,value => return value

theorem drive_core {host : Host κ} {token : Token} {store : Store}
    (live : store.cancelled token = false) : ∀ pending : Pending κ,
      pending.drive host token store = (do pending.finish (← pending.core.drive host token)) store
  | .body .. | .coerce .. | .maker _ => by
    simp only [Pending.core,Pending.finish,bind_pure]
  | .append _ first second => by
    simp only [Pending.drive,Pending.core,Pending.finish,Action.bind_apply,Action.check_live live,
      drive_core live first]
    cases first.core.drive host token store <;> rfl
  | .appendTo _ _ last => by
    simp only [Pending.drive,Pending.core,Pending.finish,Action.bind_apply,Action.check_live live,
      drive_core live last]
    cases last.core.drive host token store <;> rfl
  | .attach _ inner _ => by
    simp only [Pending.drive,Pending.core,Pending.finish,Action.bind_apply,Action.check_live live,
      drive_core live inner]
    cases inner.core.drive host token store <;> rfl

theorem drive_fails {host : Host κ} {token : Token} {store after : Store} {fault : Fault}
    {pending : Pending κ} (live : store.cancelled token = false)
    (failed : pending.core.drive host token store = .error fault after) :
    pending.drive host token store = .error fault after := by
  rw [drive_core live,Action.bind_apply,failed]

namespace Rendering

inductive RenderEvent (κ : Type) where
  | attr (value : Attr κ)
  | drive (thunk : Pending κ)
  | pull (feed : Feed κ)
  | chunk (text : String)

def RenderEvent.text? : RenderEvent κ → Option String
  | .chunk text => some text
  | _ => none

def textsOf (events : List (RenderEvent κ)) : List String := events.filterMap RenderEvent.text?

inductive Extent where
  | whole
  | part
  | broke (fault : Fault)

inductive TracedPart (κ : Type) where
  | node (node : Node κ)
  | nodes (nodes : List (Node κ))
  | feed (feed : Feed κ)
  | tag (name : String) (shown : List (String × String)) (attributes : List (Attr κ))
      (children : List (Node κ))

def TracedPart.tasks : TracedPart κ → List (Task κ)
  | .node value => [.show value]
  | .nodes values => values.map .show
  | .feed value => [.pull value]
  | .tag name shown attributes children => [.tag name shown attributes children]

-- The trace of a node, by what its deferred parts give. It may be left at any
-- moment.
inductive Traced (host : Host κ) (token : Token) (options : Options) :
    TracedPart κ → Store → List (RenderEvent κ) → Extent → Store → Prop where
  | pause : Traced host token options place store [] .part store
  | left (whole : Traced host token options place store events .whole after) :
      Traced host token options place store events .part after
  | leaf (text : leafText node = some chunk) :
      Traced host token options (.node node) store [.chunk chunk] .whole store
  | element (inside : Traced host token options (.tag tag [] attributes children) store events extent
        after) :
      Traced host token options (.node (.element tag attributes children)) store events extent after
  | fixed (more : Traced host token options (.tag tag (shown ++ [(name,value)]) rest children) store
        events extent after) :
      Traced host token options (.tag tag shown (.fixed name value :: rest) children) store events
        extent after
  | resolved (driven : isDriven attr = true) (done : attr.drive host token store = .ok pair middle)
      (more : Traced host token options (.tag tag (shown ++ [pair]) rest children) middle events extent
        after) :
      Traced host token options (.tag tag shown (attr :: rest) children) store (.attr attr :: events)
        extent after
  | attrBroke (driven : isDriven attr = true)
      (failed : attr.drive host token store = .error fault after) :
      Traced host token options (.tag tag shown (attr :: rest) children) store [.attr attr]
        (.broke fault) after
  | void (void : options.isVoid tag = true) :
      Traced host token options (.tag tag shown [] []) store
        [.chunk (Stream.voidTag options tag (Stream.attributesText shown))] .whole store
  | closed (held : ¬(options.isVoid tag = true ∧ children = []))
      (inside : Traced host token options (.nodes children) store events .whole after) :
      Traced host token options (.tag tag shown [] children) store
        (.chunk (Stream.openTag tag (Stream.attributesText shown)) ::
          (events ++ [.chunk (Stream.closeTag tag)])) .whole after
  | opened (held : ¬(options.isVoid tag = true ∧ children = []))
      (inside : Traced host token options (.nodes children) store events extent after)
      (cut : extent ≠ .whole) :
      Traced host token options (.tag tag shown [] children) store
        (.chunk (Stream.openTag tag (Stream.attributesText shown)) :: events) extent after
  | fragment (inside : Traced host token options (.nodes children) store events extent after) :
      Traced host token options (.node (.fragment children)) store events extent after
  | deferred (done : pending.drive host token store = .ok node middle)
      (more : Traced host token options (.node node) (middle.noted (.resolved node.kind)) events extent
        after) :
      Traced host token options (.node (.deferred pending)) store (.drive pending.core :: events)
        extent
        after
  | driveBroke (failed : pending.drive host token store = .error fault after) :
      Traced host token options (.node (.deferred pending)) store [.drive pending.core] (.broke fault)
        after
  | sequence (inside : Traced host token options (.feed feed) store events extent after) :
      Traced host token options (.node (.sequence feed)) store events extent after
  | foreign : Traced host token options (.node (.foreign value)) store []
      (.broke (.unrenderable value.kind)) store
  | nil : Traced host token options (.nodes []) store [] .whole store
  | cons (first : Traced host token options (.node node) store events .whole middle)
      (more : Traced host token options (.nodes rest) middle events' extent after) :
      Traced host token options (.nodes (node :: rest)) store (events ++ events') extent after
  | cut (first : Traced host token options (.node node) store events extent after)
      (cut : extent ≠ .whole) :
      Traced host token options (.nodes (node :: rest)) store events extent after
  | ended (given : feed.pull host store = .ok none after) :
      Traced host token options (.feed feed) store [.pull feed] .whole after
  | item (given : feed.pull host store = .ok (some node) middle)
      (here : Traced host token options (.node node) middle events .whole later)
      (more : Traced host token options (.feed feed) later events' extent after) :
      Traced host token options (.feed feed) store (.pull feed :: (events ++ events')) extent after
  | itemCut (given : feed.pull host store = .ok (some node) middle)
      (here : Traced host token options (.node node) middle events extent after)
      (cut : extent ≠ .whole) :
      Traced host token options (.feed feed) store (.pull feed :: events) extent after
  | pullBroke (failed : feed.pull host store = .error fault after) :
      Traced host token options (.feed feed) store [.pull feed] (.broke fault) after

inductive Document (host : Host κ) (token : Token) (options : Options) (node : Node κ) :
    Store → List (RenderEvent κ) → Extent → Store → Prop where
  | before (heading : events <+: (Tree.heading options).map .chunk) :
      Document host token options node store events .part store
  | behind (traced : Traced host token options (.node node) store events extent after) :
      Document host token options node store ((Tree.heading options).map .chunk ++ events) extent after

def nextEvents (stream : Stream κ) : List (RenderEvent κ) :=
  match stream.work with
  | .chunk text :: _ => [.chunk text]
  | .show (.deferred pending) :: _ => [.drive pending.core]
  | .show node :: _ => ((leafText node).map RenderEvent.chunk).toList
  | .tag name shown [] children :: _ => [.chunk (Stream.opening stream.options name shown children).1]
  | .tag _ _ (attr :: _) _ :: _ => if isDriven attr then [.attr attr] else []
  | .pull feed :: _ => [.pull feed]
  | [] => []

inductive RunEvents (host : Host κ) : Stream κ → Store → List (RenderEvent κ) → Stream κ → Store →
    Prop where
  | refl : RunEvents host stream store [] stream store
  | step (moves : Moves host stream store trace next middle)
      (more : RunEvents host next middle rest last after) :
      RunEvents host stream store (nextEvents stream ++ rest) last after

section playing

variable {host : Host κ} {token : Token} {options : Options} {store middle after : Store}
  {stream next last : Stream κ} {events events' : List (RenderEvent κ)}

theorem RunEvents.one {trace : Trace κ} (moves : Moves host stream store trace next after)
    (does : nextEvents stream = events) : RunEvents host stream store events next after := by
  rw [←does]
  simpa using RunEvents.step moves .refl

theorem RunEvents.trans (first : RunEvents host stream store events next middle)
    (second : RunEvents host next middle events' last after) :
    RunEvents host stream store (events ++ events') last after := by
  induction first with
  | refl => exact second
  | step moves more ih =>
    rw [List.append_assoc]
    exact .step moves (ih second)

-- What playing a trace comes to: the work behind it is next, the run stands
-- somewhere in it, or it breaks with the step that would be next.
def ReachesExtent (host : Host κ) (token : Token) (options : Options) (rest work : List (Task κ))
    (store : Store) (events : List (RenderEvent κ)) (after : Store) : Extent → Prop
  | .whole => RunEvents host ⟨token,options,work⟩ store events ⟨token,options,rest⟩ after
  | .part => ∃ left, RunEvents host ⟨token,options,work⟩ store events ⟨token,options,left⟩ after
  | .broke fault => ∃ past next middle trace,
      RunEvents host ⟨token,options,work⟩ store past next middle ∧
      Halts host next middle trace (.broke fault) after ∧ events = past ++ nextEvents next

variable {rest between start work : List (Task κ)} {extent : Extent}

theorem ReachesExtent.before
    (first : RunEvents host ⟨token,options,start⟩ store events ⟨token,options,work⟩ middle)
    (reaches : ReachesExtent host token options rest work middle events' after extent) :
    ReachesExtent host token options rest start store (events ++ events') after extent := by
  cases extent with
  | whole => exact first.trans reaches
  | part =>
    obtain ⟨left,ran⟩ := reaches
    exact ⟨left,first.trans ran⟩
  | broke fault =>
    obtain ⟨past,next,middle,trace,ran,halts,same⟩ := reaches
    refine ⟨_,next,middle,trace,first.trans ran,halts,?_⟩
    rw [same,List.append_assoc]

theorem ReachesExtent.step {trace : Trace κ}
    (reaches : ReachesExtent host token options rest work middle events' after extent)
    (moves : Moves host ⟨token,options,start⟩ store trace ⟨token,options,work⟩ middle)
    (does : nextEvents ⟨token,options,start⟩ = events) :
    ReachesExtent host token options rest start store (events ++ events') after extent :=
  .before (.one moves does) reaches

theorem ReachesExtent.fails {trace : Trace κ} {fault : Fault}
    (halts : Halts host ⟨token,options,work⟩ store trace (.broke fault) after)
    (does : nextEvents ⟨token,options,work⟩ = events) :
    ReachesExtent host token options rest work store events after (.broke fault) :=
  ⟨[],_,_,_,.refl,halts,does.symm⟩

theorem ReachesExtent.cut
    (reaches : ReachesExtent host token options between work store events after extent)
    (cut : extent ≠ .whole) :
    ReachesExtent host token options rest work store events after extent := by
  cases extent with
  | whole => exact absurd rfl cut
  | part => exact reaches
  | broke fault => exact reaches

theorem opening_void {tag : String} (void : options.isVoid tag = true)
    (shown : List (String × String)) :
    Stream.opening options tag shown ([] : List (Node κ)) =
      (Stream.voidTag options tag (Stream.attributesText shown),[]) := by
  simp [Stream.opening,void]

theorem opening_held {tag : String} {children : List (Node κ)}
    (held : ¬(options.isVoid tag = true ∧ children = [])) (shown : List (String × String)) :
    Stream.opening options tag shown children =
      (Stream.openTag tag (Stream.attributesText shown),
        children.map .show ++ [.chunk (Stream.closeTag tag)]) := by
  unfold Stream.opening
  split
  · rename_i void
    exact absurd ⟨void.1,List.isEmpty_iff.mp void.2⟩ held
  · rfl

theorem runEvents_void {tag : String} (void : options.isVoid tag = true)
    (shown : List (String × String)) :
    RunEvents host ⟨token,options,.tag tag shown [] [] :: rest⟩ store
      [.chunk (Stream.voidTag options tag (Stream.attributesText shown))] ⟨token,options,rest⟩
        store := by
  have moves : Moves host ⟨token,options,.tag tag shown [] [] :: rest⟩ store _ _ store := .opening
  rw [opening_void void] at moves
  refine .one moves ?_
  simp only [nextEvents,opening_void void]

theorem runEvents_held {tag : String} {children : List (Node κ)}
    (held : ¬(options.isVoid tag = true ∧ children = [])) (shown : List (String × String)) :
    RunEvents host ⟨token,options,.tag tag shown [] children :: rest⟩ store
      [.chunk (Stream.openTag tag (Stream.attributesText shown))]
        ⟨token,options,children.map .show ++ .chunk (Stream.closeTag tag) :: rest⟩ store := by
  have moves : Moves host ⟨token,options,.tag tag shown [] children :: rest⟩ store _ _ store :=
    .opening
  rw [opening_held held,List.append_assoc] at moves
  refine .one moves ?_
  simp only [nextEvents,opening_held held]

theorem nextEvents_leaf {node : Node κ} {chunk : String} (text : leafText node = some chunk) :
    nextEvents ⟨token,options,.show node :: rest⟩ = [.chunk chunk] := by
  cases node <;> simp_all [leafText,nextEvents]

theorem nextEvents_driven {attr : Attr κ} (driven : isDriven attr = true) {tag : String}
    {shown : List (String × String)} {more : List (Attr κ)} {children : List (Node κ)} :
    nextEvents ⟨token,options,.tag tag shown (attr :: more) children :: rest⟩ = [.attr attr] := by
  simp [nextEvents,driven]

end playing

def StaysLive (host : Host κ) (token : Token) (options : Options) (place : TracedPart κ)
    (store : Store) : Prop :=
  ∀ events after, Traced host token options place store events .part after →
    after.cancelled token = false

section performing

variable {host : Host κ} {token : Token} {options : Options} {place : TracedPart κ}
  {store middle after : Store} {events : List (RenderEvent κ)} {extent : Extent}

theorem traced_runEvents (traced : Traced host token options place store events extent after)
    (stays : StaysLive host token options place store) :
    ∀ rest, ReachesExtent host token options rest (place.tasks ++ rest) store events after extent := by
  -- The work behind is carried along, for the children of an element are walked
  -- in front of its closing tag and an item in front of the next pull.
  induction traced with
  | pause => exact fun rest => ⟨_,.refl⟩
  | left whole ih => exact fun rest => ⟨rest,ih stays rest⟩
  | leaf text => exact fun rest => .one (.leaf text) (nextEvents_leaf text)
  | element inside ih =>
    exact fun rest => (ih (fun _ _ later => stays _ _ (.element later)) rest).step .element rfl
  | fixed more ih =>
    exact fun rest => (ih (fun _ _ later => stays _ _ (.fixed later)) rest).step .fixed rfl
  | resolved driven done more ih =>
    intro rest
    have later := ih (fun _ _ later => stays _ _ (.resolved driven done later)) rest
    exact later.step (.resolved driven (stays _ _ .pause) done) (nextEvents_driven driven)
  | attrBroke driven failed =>
    exact fun rest => .fails (.tagBroke driven (stays _ _ .pause) failed) (nextEvents_driven driven)
  | void void => exact fun rest => runEvents_void void _
  | @closed tag children store events after shown held inside ih =>
    intro rest
    have within := ih (fun _ _ later => stays _ _ (.opened held later nofun))
      (.chunk (Stream.closeTag tag) :: rest)
    have closing : RunEvents host ⟨token,options,.chunk (Stream.closeTag tag) :: rest⟩ after
        [.chunk (Stream.closeTag tag)] ⟨token,options,rest⟩ after := .one .chunk rfl
    exact (runEvents_held held shown).trans (within.trans closing)
  | @opened tag children store events extent after shown held inside cut ih =>
    intro rest
    have within := ih (fun _ _ later => stays _ _ (.opened held later nofun))
      (.chunk (Stream.closeTag tag) :: rest)
    exact .before (runEvents_held held shown) (within.cut cut)
  | fragment inside ih =>
    exact fun rest => (ih (fun _ _ later => stays _ _ (.fragment later)) rest).step .fragment rfl
  | deferred done more ih =>
    intro rest
    have later := ih (fun _ _ later => stays _ _ (.deferred done later)) rest
    exact later.step (.deferred (stays _ _ .pause) done) rfl
  | driveBroke failed => exact fun rest => .fails (.deferredBroke (stays _ _ .pause) failed) rfl
  | sequence inside ih =>
    intro rest
    have later := ih (fun _ _ later => stays _ _ (.sequence later)) rest
    exact later.step (.sequence (stays _ _ .pause)) rfl
  | foreign => exact fun rest => .fails .foreign rfl
  | nil => exact fun rest => .refl
  | @cons node store events middle rest events' extent after first more ihFirst ihMore =>
    intro behind
    have here := ihFirst (fun _ _ later => stays _ _ (.cut later nofun)) (rest.map .show ++ behind)
    have there := ihMore (fun _ _ later => stays _ _ (.cons first later)) behind
    exact .before here there
  | cut first cut ih =>
    intro rest
    exact (ih (fun _ _ later => stays _ _ (.cut later nofun)) _).cut cut
  | ended given => exact fun rest => .one (.ended given) rfl
  | @item _ _ _ _ feed _ _ _ _ given here more ihHere ihMore =>
    intro rest
    have live := stays _ _ (.itemCut given .pause nofun)
    have first := ihHere (fun _ _ more => stays _ _ (.itemCut given more nofun)) (.pull feed :: rest)
    have others := ihMore (fun _ _ more => stays _ _ (.item given here more)) rest
    exact (ReachesExtent.before first others).step (.item given live) rfl
  | @itemCut _ _ _ _ _ feed _ given here cut ih =>
    intro rest
    have live := stays _ _ (.itemCut given .pause nofun)
    have first := ih (fun _ _ more => stays _ _ (.itemCut given more nofun)) (.pull feed :: rest)
    exact (first.cut cut).step (.item given live) rfl
  | pullBroke failed => exact fun rest => .fails (.pullBroke failed) rfl

end performing

inductive TaskTraced (host : Host κ) (token : Token) (options : Options) :
    Task κ → Store → List (RenderEvent κ) → Extent → Store → Prop where
  | chunk : TaskTraced host token options (.chunk text) store [.chunk text] .whole store
  | held : TaskTraced host token options (.chunk text) store [] .part store
  | shown (traced : Traced host token options (.node node) store events extent after) :
      TaskTraced host token options (.show node) store events extent after
  | tag (traced : Traced host token options (.tag name shown attributes children) store events extent
        after) :
      TaskTraced host token options (.tag name shown attributes children) store events extent after
  | pull (traced : Traced host token options (.feed feed) store events extent after) :
      TaskTraced host token options (.pull feed) store events extent after

inductive WorkTraced (host : Host κ) (token : Token) (options : Options) :
    List (Task κ) → Store → List (RenderEvent κ) → Extent → Store → Prop where
  | nil : WorkTraced host token options [] store [] .whole store
  | pause : WorkTraced host token options work store [] .part store
  | cons (first : TaskTraced host token options task store events .whole middle)
      (more : WorkTraced host token options rest middle events' extent after) :
      WorkTraced host token options (task :: rest) store (events ++ events') extent after
  | cut (first : TaskTraced host token options task store events extent after)
      (cut : extent ≠ .whole) :
      WorkTraced host token options (task :: rest) store events extent after

section queueing

variable {host : Host κ} {token : Token} {options : Options} {store middle after : Store}
  {events : List (RenderEvent κ)} {extent : Extent} {rest work : List (Task κ)}

theorem workTraced_append (work : List (Task κ)) :
    ∀ {store events}, WorkTraced host token options (work ++ rest) store events extent after →
      (∃ front behind middle, WorkTraced host token options work store front .whole middle ∧
        WorkTraced host token options rest middle behind extent after ∧ events = front ++ behind) ∨
      extent ≠ .whole ∧ WorkTraced host token options work store events extent after := by
  induction work with
  | nil => exact fun queue => .inl ⟨[],_,_,.nil,queue,rfl⟩
  | cons task work ih =>
    intro store events queue
    cases queue with
    | pause => exact .inr ⟨nofun,.pause⟩
    | cons first more =>
      rcases ih more with ⟨front,behind,middle,whole,left,rfl⟩ | ⟨cut,part⟩
      · exact .inl ⟨_,behind,middle,.cons first whole,left,by rw [List.append_assoc]⟩
      · exact .inr ⟨cut,.cons first part⟩
    | cut first cut => exact .inr ⟨cut,.cut first cut⟩

theorem workTraced_nodes (nodes : List (Node κ)) :
    ∀ {store events}, WorkTraced host token options (nodes.map .show) store events extent after →
      Traced host token options (.nodes nodes) store events extent after := by
  induction nodes with
  | nil =>
    intro store events queue
    cases queue with
    | nil => exact .nil
    | pause => exact .pause
  | cons node rest ih =>
    intro store events queue
    cases queue with
    | pause => exact .pause
    | cons first more =>
      cases first with
      | shown traced => exact .cons traced (ih more)
    | cut first cut =>
      cases first with
      | shown traced => exact .cut traced cut

theorem workTraced_chunks (chunks : List String) :
    ∀ {store events},
      WorkTraced host token options (chunks.map .chunk : List (Task κ)) store events extent after →
        after = store ∧ events <+: chunks.map .chunk ∧
          (extent = .part ∨ extent = .whole ∧ events = chunks.map .chunk) := by
  induction chunks with
  | nil =>
    intro store events queue
    cases queue with
    | nil => exact ⟨rfl,List.prefix_rfl,.inr ⟨rfl,rfl⟩⟩
    | pause => exact ⟨rfl,List.prefix_rfl,.inl rfl⟩
  | cons text chunks ih =>
    intro store events queue
    cases queue with
    | pause => exact ⟨rfl,List.nil_prefix,.inl rfl⟩
    | cut first cut =>
      cases first with
      | chunk => exact absurd rfl cut
      | held => exact ⟨rfl,List.nil_prefix,.inl rfl⟩
    | cons first more =>
      cases first with
      | chunk =>
        obtain ⟨rfl,before,ends⟩ := ih more
        refine ⟨rfl,List.cons_prefix_cons.mpr ⟨rfl,before⟩,ends.imp_right fun whole => ?_⟩
        exact ⟨whole.1,congrArg (RenderEvent.chunk text :: ·) whole.2⟩

theorem WorkTraced.first {task other : Task κ}
    (queue : WorkTraced host token options (other :: rest) middle events extent after)
    (same : ∀ {events extent after}, TaskTraced host token options other middle events extent after →
      TaskTraced host token options task store (before ++ events) extent after)
    (here : TaskTraced host token options other middle [] .part middle) :
    WorkTraced host token options (task :: rest) store (before ++ events) extent after := by
  cases queue with
  | pause => exact .cut (same here) nofun
  | cons first more =>
    rw [←List.append_assoc]
    exact .cons (same first) more
  | cut first cut => exact .cut (same first) cut

theorem opening_workTraced {tag : String} {shown : List (String × String)} {children : List (Node κ)}
    (queue : WorkTraced host token options
      ((Stream.opening options tag shown children).2 ++ rest) store
      events extent after) :
    WorkTraced host token options (.tag tag shown [] children :: rest) store
      (.chunk (Stream.opening options tag shown children).1 :: events) extent after := by
  by_cases held : options.isVoid tag = true ∧ children = []
  · obtain ⟨void,rfl⟩ := held
    rw [opening_void void] at queue ⊢
    exact .cons (.tag (.void void)) queue
  · rw [opening_held held,List.append_assoc] at queue
    rw [opening_held held]
    rcases workTraced_append _ queue with ⟨front,behind,middle,whole,left,rfl⟩ | ⟨cut,part⟩
    · have inside := workTraced_nodes _ whole
      cases left with
      | pause =>
        rw [List.append_nil]
        exact .cut (.tag (.opened held (.left inside) nofun)) nofun
      | cut first cut =>
        cases first with
        | chunk => exact absurd rfl cut
        | held =>
          rw [List.append_nil]
          exact .cut (.tag (.opened held (.left inside) nofun)) nofun
      | cons first more =>
        cases first with
        | chunk =>
          rw [←List.append_assoc,←List.cons_append]
          exact .cons (.tag (.closed held inside)) more
    · exact .cut (.tag (.opened held (workTraced_nodes _ part) cut)) cut

theorem item_workTraced {feed : Feed κ} {node : Node κ}
    (given : feed.pull host store = .ok (some node) middle)
    (queue : WorkTraced host token options (.show node :: .pull feed :: rest) middle events
      extent after) :
    WorkTraced host token options (.pull feed :: rest) store (.pull feed :: events) extent after := by
  cases queue with
  | pause => exact .cut (.pull (.itemCut given .pause nofun)) nofun
  | cut first cut =>
    cases first with
    | shown traced => exact .cut (.pull (.itemCut given traced cut)) cut
  | cons first more =>
    cases first with
    | shown traced =>
      rw [←List.cons_append]
      refine more.first (fun doing => ?_) (.pull .pause)
      cases doing with
      | pull others => exact .pull (.item given traced others)

theorem moves_workTraced {trace : Trace κ} {stream next : Stream κ}
    (moves : Moves host stream store trace next middle)
    (queue : WorkTraced host next.token next.options next.work middle events extent after) :
    WorkTraced host stream.token stream.options stream.work store (nextEvents stream ++ events) extent
      after := by
  -- Most steps put something else in front; an opening and a fragment put their
  -- children there, and an item stands in front of the sequence it came from.
  cases moves with
  | chunk => exact .cons .chunk queue
  | leaf text =>
    rw [nextEvents_leaf text]
    exact .cons (.shown (.leaf text)) queue
  | element =>
    refine queue.first (fun doing => ?_) (.tag .pause)
    cases doing with
    | tag traced => exact .shown (.element traced)
  | fixed =>
    refine queue.first (fun doing => ?_) (.tag .pause)
    cases doing with
    | tag traced => exact .tag (.fixed traced)
  | resolved driven live done =>
    rw [nextEvents_driven driven]
    refine queue.first (fun doing => ?_) (.tag .pause)
    cases doing with
    | tag traced => exact .tag (.resolved driven done traced)
  | opening => exact opening_workTraced queue
  | fragment =>
    rcases workTraced_append _ queue with ⟨front,behind,last,whole,left,rfl⟩ | ⟨cut,part⟩
    · change WorkTraced host _ _ _ store (front ++ behind) extent after
      exact .cons (.shown (.fragment (workTraced_nodes _ whole))) left
    · exact .cut (.shown (.fragment (workTraced_nodes _ part))) cut
  | deferred live done =>
    refine queue.first (fun doing => ?_) (.shown .pause)
    cases doing with
    | shown traced => exact .shown (.deferred done traced)
  | sequence live =>
    refine queue.first (fun doing => ?_) (.pull .pause)
    cases doing with
    | pull traced => exact .shown (.sequence traced)
  | item given live => exact item_workTraced given queue
  | ended given => exact .cons (.pull (.ended given)) queue

theorem runEvents_workTraced {stream next : Stream κ} {behind : List (RenderEvent κ)}
    (ran : RunEvents host stream store events next middle)
    (queue : WorkTraced host next.token next.options next.work middle behind extent after) :
    WorkTraced host stream.token stream.options stream.work store (events ++ behind) extent after := by
  induction ran with
  | refl => exact queue
  | step moves more ih =>
    rw [List.append_assoc]
    exact moves_workTraced moves (ih queue)

theorem halts_workTraced {trace : Trace κ} {stream : Stream κ} {fault : Fault}
    (halts : Halts host stream store trace (.broke fault) after) :
    WorkTraced host stream.token stream.options stream.work store (nextEvents stream) (.broke fault)
      after := by
  cases halts with
  | tagBroke driven live failed =>
    rw [nextEvents_driven driven]
    exact .cut (.tag (.attrBroke driven failed)) nofun
  | deferredBroke live failed => exact .cut (.shown (.driveBroke failed)) nofun
  | pullBroke failed => exact .cut (.pull (.pullBroke failed)) nofun
  | foreign => exact .cut (.shown .foreign) nofun

theorem workTraced_document {node : Node κ}
    (queue : WorkTraced host token options (Stream.start token options node).work store events extent
      after) : Document host token options node store events extent after := by
  change WorkTraced host token options (Stream.declaration options ++ [.show node]) store events extent
    after at queue
  rw [Tree.declaration_eq] at queue
  rcases workTraced_append _ queue with ⟨front,behind,middle,whole,left,rfl⟩ | ⟨cut,part⟩
  · obtain ⟨rfl,_,part | ⟨_,rfl⟩⟩ := workTraced_chunks _ whole
    · cases part
    · cases left with
      | pause => exact .behind .pause
      | cut first cut =>
        cases first with
        | shown traced => exact .behind traced
      | cons first more =>
        cases first with
        | shown traced =>
          cases more with
          | nil =>
            rw [List.append_nil]
            exact .behind traced
          | pause =>
            rw [List.append_nil]
            exact .behind (.left traced)
  · obtain ⟨rfl,before,rfl | ⟨rfl,_⟩⟩ := workTraced_chunks _ part
    · exact .before before
    · exact absurd rfl cut

end queueing

def Uncancelled (host : Host κ) (token : Token) (options : Options) (node : Node κ)
    (store : Store) : Prop :=
  ∀ events after, Document host token options node store events .part after →
    after.cancelled token = false

section documents

variable {host : Host κ} {token : Token} {options : Options} {node : Node κ}
  {store middle after : Store} {next : Stream κ} {events past : List (RenderEvent κ)} {extent : Extent}

theorem runEvents_token {stream : Stream κ} (ran : RunEvents host stream store events next after) :
    next.token = stream.token := by
  induction ran with
  | refl => rfl
  | step moves _ ih => exact ih.trans (moves_token moves)

theorem runEvents_chunks (chunks : List String) (rest : List (Task κ)) :
    RunEvents host ⟨token,options,chunks.map .chunk ++ rest⟩ store (chunks.map .chunk)
      ⟨token,options,rest⟩ store := by
  induction chunks with
  | nil => exact .refl
  | cons text chunks ih => exact .trans (.one .chunk rfl) ih

theorem document_runEvents (document : Document host token options node store events extent after)
    (uncancelled : Uncancelled host token options node store) :
    ReachesExtent host token options [] (Stream.start token options node).work store events
      after extent := by
  change ReachesExtent host token options [] (Stream.declaration options ++ [.show node]) store events
    after extent
  rw [Tree.declaration_eq]
  cases document with
  | before heading =>
    obtain ⟨behind,same⟩ := heading
    obtain ⟨front,back,headings,rfl,_⟩ := List.map_eq_append_iff.mp same.symm
    rw [headings,List.map_append,List.append_assoc]
    exact ⟨_,runEvents_chunks front _⟩
  | behind traced =>
    have stays : StaysLive host token options (.node node) store :=
      fun _ _ later => uncancelled _ _ (.behind later)
    exact .before (runEvents_chunks _ _) (traced_runEvents traced stays [])

theorem runEvents_document
    (ran : RunEvents host (Stream.start token options node) store events next after) :
    Document host token options node store events .part after := by
  have queue := runEvents_workTraced ran .pause
  rw [List.append_nil] at queue
  exact workTraced_document queue

theorem finishes_document {last : Store} {trace : Trace κ}
    (ran : RunEvents host (Stream.start token options node) store events next after)
    (halts : Halts host next after trace .finished last) :
    Document host token options node store events .whole last := by
  cases halts with
  | finished =>
    have queue := runEvents_workTraced ran .nil
    rw [List.append_nil] at queue
    exact workTraced_document queue

theorem breaks_document {last : Store} {trace : Trace κ} {fault : Fault}
    (ran : RunEvents host (Stream.start token options node) store events next after)
    (halts : Halts host next after trace (.broke fault) last) :
    Document host token options node store (events ++ nextEvents next) (.broke fault) last :=
  workTraced_document (runEvents_workTraced ran (halts_workTraced halts))

theorem never_stopped {last : Store} {trace : Trace κ}
    (uncancelled : Uncancelled host token options node store)
    (ran : RunEvents host (Stream.start token options node) store events next after) :
    ¬Halts host next after trace .stopped last := by
  intro halts
  have same := runEvents_token ran
  have live := uncancelled _ _ (runEvents_document ran)
  cases halts with
  | tagStopped _ cancelled | deferredStopped cancelled | sequenceStopped cancelled =>
    cases same
    exact Bool.false_ne_true (live.symm.trans cancelled)
  | itemStopped given cancelled =>
    cases same
    have pulled := uncancelled _ _
      (workTraced_document (runEvents_workTraced ran (item_workTraced given .pause)))
    exact Bool.false_ne_true (pulled.symm.trans cancelled)

theorem runEvents_ordered {stream other : Stream κ} {last : Store}
    (one : RunEvents host stream store events next after) :
    ∀ {events'}, RunEvents host stream store events' other last →
      (∃ tail, RunEvents host next after tail other last ∧ events' = events ++ tail) ∨
        ∃ tail, RunEvents host other last tail next after ∧ events = events' ++ tail := by
  induction one with
  | refl => exact fun later => .inl ⟨_,later,rfl⟩
  | step moves more ih =>
    intro events' later
    cases later with
    | refl => exact .inr ⟨_,.step moves more,rfl⟩
    | step moves' more' =>
      obtain ⟨rfl,rfl,rfl⟩ := moves_unique moves moves'
      rcases ih more' with ⟨tail,ran,rfl⟩ | ⟨tail,ran,rfl⟩
      · exact .inl ⟨tail,ran,(List.append_assoc ..).symm⟩
      · exact .inr ⟨tail,ran,(List.append_assoc ..).symm⟩

theorem halted_runEvents {other : Stream κ} {last : Store} {verdict : Verdict} {trace : Trace κ}
    {tail : List (RenderEvent κ)} (halts : Halts host next store trace verdict after)
    (ran : RunEvents host next store tail other last) : tail = [] ∧ other = next ∧ last = store := by
  cases ran with
  | refl => exact ⟨rfl,rfl,rfl⟩
  | step moves _ => exact (moves_not_halts moves halts).elim

end documents

end Rendering

end Markup
