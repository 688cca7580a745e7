import Markup.Proofs.Rendering.Session
import Markup.Proofs.Settle

namespace Markup.Rendering

variable {κ : Type}

inductive Runs (host : Host κ) : Stream κ → Store → Trace κ → Stream κ → Store → Prop where
  | refl : Runs host stream store [] stream store
  | step (moves : Moves host stream store trace next middle)
      (more : Runs host next middle rest last after) :
      Runs host stream store (trace ++ rest) last after

variable {host : Host κ} {token : Token} {options : Options} {store middle after : Store}
  {stream next last : Stream κ} {trace : Trace κ}

theorem Runs.one (moves : Moves host stream store trace next after) :
    Runs host stream store trace next after := by
  simpa using Runs.step moves .refl

theorem Runs.trans (first : Runs host stream store trace next middle)
    (second : Runs host next middle trace' last after) :
    Runs host stream store (trace ++ trace') last after := by
  induction first with
  | refl => exact second
  | step moves more ih =>
    rw [List.append_assoc]
    exact .step moves (ih second)

theorem Runs.session (runs : Runs host stream store trace next middle)
    (more : ∀ asked, Session host .silent asked next middle rest verdict after) :
    ∀ asked, Session host .silent asked stream store (trace ++ rest) verdict after := by
  induction runs with
  | refl => exact more
  | step moves others ih =>
    intro asked
    rw [List.append_assoc]
    rcases moves_chunks moves with silent | ⟨text,written⟩
    · exact .quiet moves silent (ih more asked)
    · exact .chunk moves written (ih more (asked + 1))

def tasks : Job κ → List (Task κ)
  | .node node => [.show node]
  | .nodes nodes => nodes.map .show
  | .feed feed => [.pull feed]

-- What writing a job has to come to: all the trees are written and the work
-- behind it is next, or the run breaks with the fault of the settling.
def Written (host : Host κ) (token : Token) (options : Options) (rest : List (Task κ))
    (work : List (Task κ)) (store after : Store) : Except Fault (List Tree) → Prop
  | .ok trees => ∃ trace, Runs host ⟨token,options,work⟩ store trace ⟨token,options,rest⟩ after ∧
      chunksOf trace = Tree.chunksAll options trees ∧ after.cancelled token = false
  | .error fault => ∃ trace next middle last,
      Runs host ⟨token,options,work⟩ store trace next middle ∧
        Halts host next middle last (.broke fault) after

theorem Written.before {rest work : List (Task κ)} {result : Except Fault (List Tree)}
    (first : Runs host ⟨token,options,start⟩ store trace ⟨token,options,work⟩ middle)
    (silent : chunksOf trace = [])
    (written : Written host token options rest work middle after result) :
    Written host token options rest start store after result := by
  cases result with
  | ok trees =>
    obtain ⟨trace',runs,chunks,live⟩ := written
    exact ⟨_,first.trans runs,by rw [chunksOf_append,silent,chunks,List.nil_append],live⟩
  | error fault =>
    obtain ⟨trace',next,middle,last,runs,halts⟩ := written
    exact ⟨_,next,middle,last,first.trans runs,halts⟩

theorem Written.andThen {rest between work : List (Task κ)} {found : List Tree}
    {result : Except Fault (List Tree)}
    (first : Written host token options between work store middle (.ok found))
    (more : middle.cancelled token = false →
      Written host token options rest between middle after result) :
    Written host token options rest work store after (result.map (found ++ ·)) := by
  obtain ⟨trace,runs,chunks,live⟩ := first
  have written := more live
  cases result with
  | ok trees =>
    obtain ⟨trace',runs',chunks',live'⟩ := written
    exact ⟨_,runs.trans runs',by rw [chunksOf_append,chunks,chunks',Tree.chunksAll_append],live'⟩
  | error fault =>
    obtain ⟨trace',next,between,last,runs',halts⟩ := written
    exact ⟨_,next,between,last,runs.trans runs',halts⟩

theorem Written.wrapped {rest work : List (Task κ)} {result : Except Fault (List Tree)}
    {wrap : List Tree → Tree}
    (written : Written host token options rest work store after result)
    (same : ∀ trees, Tree.chunksAll options [wrap trees] = Tree.chunksAll options trees) :
    Written host token options rest work store after (result.map fun trees => [wrap trees]) := by
  cases result with
  | ok trees =>
    obtain ⟨trace,runs,chunks,live⟩ := written
    exact ⟨trace,runs,chunks.trans (same trees).symm,live⟩
  | error fault => exact written

theorem Written.cut {rest between work : List (Task κ)} {fault : Fault}
    (first : Written host token options between work store after (.error fault)) :
    Written host token options rest work store after (.error fault) := first

def Resolved (host : Host κ) (token : Token) (options : Options) (start : List (Task κ))
    (goal : List (String × String) → List (Task κ)) (store after : Store) :
    Except Fault (List (String × String)) → Prop
  | .ok pairs => ∃ trace, Runs host ⟨token,options,start⟩ store trace ⟨token,options,goal pairs⟩
      after ∧ chunksOf trace = [] ∧ after.cancelled token = false
  | .error fault => ∃ trace next middle last,
      Runs host ⟨token,options,start⟩ store trace next middle ∧
        Halts host next middle last (.broke fault) after

theorem attr_moves {attr : Attr κ} (options : Options) (live : store.cancelled token = false)
    (done : attr.drive host token store = .ok pair after) (tag : String)
    (shown : List (String × String)) (more : List (Attr κ)) (children : List (Node κ))
    (rest : List (Task κ)) :
    ∃ trace, Moves host ⟨token,options,.tag tag shown (attr :: more) children :: rest⟩ store trace
      ⟨token,options,.tag tag (shown ++ [pair]) more children :: rest⟩ after ∧
        chunksOf trace = [] := by
  cases driven : isDriven attr with
  | true => exact ⟨_,.resolved driven live done,rfl⟩
  | false =>
    cases attr with
    | driven | named => cases driven
    | fixed name value =>
      simp only [Attr.drive_fixed,Action.pure_apply,EStateM.Result.ok.injEq] at done
      obtain ⟨rfl,rfl⟩ := done
      exact ⟨_,.fixed,rfl⟩

theorem names_resolved {attributes : List (Attr κ)}
    {result : Except Fault (List (String × String))}
    (names : Names host token attributes store result after) (live : store.cancelled token = false)
    (options : Options) (tag : String) (children : List (Node κ)) (rest : List (Task κ)) :
    ∀ shown : List (String × String),
      Resolved host token options (.tag tag shown attributes children :: rest)
        (fun pairs => .tag tag (shown ++ pairs) [] children :: rest) store after result := by
  induction names with
  | nil => exact fun shown => ⟨[],by simpa using Runs.refl,rfl,live⟩
  | @cons more middle result after attr store pair done live' others ih =>
    intro shown
    obtain ⟨trace,moves,silent⟩ := attr_moves options live done tag shown more children rest
    have further := ih live' (shown ++ [pair])
    cases result with
    | ok found =>
      obtain ⟨trace',runs,silent',later⟩ := further
      simp only [List.append_assoc] at runs
      exact ⟨_,.step moves runs,by rw [chunksOf_append,silent,silent']; rfl,later⟩
    | error fault =>
      obtain ⟨trace',next,between,last,runs,halts⟩ := further
      exact ⟨_,next,between,last,.step moves runs,halts⟩
  | @broke attr more store fault after failed =>
    intro shown
    cases driven : isDriven attr with
    | true => exact ⟨_,_,_,_,.refl,.tagBroke driven live failed⟩
    | false =>
      cases attr with
      | driven | named => cases driven
      | fixed => simp at failed

-- An element is written void only when there was nothing in it to be settled,
-- so looking at the unresolved children makes no difference.
theorem element_written {tag : String} {pairs : List (String × String)} {children : List (Node κ)}
    {result : Except Fault (List Tree)}
    (inside : Settles host token (.nodes children) store result after)
    (live : store.cancelled token = false) (rest : List (Task κ))
    (written : ∀ rest, Written host token options rest (tasks (.nodes children) ++ rest) store after
      result) :
    Written host token options rest (.tag tag pairs [] children :: rest) store after
      (result.map fun kids => [.element tag pairs kids]) := by
  have opening : Moves host ⟨token,options,.tag tag pairs [] children :: rest⟩ store _ _ store :=
    .opening
  have count := settles_counts inside
  unfold Stream.opening at opening
  split at opening
  · rename_i void
    obtain rfl : children = [] := List.isEmpty_iff.mp void.2
    cases inside
    refine ⟨_,.one opening,?_,live⟩
    simp [Tree.chunksAll,Tree.chunks,void.1]
  · rename_i notVoid
    have inner : Written host token options (.chunk (Stream.closeTag tag) :: rest)
        (children.map .show ++ [.chunk (Stream.closeTag tag)] ++ rest) store after result := by
      simpa [tasks] using written (.chunk (Stream.closeTag tag) :: rest)
    cases result with
    | error fault =>
      obtain ⟨trace,next,middle,last,runs,halts⟩ := inner
      exact ⟨_,next,middle,last,.step opening runs,halts⟩
    | ok kids =>
      obtain ⟨trace,runs,chunks,live'⟩ := inner
      refine ⟨_,.step opening (runs.trans (.one .chunk)),?_,live'⟩
      have same : kids.isEmpty = children.isEmpty := by
        have := count kids rfl
        cases kids <;> cases children <;> simp_all [Job.Counts]
      have shown : Tree.chunks options (.element tag pairs kids) =
          Stream.openTag tag (Stream.attributesText pairs) ::
            (Tree.chunksAll options kids ++ [Stream.closeTag tag]) := by
        rw [Tree.chunks,same,if_neg notVoid]
      simp [chunksOf_append,chunks,Tree.chunksAll,shown]

-- Whatever settling does, rendering does in the same order, and writes a tree
-- as soon as it is settled. The induction is on the settling; the work that
-- follows is carried along, and the token is not cancelled at any stage.
theorem settles_written {job : Job κ} {result : Except Fault (List Tree)}
    (settles : Settles host token job store result after) (options : Options)
    (live : store.cancelled token = false) :
    ∀ rest, Written host token options rest (tasks job ++ rest) store after result := by
  induction settles with
  | @leaf node tree store text =>
    intro rest
    cases node <;> simp only [leafTree,Option.some.injEq,reduceCtorEq] at text <;> subst text <;>
      exact ⟨_,.one (.leaf rfl),rfl,live⟩
  | nil => exact fun rest => ⟨[],.refl,rfl,live⟩
  | @element attributes store pairs middle children result after tag named inside ih =>
    intro rest
    obtain ⟨trace,runs,silent,live'⟩ := names_resolved named live options tag children rest []
    exact .before (.step .element runs) silent (element_written inside live' rest (ih live'))
  | elementBroke failed =>
    intro rest
    obtain ⟨trace,next,middle,last,runs,halts⟩ := names_resolved failed live options _ _ rest []
    exact ⟨_,next,middle,last,.step .element runs,halts⟩
  | @fragment children store result after inside ih =>
    intro rest
    exact .before (.one .fragment) rfl ((ih live rest).wrapped fun trees => by
      simp [Tree.chunksAll,Tree.chunks])
  | deferred done live' more ih =>
    intro rest
    exact .before (.one (.deferred live done)) rfl (ih live' rest)
  | deferredBroke failed => exact fun rest => ⟨_,_,_,_,.refl,.deferredBroke live failed⟩
  | @sequence feed store result after inside ih =>
    intro rest
    exact .before (.one (.sequence live)) rfl ((ih live rest).wrapped fun trees => by
      simp [Tree.chunksAll,Tree.chunks])
  | foreign => exact fun rest => ⟨_,_,_,_,.refl,.foreign⟩
  | cons first more ihFirst ihMore =>
    intro rest
    exact (ihFirst live _).andThen fun live' => ihMore live' rest
  | cut first ih => exact fun rest => (ih live _).cut
  | ended given live' => exact fun rest => ⟨_,.one (.ended given),rfl,live'⟩
  | item given live' here more ihHere ihMore =>
    intro rest
    have both := (ihHere live' _).andThen fun later => ihMore later rest
    exact .before (.one (.item given live')) rfl both
  | itemCut given live' here ih =>
    intro rest
    exact .before (.one (.item given live')) rfl (ih live' _).cut
  | pullBroke failed => exact fun rest => ⟨_,_,_,_,.refl,.pullBroke failed⟩

theorem chunks_run (host : Host κ) (token : Token) (options : Options) (store : Store)
    (chunks : List String) (rest : List (Task κ)) :
    ∃ trace, Runs host ⟨token,options,chunks.map .chunk ++ rest⟩ store trace
      ⟨token,options,rest⟩ store ∧ chunksOf trace = chunks := by
  induction chunks with
  | nil => exact ⟨[],.refl,rfl⟩
  | cons text others ih =>
    obtain ⟨trace,runs,same⟩ := ih
    exact ⟨_,.step .chunk runs,by simp [same]⟩

theorem fixed_run (host : Host κ) (token : Token) (options : Options) (store : Store)
    (tag : String) (children : List (Node κ)) (rest : List (Task κ))
    (attributes : List (String × String)) :
    ∀ shown : List (String × String), ∃ trace,
      Runs host ⟨token,options,.tag tag shown
        (attributes.map fun (name,value) => .fixed name value) children :: rest⟩ store trace
        ⟨token,options,.tag tag (shown ++ attributes) [] children :: rest⟩ store ∧
          chunksOf trace = [] := by
  induction attributes with
  | nil => exact fun shown => ⟨[],by simpa using Runs.refl,rfl⟩
  | cons pair more ih =>
    intro shown
    obtain ⟨trace,runs,silent⟩ := ih (shown ++ [pair])
    rw [List.append_assoc] at runs
    exact ⟨_,.step .fixed runs,silent⟩

mutual
theorem tree_run (host : Host κ) (token : Token) (options : Options) (store : Store)
    (rest : List (Task κ)) : ∀ tree : Tree, ∃ trace,
    Runs host ⟨token,options,.show (tree.toNode κ) :: rest⟩ store trace ⟨token,options,rest⟩ store ∧
      chunksOf trace = tree.chunks options
  | .text _ | .raw _ | .comment _ => ⟨_,.one (.leaf rfl),rfl⟩
  | .fragment children => by
    obtain ⟨trace,runs,chunks⟩ := trees_run host token options store rest children
    exact ⟨_,.step .fragment runs,by simpa [Tree.chunks] using chunks⟩
  | .series items => by
    obtain ⟨trace,runs,chunks⟩ := trees_run host token options store rest items
    exact ⟨_,.step .fragment runs,by simpa [Tree.chunks] using chunks⟩
  | .element tag attributes children => by
    obtain ⟨trace,resolved,silent⟩ := fixed_run host token options store tag
      (Tree.toNodes κ children) rest attributes []
    have same : (Tree.toNodes κ children).isEmpty = children.isEmpty := by
      cases children <;> rfl
    have opening : Moves host
        ⟨token,options,.tag tag attributes [] (Tree.toNodes κ children) :: rest⟩ store _ _ store :=
      .opening
    unfold Stream.opening at opening
    rw [same] at opening
    split at opening
    · rename_i void
      exact ⟨_,.step .element (resolved.trans (.one opening)),by
        simp [chunksOf_append,silent,Tree.chunks,void]⟩
    · rename_i notVoid
      obtain ⟨inner,runs,chunks⟩ := trees_run host token options store
        (.chunk (Stream.closeTag tag) :: rest) children
      rw [←List.singleton_append,←List.append_assoc] at runs
      refine ⟨_,.step .element (resolved.trans (.step opening (runs.trans (.one .chunk)))),?_⟩
      rw [Tree.chunks,if_neg notVoid]
      simp [chunksOf_append,silent,chunks]
theorem trees_run (host : Host κ) (token : Token) (options : Options) (store : Store)
    (rest : List (Task κ)) : ∀ trees : List Tree, ∃ trace,
    Runs host ⟨token,options,(Tree.toNodes κ trees).map .show ++ rest⟩ store trace
      ⟨token,options,rest⟩ store ∧ chunksOf trace = Tree.chunksAll options trees
  | [] => ⟨[],.refl,rfl⟩
  | tree :: others => by
    obtain ⟨trace,runs,chunks⟩ := tree_run host token options store
      ((Tree.toNodes κ others).map .show ++ rest) tree
    obtain ⟨trace',runs',chunks'⟩ := trees_run host token options store rest others
    exact ⟨_,runs.trans runs',by rw [chunksOf_append,chunks,chunks',Tree.chunksAll]⟩
end

def ClosesWith (options : Options) (trace : Trace κ) (verdict : Verdict) :
    Except Fault (List Tree) → Prop
  | .ok trees => verdict = .finished ∧
      chunksOf trace = Tree.heading options ++ Tree.chunksAll options trees
  | .error fault => verdict = .broke fault

theorem settles_session {node : Node κ} {result : Except Fault (List Tree)}
    (settles : Settles host token (.node node) store result after)
    (live : store.cancelled token = false) (options : Options) :
    ∃ trace verdict, Session host .silent 0 (Stream.start token options node) store trace verdict
      after ∧ ClosesWith options trace verdict result := by
  have written := settles_written settles options live []
  obtain ⟨opened,begins,heading⟩ := chunks_run host token options store
    (Tree.heading options) [.show node]
  rw [←Tree.declaration_eq κ options] at begins
  cases result with
  | ok trees =>
    obtain ⟨trace,runs,chunks,_⟩ := written
    have session := (begins.trans runs).session (fun _ => .last .finished) 0
    exact ⟨_,_,session,rfl,by simp [chunksOf_append,heading,chunks]⟩
  | error fault =>
    obtain ⟨trace,next,middle,last,runs,halts⟩ := written
    exact ⟨_,_,(begins.trans runs).session (fun _ => .last halts) 0,rfl⟩

def readAll (host : Host κ) (fuel : Nat) (node : Node κ) (given : Option Token)
    (options : Options) : Action (List String × Stream.Ending κ) := do
  let token ← Action.tokenOr given
  (Stream.start token options node).read host fuel fuel []

-- What rendering comes to in both its forms, given steps enough: the chunks
-- join to the text, and the text form is that text; or both end with the fault.
def Renders (host : Host κ) (node : Node κ) (given : Option Token) (options : Options)
    (store : Store) : Except Fault String → Prop
  | .ok text => ∃ bound, ∀ fuel, bound ≤ fuel →
      (∃ chunks after, readAll host fuel node given options store = .ok (chunks,.finished) after ∧
        String.join chunks = text) ∧
      ∃ after, renderText host fuel node given options store = .ok text after
  | .error fault => ∃ bound, ∀ fuel, bound ≤ fuel →
      (∃ chunks after, readAll host fuel node given options store =
        .ok (chunks,.failed fault) after) ∧
      ∃ after, renderText host fuel node given options store = .error fault after

theorem renderText_eq (host : Host κ) (fuel : Nat) (node : Node κ) (given : Option Token)
    (options : Options) (store : Store) :
    renderText host fuel node given options store =
      match readAll host fuel node given options store with
      | .ok (chunks,.finished) after => .ok (String.join chunks) after
      | .ok (_,.failed fault) after => .error fault after
      | .ok (_,.more _) after => .error .tooDeep after
      | .error fault after => .error fault after := by
  unfold renderText readAll
  rw [Action.bind_apply,Action.bind_apply]
  cases Action.tokenOr given store with
  | error fault after => rfl
  | ok token start =>
    dsimp only
    rw [Action.bind_apply]
    cases (Stream.start token options node).read host fuel fuel [] start with
    | error fault after => rfl
    | ok found after =>
      obtain ⟨chunks,ending⟩ := found
      cases ending <;> rfl

theorem bounds_meet {one other : Nat → Prop} (first : ∃ bound, ∀ fuel, bound ≤ fuel → one fuel)
    (second : ∃ bound, ∀ fuel, bound ≤ fuel → other fuel) : ∃ fuel, one fuel ∧ other fuel := by
  obtain ⟨bound,holds⟩ := first
  obtain ⟨bound',holds'⟩ := second
  refine ⟨max bound bound',holds _ ?_,holds' _ ?_⟩
  · omega
  · omega

def outcomeOf : EStateM.Result Fault Store α → Except Fault α
  | .ok value _ => .ok value
  | .error fault _ => .error fault

theorem renders_outcome {given : Option Token} {node : Node κ} {found : Except Fault String}
    (renders : Renders host node given options store found) :
    ∃ bound, ∀ fuel, bound ≤ fuel → outcomeOf (renderText host fuel node given options store) =
      found := by
  cases found with
  | ok text =>
    obtain ⟨bound,all⟩ := renders
    refine ⟨bound,fun fuel enough => ?_⟩
    obtain ⟨_,after,whole⟩ := all fuel enough
    rw [whole,outcomeOf]
  | error fault =>
    obtain ⟨bound,all⟩ := renders
    refine ⟨bound,fun fuel enough => ?_⟩
    obtain ⟨_,after,whole⟩ := all fuel enough
    rw [whole,outcomeOf]

theorem renders_unique {given : Option Token} {node : Node κ} {found found' : Except Fault String}
    (one : Renders host node given options store found)
    (other : Renders host node given options store found') : found = found' := by
  obtain ⟨fuel,same,same'⟩ := bounds_meet (renders_outcome one) (renders_outcome other)
  exact same.symm.trans same'

theorem session_renders {given : Option Token} {start : Store} {node : Node κ} {verdict : Verdict}
    (taken : Action.tokenOr given store = .ok token start)
    (session : Session host .silent 0 (Stream.start token options node) start trace verdict after) :
    (verdict = .finished →
      Renders host node given options store (.ok (String.join (chunksOf trace)))) ∧
      ∀ fault, verdict = .broke fault → Renders host node given options store (.error fault) := by
  obtain ⟨bound,reached⟩ := session_read session
  have all : ∀ fuel, bound ≤ fuel → readAll host fuel node given options store =
      .ok (chunksOf trace,verdict.ending) (verdict.left after) := by
    intro fuel enough
    unfold readAll
    rw [Action.bind_apply,taken]
    simpa using reached fuel fuel [] enough enough
  refine ⟨?_,?_⟩
  · rintro rfl
    refine ⟨bound,fun fuel enough => ⟨⟨_,_,all fuel enough,rfl⟩,after,?_⟩⟩
    rw [renderText_eq,all fuel enough]
    rfl
  · rintro fault rfl
    refine ⟨bound,fun fuel enough => ⟨⟨_,_,all fuel enough⟩,(Verdict.broke fault).left after,?_⟩⟩
    rw [renderText_eq,all fuel enough]
    rfl

theorem static_renders (host : Host κ) (tree : Tree) (given : Option Token) (options : Options)
    (store : Store) :
    Renders host (tree.toNode κ) given options store (.ok (tree.markup options)) := by
  obtain ⟨token,start,taken⟩ : ∃ token start, Action.tokenOr given store = .ok token start := by
    cases given with
    | none => exact ⟨_,_,Action.tokenOr_none store⟩
    | some token => exact ⟨_,_,Action.tokenOr_some token store⟩
  obtain ⟨opened,begins,heading⟩ := chunks_run host token options start
    (Tree.heading options) [.show (tree.toNode κ)]
  obtain ⟨trace,runs,chunks⟩ := tree_run host token options start [] tree
  rw [←Tree.declaration_eq κ options] at begins
  have session := (begins.trans runs).session (fun _ => .last .finished) 0
  have renders := (session_renders taken session).1 rfl
  simpa [chunksOf_append,heading,chunks,Tree.markup] using renders

theorem settles_renders {node : Node κ} {tree : Tree} {given : Option Token} {start : Store}
    (taken : Action.tokenOr given store = .ok token start) (live : start.cancelled token = false)
    (settles : Settles host token (.node node) start (.ok [tree]) after) (options : Options) :
    Renders host node given options store (.ok (tree.markup options)) := by
  obtain ⟨trace,verdict,session,finished,chunks⟩ := settles_session settles live options
  have written := (session_renders taken session).1 finished
  rw [chunks] at written
  simpa [Tree.markup,Tree.chunksAll] using written

theorem breaks_renders {node : Node κ} {fault : Fault} {given : Option Token} {start : Store}
    (taken : Action.tokenOr given store = .ok token start) (live : start.cancelled token = false)
    (settles : Settles host token (.node node) start (.error fault) after) (options : Options) :
    Renders host node given options store (.error fault) := by
  obtain ⟨trace,verdict,session,broke⟩ := settles_session settles live options
  exact (session_renders taken session).2 fault broke

-- Streaming a tree is as good as settling it first. Settling comes to one
-- result only: what is written is the markup of the settled tree, which the
-- static tree with nothing deferred in it is written as too; and the fault that
-- ends the settling ends the rendering.
theorem rendering_is_settling {host : Host κ} {token : Token} {store start after : Store}
    {given : Option Token} {node : Node κ} {result : Except Fault (List Tree)}
    (taken : Action.tokenOr given store = .ok token start)
    (live : start.cancelled token = false)
    (settles : Settles host token (.node node) start result after) (options : Options) :
    (∀ result' after', Settles host token (.node node) start result' after' → result' = result) ∧
      (∀ trees, result = .ok trees → ∃ tree, trees = [tree] ∧
        Renders host node given options store (.ok (tree.markup options)) ∧
          ∀ other last,
            Renders host (tree.toNode κ) other options last (.ok (tree.markup options))) ∧
        ∀ fault, result = .error fault → Renders host node given options store (.error fault) := by
  refine ⟨?_,?_,?_⟩
  · intro result' after' other
    exact (settles_unique settles other).1
  · rintro trees rfl
    have count := settles_counts settles trees rfl
    obtain ⟨tree,rfl⟩ := List.length_eq_one_iff.mp count
    exact ⟨tree,rfl,settles_renders taken live settles options,
      fun other last => static_renders host tree other options last⟩
  · rintro fault rfl
    exact breaks_renders taken live settles options

def lateHost : Host Nat where
  depth := 0
  run
    | 0,_ => return .deferred (.body 1 "inner" 1)
    | 1,_ => return .text "a & b"
    | 2,_ => return .foreign (.pair "title" "x")
    | 3,_ => return .null
    | _,_ => return .comment "end"

def latePage : Node Nat :=
  .element "br" [.driven 2 "name" 2]
    [.deferred (.body 3 "outer" 0),.sequence (.body 4 "rest" [.act 3,.item 4])]

theorem remark_settles (token : Token) (store : Store) (unread : store.cursor 4 = {})
    (live : store.cancelled token = false) :
    ∃ after, Settles lateHost token (.feed (.body 4 "rest" [.act 3,.item 4])) store
      (.ok [.comment "end"]) after := by
  have first : (Feed.body 4 "rest" [.act 3,.item 4]).pull lateHost store =
      .ok (some (.comment "end"))
        (((store.moved 4 ⟨1,.ready⟩).moved 4 ⟨2,.ready⟩).noted (.pull "rest" 1)) := by
    simp only [Feed.pull,Action.bind_apply,Action.cursor_apply,unread]
    rfl
  exact ⟨_,.item first live (.leaf rfl) (.ended rfl live)⟩

theorem latePage_settles : ∃ after, Settles lateHost (.fresh 0) (.node latePage) (Store.issued {})
    (.ok [.element "br" [("title","x")] [.text "a & b",.series [.comment "end"]]]) after := by
  obtain ⟨middle,text,unread,live⟩ : ∃ middle, Settles lateHost (.fresh 0)
      (.node (.deferred (.body 3 "outer" 0))) ((Store.issued {}).noted (.drive "name"))
        (.ok [.text "a & b"]) middle ∧ middle.cursor 4 = {} ∧
          middle.cancelled (.fresh 0) = false :=
    ⟨_,.deferred rfl rfl (.deferred rfl rfl (.leaf rfl)),rfl,rfl⟩
  obtain ⟨after,remark⟩ := remark_settles (.fresh 0) middle unread live
  have named : Names lateHost (.fresh 0) [.driven 2 "name" 2] (Store.issued {})
      (.ok [("title","x")]) ((Store.issued {}).noted (.drive "name")) := .cons rfl rfl .nil
  exact ⟨after,.element named (.cons text (.cons (.sequence remark) .nil))⟩

theorem latePage_renders : Renders lateHost latePage none .default {}
    (.ok "<br title=\"x\">a &amp; b<!--end--></br>") := by
  obtain ⟨after,settles⟩ := latePage_settles
  obtain ⟨tree,same,written,_⟩ :=
    (rendering_is_settling (Action.tokenOr_none {}) rfl settles .default).2.1 _ rfl
  cases same
  exact written
end Markup.Rendering
