import Markup.Proofs.Action

namespace Markup.Rendering

variable {κ : Type}

-- What can be seen of a rendering run: a chunk that is written, a place that
-- looks at the token (a deferred node, a driven attribute or a sequence is
-- reached), a thunk that is begun, and an item that a sequence hands over.
inductive Mark (κ : Type) where
  | wrote (chunk : String)
  | looked
  | drove (thunk : Node κ)
  | produced (item : Node κ)

abbrev Trace (κ : Type) := List (Bool × Mark κ)

def chunkOf : Bool × Mark κ → Option String
  | (_,.wrote chunk) => some chunk
  | _ => none

def chunksOf (trace : Trace κ) : List String := trace.filterMap chunkOf

inductive Verdict where
  | finished
  | stopped
  | broke (fault : Fault)
  deriving DecidableEq

def leafText : Node κ → Option String
  | .text value => some (Text.escaped value)
  | .raw value => some value
  | .comment value => some ("<!--" ++ value ++ "-->")
  | _ => none

def isDriven : Attr κ → Bool
  | .fixed .. => false
  | _ => true

-- The rules of a step that goes on. They are said case by case for what stands
-- first in the work and say all that the step does.
inductive Moves (host : Host κ) : Stream κ → Store → Trace κ → Stream κ → Store → Prop where
  | chunk : Moves host ⟨token,options,.chunk text :: rest⟩ store
      [(store.cancelled token,.wrote text)] ⟨token,options,rest⟩ store
  | leaf (text : leafText node = some chunk) :
      Moves host ⟨token,options,.show node :: rest⟩ store
        [(store.cancelled token,.wrote chunk)] ⟨token,options,rest⟩ store
  | element : Moves host ⟨token,options,.show (.element tag attributes children) :: rest⟩ store []
      ⟨token,options,.tag tag [] attributes children :: rest⟩ store
  | fixed : Moves host ⟨token,options,.tag tag shown (.fixed name value :: more) children :: rest⟩
      store [] ⟨token,options,.tag tag (shown ++ [(name,value)]) more children :: rest⟩ store
  | resolved (driven : isDriven attr = true) (live : store.cancelled token = false)
      (done : attr.drive host token store = .ok pair after) :
      Moves host ⟨token,options,.tag tag shown (attr :: more) children :: rest⟩ store
        [(false,.looked),(false,.drove (.foreign (.attr attr)))]
        ⟨token,options,.tag tag (shown ++ [pair]) more children :: rest⟩ after
  | opening : Moves host ⟨token,options,.tag tag shown [] children :: rest⟩ store
      [(store.cancelled token,.wrote (Stream.opening options tag shown children).1)]
      ⟨token,options,(Stream.opening options tag shown children).2 ++ rest⟩ store
  | fragment : Moves host ⟨token,options,.show (.fragment children) :: rest⟩ store []
      ⟨token,options,children.map .show ++ rest⟩ store
  | deferred (live : store.cancelled token = false)
      (done : pending.drive host token store = .ok node after) :
      Moves host ⟨token,options,.show (.deferred pending) :: rest⟩ store
        [(false,.looked),(false,.drove (.deferred pending))]
        ⟨token,options,.show node :: rest⟩ (after.noted (.resolved node.kind))
  | sequence (live : store.cancelled token = false) :
      Moves host ⟨token,options,.show (.sequence feed) :: rest⟩ store [(false,.looked)]
        ⟨token,options,.pull feed :: rest⟩ store
  | item (given : feed.pull host store = .ok (some node) after)
      (live : after.cancelled token = false) :
      Moves host ⟨token,options,.pull feed :: rest⟩ store [(false,.produced node)]
        ⟨token,options,.show node :: .pull feed :: rest⟩ after
  | ended (given : feed.pull host store = .ok none after) :
      Moves host ⟨token,options,.pull feed :: rest⟩ store [] ⟨token,options,rest⟩ after

inductive Halts (host : Host κ) : Stream κ → Store → Trace κ → Verdict → Store → Prop where
  | finished : Halts host ⟨token,options,[]⟩ store [] .finished store
  | tagStopped (driven : isDriven attr = true) (cancelled : store.cancelled token = true) :
      Halts host ⟨token,options,.tag tag shown (attr :: more) children :: rest⟩ store
        [(true,.looked)] .stopped store
  | tagBroke (driven : isDriven attr = true) (live : store.cancelled token = false)
      (failed : attr.drive host token store = .error fault after) :
      Halts host ⟨token,options,.tag tag shown (attr :: more) children :: rest⟩ store
        [(false,.looked),(false,.drove (.foreign (.attr attr)))] (.broke fault) after
  | deferredStopped (cancelled : store.cancelled token = true) :
      Halts host ⟨token,options,.show (.deferred pending) :: rest⟩ store
        [(true,.looked)] .stopped store
  | deferredBroke (live : store.cancelled token = false)
      (failed : pending.drive host token store = .error fault after) :
      Halts host ⟨token,options,.show (.deferred pending) :: rest⟩ store
        [(false,.looked),(false,.drove (.deferred pending))] (.broke fault) after
  | sequenceStopped (cancelled : store.cancelled token = true) :
      Halts host ⟨token,options,.show (.sequence feed) :: rest⟩ store
        [(true,.looked)] .stopped store
  | itemStopped (given : feed.pull host store = .ok (some node) after)
      (cancelled : after.cancelled token = true) :
      Halts host ⟨token,options,.pull feed :: rest⟩ store [(true,.produced node)] .stopped after
  | pullBroke (failed : feed.pull host store = .error fault after) :
      Halts host ⟨token,options,.pull feed :: rest⟩ store [] (.broke fault) after
  | foreign : Halts host ⟨token,options,.show (.foreign value) :: rest⟩ store []
      (.broke (.unrenderable value.kind)) store

variable {host : Host κ} {stream next : Stream κ} {store after : Store} {trace : Trace κ}
  {verdict : Verdict}

def stepOf (trace : Trace κ) (next : Stream κ) : Step κ :=
  match chunksOf trace with
  | [] => .quiet next
  | chunk :: _ => .emit chunk next

def Verdict.outcome (store : Store) : Verdict → EStateM.Result Fault Store (Step κ)
  | .finished => .ok .done store
  | .stopped => .error Fault.stopped store
  | .broke fault => .error fault store

theorem stepTag_driven (driven : isDriven attr = true) (stream : Stream κ)
    (rest : List (Task κ)) (tag : String) (shown : List (String × String))
    (children : List (Node κ)) (more : List (Attr κ)) :
    stream.stepTag host rest tag shown children (attr :: more) = do
      Action.check stream.token
      let pair ← attr.drive host stream.token
      return .quiet {stream with work := .tag tag (shown ++ [pair]) more children :: rest} := by
  cases attr with
  | fixed => cases driven
  | driven | named => rfl

theorem step_moves (moves : Moves host stream store trace next after) :
    stream.step host store = .ok (stepOf trace next) after := by
  cases moves with
  | chunk => rfl
  | @leaf node chunk token options rest store text =>
    cases node <;> simp only [leafText,Option.some.injEq,reduceCtorEq] at text <;>
      (subst text; rfl)
  | element => rfl
  | fixed => rfl
  | resolved driven live done =>
    simp only [Stream.step,stepTag_driven driven,Action.bind_apply,Action.check_live live,done,
      Action.pure_apply]
    rfl
  | opening => rfl
  | fragment => rfl
  | deferred live done =>
    simp only [Stream.step,Stream.stepNode,Action.bind_apply,Action.check_live live,done,
      Action.log_apply,Action.pure_apply]
    rfl
  | sequence live =>
    simp only [Stream.step,Stream.stepNode,Action.bind_apply,Action.check_live live,
      Action.pure_apply]
    rfl
  | item given live =>
    simp only [Stream.step,Action.bind_apply,given,Action.check_live live,Action.pure_apply]
    rfl
  | ended given =>
    simp only [Stream.step,Action.bind_apply,given,Action.pure_apply]
    rfl

theorem step_halts (halts : Halts host stream store trace verdict after) :
    stream.step host store = verdict.outcome after := by
  cases halts with
  | finished => rfl
  | tagStopped driven cancelled =>
    simp only [Stream.step,stepTag_driven driven,Action.bind_apply,Action.check_stopped cancelled]
    rfl
  | tagBroke driven live failed =>
    simp only [Stream.step,stepTag_driven driven,Action.bind_apply,Action.check_live live,failed]
    rfl
  | deferredStopped cancelled =>
    simp only [Stream.step,Stream.stepNode,Action.bind_apply,Action.check_stopped cancelled]
    rfl
  | deferredBroke live failed =>
    simp only [Stream.step,Stream.stepNode,Action.bind_apply,Action.check_live live,failed]
    rfl
  | sequenceStopped cancelled =>
    simp only [Stream.step,Stream.stepNode,Action.bind_apply,Action.check_stopped cancelled]
    rfl
  | itemStopped given cancelled =>
    simp only [Stream.step,Action.bind_apply,given,Action.check_stopped cancelled]
    rfl
  | pullBroke failed =>
    simp only [Stream.step,Action.bind_apply,failed]
    rfl
  | foreign => rfl

theorem advance (host : Host κ) (stream : Stream κ) (store : Store) :
    (∃ trace next after, Moves host stream store trace next after) ∨
      ∃ trace verdict after, Halts host stream store trace verdict after := by
  obtain ⟨token,options,work⟩ := stream
  have flag := Bool.eq_false_or_eq_true (store.cancelled token)
  cases work with
  | nil => exact .inr ⟨_,_,_,.finished⟩
  | cons task rest =>
    cases task with
    | chunk text => exact .inl ⟨_,_,_,.chunk⟩
    | pull feed =>
      cases given : feed.pull host store with
      | error fault after => exact .inr ⟨_,_,_,.pullBroke given⟩
      | ok found after =>
        cases found with
        | none => exact .inl ⟨_,_,_,.ended given⟩
        | some node =>
          rcases Bool.eq_false_or_eq_true (after.cancelled token) with cancelled | live
          · exact .inr ⟨_,_,_,.itemStopped given cancelled⟩
          · exact .inl ⟨_,_,_,.item given live⟩
    | tag name shown attributes children =>
      cases attributes with
      | nil => exact .inl ⟨_,_,_,.opening⟩
      | cons attr more =>
        cases driven : isDriven attr with
        | false =>
          cases attr with
          | fixed => exact .inl ⟨_,_,_,.fixed⟩
          | driven | named => cases driven
        | true =>
          rcases flag with cancelled | live
          · exact .inr ⟨_,_,_,.tagStopped driven cancelled⟩
          · cases run : attr.drive host token store with
            | ok pair after => exact .inl ⟨_,_,_,.resolved driven live run⟩
            | error fault after => exact .inr ⟨_,_,_,.tagBroke driven live run⟩
    | «show» node =>
      cases node with
      | text | raw | comment => exact .inl ⟨_,_,_,.leaf rfl⟩
      | element => exact .inl ⟨_,_,_,.element⟩
      | fragment => exact .inl ⟨_,_,_,.fragment⟩
      | foreign => exact .inr ⟨_,_,_,.foreign⟩
      | deferred pending =>
        rcases flag with cancelled | live
        · exact .inr ⟨_,_,_,.deferredStopped cancelled⟩
        · cases run : pending.drive host token store with
          | ok node after => exact .inl ⟨_,_,_,.deferred live run⟩
          | error fault after => exact .inr ⟨_,_,_,.deferredBroke live run⟩
      | sequence feed =>
        rcases flag with cancelled | live
        · exact .inr ⟨_,_,_,.sequenceStopped cancelled⟩
        · exact .inl ⟨_,_,_,.sequence live⟩

end Markup.Rendering
