import Markup.Proofs.Arguments

namespace Markup

variable {κ : Type}

-- A value that building may take up any number of times: nothing of it is used
-- up by reading, and nothing is wrapped anew.
def Node.Lasting (value : Node κ) : Prop :=
  ∀ single ∈ value.flat, single.isLazy = false ∧ single.isWrapped = false

namespace Shadows

-- Ways to add something to a node. What holds of the single ways, and of one
-- behind another, holds of adding any value but those that are read or wrapped
-- on the way.
structure Growing (holds : (Node κ → Action (Node κ)) → Prop) : Prop where
  skip : holds fun a => return a
  child : ∀ child, holds fun a => a.append child
  named : ∀ attr, holds fun a => a.addAttribute attr
  refuse : ∀ fault, holds fun _ => throw fault
  andThen : ∀ {one other}, holds one → holds other → holds fun a => one a >>= other

section growing

variable {holds : (Node κ → Action (Node κ)) → Prop} {read : Ident → List κ → Node κ → Action (Node κ)}

def LazyOrWrapped (value : Node κ) : Prop := value.isLazy = true ∨ value.isWrapped = true

mutual
theorem Growing.addWith (growing : Growing holds) : ∀ value : Node κ,
    (∀ single ∈ value.flat, LazyOrWrapped single → holds fun a => a.addWith read single) →
      holds fun a => a.addWith read value
  | .foreign value => growing.addForeign value
  | .element .. | .text _ | .raw _ | .comment _ | .fragment _ | .deferred _ | .sequence _ =>
    fun _ => growing.child _
theorem Growing.addForeign (growing : Growing holds) : ∀ value : Foreign κ,
    (∀ single ∈ value.flat, LazyOrWrapped single → holds fun a => a.addWith read single) →
      holds fun a => value.addWith read a
  | .null => fun _ => growing.skip
  | .attr attr => fun _ => growing.named attr
  | .list items | .tuple items | .marked _ _ items _ => growing.addAll items
  | .lazy id items => fun special => special (.foreign (.lazy id items)) List.mem_cons_self (.inl rfl)
  | .feed feed => fun special => special (.foreign (.feed feed)) List.mem_cons_self (.inr rfl)
  | .once id label code => fun special =>
    special (.foreign (.once id label code)) List.mem_cons_self (.inr rfl)
  | .string _ | .safe _ | .html .. => fun _ => growing.child _
  | .bool _ | .int _ | .float _ | .record _ | .pair .. | .source .. | .shadowed .. | .scoped ..
  | .scopedTag _ | .token _ => fun _ => growing.refuse _
theorem Growing.addAll (growing : Growing holds) : ∀ items : List (Node κ),
    (∀ single ∈ Node.flatAll items, LazyOrWrapped single → holds fun a => a.addWith read single) →
      holds fun a => Node.addAllWith read a items
  | [] => fun _ => growing.skip
  | item :: rest => fun special =>
    growing.andThen
      (growing.addWith item fun single inside => special single (List.mem_append_left _ inside))
      (growing.addAll rest fun single inside => special single (List.mem_append_right _ inside))
end

end growing

-- Two results of building: one element, which the second has with a further
-- child in front of all others; or the same fault. The stores are the same.
inductive SameButFirst (first : Node κ) : EStateM.Result Fault Store (Node κ) →
    EStateM.Result Fault Store (Node κ) → Prop where
  | made : SameButFirst first (.ok (.element tag attributes children) after)
      (.ok (.element tag attributes (first :: children)) after)
  | failed : SameButFirst first (.error fault after) (.error fault after)

theorem sameButFirst_left {first : Node κ} (fronts : SameButFirst first one other) : leftBy other = leftBy one := by
  cases fronts <;> rfl

def Blind (first : Node κ) (adds : Node κ → Action (Node κ)) : Prop :=
  ∀ tag attributes children store,
    SameButFirst first (adds (.element tag attributes children) store)
    (adds (.element tag attributes (first :: children)) store)

section blind

variable {first : Node κ} {host : Host κ}

theorem blind_child (child : Node κ) : Blind first fun a => a.append child := by
  intro tag attributes children store
  dsimp only
  cases proper : child.isNode with
  | true =>
    rw [append_element proper,append_element proper]
    exact .made
  | false =>
    rw [append_refused proper,append_refused proper]
    exact .failed

theorem blind_andThen {one other : Node κ → Action (Node κ)} (front : Blind first one)
    (later : Blind first other) : Blind first fun a => one a >>= other := by
  intro tag attributes children store
  have here := front tag attributes children store
  simp only [Action.bind_apply]
  generalize one (.element tag attributes children) store = found at here ⊢
  generalize one (.element tag attributes (first :: children)) store = found' at here ⊢
  cases here with
  | made => exact later _ _ _ _
  | failed => exact .failed

theorem blind_behind (action : Action α) {adds : α → Node κ → Action (Node κ)}
    (later : ∀ value, Blind first (adds value)) :
    Blind first fun a => action >>= fun value => adds value a := by
  intro tag attributes children store
  simp only [Action.bind_apply]
  cases action store with
  | ok value after => exact later value tag attributes children after
  | error fault after => exact .failed

theorem blind_growing (first : Node κ) : Growing (Blind first) where
  skip := fun _ _ _ _ => .made
  child := blind_child
  named := fun _ _ _ _ _ => .made
  refuse := fun _ _ _ _ _ => .failed
  andThen := blind_andThen

theorem blind_fold {step : Node κ → Node κ → Action (Node κ)} (id : Ident) (items : List κ)
    (steps : ∀ value, Blind first fun a => step a value) :
    Blind first fun a => LazyList.fold host id items step a := by
  unfold LazyList.fold
  induction items.length + 1 with
  | zero => exact fun _ _ _ _ => .failed
  | succ fuel ih =>
    refine blind_behind (LazyList.next host id items) fun found => ?_
    cases found with
    | none => exact fun _ _ _ _ => .made
    | some value => exact blind_andThen (steps value) ih

theorem blind_lazyOrWrapped {read : Ident → List κ → Node κ → Action (Node κ)}
    (reads : ∀ id items, Blind first (read id items)) {value : Node κ}
    (special : LazyOrWrapped value) :
    Blind first fun a => a.addWith read value := by
  cases value with
  | foreign value =>
    cases value with
    | «lazy» id items => exact reads id items
    | once id label code => exact blind_behind _ blind_child
    | feed feed => exact blind_behind _ blind_child
    | _ => rcases special with special | special <;> cases special
  | _ => rcases special with special | special <;> cases special

theorem blind_addTo (depth : Nat) (value : Node κ) :
    Blind first fun a => a.addTo host depth value := by
  induction depth generalizing value with
  | zero =>
    exact (blind_growing first).addWith value fun _ _ => blind_lazyOrWrapped fun _ _ _ _ _ _ =>
      .failed
  | succ depth ih =>
    exact (blind_growing first).addWith value fun _ _ =>
      blind_lazyOrWrapped fun id items => blind_fold id items ih

theorem blind_all (depth : Nat) (arguments : List (Node κ)) :
    Blind first fun a => arguments.foldlM (Node.addTo host depth) a := by
  induction arguments with
  | nil => exact fun _ _ _ _ => .made
  | cons value rest ih =>
    simp only [List.foldlM_cons]
    exact blind_andThen (blind_addTo depth value) ih

theorem build_fronted {selector : String} {shape : Selector}
    (parsed : Selector.read selector = .ok shape) (tag : String) (attributes : List (Attr κ))
    (children arguments : List (Node κ)) (store : Store) :
    SameButFirst (.element tag attributes children) (build host selector arguments store)
      (build host selector (.element tag attributes children :: arguments) store) := by
  have added : (shape.element : Node κ).addTo host host.depth (.element tag attributes children) store =
      .ok (.element shape.tag (shape.attributes.map fun part => .fixed part.name part.value)
        [.element tag attributes children]) store := by
    rw [addTo_reader]
    exact append_element rfl _ _ _ store
  rw [build_adds parsed,build_adds parsed,List.foldlM_cons,Action.bind_apply,added]
  exact blind_all host.depth arguments _ _ _ store

end blind

def AddsBehind (adds : Node κ → Action (Node κ))
    (gain : Except Fault (List (Attr κ) × List (Node κ))) :
    Prop :=
  ∀ tag attributes children store, adds (.element tag attributes children) store =
    match gain with
    | .ok (named,more) => .ok (.element tag (attributes ++ named) (children ++ more)) store
    | .error fault => .error fault store

section gains

variable {host : Host κ}

theorem addsBehind_growing :
    Growing fun adds : Node κ → Action (Node κ) => ∃ gain, AddsBehind adds gain where
  skip := ⟨.ok ([],[]),fun _ _ _ _ => by simp⟩
  child := by
    intro child
    cases proper : child.isNode with
    | true =>
      refine ⟨.ok ([],child.pieces),fun tag attributes children store => ?_⟩
      simp only [append_element proper,List.append_nil]
    | false =>
      refine ⟨.error (.notNode child.kind),fun tag attributes children store => ?_⟩
      simp only [append_refused proper]
      rfl
  named := fun attr => ⟨.ok ([attr],[]),fun _ _ _ _ => by simp [Node.addAttribute]⟩
  refuse := fun fault => ⟨.error fault,fun _ _ _ _ => rfl⟩
  andThen := by
    rintro one other ⟨gain,first⟩ ⟨gain',later⟩
    cases gain with
    | error fault =>
      refine ⟨.error fault,fun tag attributes children store => ?_⟩
      simp only [Action.bind_apply,first tag attributes children store]
    | ok found =>
      obtain ⟨named,more⟩ := found
      cases gain' with
      | error fault =>
        refine ⟨.error fault,fun tag attributes children store => ?_⟩
        simp only [Action.bind_apply,first tag attributes children store]
        exact later _ _ _ store
      | ok others =>
        refine ⟨.ok (named ++ others.1,more ++ others.2),fun tag attributes children store => ?_⟩
        simp only [Action.bind_apply,first tag attributes children store]
        simpa only [List.append_assoc] using later tag (attributes ++ named) (children ++ more) store

theorem lasting_content {value : Node κ} (lasting : value.Lasting)
    (accepted : build host selector [value] start = .ok node finish) :
    ∃ named content, ∀ {other : String} {shape : Selector}, Selector.read other = .ok shape →
      ∀ store, build host other [value] store = .ok (.element shape.tag
        (shape.attributes.map (fun part => .fixed part.name part.value) ++ named) content) store := by
  obtain ⟨gain,gains⟩ : ∃ gain, AddsBehind (fun a => a.addTo host host.depth value) gain := by
    simp only [addTo_reader]
    refine addsBehind_growing.addWith value fun single inside special => ?_
    obtain ⟨unread,unwrapped⟩ := lasting single inside
    rcases special with special | special
    · cases unread.symm.trans special
    · cases unwrapped.symm.trans special
  have builds : ∀ {other : String} {shape : Selector}, Selector.read other = .ok shape → ∀ store,
      build host other [value] store = (shape.element : Node κ).addTo host host.depth value store := by
    intro other shape parsed store
    rw [build_adds parsed,List.foldlM_cons,Action.bind_apply]
    cases (shape.element : Node κ).addTo host host.depth value store <;> rfl
  cases gain with
  | ok found =>
    refine ⟨found.1,found.2,fun parsed store => ?_⟩
    rw [builds parsed]
    exact gains _ _ _ store
  | error fault =>
    -- Nothing that parses accepts the value, and what does not parse accepts none.
    cases parsed : Selector.read selector with
    | ok shape =>
      rw [builds parsed start] at accepted
      cases (gains _ _ _ start).symm.trans accepted
    | error broken =>
      have stops : (parseElement selector : Action (Node κ)) start =
          .error (.selector broken) (start.noted (.rejected broken)) := by
        rw [parseElement,parsed]
        rfl
      rw [build,Action.bind_apply,stops] at accepted
      cases accepted

end gains

inductive CallTurn (κ : Type) where
  | call (arguments : List (Node κ))
  | meanwhile (change : Store → Store)

def answers (make : List (Node κ) → Action (Node κ)) :
    List (CallTurn κ) → Store → List (EStateM.Result Fault Store (Node κ))
  | [],_ => []
  | .call arguments :: rest,store =>
    make arguments store :: answers make rest (leftBy (make arguments store))
  | .meanwhile change :: rest,store => answers make rest (change store)

-- The induction is on the turns, for every store that they may begin in: a call
-- leaves the same store whichever of the two constructors was called.
theorem answers_front {first : Node κ} {plain fronted : List (Node κ) → Action (Node κ)}
    (fronts : ∀ arguments store,
      SameButFirst first (plain arguments store) (fronted arguments store))
    (turns : List (CallTurn κ)) (store : Store) :
    List.Forall₂ (SameButFirst first) (answers plain turns store)
      (answers fronted turns store) := by
  induction turns generalizing store with
  | nil => exact .nil
  | cons turn rest ih =>
    cases turn with
    | call arguments =>
      rw [answers,answers,sameButFirst_left (fronts arguments store)]
      exact .cons (fronts arguments store) (ih _)
    | meanwhile change => exact ih _

end Shadows

open Shadows

theorem templateSelector_read :
    Selector.read templateSelector = .ok ⟨"template",[⟨"shadowrootmode","open"⟩]⟩ := by
  decide +kernel

-- A constructor with a shadow template of its own and one that is handed the
-- template answer every call alike: with what the selector and the arguments of
-- that call give, and the template in front. The content of the template is what
-- its value gives to every element.
theorem shadows_front {host : Host κ} {selector : String} {shape : Selector}
    (parsed : Selector.read selector = .ok shape) {template : Node κ} (lasting : template.Lasting)
    (accepted : build host other [template] start = .ok node finish) (store : Store) :
    ∃ named content maker loose,
      (∀ {other : String} {shape : Selector}, Selector.read other = .ok shape → ∀ store,
        build host other [template] store = .ok (.element shape.tag
          (shape.attributes.map (fun part => .fixed part.name part.value) ++ named) content) store) ∧
      shadowMaker host selector template store = .ok maker store.issued ∧
      scopeMaker selector store = .ok loose store.issued ∧
      ∀ turns now,
        answers (fun arguments => maker.apply host arguments) turns now =
          answers (fun arguments => loose.apply host (template :: arguments)) turns now ∧
        List.Forall₂ (SameButFirst (.element "template" (.fixed "shadowrootmode" "open" :: named) content))
          (answers (build host selector) turns now)
          (answers (fun arguments => maker.apply host arguments) turns now) := by
  obtain ⟨named,content,gives⟩ := lasting_content lasting accepted
  have wrapped : ∀ now, templateNode host template now =
      .ok (.element "template" (.fixed "shadowrootmode" "open" :: named) content) now :=
    fun now => gives templateSelector_read now
  refine ⟨named,content,.shadowed store.supply selector
    (.element "template" (.fixed "shadowrootmode" "open" :: named) content),
    .scoped store.supply selector,gives,?_,rfl,fun turns now => ⟨?_,?_⟩⟩
  · rw [shadowMaker,Action.bind_apply,wrapped]
    rfl
  · congr 1
    funext arguments now
    simp only [Foreign.apply,applyScoped,Action.bind_apply,wrapped]
  · exact answers_front (fun arguments now => build_fronted parsed _ _ _ arguments now) turns now

def cardTemplate : Node Nat :=
  .foreign (.list [.foreign (.attr (.fixed "title" "t")),.null,
    .foreign (.tuple [.string "a",.fragment [.text "b",.raw "<hr>"]])])

def cardWrapper : Node Nat :=
  .element "template" [.fixed "shadowrootmode" "open",.fixed "title" "t"]
    [.text "a",.text "b",.raw "<hr>"]

def cardTurns : List (CallTurn Nat) :=
  [.call [.foreign (.lazy 6 [0,1]),.foreign (.once 5 "wait" 0)],.meanwhile Store.issued,
    .call [.string "c",.foreign (.lazy 6 [0,1]),.foreign (.bool true)],.call [.string "d"]]

theorem cards_fronted : Selector.read "x-card.wide" = .ok ⟨"x-card",[⟨"class","wide"⟩]⟩ ∧
    cardTemplate.Lasting ∧
      build menuHost "i" [cardTemplate] {} = .ok (.element "i" [.fixed "title" "t"]
        [.text "a",.text "b",.raw "<hr>"]) {} ∧
        ∃ maker loose,
          shadowMaker menuHost "x-card.wide" cardTemplate {supply := 8} = .ok maker {supply := 9} ∧
          scopeMaker "x-card.wide" {supply := 8} = .ok loose {supply := 9} ∧
          answers (fun arguments => maker.apply menuHost arguments) cardTurns {supply := 9} =
            answers (fun arguments => loose.apply menuHost (cardTemplate :: arguments)) cardTurns
              {supply := 9} ∧
          List.Forall₂ (SameButFirst cardWrapper) (answers (build menuHost "x-card.wide") cardTurns {supply := 9})
            (answers (fun arguments => maker.apply menuHost arguments) cardTurns {supply := 9}) ∧
          ∃ one two three, answers (fun arguments => maker.apply menuHost arguments) cardTurns
              {supply := 9} =
            [.ok (.element "x-card" [.fixed "class" "wide",.fixed "title" "t"] [cardWrapper,.text "x",
              .deferred (.coerce 9 (.foreign (.once 5 "wait" 0)))]) one,
              .error (.unusable "bool") two,
              .ok (.element "x-card" [.fixed "class" "wide"] [cardWrapper,.text "d"]) three] := by
  have parsed : Selector.read "x-card.wide" = .ok ⟨"x-card",[⟨"class","wide"⟩]⟩ := by decide +kernel
  have plain : Selector.read "i" = .ok ⟨"i",[]⟩ := by decide +kernel
  have lasting : cardTemplate.Lasting := by
    simp [Node.Lasting,cardTemplate,Node.flat,Foreign.flat,Node.flatAll,Node.null,Node.string,
      Node.isLazy,Node.isWrapped]
  have accepted : build menuHost "i" [cardTemplate] {} = .ok (.element "i" [.fixed "title" "t"]
      [.text "a",.text "b",.raw "<hr>"]) {} := (build_adds plain [cardTemplate] {}).trans rfl
  have wrapped : build menuHost templateSelector [cardTemplate] {supply := 8} =
      .ok cardWrapper {supply := 8} := (build_adds templateSelector_read [cardTemplate] _).trans rfl
  obtain ⟨named,content,maker,loose,gives,made,opened,calls⟩ :=
    shadows_front parsed lasting accepted {supply := 8}
  obtain ⟨alike,fronts⟩ := calls cardTurns {supply := 9}
  cases (gives templateSelector_read {supply := 8}).symm.trans wrapped
  have known : shadowMaker menuHost "x-card.wide" cardTemplate {supply := 8} =
      .ok (.shadowed 8 "x-card.wide" cardWrapper) {supply := 9} := by
    rw [shadowMaker,templateNode,Action.bind_apply,wrapped]
    rfl
  cases made.symm.trans known
  refine ⟨parsed,lasting,accepted,_,loose,known,opened,alike,fronts,?_⟩
  have builds : ∀ arguments store, build menuHost "x-card.wide" arguments store =
      arguments.foldlM (Node.addTo menuHost menuHost.depth)
        (.element "x-card" [.fixed "class" "wide"] []) store := build_adds parsed
  simp only [answers,cardTurns,Foreign.apply,builds]
  exact ⟨_,_,_,rfl⟩

end Markup
