import Mathlib.Logic.Function.Basic
import Markup.Proofs.Renaming.Holdings
import Markup.Proofs.Renaming.Walk

namespace Markup

variable {κ ι : Type}

inductive Request where
  | next
  | cancel
  deriving DecidableEq, Repr

inductive Reply where
  | chunk (text : String)
  | ended
  | failed (fault : Fault)
  | cancelled
  deriving DecidableEq, Repr

namespace Stream

def ask (host : Host κ) (fuel : Nat) (stream : Stream κ) : Request → Action (Reply × Stream κ)
  | .cancel => do
    Action.cancel stream.token
    return (.cancelled,stream)
  | .next =>
    tryCatch
      (do
        match ← stream.next host fuel with
        | some (chunk,after) => return (.chunk chunk,after)
        | none => return (.ended,{stream with work := []}))
      fun fault => return (.failed fault,{stream with work := []})

def askAll (host : Host κ) (fuel : Nat) : Stream κ → List Request → Action (List Reply)
  | _, [] => return []
  | stream, request :: rest => do
    let (reply,after) ← stream.ask host fuel request
    return reply :: (← after.askAll host fuel rest)

end Stream

structure Page (κ : Type) where
  token : Token
  options : Options
  tree : Node κ

def Page.stream (page : Page κ) : Stream κ := .start page.token page.options page.tree

def interleave [DecidableEq ι] (host : Host κ) (fuel : Nat) :
    (ι → Stream κ) → List (ι × Request) → Action (List (ι × Reply))
  | _, [] => return []
  | streams, (who,request) :: rest => do
    let (reply,after) ← (streams who).ask host fuel request
    return (who,reply) :: (← interleave host fuel (Function.update streams who after) rest)

def concerning [DecidableEq ι] (who : ι) (turns : List (ι × α)) : List α :=
  turns.filterMap fun turn => if turn.1 = who then some turn.2 else none

-- Runs that have nothing in common but what can be used again and again: no
-- source that is read or waited for once, and no token. What a run can reach is
-- what its tree holds, and whatever its code may come to.
structure Separate (host : Host κ) (sense : ι → Sense κ) (reach : ι → Ident → Prop)
    (pages : ι → Page κ) (store : Store) : Prop where
  tokens : ∀ one other, (pages one).token = (pages other).token → one = other
  sources : ∀ one other own, reach one own → reach other own → one = other
  issued : ∀ who own, reach who own → own < store.supply
  serials : ∀ who serial, (pages who).token.serial? = some serial →
    serial < store.supply ∧ ∀ other, ¬reach other serial
  unread : Unread store
  holds : ∀ who, ∀ holding ∈ (pages who).tree.holdings,
    ((sense who).world (.on (reach who))).Holds holding
  code : ∀ who, host.Local (pages who).token (sense who)

inductive Task.Alike (world : World κ) : Task κ → Task κ → Prop where
  | chunk : Task.Alike world (.chunk text) (.chunk text)
  | node (same : Node.Alike world node node') : Task.Alike world (.show node) (.show node')
  | tag (named : Attrs.Alike world attributes attributes')
      (inside : Nodes.Alike world children children') :
      Task.Alike world (.tag name shown attributes children) (.tag name shown attributes' children')
  | pull (same : Feed.Alike world feed feed') : Task.Alike world (.pull feed) (.pull feed')

inductive Stream.Alike (token : Token) (world : World κ) : Stream κ → Stream κ → Prop where
  | intro {options : Options} {work work' : List (Task κ)}
      (same : List.Forall₂ (Task.Alike world) work work') :
      Stream.Alike token world ⟨token,options,work⟩ ⟨token,options,work'⟩

inductive Step.Alike (token : Token) (world : World κ) : Step κ → Step κ → Prop where
  | done : Step.Alike token world .done .done
  | quiet (same : Stream.Alike token world one other) :
      Step.Alike token world (.quiet one) (.quiet other)
  | emit (same : Stream.Alike token world one other) :
      Step.Alike token world (.emit chunk one) (.emit chunk other)

section streams

variable {world wider : World κ} {token : Token}

theorem Task.Alike.mono (within : world.Within wider) {task task' : Task κ} :
    Task.Alike world task task' → Task.Alike wider task task'
  | .chunk => .chunk
  | .node same => .node (same.mono within)
  | .tag named inside => .tag (named.mono within) (inside.mono within)
  | .pull same => .pull (same.mono within)

theorem Stream.Alike.mono {one other : Stream κ} (same : Stream.Alike token world one other)
    (within : world.Within wider) : Stream.Alike token wider one other := by
  obtain ⟨work⟩ := same
  exact ⟨work.imp fun _ _ => .mono within⟩

theorem Nodes.Alike.tasks {nodes nodes' : List (Node κ)} (same : Nodes.Alike world nodes nodes') :
    List.Forall₂ (Task.Alike world) (nodes.map .show) (nodes'.map .show) :=
  List.rel_map (fun _ _ => .node) same.forall₂

theorem opening_alike (options : Options) (name : String) (shown : List (String × String))
    {nodes nodes' : List (Node κ)} (same : Nodes.Alike world nodes nodes') :
    (Stream.opening options name shown nodes').1 = (Stream.opening options name shown nodes).1 ∧
      List.Forall₂ (Task.Alike world) (Stream.opening options name shown nodes).2
        (Stream.opening options name shown nodes').2 := by
  have bare : nodes'.isEmpty = nodes.isEmpty := by cases same <;> rfl
  unfold Stream.opening
  rw [bare]
  split
  · exact ⟨rfl,.nil⟩
  · exact ⟨rfl,List.rel_append same.tasks (.cons .chunk .nil)⟩

end streams

namespace Host.Local

variable {host : Host κ} {token : Token} {sense : Sense κ} {pairs : Pairing} {one other : Stream κ}
  {rest rest' : List (Task κ)}

theorem stepTag (sound : host.Local token sense) {options : Options} {work work' : List (Task κ)}
    (later : List.Forall₂ (Task.Alike (sense.world pairs)) rest rest') {name : String}
    {shown : List (String × String)} {children children' : List (Node κ)}
    {attributes attributes' : List (Attr κ)}
    (inside : Nodes.Alike (sense.world pairs) children children')
    (named : Attrs.Alike (sense.world pairs) attributes attributes') :
    Agrees token pairs (fun pairs => Step.Alike token (sense.world pairs))
      (Stream.stepTag host ⟨token,options,work⟩ rest name shown children attributes)
      (Stream.stepTag host ⟨token,options,work'⟩ rest' name shown children' attributes') := by
  have driven : ∀ {attr attr' : Attr κ} {more more' : List (Attr κ)},
      Attr.Alike (sense.world pairs) attr attr' → Attrs.Alike (sense.world pairs) more more' →
        Agrees token pairs (fun pairs => Step.Alike token (sense.world pairs))
          (do Action.check token
              let pair ← attr.drive host token
              return .quiet ⟨token,options,.tag name (shown ++ [pair]) more children :: rest⟩)
          (do Action.check token
              let pair ← attr'.drive host token
              return .quiet
                ⟨token,options,.tag name (shown ++ [pair]) more' children' :: rest'⟩) := by
    intro attr attr' more more' here next
    refine (Agrees.check .run).bind fun _ within _ _ _ => ?_
    refine (sound.driveAttr .run (here.mono (sense.within within))).bind fun _ within' pair _ found => ?_
    cases found
    have grown := sense.within (within.trans within')
    exact .pure (.quiet (.intro (.cons (.tag (next.mono grown) (inside.mono grown))
      (later.imp fun _ _ => .mono grown))))
  cases named with
  | nil =>
    obtain ⟨text,tasks⟩ := opening_alike options name shown inside
    unfold Stream.stepTag
    dsimp only
    rw [text]
    exact .pure (.emit (.intro (List.rel_append tasks later)))
  | cons here more =>
    cases here with
    | fixed => exact .pure (.quiet (.intro (.cons (.tag more inside) later)))
    | driven code => exact driven (.driven code) more
    | named key value => exact driven (.named key value) more

theorem stepNode (sound : host.Local token sense) {options : Options} {work work' : List (Task κ)}
    (later : List.Forall₂ (Task.Alike (sense.world pairs)) rest rest') {node node' : Node κ}
    (here : sense.node pairs node node') :
    Agrees token pairs (fun pairs => Step.Alike token (sense.world pairs))
      (Stream.stepNode host ⟨token,options,work⟩ rest node)
      (Stream.stepNode host ⟨token,options,work'⟩ rest' node') := by
  cases here with
  | text | raw | comment => exact .pure (.emit (.intro later))
  | element named inside => exact .pure (.quiet (.intro (.cons (.tag named inside) later)))
  | fragment inside => exact .pure (.quiet (.intro (List.rel_append inside.tasks later)))
  | deferred inside =>
    refine (Agrees.check .run).bind fun _ within _ _ _ => ?_
    refine (sound.drive .run _ (inside.mono (sense.within within))).bind fun _ within' _ _ found => ?_
    refine (Agrees.log _ _).bind fun _ last _ _ _ => ?_
    have grown := sense.within ((within.trans within').trans last)
    exact .pure (.quiet (.intro (.cons (.node (found.mono (sense.within last)))
      (later.imp fun _ _ => .mono grown))))
  | sequence inside =>
    refine (Agrees.check .run).bind fun _ within _ _ _ => ?_
    exact .pure (.quiet (.intro (.cons (.pull (inside.mono (sense.within within)))
      (later.imp fun _ _ => .mono (sense.within within)))))
  | foreign inside =>
    unfold Stream.stepNode
    dsimp only
    rw [inside.kind]
    exact .throw _

theorem step (sound : host.Local token sense)
    (same : Stream.Alike token (sense.world pairs) one other) :
    Agrees token pairs (fun pairs => Step.Alike token (sense.world pairs)) (one.step host)
      (other.step host) := by
  obtain ⟨work⟩ := same
  cases work with
  | nil => exact .pure .done
  | cons here later =>
    cases here with
    | chunk => exact .pure (.emit (.intro later))
    | node inside => exact sound.stepNode later inside
    | tag named inside => exact sound.stepTag later inside named
    | pull inside =>
      refine (sound.pull _ inside).bind fun _ within _ _ found => ?_
      cases found with
      | none => exact .pure (.quiet (.intro (later.imp fun _ _ => .mono (sense.within within))))
      | some node =>
        refine (Agrees.check .run).bind fun _ within' _ _ _ => ?_
        have grown := sense.within (within.trans within')
        exact .pure (.quiet (.intro (.cons (.node (node.mono (sense.within within')))
          (.cons (.pull (inside.mono grown)) (later.imp fun _ _ => .mono grown)))))

theorem next (sound : host.Local token sense) (fuel : Nat)
    (same : Stream.Alike token (sense.world pairs) one other) :
    Agrees token pairs (fun pairs => Option.Rel fun found found' =>
        found.1 = found'.1 ∧ Stream.Alike token (sense.world pairs) found.2 found'.2)
      (one.next host fuel) (other.next host fuel) := by
  induction fuel generalizing one other pairs with
  | zero => exact .throw _
  | succ fuel ih =>
    refine ((sound.step same).tryCatch fun _ _ fault => ?_).bind fun _ _ _ _ found => ?_
    · split
      · exact (Agrees.log _ _).bind fun _ _ _ _ _ => .throw _
      · exact .throw _
    · cases found with
      | done => exact .pure .none
      | quiet after => exact ih after
      | emit after => exact .pure (.some ⟨rfl,after⟩)

theorem ask (sound : host.Local token sense) (fuel : Nat)
    (same : Stream.Alike token (sense.world pairs) one other) (request : Request) :
    Agrees token pairs (fun pairs found found' =>
        found.1 = found'.1 ∧ Stream.Alike token (sense.world pairs) found.2 found'.2)
      (one.ask host fuel request) (other.ask host fuel request) := by
  have whole := same
  obtain ⟨work⟩ := same
  cases request with
  | cancel =>
    exact (Agrees.cancel .run).bind fun _ within _ _ _ => .pure ⟨rfl,whole.mono (sense.within within)⟩
  | next =>
    refine Agrees.tryCatch ?_ fun _ _ fault => .pure ⟨rfl,.intro .nil⟩
    refine (sound.next fuel whole).bind fun _ _ _ _ found => ?_
    cases found with
    | none => exact .pure ⟨rfl,.intro .nil⟩
    | some found => exact .pure ⟨congrArg Reply.chunk found.1,found.2⟩

end Host.Local

theorem ask_replies (host : Host κ) (fuel : Nat) (stream : Stream κ) (request : Request)
    (store : Store) : ∃ found after, stream.ask host fuel request store = .ok found after := by
  cases request with
  | cancel => exact ⟨_,_,rfl⟩
  | next =>
    simp only [Stream.ask,Action.tryCatch_apply,Action.bind_apply]
    cases stream.next host fuel store with
    | error fault after => exact ⟨_,_,rfl⟩
    | ok found after => cases found <;> exact ⟨_,_,rfl⟩

-- Every stream goes on as its copy that runs alone, each with the identities
-- that belong together in its two runs. No identity and no token is of two runs.
structure SideBySide (sense : ι → Sense κ) (token : ι → Token) (pairs : ι → Pairing)
    (alone : ι → Store) (shared : Store) (one other : ι → Stream κ) : Prop where
  tokens : ∀ who who', token who = token who' → who = who'
  sources : ∀ who who' a b own, pairs who a own → pairs who' b own → who = who'
  serials : ∀ who serial, (token who).serial? = some serial → ∀ who' a, ¬pairs who' a serial
  tied : ∀ who, Tied (token who) (pairs who) (alone who) shared
  streams : ∀ who, Stream.Alike (token who) ((sense who).world (pairs who)) (one who) (other who)

section interleaving

variable {host : Host κ} {sense : ι → Sense κ} {token : ι → Token} {pairs : ι → Pairing}
  {alone : ι → Store} {shared left right : Store} {one other : ι → Stream κ} {who : ι}
  {wider : Pairing}

theorem SideBySide.not_others (apart : SideBySide sense token pairs alone shared one other)
    (further : Further (token who) (pairs who) shared wider left right) {who' : ι}
    (differs : who' ≠ who) {a b own : Ident} (theirs : pairs who' a own) : ¬wider b own := by
  intro here
  rcases further.fresh b own here with old | late
  · exact differs (apart.sources _ _ _ _ _ theirs old)
  · exact Nat.not_lt.mpr late ((apart.tied who').low a own theirs).2

theorem SideBySide.not_serial (apart : SideBySide sense token pairs alone shared one other)
    (further : Further (token who) (pairs who) shared wider left right) {who' : ι} {serial : Ident}
    (made : (token who').serial? = some serial) (a : Ident) : ¬wider a serial := by
  intro here
  rcases further.fresh a serial here with old | late
  · exact apart.serials who' serial made who a old
  · exact Nat.not_lt.mpr late ((apart.tied who').issued serial made).2

variable [DecidableEq ι]

theorem SideBySide.step (apart : SideBySide sense token pairs alone shared one other)
    {stream stream' : Stream κ}
    (further : Further (token who) (pairs who) shared wider left right)
    (same : Stream.Alike (token who) ((sense who).world wider) stream stream') :
    SideBySide sense token (Function.update pairs who wider) (Function.update alone who left) right
      (Function.update one who stream) (Function.update other who stream') := by
  refine ⟨apart.tokens,?_,?_,?_,?_⟩
  · intro who₁ who₂ a b own here there
    by_cases first : who₁ = who
    · by_cases second : who₂ = who
      · rw [first,second]
      · subst first
        rw [Function.update_self] at here
        rw [Function.update_of_ne second] at there
        exact (apart.not_others further second there here).elim
    · rw [Function.update_of_ne first] at here
      by_cases second : who₂ = who
      · subst second
        rw [Function.update_self] at there
        exact (apart.not_others further first here there).elim
      · rw [Function.update_of_ne second] at there
        exact apart.sources _ _ _ _ _ here there
  · intro who₁ id made who₂ a
    by_cases second : who₂ = who
    · subst second
      rw [Function.update_self]
      exact apart.not_serial further made a
    · rw [Function.update_of_ne second]
      exact apart.serials _ _ made _ _
  · intro who'
    by_cases here : who' = who
    · subst here
      rw [Function.update_self,Function.update_self]
      exact further.tied
    · rw [Function.update_of_ne here,Function.update_of_ne here]
      refine (apart.tied who').spared further.spares further.tied.unread'
        (fun equal => here (apart.tokens _ _ equal)) ?_ ?_ ?_
      · exact fun a b own mine yours => here (apart.sources _ _ _ _ _ mine yours)
      · exact fun id made => apart.serials _ _ made _
      · exact fun id made => apart.serials _ _ made _
  · intro who'
    by_cases here : who' = who
    · subst here
      rw [Function.update_self,Function.update_self,Function.update_self]
      exact same
    · rw [Function.update_of_ne here,Function.update_of_ne here,Function.update_of_ne here]
      exact apart.streams who'

theorem concerning_same (who : ι) (value : α) (turns : List (ι × α)) :
    concerning who ((who,value) :: turns) = value :: concerning who turns := by simp [concerning]

theorem concerning_other {who who' : ι} (differs : who' ≠ who) (value : α) (turns : List (ι × α)) :
    concerning who ((who',value) :: turns) = concerning who turns := by simp [concerning,differs]

theorem SideBySide.interleaved (sound : ∀ who, host.Local (token who) (sense who)) (fuel : Nat)
    {schedule : List (ι × Request)} (apart : SideBySide sense token pairs alone shared one other) :
    ∃ answers after, interleave host fuel other schedule shared = .ok answers after ∧
      answers.map Prod.fst = schedule.map Prod.fst ∧
      ∀ who, ∃ after, (one who).askAll host fuel (concerning who schedule) (alone who) =
        .ok (concerning who answers) after := by
  induction schedule generalizing pairs alone shared one other with
  | nil => exact ⟨_,_,rfl,rfl,fun who => ⟨_,rfl⟩⟩
  | cons turn rest ih =>
    obtain ⟨who,request⟩ := turn
    obtain ⟨⟨reply,stream⟩,left,mine⟩ := ask_replies host fuel (one who) request (alone who)
    obtain ⟨⟨reply',stream'⟩,right,ours⟩ := ask_replies host fuel (other who) request shared
    have both := (sound who).ask fuel (apart.streams who) request _ _ (apart.tied who)
    rw [mine,ours] at both
    cases both with
    | ok further same =>
      obtain ⟨equal,streams⟩ := same
      obtain rfl : reply = reply' := equal
      obtain ⟨answers,after,run,tags,each⟩ := ih (apart.step further streams)
      refine ⟨(who,reply) :: answers,after,?_,?_,?_⟩
      · simp only [interleave,Action.bind_apply,ours,run,Action.pure_apply]
      · rw [List.map_cons,List.map_cons,tags]
      · intro who'
        obtain ⟨last,later⟩ := each who'
        by_cases here : who' = who
        · subst here
          rw [Function.update_self,Function.update_self] at later
          refine ⟨last,?_⟩
          rw [concerning_same,concerning_same]
          simp only [Stream.askAll,Action.bind_apply,mine,later,Action.pure_apply]
        · rw [Function.update_of_ne here,Function.update_of_ne here] at later
          rw [concerning_other (Ne.symm here),concerning_other (Ne.symm here)]
          exact ⟨last,later⟩

end interleaving

section separate

variable {host : Host κ} {sense : ι → Sense κ} {reach : ι → Ident → Prop} {pages : ι → Page κ}
  {store : Store}

theorem Page.stream_alike (page : Page κ) {world : World κ}
    (held : ∀ holding ∈ page.tree.holdings, world.Holds holding) :
    Stream.Alike page.token world page.stream page.stream := by
  have front : List.Forall₂ (Task.Alike world) (Stream.declaration page.options)
      (Stream.declaration page.options) := by
    unfold Stream.declaration
    split
    · split
      · exact .nil
      · exact .cons .chunk .nil
    · exact .nil
  exact .intro (List.rel_append front (.cons (.node (Node.alike_self _ held)) .nil))

theorem Separate.side_by_side (separate : Separate host sense reach pages store) :
    SideBySide sense (fun who => (pages who).token) (fun who => .on (reach who))
      (fun _ => store) store (fun who => (pages who).stream) (fun who => (pages who).stream) where
  tokens := separate.tokens
  sources := by
    rintro who who' a b own ⟨rfl,mine⟩ ⟨rfl,yours⟩
    exact separate.sources who who' _ mine yours
  serials := by
    rintro who serial made who' a ⟨rfl,there⟩
    exact (separate.serials who _ made).2 who' there
  tied := fun who => .self (separate.issued who)
    (fun id made => (separate.serials who id made).imp_right (· who)) separate.unread
  streams := fun who => (pages who).stream_alike (separate.holds who)

-- Whatever the order in which streams are asked for their chunks and cancelled,
-- each replies as it does alone.
theorem streams_independent [DecidableEq ι] (separate : Separate host sense reach pages store)
    (fuel : Nat) (schedule : List (ι × Request)) :
    ∃ answers after,
      interleave host fuel (fun who => (pages who).stream) schedule store = .ok answers after ∧
      answers.map Prod.fst = schedule.map Prod.fst ∧
      ∀ who, ∃ after, (pages who).stream.askAll host fuel (concerning who schedule) store =
        .ok (concerning who answers) after :=
  separate.side_by_side.interleaved separate.code fuel

end separate

def pageHost : Host Nat where
  run
    | 0, _ => return .raw "hello"
    | 1, some token => do
      Action.cancel token
      return .raw "bye"
    | _, _ => throw (.noFeed "int")
  depth := 0

theorem pageHost_local (token : Token) : pageHost.Local token equalSense where
  run := by
    intro pairs code code' given given' same alike
    obtain rfl : code = code' := same
    match code with
    | 0 => exact reusable_agrees fun _ => List.not_mem_nil
    | 1 =>
      cases alike with
      | none => exact .throw _
      | some same => exact (Agrees.cancel same).bind fun _ _ _ _ _ => .pure .raw
    | code + 2 => exact .throw _

def greeting : Node Nat := .deferred (.body 0 "greeting" 0)

def fourPages : Fin 4 → Page Nat
  | 0 => ⟨.named "first",.default,.fragment [greeting,.sequence (.body 1 "items" [.item 0])]⟩
  | 1 => ⟨.named "second",.default,.fragment [greeting,.deferred (.body 2 "failing" 2)]⟩
  | 2 => ⟨.named "third",.default,.sequence (.items 3 [.deferred (.body 2 "farewell" 1),greeting])⟩
  | 3 => ⟨.named "fourth",.default,.sequence (.items 4 [greeting,greeting])⟩

theorem fourPages_separate :
    Separate pageHost (fun _ => equalSense) (fun who own => own = who.val + 1) fourPages
      {supply := 5} where
  tokens := by decide
  sources := by
    intro who who' own mine yours
    exact Fin.ext (Nat.succ.inj (mine.symm.trans yours))
  issued := by
    rintro who own rfl
    exact Nat.succ_lt_succ who.isLt
  serials := by
    intro who serial made
    match who with
    | 0 | 1 | 2 | 3 => cases made
  unread := ⟨fun _ _ => rfl,fun _ _ _ _ => rfl⟩
  holds := by
    intro who
    match who with
    | 0 | 1 | 2 | 3 =>
      simp +decide [fourPages,greeting,Node.holdings,Node.holdingsAll,Pending.holdings,
        Feed.holdings,Entry.code,World.Holds,Sense.world,Pairing.on,equalSense]
  code := fun who => pageHost_local _

def fourSchedule : List (Fin 4 × Request) :=
  [(0,.next),(3,.next),(1,.next),(2,.next),(3,.cancel),(0,.next),(2,.next),(1,.next),(3,.next),
    (0,.next),(2,.next)]

theorem fourPages_independent :
    ∃ answers after, interleave pageHost 9 (fun who => (fourPages who).stream) fourSchedule
        {supply := 5} = .ok answers after ∧
      answers = [(0,.chunk "hello"),(3,.chunk "hello"),(1,.chunk "hello"),(2,.chunk "bye"),
        (3,.cancelled),(0,.chunk "hello"),(2,.failed Fault.stopped),(1,.failed (.noFeed "int")),
        (3,.failed Fault.stopped),(0,.ended),(2,.ended)] ∧
      ∀ who, ∃ after, (fourPages who).stream.askAll pageHost 9 (concerning who fourSchedule)
        {supply := 5} = .ok (concerning who answers) after := by
  obtain ⟨answers,after,run,_,each⟩ := streams_independent fourPages_separate 9 fourSchedule
  refine ⟨answers,after,run,?_,each⟩
  have given : (match interleave pageHost 9 (fun who => (fourPages who).stream) fourSchedule
      {supply := 5} with
    | .ok answers _ => some answers
    | .error .. => none) = some [(0,.chunk "hello"),(3,.chunk "hello"),(1,.chunk "hello"),
      (2,.chunk "bye"),(3,.cancelled),(0,.chunk "hello"),(2,.failed Fault.stopped),
      (1,.failed (.noFeed "int")),(3,.failed Fault.stopped),(0,.ended),(2,.ended)] := by
    decide +kernel
  rw [run] at given
  exact Option.some.inj given

end Markup
