import Markup.Proofs.Additions
import Markup.Proofs.Line

namespace Markup

variable {κ : Type}

inductive Unwraps (host : Host κ) (given : Option Token) :
    Node κ → Store → Node κ → Store → Prop where
  | known (settled : ∀ pending, node ≠ .deferred pending) :
      Unwraps host given node start node start
  | drive (driven : (Node.deferred pending).drive host given start = .ok found middle)
      (more : Unwraps host given found middle last after) :
      Unwraps host given (.deferred pending) start last after

-- What each appended node stands for: a sequence its items, a fragment its
-- children, any other node itself. A deferred node is driven once, when its turn
-- has come, and stands for the single node that it gave. Besides these drives
-- only identities are given out.
inductive Contributes (host : Host κ) (given : Option Token) :
    List (Node κ) → Store → List (Source κ) → Store → Prop where
  | nil (issued : Issued start last) : Contributes host given [] start [] last
  | sequence (more : Contributes host given rest start sources last) :
      Contributes host given (.sequence feed :: rest) start (.feed feed :: sources) last
  | deferred (issued : Issued start before) (taken : Action.tokenOr given before = .ok token ready)
      (driven : pending.drive host token ready = .ok found middle)
      (more : Contributes host given rest middle sources last) :
      Contributes host given (.deferred pending :: rest) start (.nodes [found] :: sources) last
  | other (noFeed : ∀ feed, b ≠ .sequence feed) (known : ∀ pending, b ≠ .deferred pending)
      (more : Contributes host given rest start sources last) :
      Contributes host given (b :: rest) start (.nodes b.pieces :: sources) last

-- Appended nodes whose thunks succeed. Each draws on single-pass sources of its
-- own, and on nothing that was made after it.
inductive Waits (host : Host κ) (begun : Ident → Cursor) : Set Ident → List (Node κ) → Prop where
  | nil : Waits host begun own []
  | known (settled : ∀ pending, b ≠ .deferred pending) (more : Waits host begun own rest) :
      Waits host begun own (b :: rest)
  | wait (drives : ∀ token store, Ready begun store one → ∃ found after,
        pending.drive host token store = .ok found after ∧ Handed begun store one after ∅)
      (more : Waits host begun other rest) (apart : ∀ id ∈ one, id ∉ other)
      (within : one ∪ other ⊆ own) : Waits host begun own (.deferred pending :: rest)

section chaining

variable {host : Host κ} {given : Option Token} {begun : Ident → Cursor} {own : Set Ident}
  {start last : Store}

theorem Contributes.issued {bs : List (Node κ)} {sources : List (Source κ)} {before : Store}
    (issued : Issued before start) (contributes : Contributes host given bs start sources last) :
    Contributes host given bs before sources last := by
  induction contributes with
  | nil further => exact .nil (issued.trans further)
  | sequence more ih => exact .sequence (ih issued)
  | deferred further taken driven more ih => exact .deferred (issued.trans further) taken driven more
  | other noFeed known more ih => exact .other noFeed known (ih issued)

theorem Ready.later (ready : Ready begun start own) (issued : Issued start last) :
    Ready begun last own := by
  refine ⟨fun id inside => Nat.lt_of_lt_of_le (ready.known id inside) issued.grown,?_,?_,?_⟩
  · exact fun id inside => by rw [issued.cursor]; exact ready.unread id inside
  · intro id beyond
    rw [issued.cursor]
    exact ready.spare id (Nat.le_trans issued.grown beyond)
  · exact fun token => by rw [issued.cancelled]; exact ready.live token

theorem Handed.later (ready : Ready begun start own) (issued : Issued start last) :
    Handed begun start own last own :=
  ⟨issued.grown,fun id _ _ => by rw [issued.cursor],fun _ inside => .inl inside,ready.later issued⟩

theorem token_issued {token : Token} (taken : Action.tokenOr given start = .ok token last) :
    Issued start last := by
  cases given with
  | none =>
    rw [Action.tokenOr_none] at taken
    cases taken
    exact .one start
  | some token =>
    rw [Action.tokenOr_some] at taken
    cases taken
    exact .refl start

theorem appendTo_drive {link : Ident} {whole : Feed κ} {pending : Pending κ} {token : Token}
    {ready middle : Store} {found : Node κ}
    (taken : Action.tokenOr given start = .ok token ready) (live : ready.cancelled token = false)
    (driven : pending.drive host token ready = .ok found middle) :
    (Node.deferred (.appendTo link whole pending)).drive host given start =
      .ok (.sequence (.chain middle.supply whole (.items middle.issued.supply [found])))
        middle.issued.issued := by
  simp [Node.drive,Pending.drive,taken,Action.check_live live,driven]

-- What a chain is made of so far: the identities in it were given out and
-- nobody has read in it.
structure Made (made : List Ident) (whole : Feed κ) (line : List (Source κ)) (store : Store) :
    Prop where
  laid : LaidOut made whole line
  known : ∀ id ∈ made, id < store.supply
  unread : ∀ id ∈ made, store.cursor id = {}

variable {made : List Ident} {whole : Feed κ} {line : List (Source κ)}

theorem Made.feed (feed : Feed κ) (store : Store) : Made [] feed [.feed feed] store :=
  ⟨.feed feed,by simp,by simp⟩

theorem Made.chained (make : Made made whole line start) (ready : Ready begun start own)
    (other : Feed κ) :
    Made (start.supply :: (made ++ [])) (.chain start.supply whole other) (line ++ [.feed other])
      start.issued := by
  have fresh : start.supply ∉ made := fun inside => Nat.lt_irrefl _ (make.known _ inside)
  refine ⟨.chain make.laid (.feed other) (by simpa using fresh) (by simp),?_,?_⟩
  · intro id inside
    rcases List.mem_cons.mp inside with rfl | old
    · exact Nat.lt_succ_self _
    · exact Nat.lt_succ_of_lt (make.known id (by simpa using old))
  · intro id inside
    rcases List.mem_cons.mp inside with rfl | old
    · exact (ready.spare _ (Nat.le_refl _)).1
    · exact make.unread id (by simpa using old)

theorem Made.followed (make : Made made whole line start) (ready : Ready begun start own)
    (values : List (Node κ)) :
    Made (start.supply :: (made ++ [start.issued.supply]))
      (.chain start.supply whole (.items start.issued.supply values)) (line ++ [.nodes values])
        start.issued.issued := by
  have fresh : start.supply ∉ made := fun inside => Nat.lt_irrefl _ (make.known _ inside)
  have fresh' : ∀ id ∈ made, id ≠ start.supply + 1 := by
    rintro id inside rfl
    exact Nat.not_succ_le_self _ (Nat.le_of_succ_le (make.known _ inside))
  refine ⟨.chain make.laid (.items _ values) ?_ (by simpa using fresh'),?_,?_⟩
  · simpa using fresh
  · intro id inside
    have reach : id = start.supply ∨ id ∈ made ∨ id = start.supply + 1 := by simpa using inside
    rcases reach with rfl | old | rfl
    · exact Nat.lt_succ_of_lt (Nat.lt_succ_self _)
    · exact Nat.lt_succ_of_lt (Nat.lt_succ_of_lt (make.known id old))
    · exact Nat.lt_succ_self _
  · intro id inside
    have reach : id = start.supply ∨ id ∈ made ∨ id = start.supply + 1 := by simpa using inside
    rcases reach with rfl | old | rfl
    · exact (ready.spare _ (Nat.le_refl _)).1
    · exact make.unread id old
    · exact (ready.spare _ (Nat.le_succ _)).1

theorem Made.kept {middle : Store} {rest : Set Ident} (make : Made made whole line start)
    (handed : Handed begun start own middle rest) (apart : ∀ id ∈ made, id ∉ own) :
    Made made whole line middle := by
  refine ⟨make.laid,fun id inside => Nat.lt_of_lt_of_le (make.known id inside) handed.grown,?_⟩
  intro id inside
  rw [handed.kept id (make.known id inside) (apart id inside)]
  exact make.unread id inside

structure Appended (host : Host κ) (given : Option Token) (begun : Ident → Cursor) (own : Set Ident)
    (made : List Ident) (whole : Feed κ) (line : List (Source κ)) (bs : List (Node κ))
    (start built last : Store) (node : Node κ) (result : Feed κ) (sources : List (Source κ))
    (made' : List Ident) : Prop where
  composed : (Node.sequence whole).appendAll bs start = .ok node built
  unwraps : Unwraps host given node built (.sequence result) last
  contributes : Contributes host given bs start sources last
  make : Made made' result (line ++ sources) last
  newer : ∀ id ∈ made', id ∈ made ∨ start.supply ≤ id
  handed : Handed begun start own last ∅

theorem appended_longer {bs : List (Node κ)} {b : Node κ} {middle built : Store} {node : Node κ}
    {next result : Feed κ} {source : Source κ} {sources : List (Source κ)} {fresh made' : List Ident}
    (appended : (Node.sequence whole).append b start = .ok (.sequence next) middle)
    (issued : Issued start middle) (ready : Ready begun start own)
    (newer : ∀ id ∈ fresh, id ∈ made ∨ start.supply ≤ id)
    (further : Appended host given begun own fresh next (line ++ [source]) bs middle built last node
      result sources made')
    (contributes : Contributes host given (b :: bs) start (source :: sources) last) :
    Appended host given begun own made whole line (b :: bs) start built last node result
      (source :: sources) made' := by
  refine ⟨(appendAll_cons appended).trans further.composed,further.unwraps,contributes,?_,?_,?_⟩
  · have make := further.make
    rwa [List.append_assoc] at make
  · intro id inside
    rcases further.newer id inside with old | later
    · exact newer id old
    · exact .inr (Nat.le_trans issued.grown later)
  · exact (Handed.later ready issued).trans further.handed

theorem followed_newer {made : List Ident} {base supply id : Ident} (grown : base ≤ supply)
    (inside : id ∈ supply :: (made ++ [supply + 1])) : id ∈ made ∨ base ≤ id := by
  have reach : id = supply ∨ id ∈ made ∨ id = supply + 1 := by simpa using inside
  rcases reach with rfl | old | rfl
  · exact .inr grown
  · exact .inl old
  · exact .inr (Nat.le_succ_of_le grown)

theorem appended_all (given : Option Token) {bs : List (Node κ)}
    (waits : Waits host begun own bs) :
    (∀ b ∈ bs, b.isNode = true) → ∀ {made : List Ident} {whole : Feed κ} {line : List (Source κ)}
      {start : Store}, Made made whole line start → (∀ id ∈ made, id ∉ own) →
        Ready begun start own → ∃ built last node result sources made',
          Appended host given begun own made whole line bs start built last node result sources
            made' := by
  induction waits with
  | nil =>
    intro _ made whole line start make _ ready
    refine ⟨start,start,_,whole,[],made,rfl,.known (by simp),.nil (.refl _),?_,?_,?_⟩
    · simpa using make
    · exact fun id inside => .inl inside
    · exact (Handed.refl ready).less (by simp)
  | @known b own rest settled more ih =>
    intro proper made whole line start make apart ready
    obtain ⟨here,later⟩ : b.isNode = true ∧ ∀ other ∈ rest, other.isNode = true := by
      simpa using proper
    have unused : ∀ id, start.supply ≤ id → id ∉ own :=
      fun id beyond inside => Nat.not_le_of_lt (ready.known id inside) beyond
    by_cases feed : ∃ other, b = .sequence other
    · obtain ⟨other,rfl⟩ := feed
      have issued := Issued.one start
      have newer : ∀ id ∈ start.supply :: (made ++ []), id ∈ made ∨ start.supply ≤ id := by
        intro id inside
        rcases List.mem_cons.mp inside with rfl | old
        · exact .inr (Nat.le_refl _)
        · exact .inl (by simpa using old)
      obtain ⟨built,last,node,result,sources,made',further⟩ := ih later (make.chained ready other)
        (fun id inside => (newer id inside).elim (apart id) (unused id)) (ready.later issued)
      exact ⟨built,last,node,result,_,made',appended_longer (append_sequences whole other start)
        issued ready newer further (.sequence (further.contributes.issued issued))⟩
    · have noFeed : ∀ other, b ≠ .sequence other := fun other same => feed ⟨other,same⟩
      have issued := (Issued.one start).trans (Issued.one start.issued)
      have newer : ∀ id ∈ start.supply :: (made ++ [start.issued.supply]),
          id ∈ made ∨ start.supply ≤ id :=
        fun _ => followed_newer (Nat.le_refl _)
      obtain ⟨built,last,node,result,sources,made',further⟩ := ih later
        (make.followed ready b.pieces)
        (fun id inside => (newer id inside).elim (apart id) (unused id)) (ready.later issued)
      exact ⟨built,last,node,result,_,made',
        appended_longer (append_items here noFeed settled whole start) issued ready newer further
          (.other noFeed settled (further.contributes.issued issued))⟩
  | @wait one other rest own pending drives more separate within ih =>
    intro proper made whole line start make apart ready
    have later : ∀ node ∈ rest, node.isNode = true :=
      fun node inside => proper node (List.mem_cons_of_mem _ inside)
    have plain : ∀ child ∈ Addition.children (rest.map .child), child.isNode = true := by
      rwa [children_only]
    -- The rest waits with the thunk: it is composed onto what the thunk makes of
    -- the chain.
    obtain ⟨wait,built,composed,composing,delays⟩ := wait_receives plain
      (.appendTo start.supply whole pending) start.issued
    rw [receiveAll_children] at composed
    obtain ⟨token,begin,taken⟩ := tokenOr_given given built
    have before := (Issued.one start).trans composing
    have issued := before.trans (token_issued taken)
    have ready' := ready.later issued
    obtain ⟨found,middle,driven,gave⟩ := drives token begin
      (ready'.mono (Set.subset_union_left.trans within))
    have handed := gave.beside (ready'.mono (Set.subset_union_right.trans within)) separate
    rw [Set.empty_union] at handed
    have make' := (make.kept (Handed.later ready issued) apart).kept (handed.more within) apart
    have after := (Issued.one middle).trans (Issued.one middle.issued)
    have newer : ∀ id ∈ middle.supply :: (made ++ [middle.issued.supply]),
        id ∈ made ∨ start.supply ≤ id :=
      fun _ => followed_newer (Nat.le_trans issued.grown handed.grown)
    obtain ⟨built',last,node,result,sources,made',further⟩ := ih later
      (make'.followed handed.ready [found])
      (fun id inside reach => (newer id inside).elim (fun old => apart id old (within (.inr reach)))
        fun beyond => Nat.not_le_of_lt (ready.known id (within (.inr reach))) beyond)
      (handed.ready.later after)
    have unwrapped : (Node.deferred wait).drive host given built = .ok node built' := by
      rw [delays host given]
      simp only [Action.bind_apply,appendTo_drive taken (ready'.live token) driven,
        receiveAll_children]
      exact further.composed
    refine ⟨built,last,_,result,_,made',(appendAll_cons (append_wait whole pending start)).trans
      composed,.drive unwrapped further.unwraps,
        .deferred before taken driven (further.contributes.issued after),?_,?_,?_⟩
    · have make := further.make
      rwa [List.append_assoc] at make
    · intro id inside
      rcases further.newer id inside with old | beyond
      · exact newer id old
      · exact .inr (Nat.le_trans (Nat.le_trans issued.grown handed.grown)
          (Nat.le_trans after.grown beyond))
    · exact ((Handed.later ready issued).trans (handed.more within)).trans
        ((Handed.later handed.ready after).trans further.handed)

end chaining

-- Nobody has read in what composition made, and the sources have no part in that.
structure Unshared (host : Host κ) (line : List (Source κ)) (made : List Ident) (start : Store) :
    Prop where
  unread : ∀ id ∈ made, start.cursor id = {}
  apart : ∀ feed, .feed feed ∈ line → Apart made (feed.pull host)

-- A sequence that gives what the sources in line give: it comes upon the items of
-- the line, and as many pulls of it as there may be ask no more of the sources
-- than the line does. What stands behind the source that is just read is not
-- asked, and that source need not have an end.
structure Joins (host : Host κ) (whole : Feed κ) (line : List (Source κ)) (made : List Ident) :
    Prop where
  first : ∀ start, Unshared host line made start →
    ∀ count, EndsAlike made (Source.first host count line start) (whole.first host count start)
  lazy : ∀ start, Unshared host line made start →
    ∀ past next future token limit found middle count values last,
      line = past ++ .feed next :: future → Drains host token limit past start found middle →
        next.first host (count + 1) middle = .ok values last → values.length = count + 1 →
          ∃ last', whole.first host (found.length + (count + 1)) start =
            .ok (found ++ values) last' ∧ Shifted made last last'
  drained : ∀ start, Unshared host line made start →
    ∀ given token begin limit found last, Action.tokenOr given start = .ok token begin →
      begin.cancelled token = false → Drains host token limit line begin found last →
        ∃ last', (Node.sequence whole).collect host given limit start = .ok found last' ∧
          Shifted made last last'

theorem made_joins {host : Host κ} {made : List Ident} {whole : Feed κ} {line : List (Source κ)}
    (laid : LaidOut made whole line) : Joins host whole line made := by
  have first : ∀ start, Unshared host line made start →
      ∀ count, EndsAlike made (Source.first host count line start)
        (whole.first host count start) := by
    intro start untouched count
    exact stands_first count (laid_stands laid untouched.unread untouched.apart)
      (fun _ inside => inside) (.refl _ _)
  refine ⟨first,?_,?_⟩
  · intro start untouched past next future token limit found middle count values last parts drains
      given full
    have same := first start untouched (found.length + (count + 1))
    rw [parts,gives_first (drains_give drains).1,feed_first next future _ given full] at same
    generalize whole.first host (found.length + (count + 1)) start = result at same ⊢
    cases same with
    | ok shifted => exact ⟨_,rfl,shifted⟩
  · intro start untouched given token begin limit found last taken live drains
    have unread : ∀ id ∈ made, begin.cursor id = {} := by
      rw [(token_issued taken).cursor]
      exact untouched.unread
    obtain ⟨gives,few⟩ := drains_give drains
    rw [←laid_capacity laid] at few
    obtain ⟨last',collected,shifted⟩ := stands_collect gives (whole.capacity limit + 1)
      (laid_stands laid unread untouched.apart) (fun _ inside => inside) (.refl _ _)
      (Nat.lt_succ_of_le few)
    refine ⟨last',?_,shifted⟩
    simp only [Node.collect,Action.bind_apply,taken,Action.check_live live]
    exact collected

-- Nodes that are appended to a sequence follow its items. The composition can be
-- unwrapped down to a sequence; on the way the thunks are driven in order, once
-- each, and no sequence is read. That sequence joins the items of the first
-- with what each of the others stands for.
theorem appending_concatenates (host : Host κ) (given : Option Token) (feed : Feed κ)
    {bs : List (Node κ)} {begun : Ident → Cursor} {own : Set Ident} {store : Store}
    (proper : ∀ b ∈ bs, b.isNode = true) (waits : Waits host begun own bs)
    (ready : Ready begun store own) :
    ∃ node built whole last sources made,
      (Node.sequence feed).appendAll bs store = .ok node built ∧
      Unwraps host given node built (.sequence whole) last ∧
      Contributes host given bs store sources last ∧
      (∀ id, id < store.supply → id ∉ own → last.cursor id = store.cursor id) ∧
      (∀ id ∈ made, store.supply ≤ id ∧ id < last.supply ∧ last.cursor id = {}) ∧
      Joins host whole (.feed feed :: sources) made := by
  obtain ⟨built,last,node,whole,sources,made,appended⟩ := appended_all given waits proper
    (Made.feed feed store) (by simp) ready
  refine ⟨node,built,whole,last,sources,made,appended.composed,appended.unwraps,
    appended.contributes,appended.handed.kept,?_,made_joins appended.make.laid⟩
  intro id inside
  have newer : store.supply ≤ id := by simpa using appended.newer id inside
  exact ⟨newer,appended.make.known id inside,appended.make.unread id inside⟩

def listHost : Host Nat where
  depth := 0
  run
    | 0,_ => return .text "x"
    | 1,_ => return .fragment [.comment "late"]
    | _,_ => return .text "y"

def firstItems : Feed Nat := .body 0 "xs" [.item 0,.item 0]

def moreItems : Feed Nat := .body 2 "ys" [.act 3,.item 2]

def endlessItems : Feed Nat := .endless 3 "zs" fun place => place % 3

def moreNodes : List (Node Nat) :=
  [.fragment [.text "a",.text "b"],.deferred (.body 1 "remark" 1),.sequence moreItems,.text "end"]

def endlessNodes : List (Node Nat) := moreNodes ++ [.sequence endlessItems,.text "never"]

theorem listHost_apart (made : List Ident) (code : Nat) : Apart made (listHost.run code none) := by
  simp only [listHost]
  split <;> exact .pure _

theorem endlessNodes_wait : Waits listHost (fun _ => {}) ∅ endlessNodes := by
  have remark : ∀ token store, Ready (fun _ => {}) store ∅ → ∃ found after,
      (Pending.body 1 "remark" 1).drive listHost token store = .ok found after ∧
        Handed (fun _ => {}) store ∅ after ∅ :=
    fun token store ready => ⟨_,_,rfl,(Handed.refl ready).noted _⟩
  have behind : Waits listHost (fun _ => {}) ∅ [.sequence moreItems,.text "end",
      .sequence endlessItems,.text "never"] :=
    .known (by simp) (.known (by simp) (.known (by simp) (.known (by simp) .nil)))
  exact .known (by simp) (.wait remark behind (by simp) (by simp))

theorem moreNodes_concatenated :
    (∀ b ∈ endlessNodes, b.isNode = true) ∧ Waits listHost (fun _ => {}) ∅ endlessNodes ∧
      Ready (fun _ => {}) {supply := 4} ∅ ∧
      (∃ node built whole last sources made,
        (Node.sequence firstItems).appendAll endlessNodes {supply := 4} = .ok node built ∧
        Unwraps listHost none node built (.sequence whole) last ∧
        Contributes listHost none endlessNodes {supply := 4} sources last ∧
        (∀ id, id < 4 → id ∉ (∅ : Set Ident) → last.cursor id = {}) ∧
        (∀ id ∈ made, 4 ≤ id ∧ id < last.supply ∧ last.cursor id = {}) ∧
        Joins listHost whole (.feed firstItems :: sources) made) ∧
      (∀ made, 0 ∉ made → 2 ∉ made → 3 ∉ made → Apart made (firstItems.pull listHost) ∧
        Apart made (moreItems.pull listHost) ∧ Apart made (endlessItems.pull listHost)) ∧
      EStateM.run' (do
        let node ← (Node.sequence firstItems).appendAll moreNodes
        let items ← (← node.drive listHost none).collect listHost none
        return items.map fun item => (item.kind,item.payload)) {supply := 4} =
          some [("Text","x"),("Text","x"),("Text","a"),("Text","b"),("Fragment",""),("Text","y"),
            ("Text","end")] ∧
      EStateM.run' (do
        let node ← (Node.sequence firstItems).appendAll endlessNodes
        let items ← match ← node.drive listHost none with
          | .sequence whole => whole.first listHost 11
          | _ => pure []
        return (items.drop 6).map fun item => (item.kind,item.payload)) {supply := 4} =
          some [("Text","end"),("Text","x"),("Fragment",""),("Text","y"),("Text","x")] := by
  have proper : ∀ b ∈ endlessNodes, b.isNode = true := by
    simp [endlessNodes,moreNodes,Node.isNode]
  have ready : Ready (fun _ => {}) {supply := 4} ∅ :=
    ⟨by simp,by simp,fun _ _ => ⟨rfl,rfl⟩,fun _ => rfl⟩
  exact ⟨proper,endlessNodes_wait,ready,
    appending_concatenates listHost none firstItems proper endlessNodes_wait ready,
    fun made first second third => ⟨body_apart (listHost_apart made) first _ _,
      body_apart (listHost_apart made) second _ _,endless_apart (listHost_apart made) third _ _⟩,
    by decide +kernel,by decide +kernel⟩

end Markup
