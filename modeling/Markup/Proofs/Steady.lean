import Mathlib.Data.Set.Insert
import Mathlib.Tactic.Choose
import Markup.Proofs.Settle

namespace Markup

variable {κ : Type}

-- A part of a tree draws on single-pass sources of its own. They are ready while
-- nobody has read on in them since the trees were built; begun tells how far
-- each was read then. Identities that were not given out have no past, and no
-- token is cancelled.
structure Ready (begun : Ident → Cursor) (store : Store) (own : Set Ident) : Prop where
  known : ∀ id ∈ own, id < store.supply
  unread : ∀ id ∈ own, store.cursor id = begun id
  spare : ∀ id, store.supply ≤ id → store.cursor id = {} ∧ begun id = {}
  live : ∀ token, store.cancelled token = false

-- What a part may do to the store when it is driven: read in its own sources,
-- make new ones, and cancel nothing. What it gives draws on the sources left.
structure Handed (begun : Ident → Cursor) (before : Store) (own : Set Ident) (after : Store)
    (left : Set Ident) : Prop where
  grown : before.supply ≤ after.supply
  kept : ∀ id, id < before.supply → id ∉ own → after.cursor id = before.cursor id
  within : ∀ id ∈ left, id ∈ own ∨ before.supply ≤ id
  ready : Ready begun after left

section sources

variable {begun : Ident → Cursor} {store before middle after : Store}
  {own other left rest : Set Ident}

theorem Ready.mono (ready : Ready begun store own) (fewer : other ⊆ own) :
    Ready begun store other :=
  ⟨fun id inside => ready.known id (fewer inside),fun id inside => ready.unread id (fewer inside),
    ready.spare,ready.live⟩

theorem Ready.union (one : Ready begun store own) (two : Ready begun store other) :
    Ready begun store (own ∪ other) :=
  ⟨fun id inside => inside.elim (one.known id) (two.known id),
    fun id inside => inside.elim (one.unread id) (two.unread id),one.spare,one.live⟩

theorem Ready.noted (ready : Ready begun store own) (event : Event) :
    Ready begun (store.noted event) own :=
  ⟨ready.known,ready.unread,ready.spare,ready.live⟩

theorem Ready.issued (ready : Ready begun store own) :
    Ready begun store.issued (own ∪ {store.supply}) := by
  refine ⟨?_,?_,fun id later => ready.spare id (Nat.le_of_succ_le later),ready.live⟩
  · intro id reach
    rcases reach with inside | rfl
    · exact Nat.lt_succ_of_lt (ready.known id inside)
    · exact Nat.lt_succ_self _
  · intro id reach
    rcases reach with inside | rfl
    · exact ready.unread id inside
    · obtain ⟨fresh,begins⟩ := ready.spare _ (Nat.le_refl _)
      exact fresh.trans begins.symm

theorem Handed.refl (ready : Ready begun store own) : Handed begun store own store own :=
  ⟨Nat.le_refl _,fun _ _ _ => rfl,fun _ inside => .inl inside,ready⟩

theorem Handed.less (handed : Handed begun before own after left) (fewer : rest ⊆ left) :
    Handed begun before own after rest :=
  ⟨handed.grown,handed.kept,fun id inside => handed.within id (fewer inside),
    handed.ready.mono fewer⟩

theorem Handed.more (handed : Handed begun before own after left) (wider : own ⊆ other) :
    Handed begun before other after left :=
  ⟨handed.grown,fun id known outside => handed.kept id known fun inside =>
    outside (wider inside),fun id inside => (handed.within id inside).imp_left (@wider id),
    handed.ready⟩

theorem Handed.andThen (first : Handed begun before own middle left)
    (second : Handed begun middle other after rest)
    (reach : ∀ id ∈ other, id ∈ own ∨ before.supply ≤ id) : Handed begun before own after rest := by
  refine ⟨Nat.le_trans first.grown second.grown,?_,?_,second.ready⟩
  · intro id known outside
    have apart : id ∉ other := fun inside =>
      (reach id inside).elim outside fun later => Nat.not_le_of_lt known later
    rw [second.kept id (Nat.lt_of_lt_of_le known first.grown) apart,first.kept id known outside]
  · intro id inside
    rcases second.within id inside with old | later
    · exact reach id old
    · exact .inr (Nat.le_trans first.grown later)

theorem Handed.trans (first : Handed begun before own middle left)
    (second : Handed begun middle left after rest) : Handed begun before own after rest :=
  first.andThen second first.within

theorem Handed.beside (handed : Handed begun before own after left)
    (ready : Ready begun before other) (apart : ∀ id ∈ own, id ∉ other) :
    Handed begun before (own ∪ other) after (left ∪ other) := by
  have spared : Ready begun after other := by
    refine ⟨?_,?_,handed.ready.spare,handed.ready.live⟩
    · exact fun id inside => Nat.lt_of_lt_of_le (ready.known id inside) handed.grown
    · intro id inside
      rw [handed.kept id (ready.known id inside) fun mine => apart id mine inside]
      exact ready.unread id inside
  refine ⟨handed.grown,fun id known outside => handed.kept id known fun inside =>
    outside (.inl inside),?_,handed.ready.union spared⟩
  intro id reach
  rcases reach with inside | inside
  · exact (handed.within id inside).imp_left .inl
  · exact .inl (.inr inside)

theorem Handed.apart (handed : Handed begun before own after left)
    (ready : Ready begun before other) (apart : ∀ id ∈ own, id ∉ other) :
    ∀ id ∈ left, id ∉ other := by
  intro id inside outside
  rcases handed.within id inside with mine | later
  · exact apart id mine outside
  · exact Nat.not_le_of_lt (ready.known id outside) later

theorem Handed.noted (handed : Handed begun before own after left) (event : Event) :
    Handed begun before own (after.noted event) left :=
  ⟨handed.grown,handed.kept,handed.within,handed.ready.noted event⟩

theorem Handed.issued (ready : Ready begun store own) :
    Handed begun store own store.issued (own ∪ {store.supply}) := by
  refine ⟨Nat.le_succ _,fun _ _ _ => rfl,?_,ready.issued⟩
  intro id reach
  rcases reach with inside | rfl
  · exact .inl inside
  · exact .inr (Nat.le_refl _)

theorem Handed.ofBeside {ids : List Ident} (beside : Beside ids before after)
    (ready : Ready begun before own) (apart : ∀ id ∈ ids, id ∉ own)
    (known : ∀ id ∈ ids, id < before.supply) :
    Handed begun before (own ∪ {id | id ∈ ids}) after own := by
  refine ⟨Nat.le_of_eq beside.supply.symm,?_,fun id inside => .inl (.inl inside),⟨?_,?_,?_,?_⟩⟩
  · exact fun id _ outside => beside.cursor id fun inside => outside (.inr inside)
  · exact fun id inside => beside.supply ▸ ready.known id inside
  · intro id inside
    rw [beside.cursor id fun mine => apart id mine inside]
    exact ready.unread id inside
  · intro id later
    rw [beside.supply] at later
    rw [beside.cursor id fun mine => Nat.not_le_of_lt (known id mine) later]
    exact ready.spare id later
  · exact fun token => by rw [beside.cancelled]; exact ready.live token

end sources

inductive Part (κ : Type) where
  | node (node : Node κ)
  | line (pieces : List (Piece κ))

def Piece.isNode : Piece κ → Bool
  | .node _ => true
  | _ => false

inductive SteadyNames (host : Host κ) (begun : Ident → Cursor) :
    Set Ident → List (Attr κ) → List (String × String) → Prop where
  | nil : SteadyNames host begun own [] []
  | cons
      (drives : ∀ token store, Ready begun store one →
        ∃ after, attr.drive host token store = .ok pair after ∧ Handed begun store one after ∅)
      (more : SteadyNames host begun other rest pairs)
      (apart : ∀ id ∈ one, id ∉ other) (within : one ∪ other ⊆ own) :
      SteadyNames host begun own (attr :: rest) (pair :: pairs)

-- A part is steady when it settles to the same trees whenever it is driven: each
-- deferred part in it succeeds with any token and from any store where its
-- sources are ready, and what it gives is steady again with the same result.
-- Parts beside each other have no source in common.
inductive Steady (host : Host κ) (begun : Ident → Cursor) :
    Set Ident → Part κ → List Tree → Prop where
  | leaf (text : leafTree node = some tree) : Steady host begun own (.node node) [tree]
  | element (named : SteadyNames host begun one attributes pairs)
      (inside : Steady host begun other (.line (children.map .node)) kids)
      (apart : ∀ id ∈ one, id ∉ other) (within : one ∪ other ⊆ own) :
      Steady host begun own (.node (.element tag attributes children)) [.element tag pairs kids]
  | fragment (inside : Steady host begun own (.line (children.map .node)) kids) :
      Steady host begun own (.node (.fragment children)) [.fragment kids]
  | deferred {found : Token → Store → Node κ} {after : Token → Store → Store}
      {left : Token → Store → Set Ident}
      (drives : ∀ token store, Ready begun store own →
        pending.drive host token store = .ok (found token store) (after token store) ∧
          Handed begun store own (after token store) (left token store))
      (more : ∀ token store, Ready begun store own →
        Steady host begun (left token store) (.node (found token store)) [tree]) :
      Steady host begun own (.node (.deferred pending)) [tree]
  | sequence (listed : feed.Listed)
      (inside : Steady host begun other (.line (feed.pieces begun)) items)
      (apart : ∀ id ∈ feed.ids, id ∉ other) (within : ∀ id, id ∈ feed.ids ∨ id ∈ other → id ∈ own) :
      Steady host begun own (.node (.sequence feed)) [.series items]
  | nil : Steady host begun own (.line []) []
  | cons (first : Steady host begun one (.node node) found)
      (more : Steady host begun other (.line rest) trees)
      (apart : ∀ id ∈ one, id ∉ other) (within : one ∪ other ⊆ own) :
      Steady host begun own (.line (.node node :: rest)) (found ++ trees)
  | skip (late : piece.isNode = false)
      (done : ∀ store, Ready begun store one →
        ∃ after, piece.give host store = .ok none after ∧ Handed begun store one after ∅)
      (more : Steady host begun other (.line rest) trees)
      (apart : ∀ id ∈ one, id ∉ other) (within : one ∪ other ⊆ own) :
      Steady host begun own (.line (piece :: rest)) trees
  | given {found : Store → Node κ} {after : Store → Store} {left : Store → Set Ident}
      (late : piece.isNode = false)
      (gives : ∀ store, Ready begun store one →
        piece.give host store = .ok (some (found store)) (after store) ∧
          Handed begun store one (after store) (left store))
      (here : ∀ store, Ready begun store one →
        Steady host begun (left store) (.node (found store)) [tree])
      (more : Steady host begun other (.line rest) trees)
      (apart : ∀ id ∈ one, id ∉ other) (within : one ∪ other ⊆ own) :
      Steady host begun own (.line (piece :: rest)) (tree :: trees)

section holding

variable {host : Host κ} {begun : Ident → Cursor} {own other : Set Ident} {store : Store}

theorem Steady.late {pending : Pending κ} {tree : Tree}
    (drives : ∀ token store, Ready begun store own → ∃ found after left,
      pending.drive host token store = .ok found after ∧ Handed begun store own after left ∧
        Steady host begun left (.node found) [tree]) :
    Steady host begun own (.node (.deferred pending)) [tree] := by
  have : Inhabited (Node κ) := ⟨.text ""⟩
  have : Inhabited Store := ⟨{}⟩
  choose! found after left done using drives
  exact .deferred (fun token store ready => ⟨(done token store ready).1,(done token store ready).2.1⟩)
    fun token store ready => (done token store ready).2.2

theorem Steady.comes {piece : Piece κ} {rest : List (Piece κ)} {tree : Tree} {trees : List Tree}
    {one : Set Ident} (late : piece.isNode = false)
    (gives : ∀ store, Ready begun store one → ∃ found after left,
      piece.give host store = .ok (some found) after ∧ Handed begun store one after left ∧
        Steady host begun left (.node found) [tree])
    (more : Steady host begun other (.line rest) trees)
    (apart : ∀ id ∈ one, id ∉ other) (within : one ∪ other ⊆ own) :
    Steady host begun own (.line (piece :: rest)) (tree :: trees) := by
  have : Inhabited (Node κ) := ⟨.text ""⟩
  have : Inhabited Store := ⟨{}⟩
  choose! found after left done using gives
  exact .given late (fun store ready => ⟨(done store ready).1,(done store ready).2.1⟩)
    (fun store ready => (done store ready).2.2) more apart within

-- What a steady part comes to when it is settled from a store where it is
-- ready. A line is settled as the children of a parent or out of a feed.
def Part.Settled (host : Host κ) (begun : Ident → Cursor) (own : Set Ident) (trees : List Tree) :
    Part κ → Prop
  | .node content => ∀ token store, Ready begun store own →
      ∃ after, Settles host token (.node content) store (.ok trees) after ∧
        Handed begun store own after ∅
  | .line pieces =>
      (∀ nodes, pieces = nodes.map .node → ∀ token store, Ready begun store own →
        ∃ after, Settles host token (.nodes nodes) store (.ok trees) after ∧
          Handed begun store own after ∅) ∧
      ∀ feed : Feed κ, feed.Listed → (∀ id ∈ feed.ids, id ∉ own) →
        ∀ token store, Ready begun store own → (∀ id ∈ feed.ids, id < store.supply) →
          feed.pieces store.cursor = pieces →
            ∃ after, Settles host token (.feed feed) store (.ok trees) after ∧
              Handed begun store (own ∪ {id | id ∈ feed.ids}) after ∅

theorem SteadyNames.named {attributes : List (Attr κ)} {pairs : List (String × String)}
    (steady : SteadyNames host begun own attributes pairs) (token : Token) :
    ∀ store, Ready begun store own → ∃ after,
      Names host token attributes store (.ok pairs) after ∧ Handed begun store own after ∅ := by
  induction steady with
  | nil => exact fun store ready => ⟨store,.nil,(Handed.refl ready).less (by simp)⟩
  | cons drives more apart within ih =>
    intro store ready
    obtain ⟨middle,done,first⟩ := drives token store (ready.mono (Set.subset_union_left.trans within))
    have handed := first.beside (ready.mono (Set.subset_union_right.trans within)) apart
    rw [Set.empty_union] at handed
    obtain ⟨after,names,second⟩ := ih middle handed.ready
    exact ⟨after,.cons done (first.ready.live token) names,(handed.trans second).more within⟩

-- The front of a feed whose pieces are steady: the feed moves past a piece, and
-- what that piece and the others draw on stays ready.
theorem feed_front {feed : Feed κ} {piece : Piece κ} {rest : List (Piece κ)} (listed : feed.Listed)
    (apart : ∀ id ∈ feed.ids, id ∉ own) (ready : Ready begun store own)
    (known : ∀ id ∈ feed.ids, id < store.supply)
    (front : feed.pieces store.cursor = piece :: rest) :
    ∃ moved, Feed.OpensWith host feed store piece rest moved ∧
      Handed begun store (own ∪ {id | id ∈ feed.ids}) moved own ∧
        ∀ id ∈ feed.ids, id < moved.supply := by
  obtain ⟨moved,opens⟩ := Feed.pull_opens host feed listed store piece rest front
  exact ⟨moved,opens,.ofBeside opens.beside ready apart known,
    fun id inside => opens.beside.supply ▸ known id inside⟩

theorem feed_rest {feed : Feed κ} {rest : List (Piece κ)} {trees : List Tree} {one : Set Ident}
    {moved middle : Store} (more : (Part.line rest).Settled host begun other trees)
    (listed : feed.Listed) (apart : ∀ id ∈ feed.ids, id ∉ own) (within : one ∪ other ⊆ own)
    (begins : Handed begun store (own ∪ {id | id ∈ feed.ids}) moved own)
    (known : ∀ id ∈ feed.ids, id < moved.supply) (behind : feed.pieces moved.cursor = rest)
    (handed : Handed begun moved (one ∪ other) middle other) (token : Token) :
    ∃ after, Settles host token (.feed feed) middle (.ok trees) after ∧
      Handed begun store (own ∪ {id | id ∈ feed.ids}) after ∅ := by
  have same : feed.pieces middle.cursor = feed.pieces moved.cursor :=
    Feed.pieces_congr feed fun id inside =>
      handed.kept id (known id inside) fun mine => apart id inside (within mine)
  obtain ⟨after,settles,second⟩ := more.2 feed listed
    (fun id inside mine => apart id inside (within (.inr mine))) token middle handed.ready
    (fun id inside => Nat.lt_of_lt_of_le (known id inside) handed.grown) (same.trans behind)
  refine ⟨after,settles,(begins.andThen handed ?_).andThen second ?_⟩
  · exact fun id inside => .inl (.inl (within inside))
  · intro id reach
    rcases reach with inside | inside
    · exact .inl (.inl (within (.inr inside)))
    · exact .inl (.inr inside)

theorem line_nil : (Part.line [] : Part κ).Settled host begun own [] := by
  refine ⟨?_,?_⟩
  · intro nodes same token store ready
    obtain rfl : nodes = [] := by simpa using same.symm
    exact ⟨store,.nil,(Handed.refl ready).less (by simp)⟩
  · intro feed listed apart token store ready known empty
    obtain ⟨left,ended,beside,_⟩ := Feed.pull_empty host feed listed store empty
    have handed := Handed.ofBeside beside ready apart known
    exact ⟨left,.ended ended (handed.ready.live token),handed.less (by simp)⟩

theorem line_cons {node : Node κ} {rest : List (Piece κ)} {found trees : List Tree}
    {one : Set Ident} (first : (Part.node node).Settled host begun one found)
    (more : (Part.line rest).Settled host begun other trees)
    (separate : ∀ id ∈ one, id ∉ other) (within : one ∪ other ⊆ own) :
    (Part.line (.node node :: rest)).Settled host begun own (found ++ trees) := by
  refine ⟨?_,?_⟩
  · intro nodes same token store ready
    obtain ⟨others,rfl,rfl⟩ : ∃ others, nodes = node :: others ∧ rest = others.map .node := by
      cases nodes <;> simp_all
    have mine := ready.mono (Set.subset_union_left.trans within)
    obtain ⟨middle,here,handed⟩ := first token store mine
    have beside := handed.beside (ready.mono (Set.subset_union_right.trans within)) separate
    obtain ⟨after,settles,last⟩ :=
      more.1 others rfl token middle (beside.ready.mono (by simp))
    exact ⟨after,.cons here settles,(beside.trans (last.more (by simp))).more within⟩
  · intro feed listed apart token store ready known front
    obtain ⟨moved,opens,begins,known'⟩ := feed_front listed apart ready known front
    obtain ⟨middle,here,handed⟩ := first token moved
      (begins.ready.mono (Set.subset_union_left.trans within))
    have beside := handed.beside (begins.ready.mono (Set.subset_union_right.trans within)) separate
    rw [Set.empty_union] at beside
    obtain ⟨after,settles,whole⟩ :=
      feed_rest more listed apart within begins known' opens.behind beside token
    exact ⟨after,.item (opens.given _ _ rfl) (begins.ready.live token) here settles,whole⟩

theorem line_skip {piece : Piece κ} {rest : List (Piece κ)} {trees : List Tree} {one : Set Ident}
    (late : piece.isNode = false)
    (done : ∀ store, Ready begun store one →
      ∃ after, piece.give host store = .ok none after ∧ Handed begun store one after ∅)
    (more : (Part.line rest).Settled host begun other trees)
    (separate : ∀ id ∈ one, id ∉ other) (within : one ∪ other ⊆ own) :
    (Part.line (piece :: rest)).Settled host begun own trees := by
  refine ⟨?_,?_⟩
  · intro nodes same
    cases nodes <;> simp_all [Piece.isNode]
  · intro feed listed apart token store ready known front
    obtain ⟨moved,opens,begins,known'⟩ := feed_front listed apart ready known front
    obtain ⟨middle,nothing,handed⟩ := done moved
      (begins.ready.mono (Set.subset_union_left.trans within))
    have beside := handed.beside (begins.ready.mono (Set.subset_union_right.trans within)) separate
    rw [Set.empty_union] at beside
    obtain ⟨after,settles,whole⟩ :=
      feed_rest more listed apart within begins known' opens.behind beside token
    have again := opens.done middle nothing fun id inside =>
      handed.kept id (known' id inside) fun mine => apart id inside (within (.inl mine))
    exact ⟨after,settles_feed_congr again settles,whole⟩

theorem line_given {piece : Piece κ} {rest : List (Piece κ)} {tree : Tree} {trees : List Tree}
    {one : Set Ident} {found : Store → Node κ} {after : Store → Store} {left : Store → Set Ident}
    (late : piece.isNode = false)
    (gives : ∀ store, Ready begun store one →
      piece.give host store = .ok (some (found store)) (after store) ∧
        Handed begun store one (after store) (left store))
    (here : ∀ store, Ready begun store one →
      (Part.node (found store)).Settled host begun (left store) [tree])
    (more : (Part.line rest).Settled host begun other trees)
    (separate : ∀ id ∈ one, id ∉ other) (within : one ∪ other ⊆ own) :
    (Part.line (piece :: rest)).Settled host begun own (tree :: trees) := by
  refine ⟨?_,?_⟩
  · intro nodes same
    cases nodes <;> simp_all [Piece.isNode]
  · intro feed listed apart token store ready known front
    obtain ⟨moved,opens,begins,known'⟩ := feed_front listed apart ready known front
    have mine := begins.ready.mono (Set.subset_union_left.trans within)
    obtain ⟨given,first⟩ := gives moved mine
    obtain ⟨middle,settled,second⟩ := here moved mine token _ first.ready
    have beside := (first.trans second).beside
      (begins.ready.mono (Set.subset_union_right.trans within)) separate
    rw [Set.empty_union] at beside
    obtain ⟨last,settles,whole⟩ :=
      feed_rest more listed apart within begins known' opens.behind beside token
    exact ⟨last,.item (opens.given _ _ given) (first.ready.live token) settled settles,whole⟩

theorem Steady.settled {part : Part κ} {trees : List Tree}
    (steady : Steady host begun own part trees) : part.Settled host begun own trees := by
  induction steady with
  | leaf text => exact fun token store ready => ⟨store,.leaf text,(Handed.refl ready).less (by simp)⟩
  | @element one attributes pairs other kids own tag children named inside apart within ih =>
    intro token store ready
    have mine := ready.mono (Set.subset_union_left.trans within)
    have others := ready.mono (Set.subset_union_right.trans within)
    obtain ⟨middle,resolved,first⟩ := named.named token store mine
    have handed := first.beside others apart
    obtain ⟨after,settles,second⟩ := ih.1 children rfl token middle (handed.ready.mono (by simp))
    refine ⟨after,.element resolved settles,?_⟩
    exact (handed.trans (second.more (by simp))).more within
  | fragment inside ih =>
    intro token store ready
    obtain ⟨after,settles,handed⟩ := ih.1 _ rfl token store ready
    exact ⟨after,.fragment settles,handed⟩
  | @deferred own tree pending found after left drives more ih =>
    intro token store ready
    obtain ⟨done,handed⟩ := drives token store ready
    obtain ⟨last,settles,second⟩ := ih token store ready token _
      (handed.ready.noted (.resolved (found token store).kind))
    exact ⟨last,.deferred done (handed.ready.live token) settles,(handed.noted _).trans second⟩
  | @sequence other items own feed listed inside apart within ih =>
    intro token store ready
    have mine := ready.mono fun id known => within id (.inr known)
    have unread : feed.pieces store.cursor = feed.pieces begun :=
      Feed.pieces_congr feed fun id known => ready.unread id (within id (.inl known))
    obtain ⟨after,settles,handed⟩ := ih.2 feed listed apart token store mine
      (fun id known => ready.known id (within id (.inl known))) unread
    refine ⟨after,.sequence settles,handed.more ?_⟩
    intro id reach
    rcases reach with known | known
    · exact within id (.inr known)
    · exact within id (.inl known)
  | nil => exact line_nil
  | cons first more separate within ihFirst ihMore => exact line_cons ihFirst ihMore separate within
  | skip late done more separate within ihMore => exact line_skip late done ihMore separate within
  | given late gives here more separate within ihHere ihMore =>
    exact line_given late gives ihHere ihMore separate within

end holding

end Markup
