import Mathlib.Data.List.Forall2
import Markup.Proofs.Steady
import Markup.Proofs.Rendering.Settled

namespace Markup

variable {κ : Type} {host : Host κ} {begun : Ident → Cursor} {own other : Set Ident} {store : Store}

theorem Steady.mono {part : Part κ} {trees : List Tree} (steady : Steady host begun own part trees) :
    ∀ {wider : Set Ident}, own ⊆ wider → Steady host begun wider part trees := by
  induction steady with
  | leaf text => exact fun _ => .leaf text
  | element named inside apart within _ =>
    exact fun wide => .element named inside apart (within.trans wide)
  | fragment inside ih => exact fun wide => .fragment (ih wide)
  | deferred drives more _ =>
    intro wider wide
    refine .late fun token store ready => ?_
    obtain ⟨done,handed⟩ := drives token store (ready.mono wide)
    exact ⟨_,_,_,done,handed.more wide,more token store (ready.mono wide)⟩
  | sequence single inside apart within _ =>
    exact fun wide => .sequence single inside apart fun id inside => wide (within id inside)
  | nil => exact fun _ => .nil
  | cons first more apart within _ _ =>
    exact fun wide => .cons first more apart (within.trans wide)
  | skip late done more apart within _ =>
    exact fun wide => .skip late done more apart (within.trans wide)
  | given late gives here more apart within _ _ =>
    exact fun wide => .given late gives here more apart (within.trans wide)

theorem apart_union {one later : Set Ident} (separate : ∀ id ∈ one, id ∉ later)
    (within : one ∪ later ⊆ own) (apart : ∀ id ∈ own, id ∉ other) :
    (∀ id ∈ one, id ∉ later ∪ other) ∧ one ∪ (later ∪ other) ⊆ own ∪ other := by
  refine ⟨?_,?_⟩
  · intro id inside reach
    rcases reach with further | outside
    · exact separate id inside further
    · exact apart id (within (.inl inside)) outside
  · rw [←Set.union_assoc]
    exact Set.union_subset_union_left other within

theorem Steady.append {pieces others : List (Piece κ)} {trees more : List Tree}
    (first : Steady host begun own (.line pieces) trees)
    (second : Steady host begun other (.line others) more) (apart : ∀ id ∈ own, id ∉ other) :
    Steady host begun (own ∪ other) (.line (pieces ++ others)) (trees ++ more) := by
  induction pieces generalizing own trees with
  | nil =>
    cases first
    exact second.mono Set.subset_union_right
  | cons piece rest ih =>
    cases first with
    | cons here further separate within =>
      obtain ⟨clear,wide⟩ := apart_union separate within apart
      rw [List.append_assoc]
      exact .cons here (ih further fun id inside => apart id (within (.inr inside))) clear wide
    | skip late done further separate within =>
      obtain ⟨clear,wide⟩ := apart_union separate within apart
      exact .skip late done (ih further fun id inside => apart id (within (.inr inside))) clear wide
    | given late gives here further separate within =>
      obtain ⟨clear,wide⟩ := apart_union separate within apart
      exact .given late gives here (ih further fun id inside => apart id (within (.inr inside)))
        clear wide

theorem Steady.isNode {node : Node κ} {trees : List Tree}
    (steady : Steady host begun own (.node node) trees) : node.isNode = true := by
  cases steady with
  | leaf text => cases node <;> simp_all [leafTree,Node.isNode]
  | _ => rfl

theorem Steady.allNodes {nodes : List (Node κ)} {trees : List Tree}
    (steady : Steady host begun own (.line (nodes.map .node)) trees) :
    ∀ node ∈ nodes, node.isNode = true := by
  induction nodes generalizing own trees with
  | nil => simp
  | cons node rest ih =>
    cases steady with
    | cons first more apart within =>
      intro other inside
      rcases List.mem_cons.mp inside with rfl | later
      · exact first.isNode
      · exact ih more other later
    | skip late => simp [Piece.isNode] at late
    | given late => simp [Piece.isNode] at late

-- What a node adds to a tree it is appended to. A fragment gives its children,
-- and in a series a sequence goes on with its items.
def spliced (b : Node κ) (added : Tree) : List Tree :=
  match b,added with
  | .fragment _,.fragment children => children
  | _,_ => [added]

def addition (b : Node κ) (added : Tree) : Tree → List Tree
  | .series _ =>
    match b,added with
    | .sequence _,.series items => items
    | _,_ => spliced b added
  | _ => spliced b added

theorem spliced_chunks (options : Options) (b : Node κ) (added : Tree) :
    Tree.chunksAll options (spliced b added) = added.chunks options := by
  unfold spliced
  split <;> simp [Tree.chunksAll,Tree.chunks]

theorem addition_chunks (options : Options) (b : Node κ) (added root : Tree) :
    Tree.chunksAll options (addition b added root) = added.chunks options := by
  unfold addition
  split
  · split
    · simp [Tree.chunks]
    · exact spliced_chunks options b added
  · exact spliced_chunks options b added

namespace Tree

def holds : Tree → Bool
  | .element .. | .fragment _ | .series _ => true
  | _ => false

def grown : Tree → List Tree → Tree
  | .element tag attributes children,more => .element tag attributes (children ++ more)
  | .fragment children,more => .fragment (children ++ more)
  | .series items,more => .series (items ++ more)
  | leaf,_ => leaf

end Tree

theorem line_single {node : Node κ} {tree : Tree}
    (steady : Steady host begun own (.node node) [tree]) :
    Steady host begun own (.line ([node].map .node)) [tree] := by
  have nothing : Steady host begun ∅ (.line []) [] := .nil
  exact .cons steady nothing (by simp) (by simp)

theorem pieces_steady {b : Node κ} {added : Tree}
    (steady : Steady host begun own (.node b) [added]) :
    Steady host begun own (.line (b.pieces.map .node)) (spliced b added) := by
  have single := line_single steady
  cases b with
  | fragment children =>
    cases steady with
    | fragment inside => exact inside
    | leaf text => simp [leafTree] at text
  | _ => exact single

theorem chain_steady {first second : Feed κ} {items more : List Tree} {id : Ident}
    (one : Steady host begun own (.node (.sequence first)) [.series items])
    (two : Steady host begun other (.node (.sequence second)) [.series more])
    (apart : ∀ id ∈ own, id ∉ other) (fresh : id ∉ own ∪ other) (begins : begun id = {}) :
    Steady host begun (own ∪ other ∪ {id}) (.node (.sequence (.chain id first second)))
      [.series (items ++ more)] := by
  cases one with
  | leaf text => simp [leafTree] at text
  | sequence listed inside separate within =>
    cases two with
    | leaf text => simp [leafTree] at text
    | sequence listed' inside' separate' within' =>
      rename_i left right
      have pieces : (Feed.chain id first second).pieces begun =
          first.pieces begun ++ second.pieces begun := by
        simp [Feed.pieces,begins]
      have both := inside.append inside' fun own mine others =>
        apart own (within own (.inr mine)) (within' own (.inr others))
      rw [←pieces] at both
      refine .sequence ?_ both ?_ ?_
      · refine Feed.chain_listed.mpr ⟨?_,?_,?_,listed,listed'⟩
        · exact fun mine => fresh (.inl (within id (.inl mine)))
        · exact fun others => fresh (.inr (within' id (.inl others)))
        · exact fun own mine others =>
            apart own (within own (.inl mine)) (within' own (.inl others))
      · intro own mine
        have reach : own = id ∨ own ∈ first.ids ∨ own ∈ second.ids := by
          simpa [Feed.ids] using mine
        rcases reach with rfl | mine | others
        · exact fun inside => fresh (inside.imp (fun mine => within own (.inr mine))
            fun others => within' own (.inr others))
        · intro reach
          rcases reach with inner | outer
          · exact separate own mine inner
          · exact apart own (within own (.inl mine)) (within' own (.inr outer))
        · intro reach
          rcases reach with inner | outer
          · exact apart own (within own (.inr inner)) (within' own (.inl others))
          · exact separate' own others outer
      · intro own reach
        have reach : (own = id ∨ own ∈ first.ids ∨ own ∈ second.ids) ∨ own ∈ left ∨ own ∈ right := by
          simpa [Feed.ids] using reach
        rcases reach with (rfl | mine | others) | inner | outer
        · exact .inr rfl
        · exact .inl (.inl (within own (.inl mine)))
        · exact .inl (.inr (within' own (.inl others)))
        · exact .inl (.inl (within own (.inr inner)))
        · exact .inl (.inr (within' own (.inr outer)))

theorem items_steady {nodes : List (Node κ)} {trees : List Tree} {id : Ident}
    (steady : Steady host begun own (.line (nodes.map .node)) trees) (fresh : id ∉ own)
    (begins : begun id = {}) :
    Steady host begun (own ∪ {id}) (.node (.sequence (.items id nodes))) [.series trees] := by
  have pieces : (Feed.items id nodes).pieces begun = nodes.map .node := by
    simp [Feed.pieces,begins]
  rw [←pieces] at steady
  refine .sequence ⟨by simp [Feed.ids],rfl⟩ steady (by simpa [Feed.ids] using fresh) ?_
  intro other reach
  rcases reach with inside | inside
  · exact .inr (by simpa [Feed.ids] using inside)
  · exact .inl inside

theorem fragment_apply {children : List (Node κ)}
    (proper : ∀ node ∈ children, node.isNode = true) (store : Store) :
    Schema.fragment children store = .ok (.fragment children) store := by
  simp [Schema.fragment,Schema.acceptAll_nodes children 0 proper,Checked.map,Checked.under]

-- What appending comes to: a node that is as steady as the two it is made of,
-- and settles to the tree of the first with what the second adds to it.
def Appends (host : Host κ) (begun : Ident → Cursor) (own other : Set Ident) (a b : Node κ)
    (root added : Tree) : Prop :=
  ∀ store, Ready begun store (own ∪ other) → ∃ whole after left,
    a.append b store = .ok whole after ∧ Handed begun store (own ∪ other) after left ∧
      Steady host begun left (.node whole) [root.grown (addition b added root)]

section append

variable {b : Node κ} {feed : Feed κ} {pending : Pending κ}

theorem append_fragment (proper : b.isNode = true) {children : List (Node κ)}
    (inside : ∀ node ∈ children, node.isNode = true) (store : Store)
    (pieces : ∀ node ∈ b.pieces, node.isNode = true) :
    (Node.fragment children).append b store = .ok (.fragment (children ++ b.pieces)) store := by
  have all : ∀ node ∈ children ++ b.pieces, node.isNode = true := by
    intro node here
    exact (List.mem_append.mp here).elim (inside node) (pieces node)
  have first : (Node.fragment children).isNode = true := rfl
  simp [Node.append,requireNode_ok first,requireNode_ok proper,fragment_apply all]

theorem append_deferred (proper : b.isNode = true) (pending : Pending κ) (store : Store) :
    (Node.deferred pending).append b store =
      .ok (.deferred (.append store.supply pending b)) store.issued := by
  have first : (Node.deferred pending).isNode = true := rfl
  simp [Node.append,requireNode_ok first,requireNode_ok proper]

theorem append_sequences (feed other : Feed κ) (store : Store) :
    (Node.sequence feed).append (.sequence other) store =
      .ok (.sequence (.chain store.supply feed other)) store.issued := by
  simp [Node.append,Node.requireNode,Node.isNode]

theorem append_wait (feed : Feed κ) (pending : Pending κ) (store : Store) :
    (Node.sequence feed).append (.deferred pending) store =
      .ok (.deferred (.appendTo store.supply feed pending)) store.issued := by
  simp [Node.append,Node.requireNode,Node.isNode]

theorem append_items (proper : b.isNode = true) (noFeed : ∀ other, b ≠ .sequence other)
    (known : ∀ pending, b ≠ .deferred pending) (feed : Feed κ) (store : Store) :
    (Node.sequence feed).append b store =
      .ok (.sequence (.chain store.supply feed (.items store.issued.supply b.pieces)))
        store.issued.issued := by
  cases b <;> simp_all [Node.append,Node.requireNode,Node.isNode]

theorem appendAll_cons {a next : Node κ} {rest : List (Node κ)} {start middle : Store}
    (appended : a.append b start = .ok next middle) :
    a.appendAll (b :: rest) start = next.appendAll rest middle := by
  simp only [Node.appendAll,List.foldlM_cons,Action.bind_apply,appended]

theorem appendAll_append {a next : Node κ} {front : List (Node κ)} {start middle : Store}
    (appended : a.appendAll front start = .ok next middle) (rest : List (Node κ)) :
    a.appendAll (front ++ rest) start = next.appendAll rest middle := by
  simp only [Node.appendAll,List.foldlM_append,Action.bind_apply] at appended ⊢
  rw [appended]

end append

section appending

variable {b : Node κ} {added : Tree}

theorem follow_steady {feed : Feed κ} {nodes : List (Node κ)} {items trees : List Tree}
    (first : Steady host begun own (.node (.sequence feed)) [.series items])
    (second : Steady host begun other (.line (nodes.map .node)) trees)
    (apart : ∀ id ∈ own, id ∉ other) (ready : Ready begun store (own ∪ other)) :
    ∃ left, Handed begun store (own ∪ other) store.issued.issued left ∧
      Steady host begun left
        (.node (.sequence (.chain store.supply feed (.items store.issued.supply nodes))))
          [.series (items ++ trees)] := by
  have old : ∀ id ∈ own ∪ other, id < store.supply := ready.known
  have newer : store.supply < store.issued.supply := Nat.lt_succ_self _
  have unused : ∀ id, store.supply ≤ id → id ∉ own ∪ other :=
    fun id later inside => Nat.not_le_of_lt (old id inside) later
  have line : Steady host begun (other ∪ {store.issued.supply})
      (.node (.sequence (.items store.issued.supply nodes))) [.series trees] :=
    items_steady second (fun inside => unused _ (Nat.le_of_lt newer) (.inr inside))
      (ready.spare _ (Nat.le_of_lt newer)).2
  refine ⟨_,?_,chain_steady first line ?_ ?_ (ready.spare _ (Nat.le_refl _)).2⟩
  · refine ((Handed.issued ready).trans (Handed.issued (Handed.issued ready).ready)).less ?_
    intro id reach
    rcases reach with (inside | inside | inside) | inside
    · exact .inl (.inl (.inl inside))
    · exact .inl (.inl (.inr inside))
    · exact .inr inside
    · exact .inl (.inr inside)
  · intro id inside reach
    rcases reach with outside | rfl
    · exact apart id inside outside
    · exact unused _ (Nat.le_of_lt newer) (.inl inside)
  · intro reach
    rcases reach with inside | inside | same
    · exact unused _ (Nat.le_refl _) (.inl inside)
    · exact unused _ (Nat.le_refl _) (.inr inside)
    · exact Nat.ne_of_lt newer same

-- A wait that composition puts behind a sequence is driven before the sequence
-- is read; what it gives follows the items.
theorem wait_steady {feed : Feed κ} {pending : Pending κ} {items : List Tree} (id : Ident)
    (first : Steady host begun own (.node (.sequence feed)) [.series items])
    (second : Steady host begun other (.node (.deferred pending)) [added])
    (apart : ∀ id ∈ own, id ∉ other) :
    Steady host begun (own ∪ other) (.node (.deferred (.appendTo id feed pending)))
      [.series (items ++ [added])] := by
  refine .late fun token store ready => ?_
  have mine : Ready begun store own := ready.mono Set.subset_union_left
  have others : Ready begun store other := ready.mono Set.subset_union_right
  have apart' : ∀ id ∈ other, id ∉ own := fun id outside inside => apart id inside outside
  cases second with
  | leaf text => simp [leafTree] at text
  | deferred drives more =>
    rename_i found after left
    obtain ⟨done,handed⟩ := drives token store others
    have beside := handed.beside mine apart'
    obtain ⟨last,kept,steady⟩ := follow_steady first (line_single (more token store others))
      (fun id inside outside => handed.apart mine apart' id outside inside)
      (by rw [Set.union_comm]; exact beside.ready)
    refine ⟨_,(after token store).issued.issued,last,?_,?_,steady⟩
    · simp only [Pending.drive,Action.bind_apply,Action.check_live (ready.live token),done,
        Action.fresh_apply,Action.pure_apply]
    · rw [Set.union_comm] at kept ⊢
      exact beside.trans kept

theorem addition_other {root : Tree} (noFeed : ∀ feed, b ≠ .sequence feed) :
    addition b added root = spliced b added := by
  unfold addition
  split
  · split
    · exact absurd rfl (noFeed _)
    · rfl
  · rfl

theorem sequence_appends {feed : Feed κ} {items : List Tree}
    (first : Steady host begun own (.node (.sequence feed)) [.series items])
    (second : Steady host begun other (.node b) [added]) (apart : ∀ id ∈ own, id ∉ other) :
    Appends host begun own other (.sequence feed) b (.series items) added := by
  intro store ready
  have unused : store.supply ∉ own ∪ other := fun inside => Nat.lt_irrefl _ (ready.known _ inside)
  by_cases isFeed : ∃ next, b = .sequence next
  · obtain ⟨next,rfl⟩ := isFeed
    have chain := append_sequences feed next store
    cases second with
    | leaf text => simp [leafTree] at text
    | sequence single inside separate within =>
      have second := Steady.sequence single inside separate within
      exact ⟨_,_,_,chain,.issued ready,
        chain_steady first second apart unused (ready.spare _ (Nat.le_refl _)).2⟩
  have noFeed : ∀ next, b ≠ .sequence next := fun next same => isFeed ⟨next,same⟩
  by_cases isWait : ∃ pending, b = .deferred pending
  · obtain ⟨pending,rfl⟩ := isWait
    exact ⟨_,_,own ∪ other,append_wait feed pending store,
      (Handed.issued ready).less Set.subset_union_left,wait_steady _ first second apart⟩
  · have known : ∀ pending, b ≠ .deferred pending := fun pending same => isWait ⟨pending,same⟩
    obtain ⟨left,handed,whole⟩ := follow_steady first (pieces_steady second) apart ready
    refine ⟨_,_,left,append_items second.isNode noFeed known feed store,handed,?_⟩
    rw [addition_other noFeed]
    exact whole

-- What appending comes to, with the tree that comes of it left open. Appending
-- to a node that is not known yet comes to what appending comes to once it is
-- known.
def Composes (host : Host κ) (begun : Ident → Cursor) (own other : Set Ident) (a b : Node κ)
    (result : Tree) : Prop :=
  ∀ store, Ready begun store (own ∪ other) → ∃ whole after left,
    a.append b store = .ok whole after ∧ Handed begun store (own ∪ other) after left ∧
      Steady host begun left (.node whole) [result]

theorem composes_late {pending : Pending κ} {result : Tree} {found : Token → Store → Node κ}
    {after : Token → Store → Store} {left : Token → Store → Set Ident}
    (drives : ∀ token store, Ready begun store own →
      pending.drive host token store = .ok (found token store) (after token store) ∧
        Handed begun store own (after token store) (left token store))
    (proper : b.isNode = true) (apart : ∀ id ∈ own, id ∉ other)
    (more : ∀ token store, Ready begun store own → (∀ id ∈ left token store, id ∉ other) →
      Composes host begun (left token store) other (found token store) b result) :
    Composes host begun own other (.deferred pending) b result := by
  intro store ready
  refine ⟨_,store.issued,own ∪ other,append_deferred proper pending store,
    (Handed.issued ready).less Set.subset_union_left,?_⟩
  refine .late fun token store ready => ?_
  have mine := ready.mono Set.subset_union_left
  have others := ready.mono Set.subset_union_right
  obtain ⟨done,handed⟩ := drives token store mine
  have beside := handed.beside others apart
  obtain ⟨whole,last,rest,appended,kept,steady⟩ := more token store mine
    (handed.apart others apart) _ beside.ready
  refine ⟨whole,last,rest,?_,beside.trans kept,steady⟩
  simp only [Pending.drive,Action.bind_apply,Action.check_live (ready.live token),done,appended]

theorem append_steady {part : Part κ} {trees : List Tree}
    (steady : Steady host begun own part trees) :
    ∀ {a : Node κ} {root : Tree}, part = .node a → trees = [root] → root.holds = true →
      ∀ {other : Set Ident}, (∀ id ∈ own, id ∉ other) → Steady host begun other (.node b) [added] →
        Appends host begun own other a b root added := by
  induction steady with
  | leaf text =>
    rename_i node tree own
    rintro _ _ ⟨⟩ ⟨⟩ holds
    cases node <;> simp only [leafTree,Option.some.injEq,reduceCtorEq] at text <;> subst text <;>
      simp [Tree.holds] at holds
  | @element one attributes pairs inner kids own tag children named inside separate within _ =>
    rintro _ _ ⟨⟩ ⟨⟩ - other apart second store ready
    refine ⟨_,store,own ∪ other,append_element second.isNode _ _ _ store,.refl ready,?_⟩
    obtain ⟨clear,wide⟩ := apart_union separate within apart
    have both := inside.append (pieces_steady second) fun id mine => apart id (within (.inr mine))
    rw [←List.map_append] at both
    exact .element named both clear wide
  | @fragment own kids children inside _ =>
    rintro _ _ ⟨⟩ ⟨⟩ - other apart second store ready
    have pieces := pieces_steady second
    refine ⟨_,store,own ∪ other,append_fragment second.isNode inside.allNodes store pieces.allNodes,
      .refl ready,?_⟩
    have both := inside.append pieces apart
    rw [←List.map_append] at both
    exact .fragment both
  | @deferred own tree pending found after left drives more ih =>
    rintro _ _ ⟨⟩ ⟨⟩ holds other apart second
    exact composes_late drives second.isNode apart fun token store ready separate =>
      ih token store ready rfl rfl holds separate second
  | sequence single inside separate within _ =>
    rintro _ _ ⟨⟩ ⟨⟩ - other apart second
    exact sequence_appends (.sequence single inside separate within) second apart
  | nil | cons | skip | given => rintro a root ⟨⟩

end appending

-- A node that is put into an element stands before the closing tag; in a
-- fragment or a series it stands at the end.
namespace Tree

def head (options : Options) : Tree → String
  | .element tag attributes children =>
    Stream.openTag tag (Stream.attributesText attributes) ++ String.join (chunksAll options children)
  | .fragment children | .series children => String.join (chunksAll options children)
  | leaf => String.join (leaf.chunks options)

def tail : Tree → String
  | .element tag .. => Stream.closeTag tag
  | _ => ""

def body (options : Options) (tree : Tree) : String := String.join (tree.chunks options)

def canHold (options : Options) : Tree → Bool
  | .element tag _ children => !options.isVoid tag || !children.isEmpty
  | .fragment _ | .series _ => true
  | _ => false

variable {options : Options} {root : Tree}

theorem canHold_holds (room : root.canHold options = true) : root.holds = true := by
  cases root <;> simp_all [Tree.canHold,holds]

theorem chunksAll_body (options : Options) (trees : List Tree) :
    String.join (chunksAll options trees) = String.join (trees.map (body options)) := by
  induction trees with
  | nil => rfl
  | cons tree rest ih => simp [chunksAll,body,String.join_append,ih]

theorem canHold_body (room : root.canHold options = true) :
    root.body options = root.head options ++ root.tail := by
  cases root with
  | element tag attributes children =>
    have notVoid : ¬(options.isVoid tag = true ∧ children.isEmpty = true) := by
      simp only [Tree.canHold,Bool.or_eq_true,Bool.not_eq_true'] at room
      rintro ⟨void,empty⟩
      rcases room with notVoid | filled
      · simp [void] at notVoid
      · simp [empty] at filled
    rw [body,chunks,if_neg notVoid]
    simp [head,tail,String.join_append,String.append_assoc]
  | fragment | series => simp [body,chunks,head,tail]
  | _ => simp [Tree.canHold] at room

theorem canHold_grown (room : root.canHold options = true) (more : List Tree) :
    (root.grown more).canHold options = true ∧
      (root.grown more).head options = root.head options ++ String.join (chunksAll options more) ∧
        (root.grown more).tail = root.tail := by
  cases root with
  | element tag attributes children =>
    refine ⟨?_,?_,rfl⟩
    · simp only [Tree.canHold,grown,Bool.or_eq_true,Bool.not_eq_true'] at room ⊢
      exact room.imp_right fun filled => by simp_all
    · simp [head,grown,chunksAll_append,String.join_append,String.append_assoc]
  | fragment | series =>
    exact ⟨rfl,by simp [head,grown,chunksAll_append,String.join_append],rfl⟩
  | _ => simp [Tree.canHold] at room

end Tree

theorem node_single {node : Node κ} {trees : List Tree}
    (steady : Steady host begun own (.node node) trees) : ∃ tree, trees = [tree] := by
  cases steady <;> exact ⟨_,rfl⟩

def additionAll (root : Tree) (bs : List (Node κ)) (trees : List Tree) : List Tree :=
  (List.zipWith (fun b added => addition b added root) bs trees).flatten

namespace Tree

theorem grown_nil (root : Tree) : root.grown [] = root := by
  cases root <;> simp [grown]

theorem grown_grown (root : Tree) (one other : List Tree) :
    (root.grown one).grown other = root.grown (one ++ other) := by
  cases root <;> simp [grown]

theorem grown_holds {root : Tree} (holds : root.holds = true) (more : List Tree) :
    (root.grown more).holds = true := by
  cases root <;> first | rfl | exact holds

end Tree

theorem addition_grown (b : Node κ) (added root : Tree) (more : List Tree) :
    addition b added (root.grown more) = addition b added root := by
  cases root <;> rfl

theorem additionAll_grown (root : Tree) (more : List Tree) (bs : List (Node κ)) (trees : List Tree) :
    additionAll (root.grown more) bs trees = additionAll root bs trees := by
  simp only [additionAll,addition_grown]

theorem additionAll_chunks (options : Options) {root : Tree} {bs : List (Node κ)} :
    ∀ {trees : List Tree}, bs.length = trees.length →
      Tree.chunksAll options (additionAll root bs trees) = Tree.chunksAll options trees := by
  induction bs with
  | nil =>
    intro trees same
    obtain rfl : trees = [] := List.length_eq_zero_iff.mp same.symm
    rfl
  | cons b rest ih =>
    intro trees same
    cases trees with
    | nil => cases same
    | cons added others =>
      have later := ih (Nat.succ.inj same)
      simp only [additionAll] at later
      simp [additionAll,Tree.chunksAll_append,addition_chunks,later,Tree.chunksAll]

theorem line_length {bs : List (Node κ)} {trees : List Tree}
    (steady : Steady host begun own (.line (bs.map .node)) trees) : bs.length = trees.length := by
  induction bs generalizing own trees with
  | nil =>
    cases steady
    rfl
  | cons b rest ih =>
    cases steady with
    | skip late | given late => simp [Piece.isNode] at late
    | cons here more =>
      obtain ⟨added,rfl⟩ := node_single here
      simp [ih more]

theorem appendAll_grown {bs : List (Node κ)} :
    ∀ {own other : Set Ident} {a : Node κ} {root : Tree} {trees : List Tree} {store : Store},
      Steady host begun own (.node a) [root] → Steady host begun other (.line (bs.map .node)) trees →
        (∀ id ∈ own, id ∉ other) → root.holds = true → Ready begun store (own ∪ other) →
          ∃ whole after left, a.appendAll bs store = .ok whole after ∧ Ready begun after left ∧
            Steady host begun left (.node whole) [root.grown (additionAll root bs trees)] := by
  induction bs with
  | nil =>
    intro own other a root trees store first others apart holds ready
    cases others
    refine ⟨a,store,own,rfl,ready.mono Set.subset_union_left,?_⟩
    rwa [additionAll,List.zipWith_nil_left,List.flatten_nil,Tree.grown_nil]
  | cons b rest ih =>
    intro own other a root trees store first others apart holds ready
    cases others with
    | skip late | given late => simp [Piece.isNode] at late
    | cons here more separate within =>
      rename_i one found later trees
      obtain ⟨added,rfl⟩ := node_single here
      have outside : ∀ id ∈ own ∪ one, id ∉ later := by
        intro id reach
        rcases reach with inside | inside
        · exact fun far => apart id inside (within (.inr far))
        · exact separate id inside
      have mine : Ready begun store (own ∪ one) :=
        ready.mono (Set.union_subset_union_right own (Set.subset_union_left.trans within))
      have others : Ready begun store later :=
        ready.mono ((Set.subset_union_right.trans within).trans Set.subset_union_right)
      obtain ⟨whole,middle,left,appended,handed,steady⟩ := append_steady first rfl rfl holds
        (fun id inside far => apart id inside (within (.inl far))) here store mine
      have beside := handed.beside others outside
      obtain ⟨last,after,final,composed,ready',steady'⟩ := ih steady more
        (handed.apart others outside) (Tree.grown_holds holds _) beside.ready
      refine ⟨last,after,final,(appendAll_cons appended).trans composed,ready',?_⟩
      rwa [Tree.grown_grown,additionAll_grown] at steady'

theorem appendAll_steady {bs : List (Node κ)} {own other : Set Ident} {a : Node κ} {root : Tree}
    {trees : List Tree} {store : Store} (first : Steady host begun own (.node a) [root])
    (others : Steady host begun other (.line (bs.map .node)) trees)
    (apart : ∀ id ∈ own, id ∉ other) (holds : root.holds = true)
    (ready : Ready begun store (own ∪ other)) :
    ∃ whole after left result, a.appendAll bs store = .ok whole after ∧
      Ready begun after left ∧ Steady host begun left (.node whole) [result] ∧
        ∀ options, root.canHold options = true → result.canHold options = true ∧
          result.head options = root.head options ++
            String.join (Tree.chunksAll options trees) ∧ result.tail = root.tail := by
  obtain ⟨whole,after,left,composed,ready',steady⟩ := appendAll_grown first others apart holds ready
  refine ⟨whole,after,left,_,composed,ready',steady,fun options room => ?_⟩
  have grows := Tree.canHold_grown room (additionAll root bs trees)
  rwa [additionAll_chunks options (line_length others)] at grows

-- Rendering gives the text from every store where the sources of the node are
-- ready, in both its forms and whatever token is used.
def WrittenAs (host : Host κ) (begun : Ident → Cursor) (own : Set Ident) (options : Options)
    (node : Node κ) (text : String) : Prop :=
  ∀ store given, Ready begun store own →
    Rendering.Renders host node given options store (.ok text)

theorem steady_written {node : Node κ} {tree : Tree}
    (steady : Steady host begun own (.node node) [tree]) (options : Options) :
    WrittenAs host begun own options node (tree.markup options) := by
  intro store given ready
  obtain ⟨token,start,taken,ready⟩ : ∃ token start, Action.tokenOr given store = .ok token start ∧
      Ready begun start own := by
    cases given with
    | none => exact ⟨_,_,Action.tokenOr_none store,ready.issued.mono Set.subset_union_left⟩
    | some token => exact ⟨_,_,Action.tokenOr_some token store,ready⟩
  obtain ⟨after,settles,_⟩ := steady.settled token start ready
  exact Rendering.settles_renders taken (ready.live token) settles options

theorem bare_markup {options : Options} (bare : options.doctype = none) (tree : Tree) :
    tree.markup options = tree.body options := by
  simp [Tree.markup,Tree.heading,bare,Tree.body]

theorem line_written {bs : List (Node κ)} {options : Options} (bare : options.doctype = none) :
    ∀ {own : Set Ident} {trees : List Tree}, Steady host begun own (.line (bs.map .node)) trees →
      List.Forall₂ (fun b tree => WrittenAs host begun own options b (tree.body options)) bs
        trees := by
  induction bs with
  | nil =>
    intro own trees steady
    cases steady
    exact .nil
  | cons b rest ih =>
    intro own trees steady
    cases steady with
    | skip late | given late => simp [Piece.isNode] at late
    | cons here more separate within =>
      obtain ⟨tree,rfl⟩ := node_single here
      have first := steady_written (here.mono (Set.subset_union_left.trans within)) options
      rw [bare_markup bare] at first
      exact .cons first (ih (more.mono (Set.subset_union_right.trans within)))

-- Composing keeps the order of application: the markup of the root with the
-- markup of every other node put in, one after the other, in front of what
-- closes the root.
theorem composition_in_order {a : Node κ} {bs : List (Node κ)} {root : Tree} {trees : List Tree}
    {options : Options} (first : Steady host begun own (.node a) [root])
    (others : Steady host begun other (.line (bs.map .node)) trees)
    (apart : ∀ id ∈ own, id ∉ other) (ready : Ready begun store (own ∪ other))
    (bare : options.doctype = none) (room : root.canHold options = true) :
    WrittenAs host begun own options a (root.head options ++ root.tail) ∧
      List.Forall₂ (fun b tree => WrittenAs host begun other options b (tree.body options)) bs
        trees ∧
        ∃ whole after left, a.appendAll bs store = .ok whole after ∧ Ready begun after left ∧
          WrittenAs host begun left options whole
            (root.head options ++ String.join (trees.map (Tree.body options)) ++ root.tail) := by
  refine ⟨?_,line_written bare others,?_⟩
  · have alone := steady_written first options
    rwa [bare_markup bare,Tree.canHold_body room] at alone
  · obtain ⟨whole,after,left,result,composed,ready',steady,grows⟩ :=
      appendAll_steady first others apart (Tree.canHold_holds room) ready
    obtain ⟨room',head,tail⟩ := grows options room
    have together := steady_written steady options
    rw [bare_markup bare,Tree.canHold_body room',head,tail] at together
    rw [Tree.chunksAll_body] at together
    exact ⟨whole,after,left,composed,ready',together⟩

theorem body_steady {id : Ident} {label : String} {code : κ} {node : Node κ} {tree : Tree}
    (gives : ∀ token store, host.run code (some token) store = .ok node store)
    (steady : Steady host begun ∅ (.node node) [tree]) :
    Steady host begun own (.node (.deferred (.body id label code))) [tree] := by
  refine .late fun token store ready => ⟨node,store.noted (.drive label),∅,?_,?_,steady⟩
  · simp [Pending.drive,gives]
  · exact ((Handed.refl ready).noted _).less (by simp)

theorem item_steady {id : Ident} {label : String} {code : κ} {node : Node κ} {tree : Tree}
    (gives : ∀ store, host.run code none store = .ok node store)
    (steady : Steady host begun ∅ (.node node) [tree]) (begins : begun id = {}) :
    Steady host begun {id} (.node (.sequence (.body id label [.item code]))) [.series [tree]] := by
  have pieces : (Feed.body id label [.item code]).pieces begun = [.item code] := by
    simp [Feed.pieces,begins,Piece.ofEntry]
  have nothing : Steady host begun ∅ (.line []) [] := .nil
  have line : Steady host begun ∅ (.line [.item code]) [tree] := by
    refine .comes rfl (fun store (ready : Ready begun store ∅) => ⟨node,store,∅,?_,?_,steady⟩)
      nothing (by simp) (by simp)
    · simp [Piece.give,gives]
    · exact .refl ready
  rw [←pieces] at line
  exact .sequence ⟨by simp [Feed.ids],rfl⟩ line (by simp) (by simp [Feed.ids])

def lateList : Host Nat where
  depth := 0
  run
    | 0,_ => return .deferred (.body 1 "list" 1)
    | 1,_ => return .element "ul" [.driven 4 "class" 3] [.text "a"]
    | 3,_ => return .foreign (.attr (.fixed "class" "x"))
    | _,_ => return .text "z"

abbrev LateSteady (own : Set Ident) (part : Part Nat) (trees : List Tree) : Prop :=
  Steady lateList (fun _ => {}) own part trees

def lateAdditions : List (Node Nat) :=
  [.text "b",.sequence (.body 2 "items" [.item 2]),.deferred (.body 3 "one" 2),
    .fragment [.raw "<hr>"]]

theorem lateAdditions_steady : LateSteady {2} (.line (lateAdditions.map .node))
    [.text "b",.series [.text "z"],.text "z",.fragment [.raw "<hr>"]] := by
  have text : LateSteady ∅ (.node (.text "b")) [.text "b"] := .leaf rfl
  have items : LateSteady {2} (.node (.sequence (.body 2 "items" [.item 2]))) [.series [.text "z"]] :=
    item_steady (fun _ => rfl) (.leaf rfl) rfl
  have one : LateSteady ∅ (.node (.deferred (.body 3 "one" 2))) [.text "z"] :=
    body_steady (fun _ _ => rfl) (.leaf rfl)
  have rule : LateSteady ∅ (.node (.fragment [.raw "<hr>"])) [.fragment [.raw "<hr>"]] :=
    .fragment (line_single (.leaf rfl))
  have last : LateSteady ∅ (.line [.node (.deferred (.body 3 "one" 2)),
      .node (.fragment [.raw "<hr>"])]) [.text "z",.fragment [.raw "<hr>"]] :=
    .cons one (line_single rule) (by simp) (by simp)
  have more : LateSteady {2} (.line [.node (.sequence (.body 2 "items" [.item 2])),
      .node (.deferred (.body 3 "one" 2)),.node (.fragment [.raw "<hr>"])])
      [.series [.text "z"],.text "z",.fragment [.raw "<hr>"]] :=
    .cons items last (by simp) (by simp)
  exact .cons text more (by simp) (by simp)

theorem lateList_steady : LateSteady ∅ (.node (.deferred (.body 0 "root" 0)))
    [.element "ul" [("class","x")] [.text "a"]] := by
  have drives : ∀ token store, Ready (fun _ => {}) store ∅ → ∃ after,
      (Attr.driven 4 "class" 3).drive lateList token store = .ok ("class","x") after ∧
        Handed (fun _ => {}) store ∅ after ∅ :=
    fun _ _ ready => ⟨_,rfl,(Handed.refl ready).noted _⟩
  have others : SteadyNames lateList (fun _ => {}) ∅ [] [] := .nil
  have names : SteadyNames lateList (fun _ => {}) ∅ [.driven 4 "class" 3] [("class","x")] :=
    .cons drives others (by simp) (by simp)
  have text : LateSteady ∅ (.node (.text "a")) [.text "a"] := .leaf rfl
  have list : LateSteady ∅ (.node (.element "ul" [.driven 4 "class" 3] [.text "a"]))
      [.element "ul" [("class","x")] [.text "a"]] :=
    .element names (line_single text) (by simp) (by simp)
  exact body_steady (fun _ _ => rfl) (body_steady (fun _ _ => rfl) list)

theorem lateList_composed : ∃ whole after,
    Node.appendAll (.deferred (.body 0 "root" 0)) lateAdditions ({supply := 5} : Store) =
      .ok whole after ∧
        Rendering.Renders lateList whole none .default after (.ok "<ul class=\"x\">abzz<hr></ul>") := by
  have ready : Ready (fun _ => {}) ({supply := 5} : Store) (∅ ∪ {2}) :=
    ⟨by simp,fun _ _ => rfl,fun _ _ => ⟨rfl,rfl⟩,fun _ => rfl⟩
  obtain ⟨_,_,whole,after,left,composed,ready',written⟩ :=
    composition_in_order lateList_steady lateAdditions_steady (by simp) ready
      (rfl : Options.default.doctype = none) rfl
  exact ⟨whole,after,composed,written after none ready'⟩

end Markup
