import Markup.Proofs.Leaves

namespace Markup

variable {κ : Type} {host : Host κ} {begun : Ident → Cursor} {own other : Set Ident}

open Node

namespace Node

def groupedLeft (a middle b : Node κ) : Action (Node κ) := do
  (← a.append middle).append b

def groupedRight (a middle b : Node κ) : Action (Node κ) := do
  a.append (← middle.append b)

def appendCollected (a : Node κ) (bs : List (Node κ)) : Action (Node κ) := do
  a.append (← (Node.fragment []).appendAll bs)

end Node

namespace Tree

def joined (root : Tree) (more : List Tree) : Tree :=
  if root.holds then root.grown more else .fragment (root :: more)

theorem joined_holds (root : Tree) (more : List Tree) : (root.joined more).holds = true := by
  unfold joined
  split
  · rename_i holds
    exact grown_holds holds more
  · rfl

end Tree

theorem joined_leaf {node : Node κ} {root : Tree} (text : leafTree node = some root) :
    node.isLeaf = true ∧ root.holds = false := by
  cases node <;> simp only [leafTree,Option.some.injEq,reduceCtorEq] at text <;> subst text <;>
    exact ⟨rfl,rfl⟩

theorem leaf_composes {part : Part κ} {trees : List Tree} (steady : Steady host begun own part trees)
    {kids : List (Node κ)} {more : List Tree} :
    ∀ {a : Node κ} {root : Tree}, part = .node a → trees = [root] → root.holds = false →
      ∀ {other : Set Ident}, (∀ id ∈ own, id ∉ other) →
        Steady host begun other (.line (kids.map .node)) more →
          Composes host begun own other a (.fragment kids) (.fragment (root :: more)) := by
  induction steady with
  | leaf text =>
    rintro _ _ ⟨⟩ ⟨⟩ - other apart second store ready
    rename_i node root own
    obtain ⟨leaf,_⟩ := joined_leaf text
    have line : Steady host begun (own ∪ other) (.line ((node :: kids).map .node)) (root :: more) :=
      .cons (.leaf text) second apart Set.Subset.rfl
    refine ⟨_,store,own ∪ other,?_,.refl ready,.fragment line⟩
    rw [append_leaf leaf rfl,if_neg (by simp [Node.isLeaf])]
    exact fragment_apply line.allNodes store
  | element | fragment | sequence =>
    rintro _ _ ⟨⟩ ⟨⟩ holds
    cases holds
  | deferred drives more ih =>
    rintro _ _ ⟨⟩ ⟨⟩ holds other apart second
    exact composes_late drives rfl apart fun token store ready separate =>
      ih token store ready rfl rfl holds separate second
  | nil | cons | skip | given => rintro a root ⟨⟩

theorem fragment_composes {a : Node κ} {root : Tree} {kids : List (Node κ)} {more : List Tree}
    (first : Steady host begun own (.node a) [root])
    (second : Steady host begun other (.line (kids.map .node)) more)
    (apart : ∀ id ∈ own, id ∉ other) :
    Composes host begun own other a (.fragment kids) (root.joined more) := by
  unfold Tree.joined
  split
  · rename_i holds
    have appends := append_steady first rfl rfl holds apart (.fragment second)
    rwa [Appends,addition_other (by simp)] at appends
  · rename_i leaf
    exact leaf_composes first rfl rfl (by simpa using leaf) apart second

-- The trees of the two groupings differ in the items of a series at most, and a
-- series is written like its items one after the other.
theorem grown_alike {options : Options} {root : Tree} {one other : List Tree}
    (written : Tree.chunksAll options one = Tree.chunksAll options other)
    (same : (∀ items, root ≠ .series items) → one = other) :
    (root.grown one).chunks options = (root.grown other).chunks options := by
  cases root with
  | series items => simp [Tree.grown,Tree.chunks,Tree.chunksAll_append,written]
  | _ => rw [same (by simp)]

theorem addition_spliced {b : Node κ} {added root : Tree} (known : ∀ items, root ≠ .series items) :
    addition b added root = spliced b added := by
  cases root <;> first | rfl | exact absurd rfl (known _)

theorem joined_alike (options : Options) (b : Node κ) (added root : Tree) (trees : List Tree) :
    ((root.joined trees).grown (addition b added (root.joined trees))).chunks options =
      (root.joined (trees ++ spliced b added)).chunks options := by
  unfold Tree.joined
  split
  · rw [addition_grown,Tree.grown_grown]
    refine grown_alike ?_ fun known => by rw [addition_spliced known]
    simp only [Tree.chunksAll_append,addition_chunks,spliced_chunks]
  · rfl

-- Two ways of building that come to nodes with the same text under the same
-- options, whenever these are rendered.
def WrittenAlike (host : Host κ) (begun : Ident → Cursor)
    (one other : EStateM.Result Fault Store (Node κ)) : Prop :=
  ∃ whole after left whole' after' left', one = .ok whole after ∧ other = .ok whole' after' ∧
    Ready begun after left ∧ Ready begun after' left' ∧ ∀ options, ∃ text,
      WrittenAs host begun left options whole text ∧ WrittenAs host begun left' options whole' text

theorem steady_alike {whole whole' : Node κ} {after after' : Store} {left left' : Set Ident}
    {tree tree' : Tree} (ready : Ready begun after left) (ready' : Ready begun after' left')
    (steady : Steady host begun left (.node whole) [tree])
    (steady' : Steady host begun left' (.node whole') [tree'])
    (same : ∀ options, tree.chunks options = tree'.chunks options) :
    WrittenAlike host begun (.ok whole after) (.ok whole' after') := by
  refine ⟨whole,after,left,whole',after',left',rfl,rfl,ready,ready',fun options => ?_⟩
  refine ⟨tree.markup options,steady_written steady options,?_⟩
  rw [Tree.markup,same options]
  exact steady_written steady' options

section regrouping

variable {a b : Node κ} {kids : List (Node κ)} {root added : Tree} {trees : List Tree} {store : Store}

theorem regrouped_steady {between : Set Ident} (first : Steady host begun own (.node a) [root])
    (middle : Steady host begun between (.line (kids.map .node)) trees)
    (last : Steady host begun other (.node b) [added]) (apart : ∀ id ∈ own, id ∉ between)
    (clear : ∀ id ∈ own ∪ between, id ∉ other) (ready : Ready begun store (own ∪ between ∪ other)) :
    WrittenAlike host begun (a.groupedLeft (.fragment kids) b store)
      (a.groupedRight (.fragment kids) b store) := by
  -- Both groupings come to steady nodes; only their trees are compared in the end.
  have others : Ready begun store other := ready.mono Set.subset_union_right
  obtain ⟨one,start,left,appended,handed,steady⟩ :=
    fragment_composes first middle apart store (ready.mono Set.subset_union_left)
  have beside := handed.beside others clear
  obtain ⟨whole,after,rest,appended',handed',steady'⟩ :=
    append_steady steady rfl rfl (root.joined_holds trees) (handed.apart others clear) last start
      beside.ready
  have clear' : ∀ id ∈ between, id ∉ other := fun id inside => clear id (.inr inside)
  have inner := middle.append (pieces_steady last) clear'
  rw [←List.map_append] at inner
  have inside := append_fragment last.isNode middle.allNodes store (pieces_steady last).allNodes
  have apart' : ∀ id ∈ own, id ∉ between ∪ other := by
    rintro id mine (near | far)
    · exact apart id mine near
    · exact clear id (.inl mine) far
  obtain ⟨whole',after',rest',composed,handed'',steady''⟩ :=
    fragment_composes first inner apart' store (by rwa [←Set.union_assoc])
  have alike := steady_alike handed'.ready handed''.ready steady' steady'' fun options =>
    joined_alike options b added root trees
  simpa only [groupedLeft,groupedRight,Action.bind_apply,appended,appended',inside,composed] using
    alike

theorem regrouped_known (known : a.isOpen = true ∨ a.isLeaf = true) (proper : a.Proper)
    (inside : ∀ node ∈ kids, node.isNode = true) (proper' : b.Proper) (store : Store) :
    a.groupedLeft (.fragment kids) b store = .ok (a.taking (kids ++ b.pieces)) store ∧
      a.groupedRight (.fragment kids) b store = .ok (a.taking (kids ++ b.pieces)) store := by
  have takes : ∀ nodes : List (Node κ), (∀ node ∈ nodes, node.isNode = true) →
      a.append (.fragment nodes) store = .ok (a.taking nodes) store :=
    fun nodes all => append_taking (known.imp_right fun leaf => ⟨leaf,rfl⟩) proper
      (show (Node.fragment nodes).Proper from ⟨rfl,all⟩) store
  have all : ∀ node ∈ kids ++ b.pieces, node.isNode = true := by
    intro node member
    exact (List.mem_append.mp member).elim (inside node) (proper'.2 node)
  constructor
  · simp only [groupedLeft,Action.bind_apply,takes kids inside]
    rw [append_taking (.inl (taking_open a kids)) (taking_proper proper inside) proper' store,
      taking_taking]
  · simp only [groupedRight,Action.bind_apply,append_fragment proper'.1 inside store proper'.2,takes _ all]

theorem collected_known {bs : List (Node κ)} (opens : a.isOpen = true) (proper : a.Proper)
    (proper' : ∀ c ∈ bs, c.Proper) (store : Store) :
    a.appendAll bs store = .ok (a.taking (bs.flatMap pieces)) store ∧
      a.appendCollected bs store = .ok (a.taking (bs.flatMap pieces)) store := by
  have empty : (Node.fragment [] : Node κ).Proper := ⟨rfl,by simp [pieces]⟩
  have all : ∀ node ∈ bs.flatMap pieces, node.isNode = true := by
    intro node member
    obtain ⟨c,inside,piece⟩ := List.mem_flatMap.mp member
    exact (proper' c inside).2 node piece
  refine ⟨open_takes proper' opens proper store,?_⟩
  have whole : (Node.fragment (bs.flatMap pieces)).Proper := ⟨rfl,all⟩
  simp only [appendCollected,Action.bind_apply,open_takes proper' rfl empty store,taking,
    List.nil_append]
  exact append_taking (.inl opens) proper whole store

theorem proper_of_steady (steady : Steady host begun own (.node b) [added]) : b.Proper :=
  ⟨steady.isNode,(pieces_steady steady).allNodes⟩

theorem pieces_line {bs : List (Node κ)} :
    ∀ {other : Set Ident} {trees : List Tree}, Steady host begun other (.line (bs.map .node)) trees →
      (∀ b ∈ bs, b.Proper) ∧ Steady host begun other (.line ((bs.flatMap pieces).map .node))
        (additionAll (.fragment []) bs trees) := by
  induction bs with
  | nil =>
    intro other trees steady
    cases steady
    exact ⟨by simp,.nil⟩
  | cons b rest ih =>
    intro other trees steady
    cases steady with
    | skip late | given late => simp [Piece.isNode] at late
    | cons here more separate within =>
      obtain ⟨added,rfl⟩ := node_single here
      obtain ⟨proper,line⟩ := ih more
      refine ⟨by simpa using ⟨proper_of_steady here,proper⟩,?_⟩
      have whole := ((pieces_steady here).append line separate).mono within
      rwa [←List.map_append] at whole

theorem collected_steady {bs : List (Node κ)} (first : Steady host begun own (.node a) [root])
    (others : Steady host begun other (.line (bs.map .node)) trees)
    (apart : ∀ id ∈ own, id ∉ other) (holds : root.holds = true)
    (ready : Ready begun store (own ∪ other)) :
    WrittenAlike host begun (a.appendAll bs store) (a.appendCollected bs store) := by
  obtain ⟨whole,after,left,appended,ready',steady⟩ := appendAll_grown first others apart holds ready
  obtain ⟨proper,line⟩ := pieces_line others
  have empty : (Node.fragment [] : Node κ).Proper := ⟨rfl,by simp [pieces]⟩
  have collected := open_takes proper rfl empty store
  obtain ⟨whole',after',left',composed,handed,steady'⟩ :=
    fragment_composes first line apart store ready
  have alike := steady_alike ready' handed.ready steady steady' fun options => by
    rw [Tree.joined,if_pos holds]
    refine grown_alike ?_ fun known => ?_
    · rw [additionAll_chunks options (line_length others),
        additionAll_chunks options (line_length others)]
    · have plain : ∀ items, Tree.fragment [] ≠ .series items := by simp
      simp only [additionAll,addition_spliced known,addition_spliced plain]
  rw [appended]
  simpa only [appendCollected,Action.bind_apply,collected,taking,List.nil_append,composed] using
    alike

end regrouping

-- What regrouping around a fragment leaves as it is, for a node in front. Where
-- the parts are steady the text is the same under all options, whatever kinds of
-- nodes stand on both sides; a list of nodes may be collected in a fragment first
-- unless the node in front comes to a leaf, which would take in the leaves among
-- them. What is there already even gives the same node.
structure Regroups (host : Host κ) (begun : Ident → Cursor) (a : Node κ) : Prop where
  around : ∀ {own between other : Set Ident} {kids : List (Node κ)} {b : Node κ} {root added : Tree}
    {trees : List Tree} {store : Store}, Steady host begun own (.node a) [root] →
      Steady host begun between (.line (kids.map .node)) trees →
        Steady host begun other (.node b) [added] → (∀ id ∈ own, id ∉ between) →
          (∀ id ∈ own ∪ between, id ∉ other) → Ready begun store (own ∪ between ∪ other) →
            WrittenAlike host begun (a.groupedLeft (.fragment kids) b store)
              (a.groupedRight (.fragment kids) b store)
  around_known : ∀ {kids : List (Node κ)} {b : Node κ}, a.isOpen = true ∨ a.isLeaf = true →
    a.Proper → (∀ node ∈ kids, node.isNode = true) → b.Proper → ∀ store,
      a.groupedLeft (.fragment kids) b store = .ok (a.taking (kids ++ b.pieces)) store ∧
        a.groupedRight (.fragment kids) b store = .ok (a.taking (kids ++ b.pieces)) store
  collected : ∀ {own other : Set Ident} {bs : List (Node κ)} {root : Tree} {trees : List Tree}
    {store : Store}, Steady host begun own (.node a) [root] →
      Steady host begun other (.line (bs.map .node)) trees → (∀ id ∈ own, id ∉ other) →
        root.holds = true → Ready begun store (own ∪ other) →
          WrittenAlike host begun (a.appendAll bs store) (a.appendCollected bs store)
  collected_known : ∀ {bs : List (Node κ)}, a.isOpen = true → a.Proper → (∀ b ∈ bs, b.Proper) →
    ∀ store, a.appendAll bs store = .ok (a.taking (bs.flatMap pieces)) store ∧
      a.appendCollected bs store = .ok (a.taking (bs.flatMap pieces)) store

theorem fragment_regroups (host : Host κ) (begun : Ident → Cursor) (a : Node κ) :
    Regroups host begun a :=
  ⟨regrouped_steady,regrouped_known,collected_steady,collected_known⟩

theorem lateList_regrouped : ∃ whole after whole' after' text,
    groupedLeft (.deferred (.body 0 "root" 0)) (.fragment lateAdditions)
      (.deferred (.body 4 "last" 2)) ({supply := 5} : Store) = .ok whole after ∧
    groupedRight (.deferred (.body 0 "root" 0)) (.fragment lateAdditions)
      (.deferred (.body 4 "last" 2)) ({supply := 5} : Store) = .ok whole' after' ∧
    Rendering.Renders lateList whole none .default after (.ok text) ∧
      Rendering.Renders lateList whole' none .default after' (.ok text) := by
  have last : LateSteady ∅ (.node (.deferred (.body 4 "last" 2))) [.text "z"] :=
    body_steady (fun _ _ => rfl) (.leaf rfl)
  have ready : Ready (fun _ => {}) ({supply := 5} : Store) (∅ ∪ {2} ∪ ∅) :=
    ⟨by simp,fun _ _ => rfl,fun _ _ => ⟨rfl,rfl⟩,fun _ => rfl⟩
  obtain ⟨whole,after,left,whole',after',left',grouped,grouped',ready,ready',alike⟩ :=
    (fragment_regroups lateList _ _).around lateList_steady lateAdditions_steady last (by simp)
      (by simp) ready
  obtain ⟨text,written,written'⟩ := alike .default
  exact ⟨whole,after,whole',after',text,grouped,grouped',written after none ready,
    written' after' none ready'⟩

end Markup
