import Markup.Proofs.Flattening

namespace Markup

variable {κ : Type}

open Flattening

namespace Node

def holding : Node κ → List (Attr κ) → List (Node κ) → Node κ
  | .element tag attributes children,named,more =>
    .element tag (attributes ++ named) (children ++ more)
  | .fragment children,_,more => .fragment (children ++ more)
  | node,_,_ => node

def CanHold : Node κ → List (Node κ) → Prop
  | .element ..,_ => True
  | .fragment children,more => ∀ child ∈ children ++ more, child.isNode = true
  | _,_ => False

theorem holding_nil {a : Node κ} (room : a.CanHold more) : a.holding [] [] = a := by
  cases a <;> first | exact room.elim | simp [holding]

theorem holding_holding (a : Node κ) (named others : List (Attr κ)) (one more : List (Node κ)) :
    (a.holding named one).holding others more = a.holding (named ++ others) (one ++ more) := by
  cases a <;> simp [holding]

theorem canHold_append {a : Node κ} {one more : List (Node κ)} :
    a.CanHold (one ++ more) ↔ a.CanHold one ∧ ∀ named, (a.holding named one).CanHold more := by
  cases a with
  | element | text | raw | comment | deferred | sequence | foreign => simp [CanHold,holding]
  | fragment children =>
    simp only [CanHold,holding,forall_const,List.append_assoc]
    refine ⟨fun all => ⟨fun child inside => all child ?_,all⟩,fun all => all.2⟩
    exact List.mem_append.mpr ((List.mem_append.mp inside).imp_right (List.mem_append_left more))

theorem append_canHold {a b : Node κ} (room : a.CanHold b.pieces) (proper : b.isNode = true)
    (store : Store) : a.append b store = .ok (a.holding [] b.pieces) store := by
  cases a with
  | element tag attributes children =>
    rw [append_element proper,holding,List.append_nil]
  | fragment children =>
    simp only [CanHold,List.mem_append] at room
    exact append_fragment proper (fun child inside => room child (.inl inside)) store
      fun child inside => room child (.inr inside)
  | _ => exact room.elim

theorem addAttribute_canHold {a : Node κ} (room : a.CanHold []) (attr : Attr κ) (store : Store) :
    a.addAttribute attr store = .ok (a.holding [attr] []) store := by
  cases a with
  | element tag attributes children => simp [addAttribute,holding]
  | fragment children => simp [addAttribute,holding,requireNode,isNode]
  | _ => exact room.elim

end Node

namespace Flattening

theorem attributesOf_append (found others : List (Found κ)) :
    attributesOf (found ++ others) = attributesOf found ++ attributesOf others := by
  simp [attributesOf]

theorem childrenOf_append (found others : List (Found κ)) :
    childrenOf (found ++ others) = childrenOf found ++ childrenOf others := by
  simp [childrenOf]

def ended (whole : Node κ) (after : Store) : Ending κ → EStateM.Result Fault Store (Node κ)
  | .all => .ok whole after
  | .refused value => .error (.unusable value.kind) after
  | .broke fault => .error fault after

theorem ended_halts (whole : Node κ) (after : Store) {ending : Ending κ} (early : ending ≠ .all) :
    ∃ fault, ended whole after ending = .error fault after := by
  cases ending with
  | all => exact absurd rfl early
  | refused value => exact ⟨_,rfl⟩
  | broke fault => exact ⟨_,rfl⟩

end Flattening

section adding

variable {host : Host κ} {depth : Nat}

theorem holding_none {a : Node κ} (room : a.CanHold (childrenOf [])) :
    a.holding (attributesOf []) (childrenOf []) = a :=
  Node.holding_nil room

def Node.reader (host : Host κ) : Nat → Ident → List κ → Node κ → Action (Node κ)
  | 0,_,_,_ => throw .tooDeep
  | depth + 1,id,items,node => LazyList.fold host id items (Node.addTo host depth) node

theorem addTo_reader (host : Host κ) (depth : Nat) (a value : Node κ) :
    a.addTo host depth value = a.addWith (Node.reader host depth) value := by
  cases depth <;> rfl

theorem addAllWith_foldlM (host : Host κ) (depth : Nat) (items : List (Node κ)) :
    ∀ a : Node κ, Node.addAllWith (Node.reader host depth) a items =
      items.foldlM (Node.addTo host depth) a := by
  induction items with
  | nil => exact fun _ => rfl
  | cons item rest ih =>
    intro a
    simp only [Node.addAllWith,List.foldlM_cons,addTo_reader,ih]

theorem childrenOf_single {value child : Node κ} {id : Ident} (here : value.child? id = some child) :
    childrenOf [(id,value)] = child.pieces := by
  simp [childrenOf,here]

theorem listed_added {a value : Node κ} {items : List (Node κ)} (holds : value.items? = some items) :
    a.addTo host depth value = items.foldlM (Node.addTo host depth) a := by
  rw [addTo_reader,←addAllWith_foldlM]
  rcases items_kinds holds with rfl | rfl | ⟨_,_,_,rfl⟩ <;> rfl

theorem single_added {read : Ident → List κ → Node κ → Action (Node κ)} {a value : Node κ}
    {store : Store} (single : value.isSingle = true) (usable : value.isRefused = false)
    (room : a.CanHold (childrenOf [(store.supply,value)])) :
    a.addWith read value store =
      .ok (a.holding (attributesOf [(store.supply,value)]) (childrenOf [(store.supply,value)]))
        (wrapping value store) := by
  have appends : ∀ (child : Node κ) (after : Store), value.child? store.supply = some child →
      child.isNode = true → attributesOf [(store.supply,value)] = [] →
        a.append child after = .ok (a.holding (attributesOf [(store.supply,value)])
          (childrenOf [(store.supply,value)])) after := by
    intro child after here proper named
    rw [childrenOf_single here] at room ⊢
    rw [named]
    exact Node.append_canHold room proper after
  cases value with
  | foreign value =>
    cases value with
    | attr attr => exact Node.addAttribute_canHold room attr store
    | string | safe | html => exact appends _ store rfl rfl rfl
    | once | feed => exact appends _ store.issued rfl rfl rfl
    | null | list | tuple | marked | «lazy» => cases single
    | _ => cases usable
  | _ => exact appends _ store rfl rfl rfl

theorem refused_added {read : Ident → List κ → Node κ → Action (Node κ)} {a value : Node κ}
    (unusable : value.isRefused = true) (store : Store) :
    a.addWith read value store = .error (.unusable value.kind) store := by
  cases value with
  | foreign value => cases value <;> first | rfl | cases unusable
  | _ => cases unusable

-- The actions that add what is given to a node. One that reads a computed list
-- has reads left for all of its items and for the end.
inductive Adding (host : Host κ) (depth : Nat) :
    Given κ → Store → Node κ → Action (Node κ) → Prop where
  | value : Adding host depth (.value value) store a (a.addTo host depth value)
  | listed : Adding host depth (.stock (.listed items)) store a
    (items.foldlM (Node.addTo host depth) a)
  | computed {source : Ident} {codes : List κ}
      (enough : codes.length - (store.cursor source).position < fuel) :
    Adding host depth (.stock (.computed source codes)) store a
      (LazyList.fold.go host source codes (Node.addTo host depth) fuel a)

section stocks

variable {stock : Stock κ} {a : Node κ} {store : Store} {adds : Action (Node κ)}

theorem go_reads (id : Ident) (codes : List κ) (fuel : Nat) (a : Node κ) (store : Store) :
    LazyList.fold.go host id codes (Node.addTo host depth) (fuel + 1) a store =
      match LazyList.next host id codes store with
      | .ok none after => .ok a after
      | .ok (some value) after =>
        (a.addTo host depth value >>=
          LazyList.fold.go host id codes (Node.addTo host depth) fuel) after
      | .error fault after => .error fault after := by
  rw [LazyList.fold.go,Action.bind_apply]
  cases LazyList.next host id codes store with
  | error fault after => rfl
  | ok found after => cases found <;> rfl

theorem adding_reads (forward : host.Forward) (adding : Adding host depth (.stock stock) store a adds) :
    match stock.next host store with
    | .ok none after => adds store = .ok a after
    | .error fault after => adds store = .error fault after
    | .ok (some (value,rest)) start => ∃ later : Node κ → Action (Node κ),
      adds store = (a.addTo host depth value >>= later) start ∧
        ∀ b middle, Forward start middle → Adding host depth (.stock rest) middle b (later b) := by
  cases adding with
  | listed =>
    rename_i items
    cases items with
    | nil => rfl
    | cons item tail =>
      refine ⟨fun b => tail.foldlM (Node.addTo host depth) b,?_,fun b middle _ => .listed⟩
      rw [List.foldlM_cons]
  | computed enough =>
    rename_i fuel source codes
    obtain ⟨fuel,rfl⟩ : ∃ one, fuel = one + 1 := ⟨fuel - 1,by omega⟩
    rw [computed_next,go_reads]
    rcases lazy_reads forward source codes store with ⟨after,reads,_⟩ | ⟨fault,after,reads,_⟩ |
      ⟨value,start,reads,_,inside,place⟩ <;> simp only [reads]
    refine ⟨fun b => LazyList.fold.go host source codes (Node.addTo host depth) fuel b,rfl,?_⟩
    intro b middle further
    have there := further source
    exact .computed (by omega)

end stocks

-- The induction follows the values as they are found, for every node that they
-- may be added to: each of them goes to what the ones before it have made.
theorem flattens_adds (forward : host.Forward) {given : Given κ}
    (flattens : Flattens host depth given store found ending after) :
    ∀ {a : Node κ} {adds : Action (Node κ)}, Adding host depth given store a adds →
      a.CanHold (childrenOf found) →
        adds store = ended (a.holding (attributesOf found) (childrenOf found)) after ending := by
  induction flattens with
  | null =>
    intro a adds adding room
    cases adding
    rw [addTo_reader,ended,holding_none room]
    rfl
  | found single usable =>
    intro a adds adding room
    cases adding
    rw [addTo_reader]
    exact single_added single usable room
  | refused unusable =>
    intro a adds adding room
    cases adding
    rw [addTo_reader]
    exact refused_added unusable _
  | listed holds _ ih =>
    intro a adds adding room
    cases adding
    rw [listed_added holds]
    exact ih .listed room
  | computed _ ih =>
    intro a adds adding room
    cases adding
    exact ih (.computed (by omega)) room
  | deep =>
    intro a adds adding room
    cases adding
    rfl
  | done ends =>
    intro a adds adding room
    have reads := adding_reads forward adding
    rw [ends] at reads
    rw [ended,holding_none room]
    exact reads
  | more reads here _ ih later =>
    intro a adds adding room
    rw [childrenOf_append,Node.canHold_append] at room
    have next := adding_reads forward adding
    rw [reads] at next
    obtain ⟨others,same,adding'⟩ := next
    have added := ih .value room.1
    rw [same,Action.bind_apply,added,childrenOf_append,attributesOf_append,←Node.holding_holding]
    exact later (adding' _ _ (flattens_forward forward here)) (room.2 _)
  | halts reads _ early ih =>
    intro a adds adding room
    have next := adding_reads forward adding
    rw [reads] at next
    obtain ⟨others,same,_⟩ := next
    obtain ⟨fault,stops⟩ := ended_halts _ _ early
    rw [same,Action.bind_apply,ih .value room,stops]
  | fails failed =>
    intro a adds adding room
    have reads := adding_reads forward adding
    rw [failed] at reads
    exact reads

end adding

theorem child_pieces {value child : Node κ} {id : Ident} (here : value.child? id = some child)
    (proper : value.isNode = true → value.Proper) : ∀ piece ∈ child.pieces, piece.isNode = true := by
  cases value with
  | foreign value =>
    cases value <;> simp only [Node.child?,Option.some.injEq,reduceCtorEq] at here <;> subst here <;>
      simp [Node.pieces,Node.isNode]
  | _ =>
    cases here
    exact (proper rfl).2

theorem childrenOf_nodes {found : List (Found κ)}
    (proper : ∀ pair ∈ found, pair.2.isNode = true → pair.2.Proper) :
    ∀ child ∈ childrenOf found, child.isNode = true := by
  intro piece inside
  obtain ⟨child,member,here⟩ := List.mem_flatMap.mp inside
  obtain ⟨pair,member',same⟩ := List.mem_filterMap.mp member
  exact child_pieces same (proper pair member') piece here

theorem build_adds {host : Host κ} {selector : String} {shape : Selector}
    (parsed : Selector.read selector = .ok shape) (arguments : List (Node κ)) (store : Store) :
    build host selector arguments store =
      arguments.foldlM (Node.addTo host host.depth) shape.element store := by
  have known : (parseElement selector : Action (Node κ)) store = .ok shape.element store := by
    rw [parseElement,parsed]
    rfl
  rw [build,Action.bind_apply,known]
  rfl

-- What the arguments of an element and of a fragment come to. Depth first they
-- come to single values, always to the same; an element is built of all of them,
-- a fragment of those that are no attributes. Both fail with a value that cannot
-- be used, and where the computation of an item fails. Arguments without computed
-- lists come to what is listed in them, from every store.
structure Described (host : Host κ) (selector : String) (shape : Selector)
    (arguments : List (Node κ)) (store : Store) (found : List (Found κ)) (ending : Ending κ)
    (after : Store) : Prop where
  flattens : Flattens host host.depth (.stock (.listed arguments)) store found ending after
  deeper : ending ≠ .broke .tooDeep → ∀ {depth}, host.depth ≤ depth →
    Flattens host depth (.stock (.listed arguments)) store found ending after
  only : ∀ {found' ending' after'},
    Flattens host host.depth (.stock (.listed arguments)) store found' ending' after' →
      found' = found ∧ ending' = ending ∧ after' = after
  element : build host selector arguments store = ended (.element shape.tag
    (shape.attributes.map (fun part => .fixed part.name part.value) ++ attributesOf found)
    (childrenOf found)) after ending
  fragment : (∀ pair ∈ found, pair.2.isNode = true → pair.2.Proper) →
    gather host arguments store = ended (.fragment (childrenOf found)) after ending
  refused : (∃ pair ∈ found, pair.2.isRefused = true) ↔
    ∃ value, ending = .refused value ∧ value.isRefused = true ∧
      build host selector arguments store = .error (.unusable value.kind) after
  plain : (∀ value ∈ Node.flatAll arguments, value.isLazy = false) → Issued store after ∧
    ((∃ value ∈ Node.flatAll arguments, value.isRefused = true) ∧ (∃ value, ending = .refused value) ∨
      (∀ value ∈ Node.flatAll arguments, value.isRefused = false) ∧ ending = .all ∧
        found.map Prod.snd = Node.flatAll arguments)

theorem arguments_describe {host : Host κ} (forward : host.Forward) {selector : String}
    {shape : Selector} (parsed : Selector.read selector = .ok shape) (arguments : List (Node κ))
    (store : Store) :
    ∃ found ending after, Described host selector shape arguments store found ending after := by
  obtain ⟨found,ending,after,flattens⟩ :=
    items_total (fun id items => flattens_total forward host.depth (.foreign (.lazy id items)))
      arguments store
  have tells := flattens_toldBy flattens
  have whole : build host selector arguments store = ended (.element shape.tag
      (shape.attributes.map (fun part => .fixed part.name part.value) ++ attributesOf found)
      (childrenOf found)) after ending := by
    rw [build_adds parsed]
    exact flattens_adds forward flattens .listed trivial
  refine ⟨found,ending,after,flattens,fun known => flattens_deeper flattens known,
    flattens_unique flattens,whole,fun proper => ?_,?_,fun plain => ?_⟩
  · exact flattens_adds forward flattens .listed (childrenOf_nodes proper)
  · rw [toldBy_refused tells,whole]
    constructor
    · rintro ⟨value,rfl⟩
      exact ⟨value,rfl,tells.1,rfl⟩
    · exact fun ⟨value,same,_⟩ => ⟨value,same⟩
  · have lists := listing_flattens flattens rfl plain
    exact ⟨lists.issued,plain_ending lists tells⟩

def menuHost : Host Nat where
  depth := 2
  run
    | 0,_ => return .text "x"
    | 1,_ => return .foreign (.attr (.fixed "title" "t"))
    | _,_ => return .foreign (.lazy 7 [0])

def menuArguments : List (Node Nat) :=
  [.string "a",.null,.foreign (.list [.foreign (.attr (.fixed "role" "list")),
    .foreign (.tuple [.string "b",.foreign (.once 5 "wait" 0)])]),
    .foreign (.lazy 6 [0,1,2]),.fragment [.text "c",.raw "<hr>"]]

theorem menu_described : menuHost.Forward ∧
    Selector.read "ul.menu" = .ok ⟨"ul",[⟨"class","menu"⟩]⟩ ∧
      (∃ found ending after, Described menuHost "ul.menu" ⟨"ul",[⟨"class","menu"⟩]⟩ menuArguments
        {supply := 8} found ending after) ∧
        ∃ after, build menuHost "ul.menu" menuArguments {supply := 8} =
          .ok (.element "ul" [.fixed "class" "menu",.fixed "role" "list",.fixed "title" "t"]
            [.text "a",.text "b",.deferred (.coerce 8 (.foreign (.once 5 "wait" 0))),.text "x",
              .text "x",.text "c",.raw "<hr>"]) after := by
  have forward : menuHost.Forward := by
    intro code store
    match code with
    | 0 | 1 | _ + 2 => exact .refl store
  have parsed : Selector.read "ul.menu" = .ok ⟨"ul",[⟨"class","menu"⟩]⟩ := by decide +kernel
  exact ⟨forward,parsed,arguments_describe forward parsed menuArguments {supply := 8},_,
    (build_adds parsed menuArguments _).trans rfl⟩

end Markup
