import Mathlib.Data.List.TakeWhile
import Markup.Proofs.Additions

namespace Markup

variable {κ : Type}

namespace Node

def isComment : Node κ → Bool
  | .comment _ => true
  | _ => false

def isRaw : Node κ → Bool
  | .raw _ => true
  | _ => false

def withPayload (value : String) : Node κ → Node κ
  | .text _ => .text value
  | .raw _ => .raw value
  | .comment _ => .comment value
  | node => node

def kept : Node κ → List (Node κ) → List (Node κ)
  | .text _,leaves =>
    (leaves.takeWhile (!·.isComment)).filter (!·.isRaw) ++ leaves.dropWhile (!·.isComment)
  | _,leaves => leaves

def leftOut : Node κ → List (Node κ) → List (Node κ)
  | .text _,leaves => (leaves.takeWhile (!·.isComment)).filter isRaw
  | _,_ => []

def merged (a : Node κ) (leaves : List (Node κ)) : Node κ :=
  let value := a.payload ++ String.join ((a.kept leaves).map payload)
  if a.isComment || leaves.any isComment then .comment value else a.withPayload value

end Node

def Store.discarding (store : Store) (payloads : List String) : Store :=
  {store with journal := (payloads.map .discarded).reverse ++ store.journal}

theorem discarding_append (store : Store) (first more : List String) :
    store.discarding (first ++ more) = (store.discarding first).discarding more := by
  simp [Store.discarding]

namespace Node

theorem leaf_kinds {a : Node κ} (leaf : a.isLeaf = true) :
    (∃ value, a = .text value) ∨ (∃ value, a = .raw value) ∨ ∃ value, a = .comment value := by
  cases a with
  | text value => exact .inl ⟨value,rfl⟩
  | raw value => exact .inr (.inl ⟨value,rfl⟩)
  | comment value => exact .inr (.inr ⟨value,rfl⟩)
  | _ => cases leaf

theorem merged_nil {a : Node κ} (leaf : a.isLeaf = true) : a.merged [] = a := by
  rcases leaf_kinds leaf with ⟨value,rfl⟩ | ⟨value,rfl⟩ | ⟨value,rfl⟩ <;>
    simp [merged,kept,isComment,withPayload,payload]

theorem leftOut_nil (a : Node κ) : a.leftOut [] = [] := by
  cases a <;> rfl

theorem merged_leaf {a : Node κ} (leaf : a.isLeaf = true) (leaves : List (Node κ)) :
    (a.merged leaves).isLeaf = true := by
  unfold merged
  split
  · rfl
  · rcases leaf_kinds leaf with ⟨value,rfl⟩ | ⟨value,rfl⟩ | ⟨value,rfl⟩ <;> rfl

section pairs

variable {a b : Node κ} (leaf : a.isLeaf = true) (leaf' : b.isLeaf = true)

include leaf leaf'

theorem joinLeaves_merged (store : Store) : a.joinLeaves b store =
    .ok (a.merged [b]) (store.discarding ((a.leftOut [b]).map payload)) := by
  rcases leaf_kinds leaf with ⟨value,rfl⟩ | ⟨value,rfl⟩ | ⟨value,rfl⟩ <;>
    rcases leaf_kinds leaf' with ⟨other,rfl⟩ | ⟨other,rfl⟩ | ⟨other,rfl⟩ <;>
    simp [joinLeaves,merged,kept,leftOut,isComment,isRaw,withPayload,payload,
      List.filter_cons,Store.discarding,Store.noted]

theorem merged_cons (rest : List (Node κ)) :
    a.merged (b :: rest) = (a.merged [b]).merged rest := by
  rcases leaf_kinds leaf with ⟨value,rfl⟩ | ⟨value,rfl⟩ | ⟨value,rfl⟩ <;>
    rcases leaf_kinds leaf' with ⟨other,rfl⟩ | ⟨other,rfl⟩ | ⟨other,rfl⟩ <;>
    simp [merged,kept,isComment,isRaw,withPayload,payload,String.append_assoc]

theorem leftOut_cons (rest : List (Node κ)) :
    a.leftOut (b :: rest) = a.leftOut [b] ++ (a.merged [b]).leftOut rest := by
  rcases leaf_kinds leaf with ⟨value,rfl⟩ | ⟨value,rfl⟩ | ⟨value,rfl⟩ <;>
    rcases leaf_kinds leaf' with ⟨other,rfl⟩ | ⟨other,rfl⟩ | ⟨other,rfl⟩ <;>
    simp [merged,leftOut,kept,isComment,isRaw,withPayload,payload,List.filter_cons]

end pairs

end Node

open Node

theorem leaf_append {a b : Node κ} (leaf : a.isLeaf = true) (leaf' : b.isLeaf = true)
    (store : Store) : a.append b store =
      .ok (a.merged [b]) (store.discarding ((a.leftOut [b]).map payload)) := by
  rw [append_leaf leaf (leaf_proper leaf').2.1,if_pos leaf',joinLeaves_merged leaf leaf']

theorem leaves_merge {leaves : List (Node κ)} (all : ∀ b ∈ leaves, b.isLeaf = true) :
    ∀ {a : Node κ} (_ : a.isLeaf = true) (store : Store), a.appendAll leaves store =
      .ok (a.merged leaves) (store.discarding ((a.leftOut leaves).map payload)) := by
  induction leaves with
  | nil =>
    intro a leaf store
    rw [merged_nil leaf,leftOut_nil]
    rfl
  | cons b rest ih =>
    intro a leaf store
    obtain ⟨here,later⟩ : b.isLeaf = true ∧ ∀ other ∈ rest, other.isLeaf = true := by
      simpa using all
    rw [appendAll_cons (leaf_append leaf here store),ih later (merged_leaf leaf [b]),
      merged_cons leaf here rest,leftOut_cons leaf here rest,List.map_append,discarding_append]

namespace Node

def isOpen : Node κ → Bool
  | .element .. | .fragment _ => true
  | _ => false

def taking : Node κ → List (Node κ) → Node κ
  | .element tag attributes children,more => .element tag attributes (children ++ more)
  | .fragment children,more => .fragment (children ++ more)
  | leaf,more => .fragment (leaf :: more)

theorem taking_open (a : Node κ) (more : List (Node κ)) : (a.taking more).isOpen = true := by
  cases a <;> rfl

theorem taking_taking (a : Node κ) (one other : List (Node κ)) :
    (a.taking one).taking other = a.taking (one ++ other) := by
  cases a <;> simp [taking]

theorem taking_nil {a : Node κ} (opens : a.isOpen = true) : a.taking [] = a := by
  cases a with
  | element tag attributes children => simp [taking]
  | fragment children => simp [taking]
  | _ => cases opens

theorem taking_leaf {a : Node κ} (leaf : a.isLeaf = true) (more : List (Node κ)) :
    a.taking more = .fragment (a :: more) := by
  rcases leaf_kinds leaf with ⟨value,rfl⟩ | ⟨value,rfl⟩ | ⟨value,rfl⟩ <;> rfl

theorem taking_proper {a : Node κ} (proper : a.Proper) {more : List (Node κ)}
    (inside : ∀ node ∈ more, node.isNode = true) : (a.taking more).Proper := by
  cases a with
  | fragment children =>
    refine ⟨rfl,fun node member => ?_⟩
    exact (List.mem_append.mp member).elim (proper.2 node) (inside node)
  | element tag attributes children =>
    refine ⟨rfl,fun node member => ?_⟩
    rw [List.mem_singleton.mp member]
    rfl
  | _ =>
    refine ⟨rfl,fun node member => ?_⟩
    rcases List.mem_cons.mp member with rfl | later
    · exact proper.1
    · exact inside node later

end Node

theorem append_taking {a b : Node κ} (known : a.isOpen = true ∨ a.isLeaf = true ∧ b.isLeaf = false)
    (proper : a.Proper) (proper' : b.Proper) (store : Store) :
    a.append b store = .ok (a.taking b.pieces) store := by
  rcases known with opens | ⟨leaf,noLeaf⟩
  · cases a with
    | element tag attributes children => exact append_element proper'.1 tag attributes children store
    | fragment children => exact append_fragment proper'.1 proper.2 store proper'.2
    | _ => cases opens
  · have inside : ∀ node ∈ a :: b.pieces, node.isNode = true := by
      intro node member
      rcases List.mem_cons.mp member with rfl | piece
      · exact proper.1
      · exact proper'.2 node piece
    rw [append_leaf leaf proper'.1,if_neg (by simp [noLeaf]),fragment_apply inside,
      taking_leaf leaf]

theorem open_takes {nodes : List (Node κ)} (proper' : ∀ b ∈ nodes, b.Proper) :
    ∀ {a : Node κ} (_ : a.isOpen = true) (_ : a.Proper) (store : Store),
      a.appendAll nodes store = .ok (a.taking (nodes.flatMap pieces)) store := by
  induction nodes with
  | nil =>
    intro a opens proper store
    rw [List.flatMap_nil,taking_nil opens]
    rfl
  | cons b rest ih =>
    intro a opens proper store
    obtain ⟨here,later⟩ : b.Proper ∧ ∀ other ∈ rest, other.Proper := by simpa using proper'
    rw [appendAll_cons (append_taking (.inl opens) proper here store),
      ih later (taking_open a _) (taking_proper proper here.2),taking_taking,List.flatMap_cons]

theorem leaf_gathers {a b : Node κ} {rest : List (Node κ)} (leaf : a.isLeaf = true)
    (noLeaf : b.isLeaf = false) (proper' : ∀ c ∈ b :: rest, c.Proper) (store : Store) :
    a.appendAll (b :: rest) store = .ok (a.taking ((b :: rest).flatMap pieces)) store := by
  obtain ⟨here,later⟩ : b.Proper ∧ ∀ c ∈ rest, c.Proper := by simpa using proper'
  have proper := (leaf_proper leaf).2
  rw [appendAll_cons (append_taking (.inr ⟨leaf,noLeaf⟩) proper here store),
    open_takes later (taking_open a _) (taking_proper proper here.2),taking_taking,
    List.flatMap_cons]

-- What appending nodes to a leaf comes to. The leaves in front are merged, and
-- what is left out is reported; from the first other node on everything is
-- gathered in a fragment. Nothing else happens to the store.
structure Merges (a : Node κ) (nodes : List (Node κ)) (store : Store) : Prop where
  leaf : (a.merged (nodes.takeWhile isLeaf)).isLeaf = true
  front : a.appendAll (nodes.takeWhile isLeaf) store =
    .ok (a.merged (nodes.takeWhile isLeaf))
      (store.discarding ((a.leftOut (nodes.takeWhile isLeaf)).map payload))
  whole : a.appendAll nodes store =
    .ok (if nodes.dropWhile isLeaf = [] then a.merged (nodes.takeWhile isLeaf)
      else .fragment (a.merged (nodes.takeWhile isLeaf) ::
        (nodes.dropWhile isLeaf).flatMap pieces))
      (store.discarding ((a.leftOut (nodes.takeWhile isLeaf)).map payload))

theorem leaf_merges {a : Node κ} {nodes : List (Node κ)} (leaf : a.isLeaf = true)
    (proper : ∀ b ∈ nodes, b.Proper) (store : Store) : Merges a nodes store := by
  have all : ∀ b ∈ nodes.takeWhile isLeaf, b.isLeaf = true :=
    fun b inside => List.mem_takeWhile_imp inside
  have front := leaves_merge all leaf store
  refine ⟨merged_leaf leaf _,front,?_⟩
  have split : nodes.takeWhile isLeaf ++ nodes.dropWhile isLeaf = nodes :=
    List.takeWhile_append_dropWhile
  cases others : nodes.dropWhile isLeaf with
  | nil =>
    rw [others,List.append_nil] at split
    rw [if_pos rfl]
    rwa [split] at front ⊢
  | cons b rest =>
    rw [if_neg (List.cons_ne_nil b rest),←others]
    have noLeaf : b.isLeaf = false := by
      have stop := List.head_dropWhile_not isLeaf (l := nodes) (by simp [others])
      simpa [others] using stop
    have inside : ∀ c ∈ b :: rest, c.Proper :=
      fun c member => proper c (by rw [←split,others]; exact List.mem_append_right _ member)
    have more := appendAll_append front (b :: rest)
    rw [←others,split] at more
    rw [more,others,leaf_gathers (merged_leaf leaf _) noLeaf inside,
      taking_leaf (merged_leaf leaf _)]

def mixedNodes : List (Node Nat) :=
  [.raw "<hr>",.text "b",.comment "c",.raw "<br>",.fragment [.text "d"],.text "e"]

theorem mixedNodes_merge : (Node.text "a" : Node Nat).isLeaf = true ∧
    (∀ b ∈ mixedNodes, b.Proper) ∧ Merges (.text "a") mixedNodes {} ∧
      (Node.text "a").appendAll mixedNodes {} =
        .ok (.fragment [.comment "abc<br>",.text "d",.text "e"])
          {journal := [.discarded "<hr>"]} := by
  have leaf : (Node.text "a" : Node Nat).isLeaf = true := rfl
  have proper : ∀ b ∈ mixedNodes, b.Proper := by
    simp [mixedNodes,Node.Proper,pieces,isNode]
  exact ⟨leaf,proper,leaf_merges leaf proper {},rfl⟩

end Markup
