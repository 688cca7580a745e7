import Markup.Proofs.Settle

namespace Markup

variable {κ : Type}

-- Values that stand for children: strings, trusted markup, nodes, and lists of
-- such values, which may have nulls in between.
mutual
def Node.isContent : Node κ → Bool
  | .foreign value => value.isContent
  | _ => true
def Foreign.isContent : Foreign κ → Bool
  | .string _ | .safe _ | .html .. => true
  | .list items | .tuple items | .marked _ _ items _ => Node.allContent items
  | _ => false
def Node.allContent : List (Node κ) → Bool
  | [] => true
  | item :: rest => (item.isNull || item.isContent) && Node.allContent rest
end

mutual
def Node.isUnmarked : Node κ → Bool
  | .foreign value => value.isUnmarked
  | _ => true
def Foreign.isUnmarked : Foreign κ → Bool
  | .marked .. => false
  | .list items | .tuple items => Node.allUnmarked items
  | _ => true
def Node.allUnmarked : List (Node κ) → Bool
  | [] => true
  | item :: rest => item.isUnmarked && Node.allUnmarked rest
end

-- Such a value is taken apart in two ways. As an argument it is spread out among
-- the children of the element; where it comes late it is packed into one node,
-- with a fragment for each list. A list that brings markup is spread by its items
-- and packed by its markup.
mutual
def Node.spread : Node κ → List (Node κ)
  | .foreign value => value.spread
  | node => node.pieces
def Foreign.spread : Foreign κ → List (Node κ)
  | .list items | .tuple items | .marked _ _ items _ => Node.spreadAll items
  | value => value.leaf?.toList
def Node.spreadAll : List (Node κ) → List (Node κ)
  | [] => []
  | item :: rest => item.spread ++ Node.spreadAll rest
end

mutual
def Node.packed : Node κ → Node κ
  | .foreign value => value.packed
  | node => node
def Foreign.packed : Foreign κ → Node κ
  | .list items | .tuple items => .fragment (Node.packedAll items)
  | value => value.leaf?.getD (.foreign value)
def Node.packedAll : List (Node κ) → List (Node κ)
  | [] => []
  | item :: rest => if item.isNull then Node.packedAll rest else item.packed :: Node.packedAll rest
end

theorem isNull_iff {item : Node κ} : item.isNull = true ↔ item = .null := by
  constructor
  · intro null
    cases item with
    | foreign value =>
      cases value with
      | null => rfl
      | _ => cases null
    | _ => cases null
  · rintro rfl
    rfl

section building

variable {read : Ident → List κ → Action (List (Node κ))}
  {fill : Ident → List κ → Node κ → Action (Node κ)}

mutual
theorem content_coerced : ∀ (value : Node κ), value.isContent = true →
    value.coerceWith read = pure value.packed
  | .foreign value,content => contentForeign_coerced value content
  | .element ..,_ | .text _,_ | .raw _,_ | .comment _,_ | .fragment _,_ | .deferred _,_
  | .sequence _,_ => rfl
theorem contentForeign_coerced : ∀ (value : Foreign κ), value.isContent = true →
    value.coerceWith read = pure value.packed
  | .list items,content | .tuple items,content => by
    rw [Foreign.coerceWith,allContent_coerced items content,pure_bind,Foreign.packed]
  | .string _,_ | .safe _,_ | .html .., _ | .marked .., _ => rfl
theorem allContent_coerced : ∀ (items : List (Node κ)), Node.allContent items = true →
    Node.coerceAll read items = pure (Node.packedAll items)
  | [],_ => rfl
  | item :: rest,content => by
    rw [Node.allContent,Bool.and_eq_true,Bool.or_eq_true] at content
    rw [Node.coerceAll_cons,Node.packedAll,allContent_coerced rest content.2]
    split
    · rfl
    · rename_i proper
      rw [content_coerced item (content.1.resolve_left proper),pure_bind,pure_bind]
end

mutual
theorem content_added (tag : String) (attributes : List (Attr κ)) :
    ∀ (value : Node κ) (children : List (Node κ)), value.isContent = true →
      (Node.element tag attributes children).addWith fill value =
        pure (.element tag attributes (children ++ value.spread))
  | .foreign value,children,content => contentForeign_added tag attributes value children content
  | .element ..,_,_ | .text _,_,_ | .raw _,_,_ | .comment _,_,_ | .fragment _,_,_
  | .deferred _,_,_ | .sequence _,_,_ => funext fun store => append_element rfl _ _ _ store
theorem contentForeign_added (tag : String) (attributes : List (Attr κ)) :
    ∀ (value : Foreign κ) (children : List (Node κ)), value.isContent = true →
      value.addWith fill (.element tag attributes children) =
        pure (.element tag attributes (children ++ value.spread))
  | .list items,children,content | .tuple items,children,content
  | .marked _ _ items _,children,content => by
    rw [Foreign.addWith,allContent_added tag attributes items children content,Foreign.spread]
  | .string _,_,_ | .safe _,_,_ | .html .., _,_ =>
    funext fun store => append_element rfl _ _ _ store
theorem allContent_added (tag : String) (attributes : List (Attr κ)) :
    ∀ (items children : List (Node κ)), Node.allContent items = true →
      Node.addAllWith fill (.element tag attributes children) items =
        pure (.element tag attributes (children ++ Node.spreadAll items))
  | [],children,_ => by rw [Node.addAllWith,Node.spreadAll,List.append_nil]
  | item :: rest,children,content => by
    rw [Node.allContent,Bool.and_eq_true,Bool.or_eq_true,isNull_iff] at content
    have here : (Node.element tag attributes children).addWith fill item =
        pure (.element tag attributes (children ++ item.spread)) := by
      rcases content.1 with rfl | proper
      · rw [show (Node.null : Node κ).spread = [] from rfl,List.append_nil]
        rfl
      · exact content_added tag attributes item children proper
    rw [Node.addAllWith,here,pure_bind,allContent_added tag attributes rest _ content.2,
      Node.spreadAll,List.append_assoc]
end

end building

section settling

variable {host : Host κ} {token : Token}

def PacksChildren (host : Host κ) (token : Token) (children : List (Node κ)) (node : Node κ) :
    Prop :=
  ∀ store trees after, Settles host token (.nodes children) store (.ok trees) after →
    ∃ tree, Settles host token (.node node) store (.ok [tree]) after ∧
      ∀ options, tree.chunks options = Tree.chunksAll options trees

theorem single_packs (node : Node κ) : PacksChildren host token [node] node := by
  intro store trees after settles
  obtain ⟨found,more,middle,here,none,rfl⟩ := settles_front settles
  obtain ⟨rfl,rfl⟩ := settles_nil none
  obtain ⟨tree,rfl⟩ := List.length_eq_one_iff.mp (settles_counts here _ rfl)
  exact ⟨tree,here,fun options => by simp [Tree.chunksAll]⟩

theorem fragment_packs (children : List (Node κ)) :
    PacksChildren host token children (.fragment children) :=
  fun _ trees _ settles => ⟨.fragment trees,.fragment settles,fun options => by rw [Tree.chunks]⟩

mutual
theorem content_packs : ∀ (value : Node κ), value.isContent = true → value.isUnmarked = true →
    PacksChildren host token value.spread value.packed
  | .foreign value,content,unmarked => contentForeign_packs value content unmarked
  | .fragment children,_,_ => fragment_packs children
  | .element ..,_,_ | .text _,_,_ | .raw _,_,_ | .comment _,_,_ | .deferred _,_,_
  | .sequence _,_,_ => single_packs _
theorem contentForeign_packs : ∀ (value : Foreign κ), value.isContent = true →
    value.isUnmarked = true → PacksChildren host token value.spread value.packed
  | .list items,content,unmarked | .tuple items,content,unmarked => by
    intro store trees after settles
    obtain ⟨kids,inside,same⟩ := allContent_packs items content unmarked settles
    exact ⟨.fragment kids,.fragment inside,fun options => by rw [Tree.chunks,same]⟩
  | .string _,_,_ | .safe _,_,_ | .html .., _,_ => single_packs _
theorem allContent_packs : ∀ (items : List (Node κ)), Node.allContent items = true →
    Node.allUnmarked items = true → ∀ {store after : Store} {trees : List Tree},
      Settles host token (.nodes (Node.spreadAll items)) store (.ok trees) after →
        ∃ kids, Settles host token (.nodes (Node.packedAll items)) store (.ok kids) after ∧
          ∀ options, Tree.chunksAll options kids = Tree.chunksAll options trees
  | [],_,_,_,_,trees,settles => ⟨trees,settles,fun _ => rfl⟩
  | item :: rest,content,unmarked,_,_,_,settles => by
    rw [Node.allUnmarked,Bool.and_eq_true] at unmarked
    rw [Node.allContent,Bool.and_eq_true,Bool.or_eq_true,isNull_iff] at content
    rw [Node.spreadAll,settles_append] at settles
    obtain ⟨found,more,middle,here,later,rfl⟩ := settles
    obtain ⟨kids,inside,same⟩ := allContent_packs rest content.2 unmarked.2 later
    rw [Node.packedAll]
    split
    · rename_i null
      rw [isNull_iff] at null
      subst null
      obtain ⟨rfl,rfl⟩ := settles_nil here
      exact ⟨kids,inside,same⟩
    · rename_i proper
      rw [isNull_iff] at proper
      obtain ⟨tree,first,chunks⟩ :=
        content_packs item (content.1.resolve_left proper) unmarked.1 _ _ _ here
      refine ⟨[tree] ++ kids,.cons first inside,fun options => ?_⟩
      simp only [Tree.chunksAll_append,Tree.chunksAll,chunks,same,List.append_nil]
end

end settling

end Markup
