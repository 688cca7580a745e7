import Markup.Proofs.Yaml.Nodes
import Markup.Yaml.Value

namespace Markup.Yaml

theorem bound_ok {first : Except Trouble α} {next : α → Except Trouble β}
    (done : first >>= next = .ok result) : ∃ value, first = .ok value ∧ next value = .ok result := by
  cases first with
  | error trouble => cases done
  | ok value => exact ⟨value,rfl,done⟩

-- The parts of a value: itself and the parts of its items, keys and values. What a
-- merged mapping holds is held by the mapping it is merged into.
inductive Node.Holds : Node → Node → Prop where
  | self : Holds node node
  | item (inside : item ∈ members) (holds : Holds item part) : Holds (.sequence kind members) part
  | key (inside : entry ∈ members) (holds : Holds entry.1 part) :
      Holds (.mapping kind members) part
  | value (inside : entry ∈ members) (holds : Holds entry.2 part) :
      Holds (.mapping kind members) part
  | named (holds : Holds node part) : Holds (.named name node) part

def Node.Stray (root : Node) (trouble : Trouble) : Prop :=
  trouble ≠ .malformed ∧ ∃ part, root.Holds part ∧ part.plainValue = .error trouble

namespace Node

variable {root node : Node}

theorem Holds.trans (whole : root.Holds node) (holds : node.Holds part) : root.Holds part := by
  induction whole with
  | self => exact holds
  | item inside _ ih => exact .item inside (ih holds)
  | key inside _ ih => exact .key inside (ih holds)
  | value inside _ ih => exact .value inside (ih holds)
  | named _ ih => exact .named (ih holds)

theorem holds_bare : ∀ (node : Node), node.Holds node.bare
  | .named _ node => .named (holds_bare node)
  | .scalar .. => .self
  | .sequence .. => .self
  | .mapping .. => .self
  | .enclosing _ => .self

theorem Holds.items (whole : root.Holds (.sequence kind members)) :
    ∀ item ∈ members, root.Holds item := fun _ inside => whole.trans (.item inside .self)

theorem Holds.inner (whole : root.Holds (.named name node)) : root.Holds node :=
  whole.trans (.named .self)

def HeldEntry (root : Node) (entry : Node × Node) : Prop :=
  (∃ key, root.Holds key ∧ entry.1 = key.asText) ∧ root.Holds entry.2

def HoldsAll (root : Node) (entries : List (Node × Node)) : Prop :=
  ∀ entry ∈ entries, root.Holds entry.1 ∧ root.Holds entry.2

theorem Holds.entries (whole : root.Holds (.mapping kind members)) : root.HoldsAll members :=
  fun _ inside => ⟨whole.trans (.key inside .self),whole.trans (.value inside .self)⟩

theorem Holds.grown {text : List Char} (holds : root.Holds part) (grown : root.Grown text) :
    part.Grown text := by
  induction holds with
  | self => exact grown
  | item inside _ ih =>
    cases grown with
    | sequence _ items => exact ih (items _ inside)
  | key inside _ ih =>
    cases grown with
    | mapping _ keys _ => exact ih (keys _ inside)
  | value inside _ ih =>
    cases grown with
    | mapping _ _ values => exact ih (values _ inside)
  | named _ ih =>
    cases grown with
    | named inner => exact ih inner

mutual
theorem merged_held : ∀ (entries : List (Node × Node)), root.HoldsAll entries →
    ∀ {more own}, merged entries = .ok (more,own) → ∀ entry ∈ more ++ own, root.HeldEntry entry
  | [], _, more, own, made => by
    cases made
    exact nofun
  | (key,value) :: rest, held, more, own, made => by
    obtain ⟨here,behind⟩ := List.forall_mem_cons.mp held
    unfold merged at made
    split at made
    · obtain ⟨first,entries,made⟩ := bound_ok made
      obtain ⟨⟨further,own⟩,others,made⟩ := bound_ok made
      cases made
      rw [List.append_assoc]
      exact List.forall_mem_append.mpr
        ⟨mergedEntries_held value here.2 entries,merged_held rest behind others⟩
    · obtain ⟨⟨further,own⟩,others,made⟩ := bound_ok made
      cases made
      have left := List.forall_mem_append.mp (merged_held rest behind others)
      exact List.forall_mem_append.mpr
        ⟨left.1,List.forall_mem_cons.mpr ⟨⟨⟨key,here.1,rfl⟩,here.2⟩,left.2⟩⟩
theorem mergedEntries_held : ∀ (node : Node), root.Holds node →
    ∀ {found}, mergedEntries node = .ok found → ∀ entry ∈ found, root.HeldEntry entry
  | .mapping tag entries, holds, found, made => by
    unfold mergedEntries at made
    obtain ⟨⟨more,own⟩,parts,made⟩ := bound_ok made
    cases made
    exact merged_held entries holds.entries parts
  | .sequence tag items, holds, found, made => by
    unfold mergedEntries at made
    exact mergedItems_held items holds.items made
  | .named name node, holds, found, made => by
    unfold mergedEntries at made
    exact mergedEntries_held node holds.inner made
  | .scalar tag text, _, found, made => by
    unfold mergedEntries at made
    cases made
  | .enclosing isMapping, _, found, made => by
    unfold mergedEntries at made
    cases made
    exact nofun
theorem mergedItems_held : ∀ (items : List Node), (∀ item ∈ items, root.Holds item) →
    ∀ {found}, mergedItems items = .ok found → ∀ entry ∈ found, root.HeldEntry entry
  | [], _, found, made => by
    unfold mergedItems at made
    cases made
    exact nofun
  | item :: rest, held, found, made => by
    obtain ⟨here,behind⟩ := List.forall_mem_cons.mp held
    unfold mergedItems at made
    obtain ⟨first,entries,made⟩ := bound_ok made
    obtain ⟨more,others,made⟩ := bound_ok made
    cases made
    exact List.forall_mem_append.mpr
      ⟨mergedItems_held rest behind others,mergedItem_held item here entries⟩
theorem mergedItem_held : ∀ (node : Node), root.Holds node →
    ∀ {found}, mergedItem node = .ok found → ∀ entry ∈ found, root.HeldEntry entry
  | .mapping tag entries, holds, found, made => by
    unfold mergedItem at made
    obtain ⟨⟨more,own⟩,parts,made⟩ := bound_ok made
    cases made
    exact merged_held entries holds.entries parts
  | .named name node, holds, found, made => by
    unfold mergedItem at made
    exact mergedItem_held node holds.inner made
  | .enclosing true, _, found, made => by
    unfold mergedItem at made
    cases made
    exact nofun
  | .enclosing false, _, found, made => by
    unfold mergedItem at made
    cases made
  | .scalar tag text, _, found, made => by
    unfold mergedItem at made
    cases made
  | .sequence tag items, _, found, made => by
    unfold mergedItem at made
    cases made
end

theorem flatEntries_held (held : root.HoldsAll entries) (made : flatEntries entries = .ok found) :
    ∀ entry ∈ found, root.HeldEntry entry := by
  unfold flatEntries at made
  cases parts : merged entries with
  | error trouble =>
    rw [parts] at made
    cases made
  | ok both =>
    obtain ⟨more,own⟩ := both
    rw [parts] at made
    cases made
    exact merged_held entries held parts

theorem asText_stray {key : Node} (failed : key.asText.plainValue = .error trouble) :
    key.plainValue = .error trouble := by
  unfold asText at failed
  split at failed
  · cases failed
  · exact failed

end Node

namespace Duty

variable {root : Node}

inductive DutyWithin (root : Node) : Duty → Prop where
  | convert (holds : root.Holds node) : DutyWithin root (.convert node)
  | convertKey (holds : root.Holds key) : DutyWithin root (.convertKey key.asText)
  | fail : DutyWithin root .fail

theorem ofPair_of (holds : root.Holds item) : ∀ duty ∈ ofPair item, DutyWithin root duty := by
  have bare := holds.trans item.holds_bare
  unfold ofPair
  split
  · rename_i key value same
    rw [same] at bare
    have entry := bare.entries _ List.mem_cons_self
    exact List.forall_mem_cons.mpr
      ⟨.convert entry.1,List.forall_mem_singleton.mpr (.convert entry.2)⟩
  · exact nofun
  · exact List.forall_mem_singleton.mpr .fail

theorem entries_of (holds : root.Holds (.mapping kind members))
    (made : Node.flatEntries members = .ok entries) :
    ∀ duty ∈ entries.flatMap fun (key,value) => [convertKey key, .convert value],
      DutyWithin root duty := by
  intro duty inside
  obtain ⟨⟨converted,value⟩,member,either⟩ := List.mem_flatMap.mp inside
  obtain ⟨⟨key,ofKey,rfl⟩,ofValue⟩ := Node.flatEntries_held holds.entries made _ member
  rcases List.mem_cons.mp either with rfl | last
  · exact .convertKey ofKey
  · cases List.mem_singleton.mp last
    exact .convert ofValue

theorem ofCollection_of (holds : root.Holds node) :
    ∀ duty ∈ ofCollection node, DutyWithin root duty := by
  have bare := holds.trans node.holds_bare
  have failed : ∀ duty ∈ [fail], DutyWithin root duty := List.forall_mem_singleton.mpr .fail
  unfold ofCollection
  split
  · rename_i same
    rw [same] at bare
    exact List.forall_mem_map.mpr fun item inside => .convert (bare.items item inside)
  · rename_i same
    rw [same] at bare
    intro duty inside
    obtain ⟨item,member,made⟩ := List.mem_flatMap.mp inside
    exact ofPair_of (bare.items item member) duty made
  · rename_i same
    rw [same] at bare
    split
    · rename_i made
      exact entries_of bare made
    · exact failed
  · rename_i same
    rw [same] at bare
    split
    · rename_i made
      exact entries_of bare made
    · exact failed
  · exact failed

def DutiesDone (root : Node) (result : Except Trouble (List Node × List String)) : Prop :=
  match result with
  | .ok (later,_) => ∀ node ∈ later, root.Holds node
  | .error trouble => trouble = .malformed ∨ root.Stray trouble

theorem failed_stray (holds : root.Holds part) (failed : part.plainValue = .error trouble) :
    trouble = .malformed ∨ root.Stray trouble := by
  by_cases same : trouble = .malformed
  · exact .inl same
  · exact .inr ⟨same,part,holds,failed⟩

theorem perform_done (duties : List Duty) (later : List Node) (seen : List String)
    (toDo : ∀ duty ∈ duties, DutyWithin root duty) (held : ∀ node ∈ later, root.Holds node) :
    DutiesDone root (perform duties later seen) := by
  induction duties generalizing later seen with
  | nil => exact held
  | cons duty rest ih =>
    obtain ⟨here,behind⟩ := List.forall_mem_cons.mp toDo
    cases here with
    | fail => exact .inl rfl
    | convertKey holds =>
      unfold perform
      split
      · exact ih later seen behind held
      · rename_i failed
        exact failed_stray holds (Node.asText_stray failed)
    | convert holds =>
      have kept {node : Node} (holds : root.Holds node) :
          ∀ other ∈ later ++ [node], root.Holds other :=
        List.forall_mem_append.mpr ⟨held,List.forall_mem_singleton.mpr holds⟩
      unfold perform
      split
      · exact ih later seen behind held
      · split
        · split
          · exact ih later seen behind held
          · rename_i failed
            exact failed_stray holds.inner failed
        · split
          · exact ih later seen behind held
          · exact ih _ _ behind (kept holds.inner)
      · split
        · exact ih _ _ behind (kept holds)
        · split
          · exact ih later seen behind held
          · rename_i failed
            exact failed_stray holds failed

-- The induction is on the levels. The parts left for the next one are still held.
theorem levels_stray (fuel : Nat) (nodes : List Node) (seen : List String)
    (held : ∀ node ∈ nodes, root.Holds node) (failed : levels fuel nodes seen = .error trouble) :
    trouble = .malformed ∨ root.Stray trouble := by
  induction fuel generalizing nodes seen with
  | zero => cases failed
  | succ fuel ih =>
    unfold levels at failed
    split at failed
    · cases failed
    · have toDo : ∀ duty ∈ nodes.flatMap ofCollection, DutyWithin root duty := by
        intro duty inside
        obtain ⟨node,member,made⟩ := List.mem_flatMap.mp inside
        exact ofCollection_of (held node member) duty made
      have done := perform_done (nodes.flatMap ofCollection) [] seen toDo nofun
      split at failed
      · rename_i made
        rw [made] at done
        exact ih _ _ done failed
      · rename_i made
        rw [made] at done
        cases failed
        exact done

end Duty

theorem read_trouble (failed : read text = .error trouble) (other : trouble ≠ .malformed) :
    Beyond text.toList trouble ∨
      ∃ root, Node.ofText text.toList = .ok (some root) ∧ root.Stray trouble := by
  unfold read at failed
  dsimp only at failed
  split at failed
  · cases failed
    exact absurd rfl other
  · have grown := ofText_grown text.toList
    split at failed
    · rename_i made
      rw [made] at grown
      cases failed
      exact .inl (grown.resolve_left other)
    · cases failed
    · rename_i root made
      have begun := Duty.perform_done [.convert root] [] []
        (List.forall_mem_singleton.mpr (.convert .self)) nofun
      refine .inr ⟨root,made,?_⟩
      split at failed
      · rename_i made
        rw [made] at begun
        cases failed
        exact begun.resolve_left other
      · rename_i later seen made
        rw [made] at begun
        split at failed
        · rename_i deeper
          cases failed
          exact (Duty.levels_stray _ later seen begun deeper).resolve_left other
        · cases failed

end Markup.Yaml
