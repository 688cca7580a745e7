import Markup.Proofs.Building
import Markup.Proofs.Additions

namespace Markup

variable {κ : Type}

-- The arguments of an element or a fragment are taken apart depth first. What
-- values they come to is told here without the node that is built of these.
namespace Node

def isRefused : Node κ → Bool
  | .foreign (.bool _) | .foreign (.int _) | .foreign (.float _) | .foreign (.record _)
  | .foreign (.pair ..) | .foreign (.source ..) | .foreign (.shadowed ..) | .foreign (.scoped ..)
  | .foreign (.scopedTag _) | .foreign (.token _) => true
  | _ => false

def isLazy : Node κ → Bool
  | .foreign (.lazy ..) => true
  | _ => false

def items? : Node κ → Option (List (Node κ))
  | .foreign (.list items) | .foreign (.tuple items) | .foreign (.marked _ _ items _) => some items
  | _ => none

def isSingle (value : Node κ) : Bool :=
  !value.isNull && !value.isLazy && value.items?.isNone

def child? (id : Ident) : Node κ → Option (Node κ)
  | .foreign (.string value) => some (.text value)
  | .foreign (.safe markup) => some (.raw markup)
  | .foreign (.html _ markup) => some (.raw markup.plain)
  | .foreign (.once wait label code) =>
    some (.deferred (.coerce id (.foreign (.once wait label code))))
  | .foreign (.feed feed) => some (.sequence (.coerce id feed))
  | .foreign _ => none
  | node => some node

def isWrapped : Node κ → Bool
  | .foreign (.once ..) | .foreign (.feed _) => true
  | _ => false

end Node

namespace Flattening

abbrev Found (κ : Type) := Ident × Node κ

def attributesOf (found : List (Found κ)) : List (Attr κ) :=
  found.filterMap fun (_,value) => value.attr?

def childrenOf (found : List (Found κ)) : List (Node κ) :=
  (found.filterMap fun (id,value) => value.child? id).flatMap Node.pieces

def wrapping (value : Node κ) (store : Store) : Store :=
  if value.isWrapped then store.issued else store

inductive Stock (κ : Type) where
  | listed (items : List (Node κ))
  | computed (id : Ident) (items : List κ)

def Stock.next (host : Host κ) : Stock κ → Action (Option (Node κ × Stock κ))
  | .listed [] => return none
  | .listed (item :: rest) => return some (item,.listed rest)
  | .computed id items => do
    match ← LazyList.next host id items with
    | none => return none
    | some value => return some (value,.computed id items)

inductive Given (κ : Type) where
  | value (value : Node κ)
  | stock (stock : Stock κ)

-- How taking apart ends: everything was found, a value is of no kind that can be
-- used, or the computation of an item failed.
inductive Ending (κ : Type) where
  | all
  | refused (value : Node κ)
  | broke (fault : Fault)

end Flattening

open Flattening

-- The single values of what is given, in the order in which they are come upon.
-- Lists that are computed may lie in one another to the given depth.
inductive Flattens (host : Host κ) :
    Nat → Given κ → Store → List (Found κ) → Ending κ → Store → Prop where
  | null : Flattens host depth (.value .null) store [] .all store
  | found (single : value.isSingle = true) (usable : value.isRefused = false) :
    Flattens host depth (.value value) store [(store.supply,value)] .all (wrapping value store)
  | refused (unusable : value.isRefused = true) :
    Flattens host depth (.value value) store [(store.supply,value)] (.refused value) store
  | listed (holds : value.items? = some items)
      (inside : Flattens host depth (.stock (.listed items)) store found ending after) :
    Flattens host depth (.value value) store found ending after
  | computed {source : Ident} {codes : List κ}
      (inside : Flattens host depth (.stock (.computed source codes)) store found ending after) :
    Flattens host (depth + 1) (.value (.foreign (.lazy source codes))) store found ending after
  | deep {source : Ident} {codes : List κ} :
    Flattens host 0 (.value (.foreign (.lazy source codes))) store [] (.broke .tooDeep) store
  | done (ends : stock.next host store = .ok none after) :
    Flattens host depth (.stock stock) store [] .all after
  | more (reads : stock.next host store = .ok (some (value,rest)) start)
      (here : Flattens host depth (.value value) start found .all middle)
      (later : Flattens host depth (.stock rest) middle others ending after) :
    Flattens host depth (.stock stock) store (found ++ others) ending after
  | halts (reads : stock.next host store = .ok (some (value,rest)) start)
      (here : Flattens host depth (.value value) start found ending after)
      (early : ending ≠ .all) :
    Flattens host depth (.stock stock) store found ending after
  | fails (failed : stock.next host store = .error fault after) :
    Flattens host depth (.stock stock) store [] (.broke fault) after

def Forward (before after : Store) : Prop :=
  ∀ id, (before.cursor id).position ≤ (after.cursor id).position

def Host.Forward (host : Host κ) : Prop := ∀ code, Leaves Markup.Forward (host.run code none)

namespace Forward

theorem refl (store : Store) : Forward store store := fun _ => Nat.le_refl _

theorem trans (one : Forward before middle) (other : Forward middle after) : Forward before after :=
  fun id => Nat.le_trans (one id) (other id)

theorem moved {store : Store} {id : Ident} {value : Cursor}
    (further : (store.cursor id).position ≤ value.position) :
    Forward store (store.moved id value) := by
  intro other
  by_cases same : other = id
  · subst same
    rwa [Store.moved_cursor_self]
  · rw [Store.moved_cursor_other store value same]

theorem shut (store : Store) (id : Ident) : Forward store (store.shut id) :=
  moved (Nat.le_refl _)

theorem wrapping (value : Node κ) (store : Store) : Forward store (wrapping value store) := by
  unfold Flattening.wrapping
  split <;> exact refl store

end Forward

section reading

variable {host : Host κ} {id : Ident} {items : List κ} {store : Store}

theorem lazy_reads (forward : host.Forward) (id : Ident) (items : List κ) (store : Store) :
    (∃ after, LazyList.next host id items store = .ok none after ∧ Forward store after) ∨
      (∃ fault after, LazyList.next host id items store = .error fault after ∧ Forward store after) ∨
        ∃ value after, LazyList.next host id items store = .ok (some value) after ∧
          Forward store after ∧ (store.cursor id).position < items.length ∧
            (after.cursor id).position = (store.cursor id).position + 1 := by
  simp only [LazyList.next,Action.bind_apply,Action.cursor_apply]
  cases phase : (store.cursor id).phase with
  | busy => exact .inr (.inl ⟨_,_,rfl,.refl store⟩)
  | closed => exact .inl ⟨_,rfl,.refl store⟩
  | ready =>
    cases place : items[(store.cursor id).position]? with
    | none => exact .inl ⟨_,rfl,.moved (Nat.le_refl _)⟩
    | some code =>
      have begun : Forward store (store.moved id {store.cursor id with phase := .busy}) :=
        .moved (Nat.le_refl _)
      have ran := forward code (store.moved id {store.cursor id with phase := .busy})
      simp only [Action.bind_apply,Action.setCursor_apply,Action.closing_apply]
      cases run : host.run code none (store.moved id {store.cursor id with phase := .busy}) with
      | error fault middle =>
        rw [run] at ran
        exact .inr (.inl ⟨_,_,rfl,(begun.trans ran).trans (.shut middle id)⟩)
      | ok value middle =>
        rw [run] at ran
        have inside : (store.cursor id).position < items.length :=
          (List.getElem?_eq_some_iff.mp place).1
        refine .inr (.inr ⟨value,_,rfl,?_,inside,by simp⟩)
        intro other
        by_cases same : other = id
        · subst same
          simp
        · rw [Store.moved_cursor_other _ _ same]
          exact (begun.trans ran) other

theorem computed_next (host : Host κ) (id : Ident) (items : List κ) (store : Store) :
    (Stock.computed id items).next host store =
      match LazyList.next host id items store with
      | .ok none after => .ok none after
      | .ok (some value) after => .ok (some (value,.computed id items)) after
      | .error fault after => .error fault after := by
  simp only [Stock.next,Action.bind_apply]
  cases LazyList.next host id items store with
  | error fault after => rfl
  | ok found after => cases found <;> rfl

theorem stock_reads (forward : host.Forward) {stock : Stock κ}
    {result : EStateM.Result Fault Store (Option (Node κ × Stock κ))}
    (reads : stock.next host store = result) : Forward store (leftBy result) := by
  subst reads
  cases stock with
  | listed items => cases items <;> exact .refl store
  | computed id items =>
    rw [computed_next]
    rcases lazy_reads forward id items store with ⟨after,reads,further⟩ | ⟨fault,after,reads,further⟩ |
      ⟨value,after,reads,further,_⟩ <;>
    · rw [reads]
      exact further

theorem flattens_forward (forward : host.Forward) {given : Given κ}
    (flattens : Flattens host depth given store found ending after) : Forward store after := by
  induction flattens with
  | null | refused | deep => exact .refl _
  | found => exact .wrapping _ _
  | listed _ _ ih | computed _ ih => exact ih
  | done reads | fails reads => exact stock_reads forward reads
  | more reads _ _ here later =>
    exact ((stock_reads forward reads).trans here).trans later
  | halts reads _ _ ih => exact (stock_reads forward reads).trans ih

end reading

-- Taking apart always comes to an end: a list that is there has only so many
-- items, and every item of one that is computed moves its source.
section total

variable {host : Host κ} {depth : Nat}

def ComesToEnd (host : Host κ) (depth : Nat) (given : Given κ) : Prop :=
  ∀ store, ∃ found ending after, Flattens host depth given store found ending after

theorem stock_total {stock : Stock κ} {value : Node κ} {rest : Stock κ} {store start : Store}
    (reads : stock.next host store = .ok (some (value,rest)) start)
    (here : ComesToEnd host depth (.value value))
    (later : ∀ found middle, Flattens host depth (.value value) start found .all middle →
      ∃ found ending after, Flattens host depth (.stock rest) middle found ending after) :
    ∃ found ending after, Flattens host depth (.stock stock) store found ending after := by
  obtain ⟨found,ending,middle,flattens⟩ := here start
  cases ending with
  | all =>
    obtain ⟨others,ending,after,flattens'⟩ := later found middle flattens
    exact ⟨_,_,_,.more reads flattens flattens'⟩
  | refused value => exact ⟨_,_,_,.halts reads flattens (by simp)⟩
  | broke fault => exact ⟨_,_,_,.halts reads flattens (by simp)⟩

theorem computed_total (forward : host.Forward)
    (values : ∀ value, ComesToEnd host depth (.value value))
    (id : Ident) (items : List κ) : ComesToEnd host depth (.stock (.computed id items)) := by
  intro store
  induction left : items.length - (store.cursor id).position using Nat.strongRecOn generalizing store with
  | ind left ih =>
    rcases lazy_reads forward id items store with ⟨after,reads,_⟩ | ⟨fault,after,reads,_⟩ |
      ⟨value,start,reads,_,inside,place⟩
    · exact ⟨_,_,after,.done (by rw [computed_next,reads])⟩
    · exact ⟨_,_,after,.fails (by rw [computed_next,reads])⟩
    · have more := computed_next host id items store
      rw [reads] at more
      refine stock_total more (values value) fun found middle flattens => ?_
      have further := flattens_forward forward flattens id
      exact ih _ (by omega) middle rfl

theorem single_total {value : Node κ} (single : value.isSingle = true) :
    ComesToEnd host depth (.value value) := by
  intro store
  cases usable : value.isRefused with
  | false => exact ⟨_,_,_,.found single usable⟩
  | true => exact ⟨_,_,_,.refused usable⟩

mutual
theorem value_total
    (lazies : ∀ id items, ComesToEnd host depth (.value (.foreign (.lazy id items)))) :
    ∀ value : Node κ, ComesToEnd host depth (.value value)
  | .foreign value => foreign_total lazies value
  | .element .. | .text _ | .raw _ | .comment _ | .fragment _ | .deferred _ | .sequence _ =>
    single_total rfl
theorem foreign_total
    (lazies : ∀ id items, ComesToEnd host depth (.value (.foreign (.lazy id items)))) :
    ∀ value : Foreign κ, ComesToEnd host depth (.value (.foreign value))
  | .null => fun _ => ⟨_,_,_,.null⟩
  | .list items | .tuple items | .marked _ _ items _ => fun store =>
    let ⟨_,_,_,inside⟩ := items_total lazies items store
    ⟨_,_,_,.listed rfl inside⟩
  | .lazy id items => lazies id items
  | .bool _ | .int _ | .float _ | .string _ | .safe _ | .record _ | .attr _ | .pair .. | .html ..
  | .source .. | .once .. | .feed _ | .shadowed .. | .scoped .. | .scopedTag _ | .token _ =>
    single_total rfl
theorem items_total
    (lazies : ∀ id items, ComesToEnd host depth (.value (.foreign (.lazy id items)))) :
    ∀ items : List (Node κ), ComesToEnd host depth (.stock (.listed items))
  | [] => fun _ => ⟨_,_,_,.done rfl⟩
  | item :: rest => fun _ =>
    stock_total rfl (value_total lazies item) fun _ middle _ => items_total lazies rest middle
end

theorem flattens_total (forward : host.Forward) (depth : Nat) :
    ∀ value : Node κ, ComesToEnd host depth (.value value) := by
  induction depth with
  | zero => exact value_total fun _ _ _ => ⟨_,_,_,.deep⟩
  | succ depth ih =>
    refine value_total fun id items store => ?_
    obtain ⟨found,ending,after,inside⟩ := computed_total forward ih id items store
    exact ⟨found,ending,after,.computed inside⟩

end total

section finding

variable {host : Host κ} {depth : Nat} {given : Given κ}

theorem refused_single {value : Node κ} (unusable : value.isRefused = true) :
    value.isSingle = true := by
  cases value with
  | foreign value => cases value <;> first | rfl | cases unusable
  | _ => rfl

theorem items_kinds {value : Node κ} {items : List (Node κ)} (holds : value.items? = some items) :
    value = .foreign (.list items) ∨ value = .foreign (.tuple items) ∨
      ∃ kind tuple markup, value = .foreign (.marked kind tuple items markup) := by
  cases value with
  | foreign value =>
    cases value with
    | list => exact .inl (by cases holds; rfl)
    | tuple => exact .inr (.inl (by cases holds; rfl))
    | marked kind tuple _ markup => exact .inr (.inr ⟨kind,tuple,markup,by cases holds; rfl⟩)
    | _ => cases holds
  | _ => cases holds

theorem items_single {value : Node κ} {items : List (Node κ)} (holds : value.items? = some items) :
    value.isSingle = false := by
  simp [Node.isSingle,holds]

theorem flattens_unique (flattens : Flattens host depth given store found ending after) :
    ∀ {found' ending' after'}, Flattens host depth given store found' ending' after' →
      found' = found ∧ ending' = ending ∧ after' = after := by
  induction flattens with
  | null =>
    intro _ _ _ other
    cases other with
    | null => exact ⟨rfl,rfl,rfl⟩
    | found single => cases single
    | refused unusable => cases unusable
    | listed holds => cases holds
  | found single usable =>
    intro _ _ _ other
    cases other with
    | found => exact ⟨rfl,rfl,rfl⟩
    | refused unusable => cases usable.symm.trans unusable
    | listed holds => cases single.symm.trans (items_single holds)
    | null | computed | deep => cases single
  | refused unusable =>
    intro _ _ _ other
    cases other with
    | refused => exact ⟨rfl,rfl,rfl⟩
    | found single usable => cases usable.symm.trans unusable
    | listed holds => cases (refused_single unusable).symm.trans (items_single holds)
    | null | computed | deep => cases unusable
  | listed holds _ ih =>
    intro _ _ _ other
    cases other with
    | listed holds' inside' =>
      cases holds.symm.trans holds'
      exact ih inside'
    | found single => cases single.symm.trans (items_single holds)
    | refused unusable => cases (refused_single unusable).symm.trans (items_single holds)
    | null | computed | deep => cases holds
  | computed _ ih =>
    intro _ _ _ other
    cases other with
    | computed inside' => exact ih inside'
    | found single => cases single
    | refused unusable => cases unusable
    | listed holds => cases holds
  | deep =>
    intro _ _ _ other
    cases other with
    | deep => exact ⟨rfl,rfl,rfl⟩
    | found single => cases single
    | refused unusable => cases unusable
    | listed holds => cases holds
  | done ends =>
    intro _ _ _ other
    cases other with
    | done ends' =>
      cases ends.symm.trans ends'
      exact ⟨rfl,rfl,rfl⟩
    | more reads | halts reads | fails reads => cases ends.symm.trans reads
  | more reads _ _ ih later =>
    intro _ _ _ other
    cases other with
    | more reads' here' later' =>
      cases reads.symm.trans reads'
      obtain ⟨rfl,_,rfl⟩ := ih here'
      obtain ⟨rfl,rfl,rfl⟩ := later later'
      exact ⟨rfl,rfl,rfl⟩
    | halts reads' here' early =>
      cases reads.symm.trans reads'
      exact absurd (ih here').2.1 early
    | done reads' | fails reads' => cases reads.symm.trans reads'
  | halts reads _ early ih =>
    intro _ _ _ other
    cases other with
    | halts reads' here' =>
      cases reads.symm.trans reads'
      exact ih here'
    | more reads' here' =>
      cases reads.symm.trans reads'
      exact absurd (ih here').2.1.symm early
    | done reads' | fails reads' => cases reads.symm.trans reads'
  | fails failed =>
    intro _ _ _ other
    cases other with
    | fails failed' =>
      cases failed.symm.trans failed'
      exact ⟨rfl,rfl,rfl⟩
    | done reads | more reads | halts reads => cases failed.symm.trans reads

theorem flattens_deeper (flattens : Flattens host depth given store found ending after) :
    ending ≠ .broke .tooDeep → ∀ {further}, depth ≤ further →
      Flattens host further given store found ending after := by
  induction flattens with
  | null => exact fun _ _ _ => .null
  | found single usable => exact fun _ _ _ => .found single usable
  | refused unusable => exact fun _ _ _ => .refused unusable
  | listed holds _ ih => exact fun known _ within => .listed holds (ih known within)
  | computed _ ih =>
    intro known further within
    obtain ⟨further,rfl⟩ : ∃ one, further = one + 1 := ⟨further - 1,by omega⟩
    exact .computed (ih known (by omega))
  | deep => exact fun known => absurd rfl known
  | done ends => exact fun _ _ _ => .done ends
  | more reads _ _ ih later =>
    exact fun known _ within => .more reads (ih (by simp) within) (later known within)
  | halts reads _ early ih => exact fun known _ within => .halts reads (ih known within) early
  | fails failed => exact fun _ _ _ => .fails failed

-- A value that cannot be used is the last that was found; nothing is read any
-- further behind it.
def Flattening.Ending.ToldBy (found : List (Found κ)) : Ending κ → Prop
  | .refused value => value.isRefused = true ∧ ∃ front id, found = front ++ [(id,value)] ∧
    ∀ pair ∈ front, pair.2.isRefused = false
  | .all | .broke _ => ∀ pair ∈ found, pair.2.isRefused = false

theorem toldBy_behind {found others : List (Found κ)} {ending : Ending κ}
    (usable : ∀ pair ∈ found, pair.2.isRefused = false) (tells : ending.ToldBy others) :
    ending.ToldBy (found ++ others) := by
  cases ending with
  | refused value =>
    obtain ⟨unusable,front,id,rfl,more⟩ := tells
    refine ⟨unusable,found ++ front,id,(List.append_assoc ..).symm,fun pair inside => ?_⟩
    exact (List.mem_append.mp inside).elim (usable pair) (more pair)
  | all | broke fault =>
    exact fun pair inside => (List.mem_append.mp inside).elim (usable pair) (tells pair)

theorem flattens_toldBy (flattens : Flattens host depth given store found ending after) :
    ending.ToldBy found := by
  induction flattens with
  | null | deep | done | fails => simp [Ending.ToldBy]
  | found single usable => simpa [Ending.ToldBy] using usable
  | refused unusable => exact ⟨unusable,[],_,rfl,by simp⟩
  | listed _ _ ih | computed _ ih | halts _ _ _ ih => exact ih
  | more _ _ _ ih later => exact toldBy_behind ih later

theorem toldBy_refused {found : List (Found κ)} {ending : Ending κ} (tells : ending.ToldBy found) :
    (∃ pair ∈ found, pair.2.isRefused = true) ↔ ∃ value, ending = .refused value := by
  cases ending with
  | refused value =>
    obtain ⟨unusable,front,id,rfl,_⟩ := tells
    exact ⟨fun _ => ⟨value,rfl⟩,fun _ => ⟨(id,value),by simp,unusable⟩⟩
  | all | broke fault =>
    refine ⟨?_,fun ⟨_,same⟩ => by cases same⟩
    rintro ⟨pair,inside,unusable⟩
    cases (tells pair inside).symm.trans unusable

end finding

section listing

mutual
def Node.flat : Node κ → List (Node κ)
  | .foreign value => value.flat
  | node => [node]
def Foreign.flat : Foreign κ → List (Node κ)
  | .null => []
  | .list items | .tuple items | .marked _ _ items _ => Node.flatAll items
  | value => [.foreign value]
def Node.flatAll : List (Node κ) → List (Node κ)
  | [] => []
  | item :: rest => item.flat ++ Node.flatAll rest
end

def Flattening.Given.listing? : Given κ → Option (List (Node κ))
  | .value single => some single.flat
  | .stock (.listed items) => some (Node.flatAll items)
  | .stock (.computed ..) => none

theorem single_flat {value : Node κ} (single : value.isSingle = true) : value.flat = [value] := by
  cases value with
  | foreign value => cases value <;> first | rfl | cases single
  | _ => rfl

theorem items_flat {value : Node κ} {items : List (Node κ)} (holds : value.items? = some items) :
    value.flat = Node.flatAll items := by
  rcases items_kinds holds with rfl | rfl | ⟨_,_,_,rfl⟩ <;> rfl

structure Lists (values : List (Node κ)) (store : Store) (found : List (Found κ)) (ending : Ending κ)
    (after : Store) : Prop where
  front : ∃ rest, values = found.map Prod.snd ++ rest ∧ (ending = .all → rest = [])
  known : ∀ fault, ending ≠ .broke fault
  issued : Issued store after

theorem listing_reads (host : Host κ) {stock : Stock κ} {values : List (Node κ)}
    (listing : (Given.stock stock).listing? = some values) (store : Store) :
    (values = [] ∧ stock.next host store = .ok none store) ∨ ∃ item rest others,
      values = item.flat ++ others ∧ (Given.stock rest).listing? = some others ∧
        stock.next host store = .ok (some (item,rest)) store := by
  cases stock with
  | computed => cases listing
  | listed items =>
    cases listing
    cases items with
    | nil => exact .inl ⟨rfl,rfl⟩
    | cons item rest => exact .inr ⟨item,.listed rest,_,rfl,rfl,rfl⟩

theorem listing_flattens {host : Host κ} {given : Given κ}
    (flattens : Flattens host depth given store found ending after) :
    ∀ {values}, given.listing? = some values → (∀ value ∈ values, value.isLazy = false) →
      Lists values store found ending after := by
  induction flattens with
  | null =>
    intro values listing plain
    cases listing
    exact ⟨⟨[],rfl,fun _ => rfl⟩,by simp,.refl _⟩
  | found single usable =>
    intro values listing plain
    cases listing
    refine ⟨⟨[],single_flat single,fun _ => rfl⟩,by simp,?_⟩
    unfold wrapping
    split
    · exact .one _
    · exact .refl _
  | refused unusable =>
    intro values listing plain
    cases listing
    exact ⟨⟨[],single_flat (refused_single unusable),by simp⟩,by simp,.refl _⟩
  | listed holds _ ih =>
    intro values listing plain
    cases listing
    rw [items_flat holds] at plain ⊢
    exact ih rfl plain
  | computed | deep =>
    intro values listing plain
    cases listing
    cases plain _ List.mem_cons_self
  | done ends =>
    intro values listing plain
    rcases listing_reads host listing _ with ⟨rfl,ends'⟩ | ⟨_,_,_,_,_,reads⟩
    · cases ends.symm.trans ends'
      exact ⟨⟨[],rfl,fun _ => rfl⟩,by simp,.refl _⟩
    · cases ends.symm.trans reads
  | more reads _ _ ih later =>
    intro values listing plain
    rcases listing_reads host listing _ with ⟨_,ends⟩ | ⟨item,rest,others,rfl,listing',reads'⟩
    · cases reads.symm.trans ends
    · cases reads.symm.trans reads'
      have first := ih rfl fun value inside => plain value (List.mem_append_left _ inside)
      have next := later listing' fun value inside => plain value (List.mem_append_right _ inside)
      obtain ⟨left,here,whole⟩ := first.front
      obtain ⟨left',here',whole'⟩ := next.front
      obtain rfl := whole rfl
      exact ⟨⟨left',by simp [here,here'],whole'⟩,next.known,first.issued.trans next.issued⟩
  | halts reads _ early ih =>
    intro values listing plain
    rcases listing_reads host listing _ with ⟨_,ends⟩ | ⟨item,rest,others,rfl,_,reads'⟩
    · cases reads.symm.trans ends
    · cases reads.symm.trans reads'
      have first := ih rfl fun value inside => plain value (List.mem_append_left _ inside)
      obtain ⟨left,here,_⟩ := first.front
      exact ⟨⟨left ++ others,by simp [here],fun whole => absurd whole early⟩,first.known,first.issued⟩
  | fails failed =>
    intro values listing plain
    rcases listing_reads host listing _ with ⟨_,ends⟩ | ⟨_,_,_,_,_,reads⟩
    · cases failed.symm.trans ends
    · cases failed.symm.trans reads

theorem plain_ending {arguments : List (Node κ)} {store after : Store} {found : List (Found κ)}
    {ending : Ending κ} (lists : Lists (Node.flatAll arguments) store found ending after)
    (tells : ending.ToldBy found) :
    (∃ value ∈ Node.flatAll arguments, value.isRefused = true) ∧ (∃ value, ending = .refused value) ∨
      (∀ value ∈ Node.flatAll arguments, value.isRefused = false) ∧ ending = .all ∧
        found.map Prod.snd = Node.flatAll arguments := by
  obtain ⟨rest,front,whole⟩ := lists.front
  rw [front]
  cases ending with
  | broke fault => exact absurd rfl (lists.known fault)
  | refused value =>
    obtain ⟨unusable,_,id,rfl,_⟩ := tells
    exact .inl ⟨⟨value,by simp,unusable⟩,value,rfl⟩
  | all =>
    obtain rfl := whole rfl
    refine .inr ⟨fun value inside => ?_,rfl,by simp⟩
    obtain ⟨pair,member,rfl⟩ := List.mem_map.mp (List.append_nil _ ▸ inside)
    exact tells pair member

end listing

end Markup
