import Markup.Node.Equal
import Markup.Proofs.Feed

namespace Markup

variable {κ : Type}

def Piece.isItem : Piece κ → Bool
  | .act _ | .refused _ => false
  | .item _ | .node _ => true
  | .coerced inner => inner.isItem

def GivesNode (host : Host κ) (piece : Piece κ) (node : Node κ) : Prop :=
  ∃ before after, piece.give host before = .ok (some node) after

def LeavesAlone (host : Host κ) (ids : List Ident) (piece : Piece κ) : Prop :=
  ∀ before found after, piece.give host before = .ok found after →
    ∀ id ∈ ids, after.cursor id = before.cursor id

namespace Feed

def coming (cursor : Ident → Cursor) (feed : Feed κ) : List (Piece κ) :=
  (feed.pieces cursor).filter Piece.isItem

def isChain : Feed κ → Bool
  | .chain .. => true
  | _ => false

def parts : Feed κ → List (Feed κ)
  | .chain _ first second => first.parts ++ second.parts
  | feed => [feed]

end Feed

section pieces

variable {host : Host κ} {piece : Piece κ} {node : Node κ} {store after : Store}

theorem give_item (given : piece.give host store = .ok (some node) after) : piece.isItem = true := by
  induction piece generalizing store node after with
  | act code => exact (Feed.act_gives given).elim
  | item | node => rfl
  | coerced inner ih =>
    obtain ⟨value,middle,inside,_⟩ := Feed.coerced_some given
    exact ih inside
  | refused kind => simp [Piece.give] at given

theorem give_none (done : piece.give host store = .ok none after) : piece.isItem = false := by
  induction piece generalizing store after with
  | act | refused => rfl
  | item code => exact (Feed.item_gives done).elim
  | node value => simp [Piece.give] at done
  | coerced inner ih => exact ih (Feed.coerced_none done)

end pieces

namespace Feed

variable {host : Host κ} {feed : Feed κ} {ids : List Ident} {answer : Option (Node κ)}
  {before after : Store}

inductive PullResult (host : Host κ) (feed : Feed κ) (before after : Store) :
    Option (Piece κ × Node κ) → Prop where
  | item (front : feed.coming before.cursor = piece :: rest) (gave : GivesNode host piece node)
      (behind : feed.coming after.cursor = rest) :
      PullResult host feed before after (some (piece,node))
  | ended (empty : feed.coming before.cursor = []) (still : feed.coming after.cursor = []) :
      PullResult host feed before after none

-- The pull of a sequence that is no chain: the first item that is left or, at
-- the end, none. Things to be done in front of the item are done on the way.
theorem part_pull (listed : feed.Listed) (within : ∀ id ∈ feed.ids, id ∈ ids) :
    ∀ {count : Nat} {before : Store}, (feed.pieces before.cursor).length = count →
      (∀ piece ∈ feed.pieces before.cursor, LeavesAlone host ids piece) →
      feed.pull host before = .ok answer after →
      ∃ given, given.map Prod.snd = answer ∧ PullResult host feed before after given ∧
        (∀ id ∈ ids, id ∉ feed.ids → after.cursor id = before.cursor id) ∧
        feed.pieces after.cursor <:+ feed.pieces before.cursor := by
  intro count
  induction count with
  | zero =>
    intro before counted quiet run
    have empty := List.length_eq_zero_iff.mp counted
    obtain ⟨left,pulled,beside,none⟩ := pull_empty host feed listed before empty
    rw [pulled] at run
    cases run
    refine ⟨_,rfl,.ended (by simp [coming,empty]) (by simp [coming,none]),?_,?_⟩
    · exact fun id _ outside => beside.cursor id outside
    · simp [none,empty]
  | succ count ih =>
    intro before counted quiet run
    obtain ⟨piece,rest,front⟩ := List.exists_cons_of_length_eq_add_one counted
    rw [front] at counted quiet
    obtain ⟨ready,opens⟩ := pull_opens host feed listed before piece rest front
    have still : ∀ id ∈ ids, id ∉ feed.ids → ready.cursor id = before.cursor id :=
      fun id _ outside => opens.beside.cursor id outside
    cases come : piece.give host ready with
    | error fault last =>
      obtain ⟨left,failed,_⟩ := opens.failed fault last come
      rw [failed] at run
      cases run
    | ok found last =>
      have kept := quiet piece List.mem_cons_self ready found last come
      have same : feed.pieces last.cursor = rest := by
        rw [←opens.behind]
        exact pieces_congr feed fun id inside => kept id (within id inside)
      cases found with
      | some node =>
        rw [opens.given node last come] at run
        cases run
        have item := give_item come
        have first : feed.coming before.cursor = piece :: rest.filter Piece.isItem := by
          simp [coming,front,item]
        refine ⟨some (piece,node),rfl,.item first ⟨ready,_,come⟩ ?_,?_,?_⟩
        · rw [coming,same]
        · exact fun id inside outside => (kept id inside).trans (still id inside outside)
        · rw [same,front]
          exact List.suffix_cons piece rest
      | none =>
        rw [opens.done last come fun id inside => kept id (within id inside)] at run
        have other := give_none come
        have shorter : (feed.pieces last.cursor).length = count := by
          rw [same]
          exact Nat.succ.inj counted
        have others : ∀ piece ∈ feed.pieces last.cursor, LeavesAlone host ids piece := by
          rw [same]
          exact fun piece inside => quiet piece (List.mem_cons_of_mem _ inside)
        obtain ⟨given,told,pulled,moved,suffix⟩ := ih shorter others run
        have skipped : feed.coming last.cursor = feed.coming before.cursor := by
          simp [coming,same,front,other]
        refine ⟨given,told,?_,?_,?_⟩
        · cases pulled with
          | item first gave behind => exact .item (skipped ▸ first) gave behind
          | ended empty still => exact .ended (skipped ▸ empty) still
        · exact fun id inside outside =>
            (moved id inside outside).trans ((kept id inside).trans (still id inside outside))
        · rw [same] at suffix
          rw [front]
          exact suffix.trans (List.suffix_cons piece rest)

end Feed

-- Chains over parts that have nothing in common. An identity belongs to one
-- chain, and a chain is made of parts and of other chains at hand.
structure Web (all family : List (Feed κ)) : Prop where
  plain : ∀ part ∈ all, part.isChain = false
  listed : ∀ part ∈ all, part.Listed
  apart : ∀ part ∈ all, ∀ other ∈ all, part = other ∨ ∀ id ∈ part.ids, id ∉ other.ids
  within : ∀ feed ∈ family, feed.isChain = false → feed ∈ all
  first : ∀ id first second, .chain id first second ∈ family → first ∈ all ∨ first ∈ family
  second : ∀ id first second, .chain id first second ∈ family → second ∈ all ∨ second ∈ family
  beside : ∀ id first second, .chain id first second ∈ family → ∀ part ∈ all, id ∉ part.ids
  named : ∀ id first second, .chain id first second ∈ family → ∀ first' second',
    .chain id first' second' ∈ family → first' = first ∧ second' = second

-- A chain has passed what it has read to its end, and is closed at its own end.
structure Sound (host : Host κ) (all family : List (Feed κ)) (store : Store) : Prop where
  passed : ∀ id first second, .chain id first second ∈ family →
    ¬(store.cursor id).position = 0 → ∀ part ∈ first.parts, part.coming store.cursor = []
  closed : ∀ id first second, .chain id first second ∈ family →
    (store.cursor id).phase = .closed →
      ∀ part ∈ first.parts ++ second.parts, part.coming store.cursor = []
  quiet : ∀ part ∈ all, ∀ piece ∈ part.pieces store.cursor,
    LeavesAlone host ((all ++ family).flatMap Feed.ids) piece

-- Where a request finds its answer among some parts: everything in front of the
-- place is used up, and nothing but the part there gets shorter.
inductive AnsweredAt (host : Host κ) (all : List (Feed κ)) (before after : Store) :
    List (Feed κ) → Nat → Option (Piece κ × Node κ) → Prop where
  | here (inside : part ∈ all) (front : part.coming before.cursor = piece :: rest)
      (gave : GivesNode host piece node) (behind : part.coming after.cursor = rest)
      (others : ∀ other ∈ all, other ≠ part →
        other.coming after.cursor = other.coming before.cursor) :
      AnsweredAt host all before after (part :: parts) 0 (some (piece,node))
  | later (inside : part ∈ all) (empty : part.coming before.cursor = [])
      (more : AnsweredAt host all before after parts place given) :
      AnsweredAt host all before after (part :: parts) (place + 1) given
  | ended (same : ∀ other ∈ all, other.coming after.cursor = other.coming before.cursor) :
      AnsweredAt host all before after [] 0 none

def OnlyReadOn (all : List (Feed κ)) (before after : Store) : Prop :=
  ∀ part ∈ all, part.pieces after.cursor <:+ part.pieces before.cursor

section pulling

variable {host : Host κ} {all family : List (Feed κ)} {before middle after : Store}
  {parts others : List (Feed κ)} {place : Nat} {given : Option (Piece κ × Node κ)}

theorem OnlyReadOn.trans (one : OnlyReadOn all before middle)
    (other : OnlyReadOn all middle after) :
    OnlyReadOn all before after :=
  fun part inside => (other part inside).trans (one part inside)

theorem OnlyReadOn.empty (onward : OnlyReadOn all before after) {part : Feed κ}
    (inside : part ∈ all)
    (empty : part.coming before.cursor = []) : part.coming after.cursor = [] := by
  have shorter := (onward part inside).filter Piece.isItem
  rw [Feed.coming] at empty ⊢
  rw [empty] at shorter
  exact List.suffix_nil.mp shorter

theorem AnsweredAt.append (front : ∀ part ∈ parts, part ∈ all ∧ part.coming before.cursor = [])
    (answered : AnsweredAt host all before after others place given) :
    AnsweredAt host all before after (parts ++ others) (parts.length + place) given := by
  induction parts with
  | nil => simpa using answered
  | cons part parts ih =>
    obtain ⟨inside,empty⟩ := front part List.mem_cons_self
    have more := ih fun other inside => front other (List.mem_cons_of_mem _ inside)
    rw [List.length_cons,Nat.add_right_comm]
    exact .later inside empty more

theorem AnsweredAt.widen (answered : AnsweredAt host all before after parts place (some found)) :
    AnsweredAt host all before after (parts ++ others) place (some found) := by
  generalize same : some found = given at answered
  induction answered with
  | here inside front gave behind others => exact .here inside front gave behind others
  | later inside empty more ih => exact .later inside empty (ih same)
  | ended => cases same

theorem AnsweredAt.used (answered : AnsweredAt host all before after parts place none) :
    place = parts.length ∧ (∀ part ∈ parts, part ∈ all ∧ part.coming before.cursor = []) ∧
      ∀ other ∈ all, other.coming after.cursor = other.coming before.cursor := by
  generalize same : none = given at answered
  induction answered with
  | here => cases same
  | later inside empty more ih =>
    obtain ⟨rfl,front,still⟩ := ih same
    exact ⟨rfl,List.forall_mem_cons.mpr ⟨⟨inside,empty⟩,front⟩,still⟩
  | ended still => exact ⟨rfl,by simp,still⟩

theorem AnsweredAt.congr (answered : AnsweredAt host all before after parts place given)
    (earlier : ∀ part ∈ all, part.coming before.cursor = part.coming start.cursor)
    (later : ∀ part ∈ all, part.coming last.cursor = part.coming after.cursor) :
    AnsweredAt host all start last parts place given := by
  induction answered with
  | here inside front gave behind others =>
    refine .here inside ((earlier _ inside).symm.trans front) gave
      ((later _ inside).trans behind) fun other member apart => ?_
    rw [later other member,others other member apart,earlier other member]
  | later inside empty more ih => exact .later inside ((earlier _ inside).symm.trans empty) ih
  | ended same =>
    refine .ended fun other member => ?_
    rw [later other member,same other member,earlier other member]

theorem AnsweredAt.atEnd (front : ∀ part ∈ parts, part ∈ all ∧ part.coming before.cursor = [])
    (same : ∀ other ∈ all, other.coming after.cursor = other.coming before.cursor) :
    AnsweredAt host all before after parts parts.length none := by
  simpa using AnsweredAt.append front (.ended same)

end pulling

namespace Web

variable {host : Host κ} {all family : List (Feed κ)} {before middle after : Store}
  {own : Ident} {first second : Feed κ}

theorem parts_plain {feed : Feed κ} (plain : feed.isChain = false) : feed.parts = [feed] := by
  cases feed with
  | chain => cases plain
  | _ => rfl

theorem chain_inside (web : Web all family)
    (inside : Feed.chain own first second ∈ all ∨ Feed.chain own first second ∈ family) :
    Feed.chain own first second ∈ family := by
  rcases inside with part | inside
  · cases web.plain _ part
  · exact inside

theorem parts_inside (web : Web all family) (feed : Feed κ) :
    feed ∈ all ∨ feed ∈ family → ∀ part ∈ feed.parts, part ∈ all := by
  have alone : ∀ feed : Feed κ, feed.isChain = false → feed ∈ all ∨ feed ∈ family →
      ∀ part ∈ feed.parts, part ∈ all := by
    intro feed plain inside part member
    rw [parts_plain plain,List.mem_singleton] at member
    subst member
    exact inside.elim id fun inside => web.within part inside plain
  induction feed with
  | chain id first second ihFirst ihSecond =>
    intro inside part member
    have chain := web.chain_inside inside
    rcases List.mem_append.mp member with member | member
    · exact ihFirst (web.first id first second chain) part member
    · exact ihSecond (web.second id first second chain) part member
  | _ => exact alone _ rfl

theorem pieces_moved (web : Web all family) (chain : .chain own first second ∈ family)
    (store : Store) (value : Cursor) {part : Feed κ} (inside : part ∈ all) :
    part.pieces (store.moved own value).cursor = part.pieces store.cursor :=
  part.pieces_congr fun _ member => Store.moved_cursor_other _ _ fun same =>
    web.beside own first second chain part inside (same ▸ member)

theorem sound_moved (web : Web all family) (chain : .chain own first second ∈ family)
    (sound : Sound host all family before) {value : Cursor}
    (passed : ¬value.position = 0 → ∀ part ∈ first.parts, part.coming before.cursor = [])
    (closed : value.phase = .closed →
      ∀ part ∈ first.parts ++ second.parts, part.coming before.cursor = []) :
    Sound host all family (before.moved own value) := by
  have same : ∀ part ∈ all, part.coming (before.moved own value).cursor =
      part.coming before.cursor := by
    intro part inside
    rw [Feed.coming,Feed.coming,web.pieces_moved chain before value inside]
  refine ⟨?_,?_,?_⟩
  · intro id first' second' chain' read part member
    rw [same part (web.parts_inside first' (web.first id first' second' chain') part member)]
    by_cases here : id = own
    · subst here
      obtain ⟨rfl,rfl⟩ := web.named id first second chain first' second' chain'
      rw [Store.moved_cursor_self] at read
      exact passed read part member
    · rw [Store.moved_cursor_other _ _ here] at read
      exact sound.passed id first' second' chain' read part member
  · intro id first' second' chain' ended part member
    rw [same part (web.parts_inside (.chain id first' second') (.inr chain') part member)]
    by_cases here : id = own
    · subst here
      obtain ⟨rfl,rfl⟩ := web.named id first second chain first' second' chain'
      rw [Store.moved_cursor_self] at ended
      exact closed ended part member
    · rw [Store.moved_cursor_other _ _ here] at ended
      exact sound.closed id first' second' chain' ended part member
  · intro part inside piece member
    rw [web.pieces_moved chain before value inside] at member
    exact sound.quiet part inside piece member

theorem sound_part (web : Web all family) {part : Feed κ} (inside : part ∈ all)
    (sound : Sound host all family before) (onward : OnlyReadOn all before after)
    (still : ∀ id ∈ (all ++ family).flatMap Feed.ids, id ∉ part.ids →
      after.cursor id = before.cursor id) : Sound host all family after := by
  have kept : ∀ id first second, .chain id first second ∈ family →
      after.cursor id = before.cursor id := by
    intro id first second chain
    refine still id (List.mem_flatMap.mpr ⟨_,List.mem_append_right _ chain,?_⟩)
      (web.beside id first second chain part inside)
    simp [Feed.ids]
  refine ⟨?_,?_,?_⟩
  · intro id first second chain read part member
    rw [kept id first second chain] at read
    exact onward.empty (web.parts_inside first (web.first id first second chain) part member)
      (sound.passed id first second chain read part member)
  · intro id first second chain ended part member
    rw [kept id first second chain] at ended
    exact onward.empty (web.parts_inside (.chain id first second) (.inr chain) part member)
      (sound.closed id first second chain ended part member)
  · intro part inside piece member
    exact sound.quiet part inside piece ((onward part inside).mem member)

-- A chain with a new identity over a sequence at hand and another one, or over
-- nodes that lie in a sequence of their own.
theorem grow (web : Web all family) {extra : List (Feed κ)} {feed : Feed κ}
    (inside : feed ∈ family) (operand : second ∈ family ∨ second ∈ extra)
    (fresh : ∀ part ∈ extra, part = second ∧ ∃ nodes, part = .items (own + 1) nodes)
    (partId : ∀ part ∈ all, ∀ id ∈ part.ids, id < own)
    (familyId : ∀ other ∈ family, ∀ id ∈ other.ids, id < own) :
    Web (extra ++ all) (.chain own feed second :: family) := by
  have chainId : ∀ id first second, .chain id first second ∈ family → id < own :=
    fun id first second member => familyId _ member id (by simp [Feed.ids])
  have extraId : ∀ part ∈ extra, part.ids = [own + 1] := by
    intro part member
    obtain ⟨_,nodes,rfl⟩ := fresh part member
    rfl
  have beyond : ∀ part ∈ extra, ∀ other ∈ all, ∀ id ∈ part.ids, id ∉ other.ids := by
    intro part member other member' id here there
    rw [extraId part member,List.mem_singleton] at here
    subst here
    exact Nat.not_succ_lt_self (partId other member' _ there)
  refine ⟨?_,?_,?_,?_,?_,?_,?_,?_⟩
  · intro part member
    rcases List.mem_append.mp member with new | old
    · obtain ⟨_,nodes,rfl⟩ := fresh part new
      rfl
    · exact web.plain part old
  · intro part member
    rcases List.mem_append.mp member with new | old
    · refine ⟨by rw [extraId part new]; simp,?_⟩
      obtain ⟨_,nodes,rfl⟩ := fresh part new
      rfl
    · exact web.listed part old
  · intro part member other member'
    rcases List.mem_append.mp member with new | old <;>
      rcases List.mem_append.mp member' with new' | old'
    · exact .inl ((fresh part new).1.trans (fresh other new').1.symm)
    · exact .inr fun id here there => beyond part new other old' id here there
    · exact .inr fun id here there => beyond other new' part old id there here
    · exact web.apart part old other old'
  · intro other member plain
    rcases List.mem_cons.mp member with rfl | old
    · cases plain
    · exact List.mem_append_right _ (web.within other old plain)
  · intro id first second' member
    rcases List.mem_cons.mp member with new | old
    · cases new
      exact .inr (List.mem_cons_of_mem _ inside)
    · exact (web.first id first second' old).imp (List.mem_append_right _)
        (List.mem_cons_of_mem _)
  · intro id first second' member
    rcases List.mem_cons.mp member with new | old
    · cases new
      exact operand.symm.imp (List.mem_append_left _) (List.mem_cons_of_mem _)
    · exact (web.second id first second' old).imp (List.mem_append_right _)
        (List.mem_cons_of_mem _)
  · intro id first second' member part member' here
    rcases List.mem_append.mp member' with new | old
    · rw [extraId part new,List.mem_singleton] at here
      subst here
      rcases List.mem_cons.mp member with new | chain
      · cases new
      · exact Nat.not_succ_lt_self (chainId _ first second' chain)
    · rcases List.mem_cons.mp member with new | chain
      · cases new
        exact Nat.lt_irrefl _ (partId part old _ here)
      · exact web.beside id first second' chain part old here
  · intro id first second' member first' second'' member'
    rcases List.mem_cons.mp member with new | old <;>
      rcases List.mem_cons.mp member' with new' | old'
    · cases new
      cases new'
      exact ⟨rfl,rfl⟩
    · cases new
      exact (Nat.lt_irrefl _ (chainId _ _ _ old')).elim
    · cases new'
      exact (Nat.lt_irrefl _ (chainId _ _ _ old)).elim
    · exact web.named id first second' old first' second'' old'

def RequestServed (host : Host κ) (all family : List (Feed κ)) (feed : Feed κ) (before : Store)
    (answer : Option (Node κ)) (after : Store) : Prop :=
  ∃ place given, given.map Prod.snd = answer ∧
    AnsweredAt host all before after feed.parts place given ∧ Sound host all family after ∧
      OnlyReadOn all before after

theorem part_serves (web : Web all family) {feed : Feed κ} (plain : feed.isChain = false)
    (inside : feed ∈ all) (sound : Sound host all family before)
    (run : feed.pull host before = .ok answer after) :
    RequestServed host all family feed before answer after := by
  have within : ∀ id ∈ feed.ids, id ∈ (all ++ family).flatMap Feed.ids :=
    fun id member => List.mem_flatMap.mpr ⟨feed,List.mem_append_left _ inside,member⟩
  obtain ⟨given,told,pulled,still,shorter⟩ := Feed.part_pull (web.listed feed inside) within rfl
    (sound.quiet feed inside) run
  have others : ∀ other ∈ all, other ≠ feed →
      other.pieces after.cursor = other.pieces before.cursor := by
    intro other member apart
    refine other.pieces_congr fun id here => still id ?_ ?_
    · exact List.mem_flatMap.mpr ⟨other,List.mem_append_left _ member,here⟩
    · exact fun there => (web.apart other member feed inside).elim apart fun disjoint =>
        disjoint id here there
  have onward : OnlyReadOn all before after := by
    intro other member
    by_cases same : other = feed
    · exact same ▸ shorter
    · exact others other member same ▸ List.suffix_refl (other.pieces after.cursor)
  have comings : ∀ other ∈ all, other ≠ feed →
      other.coming after.cursor = other.coming before.cursor := by
    intro other member apart
    rw [Feed.coming,Feed.coming,others other member apart]
  have sound' := web.sound_part inside sound onward still
  rw [RequestServed,parts_plain plain]
  cases pulled with
  | item front gave behind =>
    exact ⟨0,_,told,.here inside front gave behind comings,sound',onward⟩
  | ended empty nothing =>
    refine ⟨1,_,told,.later inside empty (.ended fun other member => ?_),sound',onward⟩
    by_cases same : other = feed
    · rw [same,nothing,empty]
    · exact comings other member same

theorem second_serves (web : Web all family) (chain : .chain own first second ∈ family)
    (front : ∀ part ∈ first.parts, part ∈ all ∧ part.coming before.cursor = [])
    (later : ∀ {answer after}, second.pull host before = .ok answer after →
      RequestServed host all family second before answer after)
    (run : Feed.pullSecond host own second before = .ok answer after) :
    RequestServed host all family (.chain own first second) before answer after := by
  rw [Feed.pullSecond_eq] at run
  cases come : second.pull host before with
  | error fault last => simp [come] at run
  | ok found last =>
    obtain ⟨place,given,told,answered,sound,onward⟩ := later come
    cases found with
    | some node =>
      simp only [come,EStateM.Result.ok.injEq] at run
      obtain ⟨rfl,rfl⟩ := run
      exact ⟨_,given,told,.append front answered,sound,onward⟩
    | none =>
      simp only [come,EStateM.Result.ok.injEq] at run
      obtain ⟨rfl,rfl⟩ := run
      obtain rfl := Option.map_eq_none_iff.mp told
      obtain ⟨rfl,back,same⟩ := answered.used
      have used : ∀ part ∈ first.parts ++ second.parts, part.coming last.cursor = [] := by
        intro part member
        rcases List.mem_append.mp member with member | member
        · exact onward.empty (front part member).1 (front part member).2
        · exact onward.empty (back part member).1 (back part member).2
      have pieces : ∀ part ∈ all, part.pieces (last.shut own).cursor = part.pieces last.cursor :=
        fun part inside => web.pieces_moved chain last _ inside
      refine ⟨_,none,rfl,(AnsweredAt.append front answered).congr (fun _ _ => rfl) ?_,?_,?_⟩
      · intro part inside
        rw [Feed.coming,Feed.coming,pieces part inside]
      · exact web.sound_moved chain sound
          (fun _ part member => used part (List.mem_append_left _ member)) fun _ => used
      · intro part inside
        rw [pieces part inside]
        exact onward part inside

theorem serves_earlier {feed : Feed κ} (onward : OnlyReadOn all start before)
    (same : ∀ part ∈ all, part.coming before.cursor = part.coming start.cursor)
    (serves : RequestServed host all family feed before answer after) :
    RequestServed host all family feed start answer after := by
  obtain ⟨place,given,told,answered,sound,onward'⟩ := serves
  exact ⟨place,given,told,answered.congr same fun _ _ => rfl,sound,onward.trans onward'⟩

theorem pull_serves (web : Web all family) (feed : Feed κ) :
    feed ∈ all ∨ feed ∈ family → ∀ {before answer after}, Sound host all family before →
      feed.pull host before = .ok answer after →
        RequestServed host all family feed before answer after := by
  have alone : ∀ feed : Feed κ, feed.isChain = false → feed ∈ all ∨ feed ∈ family →
      ∀ {before answer after}, Sound host all family before →
        feed.pull host before = .ok answer after →
          RequestServed host all family feed before answer after := by
    intro feed plain inside before answer after sound run
    exact web.part_serves plain (inside.elim id fun inside => web.within feed inside plain) sound run
  induction feed with
  | chain own first second ihFirst ihSecond =>
    intro inside before answer after sound run
    have chain := web.chain_inside inside
    have firstHere := web.first own first second chain
    have secondHere := web.second own first second chain
    have within := web.parts_inside (.chain own first second) (.inr chain)
    by_cases closed : (before.cursor own).phase = .closed
    · simp only [Feed.pull,Action.bind_apply,Action.cursor_apply,closed,if_true,
        Action.pure_apply,EStateM.Result.ok.injEq] at run
      obtain ⟨rfl,rfl⟩ := run
      refine ⟨_,none,rfl,.atEnd (fun part member => ⟨within part member,?_⟩) fun _ _ => rfl,sound,
        fun _ _ => List.suffix_rfl⟩
      exact sound.closed own first second chain closed part member
    by_cases unread : (before.cursor own).position = 0
    · rw [Feed.chain_first closed unread] at run
      cases come : first.pull host before with
      | error fault last => simp [come] at run
      | ok found middle =>
        obtain ⟨place,given,told,answered,soundMiddle,onward⟩ := ihFirst firstHere sound come
        cases found with
        | some node =>
          simp only [come,EStateM.Result.ok.injEq] at run
          obtain ⟨rfl,rfl⟩ := run
          obtain ⟨found,rfl,_⟩ := Option.map_eq_some_iff.mp told
          exact ⟨place,_,told,answered.widen,soundMiddle,onward⟩
        | none =>
          simp only [come] at run
          obtain rfl := Option.map_eq_none_iff.mp told
          obtain ⟨rfl,front,same⟩ := answered.used
          have pieces : ∀ part ∈ all, part.pieces (middle.moved own ⟨1,.ready⟩).cursor =
              part.pieces middle.cursor := fun part inside => web.pieces_moved chain middle _ inside
          have used : ∀ part ∈ first.parts, part.coming middle.cursor = [] := fun part member =>
            (same part (front part member).1).trans (front part member).2
          have comings : ∀ part ∈ all, part.coming (middle.moved own ⟨1,.ready⟩).cursor =
              part.coming middle.cursor := by
            intro part inside
            rw [Feed.coming,Feed.coming,pieces part inside]
          have moved : Sound host all family (middle.moved own ⟨1,.ready⟩) :=
            web.sound_moved chain soundMiddle (fun _ => used) (by simp)
          have passed : ∀ part ∈ first.parts,
              part ∈ all ∧ part.coming (middle.moved own ⟨1,.ready⟩).cursor = [] := by
            intro part member
            have inside := (front part member).1
            exact ⟨inside,(comings part inside).trans (used part member)⟩
          have serves := web.second_serves chain passed (ihSecond secondHere moved) run
          refine serves_earlier (fun part inside => ?_) (fun part inside => ?_) serves
          · rw [pieces part inside]
            exact onward part inside
          · exact (comings part inside).trans (same part inside)
    · rw [Feed.chain_second closed unread] at run
      refine web.second_serves chain (fun part member => ?_) (ihSecond secondHere sound) run
      exact ⟨within part (List.mem_append_left _ member),
        sound.passed own first second chain unread part member⟩
  | _ => exact alone _ rfl

end Web

end Markup
