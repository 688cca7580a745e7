import Markup.Proofs.Composition
import Markup.Proofs.Sharing.Endless

namespace Markup

variable {κ : Type}

structure Turn (κ : Type) where
  consumer : Feed κ
  place : Nat
  given : Option (Piece κ × Node κ)

namespace Turn

def part? (turn : Turn κ) : Option (Feed κ) := turn.consumer.parts[turn.place]?

def answer (turn : Turn κ) : Option (Node κ) := turn.given.map Prod.snd

def took (part : Feed κ) (turn : Turn κ) : Option (Piece κ) :=
  if (turn.part?.map Feed.ident) = some part.ident then turn.given.map Prod.fst else none

end Turn

def taken (part : Feed κ) (turns : List (Turn κ)) : List (Piece κ) := turns.filterMap (·.took part)

def serve (host : Host κ) : List (Feed κ) → Action (List (Option (Node κ)))
  | [] => return []
  | consumer :: rest => do
    let answer ← consumer.pull host
    return answer :: (← serve host rest)

-- Something happens in between that leaves some sequences alone. What it makes
-- is new, and nothing is read that is not made yet.
structure Meanwhile (ids : List Ident) (before after : Store) : Prop where
  cursor : ∀ id ∈ ids, after.cursor id = before.cursor id
  supply : before.supply ≤ after.supply
  unread : ∀ id, after.supply ≤ id → after.cursor id = {}

structure Sources (sources : List (Feed κ)) (store : Store) : Prop where
  plain : ∀ source ∈ sources, source.isChain = false
  single : ∀ source ∈ sources, source.ids.Nodup
  apart : ∀ source ∈ sources, ∀ other ∈ sources, source = other ∨
    ∀ id ∈ source.ids, id ∉ other.ids
  issued : ∀ source ∈ sources, ∀ id ∈ source.ids, id < store.supply
  unread : ∀ id, store.supply ≤ id → store.cursor id = {}

-- The sequences that composition can make of the sources: a sequence at hand
-- takes in a node or another of them, at once or when the node is known.
inductive Weaves (host : Host κ) (sources : List (Feed κ)) (start : Store) :
    List (Feed κ) → Store → Prop where
  | given : Weaves host sources start sources start
  | meanwhile (weaves : Weaves host sources start family before)
      (idle : Meanwhile (family.flatMap Feed.ids) before after) :
      Weaves host sources start family after
  | composed (weaves : Weaves host sources start family before) (inside : feed ∈ family)
      (operand : ∀ other, node = .sequence other → other ∈ family)
      (done : (Node.sequence feed).append node before = .ok (.sequence whole) after) :
      Weaves host sources start (whole :: family) after
  | awaited (weaves : Weaves host sources start family before) (inside : feed ∈ family)
      (known : last.drive host token before = .ok node middle)
      (idle : Meanwhile (family.flatMap Feed.ids) before middle)
      (done : (Pending.appendTo link feed last).drive host token before =
        .ok (.sequence whole) after) :
      Weaves host sources start (whole :: family) after

structure Shared (host : Host κ) (family : List (Feed κ)) (left : Feed κ → List (Piece κ))
    (turns : List (Turn κ)) : Prop where
  given : ∀ turn ∈ turns, ∀ piece node, turn.given = some (piece,node) → GivesNode host piece node
  once : ∀ past future, turns = past ++ future →
    ∀ consumer ∈ family, ∀ part ∈ consumer.parts, taken part past <+: left part
  passed : ∀ past future, turns = past ++ future →
    ∀ turn ∈ past, ∀ part ∈ turn.consumer.parts.take turn.place, taken part past = left part
  inOrder : turns.Pairwise fun one other => one.consumer = other.consumer → one.place ≤ other.place
  onward : ∀ past turn future, turns = past ++ turn :: future →
    (∀ part ∈ turn.consumer.parts.take turn.place, taken part past = left part) ∧
      match turn.given with
      | some (piece,_) => ∃ part, turn.part? = some part ∧ taken part past ++ [piece] <+: left part
      | none => turn.place = turn.consumer.parts.length

inductive Rounds (host : Host κ) (all : List (Feed κ)) : Store → List (Turn κ) → Store → Prop where
  | nil : Rounds host all store [] store
  | cons (answered : AnsweredAt host all before middle turn.consumer.parts turn.place turn.given)
      (more : Rounds host all middle turns after) : Rounds host all before (turn :: turns) after

section rounds

variable {host : Host κ} {all family : List (Feed κ)} {before middle after : Store}
  {parts : List (Feed κ)} {place : Nat} {given : Option (Piece κ × Node κ)}
  {turn : Turn κ} {turns past future : List (Turn κ)}

theorem Web.serve_rounds (web : Web all family) {schedule : List (Feed κ)} :
    (∀ consumer ∈ schedule, consumer ∈ family) → ∀ {before handed after},
      Sound host all family before → serve host schedule before = .ok handed after →
        ∃ turns : List (Turn κ), turns.map Turn.consumer = schedule ∧
          turns.map Turn.answer = handed ∧ Rounds host all before turns after := by
  induction schedule with
  | nil =>
    intro _ before handed after sound run
    cases run
    exact ⟨[],rfl,rfl,.nil⟩
  | cons consumer rest ih =>
    intro within before handed after sound run
    have members := List.forall_mem_cons.mp within
    simp only [serve,Action.bind_apply,Action.pure_apply] at run
    cases come : consumer.pull host before with
    | error fault last => simp [come] at run
    | ok answer middle =>
      simp only [come] at run
      obtain ⟨place,given,told,answered,sound',_⟩ :=
        web.pull_serves consumer (.inr members.1) sound come
      cases later : serve host rest middle with
      | error fault last => simp [later] at run
      | ok answers last =>
        simp only [later,EStateM.Result.ok.injEq] at run
        obtain ⟨rfl,rfl⟩ := run
        obtain ⟨turns,consumers,answers,rounds⟩ := ih members.2 sound' later
        refine ⟨⟨consumer,place,given⟩ :: turns,?_,?_,.cons answered rounds⟩
        · rw [List.map_cons,consumers]
        · rw [List.map_cons,answers,Turn.answer,told]

theorem AnsweredAt.front (answered : AnsweredAt host all before after parts place given) :
    ∀ part ∈ parts.take place, part ∈ all ∧ part.coming before.cursor = [] := by
  induction answered with
  | here | ended => simp
  | later inside empty more ih =>
    rw [List.take_succ_cons]
    exact List.forall_mem_cons.mpr ⟨⟨inside,empty⟩,ih⟩

theorem AnsweredAt.place_le (answered : AnsweredAt host all before after parts place given) :
    place ≤ parts.length := by
  induction answered with
  | here | ended => exact Nat.zero_le _
  | later inside empty more ih => exact Nat.succ_le_succ ih

theorem AnsweredAt.found
    (answered : AnsweredAt host all before after parts place (some (piece,node))) :
    GivesNode host piece node ∧ ∃ part rest, parts[place]? = some part ∧ part ∈ all ∧
      part.coming before.cursor = piece :: rest := by
  generalize same : some (piece,node) = given at answered
  induction answered with
  | here inside front gave behind others =>
    cases same
    exact ⟨gave,_,_,rfl,inside,front⟩
  | later inside empty more ih =>
    obtain ⟨gave,part,rest,here,inside,front⟩ := ih same
    exact ⟨gave,part,rest,by simpa using here,inside,front⟩
  | ended => cases same

theorem ident_mem (feed : Feed κ) : feed.ident ∈ feed.ids := by
  cases feed <;> simp [Feed.ident,Feed.ids]

theorem Web.ident_same (web : Web all family) {part other : Feed κ} (inside : part ∈ all)
    (member : other ∈ all) (same : part.ident = other.ident) : part = other :=
  (web.apart part inside other member).elim id fun disjoint =>
    (disjoint _ (ident_mem part) (same ▸ ident_mem other)).elim

theorem Web.took_rest (web : Web all family)
    (answered : AnsweredAt host all before after turn.consumer.parts turn.place turn.given)
    {part : Feed κ} (inside : part ∈ all) :
    (turn.took part).toList ++ part.coming after.cursor = part.coming before.cursor := by
  unfold Turn.took Turn.part?
  generalize turn.consumer.parts = parts at answered
  generalize turn.place = place at answered
  generalize turn.given = given at answered
  induction answered with
  | @here other piece rest node parts member front gave behind others =>
    by_cases same : other.ident = part.ident
    · obtain rfl := web.ident_same member inside same
      simp [front,behind]
    · have apart : part ≠ other := fun equal => same (congrArg Feed.ident equal.symm)
      simpa [same] using others part inside apart
  | later member empty more ih => simpa using ih
  | ended still => simpa using still part inside

theorem taken_cons (part : Feed κ) (turn : Turn κ) (turns : List (Turn κ)) :
    taken part (turn :: turns) = (turn.took part).toList ++ taken part turns := by
  rw [taken,List.filterMap_cons,taken]
  cases turn.took part <;> rfl

theorem Web.taken_rest (web : Web all family) (rounds : Rounds host all before turns after)
    {part : Feed κ} (inside : part ∈ all) :
    taken part turns ++ part.coming after.cursor = part.coming before.cursor := by
  induction rounds with
  | nil => rfl
  | cons answered more ih => rw [taken_cons,List.append_assoc,ih,web.took_rest answered inside]

theorem Web.still_empty (web : Web all family) (rounds : Rounds host all before turns after)
    {part : Feed κ} (inside : part ∈ all) (empty : part.coming before.cursor = []) :
    part.coming after.cursor = [] := by
  have conserved := web.taken_rest rounds inside
  rw [empty] at conserved
  exact (List.append_eq_nil_iff.mp conserved).2

theorem Rounds.split (rounds : Rounds host all before (past ++ future) after) :
    ∃ middle, Rounds host all before past middle ∧ Rounds host all middle future after := by
  induction past generalizing before with
  | nil => exact ⟨before,.nil,rounds⟩
  | cons turn past ih =>
    cases rounds with
    | cons answered more =>
      obtain ⟨middle,one,other⟩ := ih more
      exact ⟨middle,.cons answered one,other⟩

theorem Rounds.answered (rounds : Rounds host all before turns after) (member : turn ∈ turns) :
    ∃ start last, AnsweredAt host all start last turn.consumer.parts turn.place turn.given := by
  induction rounds with
  | nil => cases member
  | cons answered more ih =>
    rcases List.mem_cons.mp member with rfl | later
    · exact ⟨_,_,answered⟩
    · exact ih later

theorem Web.not_back (web : Web all family) (rounds : Rounds host all before turns after)
    {parts : List (Feed κ)} {place : Nat} (short : place ≤ parts.length)
    (front : ∀ part ∈ parts.take place, part ∈ all ∧ part.coming before.cursor = [])
    (member : turn ∈ turns) (same : turn.consumer.parts = parts) : place ≤ turn.place := by
  obtain ⟨past,future,rfl⟩ := List.append_of_mem member
  obtain ⟨middle,one,other⟩ := rounds.split
  cases other with
  | cons answered more =>
    rw [same] at answered
    cases given : turn.given with
    | none =>
      rw [given] at answered
      exact answered.used.1 ▸ short
    | some pair =>
      rw [given] at answered
      obtain ⟨_,part,rest,here,inside,found⟩ := answered.found
      by_contra less
      have passed : part ∈ parts.take place := by
        rw [List.mem_take_iff_getElem]
        obtain ⟨bound,rfl⟩ := List.getElem?_eq_some_iff.mp here
        exact ⟨turn.place,by omega,rfl⟩
      have empty := web.still_empty one inside (front part passed).2
      rw [empty] at found
      cases found

theorem Web.in_order (web : Web all family) (rounds : Rounds host all before turns after) :
    turns.Pairwise fun one other => one.consumer = other.consumer → one.place ≤ other.place := by
  induction rounds with
  | nil => exact .nil
  | cons answered more ih =>
    refine .cons (fun other member same => ?_) ih
    refine web.not_back more answered.place_le (fun part passed => ?_) member (by rw [same])
    obtain ⟨inside,empty⟩ := answered.front part passed
    exact ⟨inside,web.still_empty (.cons answered .nil) inside empty⟩

theorem Web.shared (web : Web all family) (rounds : Rounds host all before turns after)
    (within : ∀ turn ∈ turns, turn.consumer ∈ family) :
    Shared host family (·.coming before.cursor) turns := by
  refine ⟨?_,?_,?_,?_,?_⟩
  · intro turn member piece node given
    obtain ⟨start,last,answered⟩ := rounds.answered member
    rw [given] at answered
    exact answered.found.1
  · rintro past future rfl consumer member part inside
    obtain ⟨middle,one,_⟩ := rounds.split
    exact ⟨_,web.taken_rest one (web.parts_inside consumer (.inr member) part inside)⟩
  · rintro past future rfl turn member part passed
    obtain ⟨middle,one,_⟩ := rounds.split
    obtain ⟨earlier,later,rfl⟩ := List.append_of_mem member
    obtain ⟨start,_,rest⟩ := one.split
    cases rest with
    | cons answered more =>
      obtain ⟨inside,empty⟩ := answered.front part passed
      have gone := web.still_empty (.cons answered more) inside empty
      simpa [gone] using web.taken_rest one inside
  · exact web.in_order rounds
  · rintro past turn future rfl
    obtain ⟨middle,one,rest⟩ := rounds.split
    cases rest with
    | cons answered more =>
      refine ⟨?_,?_⟩
      · intro part passed
        obtain ⟨inside,empty⟩ := answered.front part passed
        simpa [empty] using web.taken_rest one inside
      · cases given : turn.given with
        | none =>
          rw [given] at answered
          exact answered.used.1
        | some pair =>
          rw [given] at answered
          obtain ⟨_,part,others,here,inside,front⟩ := answered.found
          refine ⟨part,here,others,?_⟩
          have conserved := web.taken_rest one inside
          rw [front] at conserved
          simpa using conserved

end rounds

-- What composition has made so far: a web over the sources and the nodes it was
-- given on the way, whose chains nobody has begun to read.
structure Woven (sources : List (Feed κ)) (start : Store) (all family : List (Feed κ))
    (store : Store) : Prop where
  web : Web all family
  holds : ∀ source ∈ sources, source ∈ all
  known : ∀ part ∈ all, part ∈ sources ∨ ∃ id nodes, part = .items id nodes
  covered : ∀ part ∈ all, ∀ id ∈ part.ids, id ∈ family.flatMap Feed.ids
  issued : ∀ id ∈ family.flatMap Feed.ids, id < store.supply
  unread : ∀ id, store.supply ≤ id → store.cursor id = {}
  begun : ∀ id first second, .chain id first second ∈ family → store.cursor id = {}
  left : ∀ source ∈ sources, source.pieces store.cursor = source.pieces start.cursor

section weaving

variable {host : Host κ} {sources all family extra : List (Feed κ)} {start before after : Store}
  {feed second : Feed κ}

theorem Sources.woven (fit : Sources sources start) (ends : ∀ source ∈ sources, source.ends = true) :
    Woven sources start sources sources start where
  web := by
    have chain : ∀ id first second, .chain id first second ∈ sources → False :=
      fun id first second inside => by cases fit.plain _ inside
    have listed : ∀ source ∈ sources, source.Listed :=
      fun source inside => ⟨fit.single source inside,ends source inside⟩
    exact ⟨fit.plain,listed,fit.apart,fun feed inside _ => inside,
      fun id first second inside => (chain id first second inside).elim,
      fun id first second inside => (chain id first second inside).elim,
      fun id first second inside => (chain id first second inside).elim,
      fun id first second inside => (chain id first second inside).elim⟩
  holds _ inside := inside
  known _ inside := .inl inside
  covered part inside id member := List.mem_flatMap.mpr ⟨part,inside,member⟩
  issued id member := by
    obtain ⟨source,inside,member⟩ := List.mem_flatMap.mp member
    exact fit.issued source inside id member
  unread := fit.unread
  begun id first second inside := by cases fit.plain _ inside
  left _ _ := rfl

theorem Woven.meanwhile (woven : Woven sources start all family before)
    (idle : Meanwhile (family.flatMap Feed.ids) before after) :
    Woven sources start all family after where
  web := woven.web
  holds := woven.holds
  known := woven.known
  covered := woven.covered
  issued id member := Nat.lt_of_lt_of_le (woven.issued id member) idle.supply
  unread := idle.unread
  begun id first second inside := by
    rw [idle.cursor id (List.mem_flatMap.mpr ⟨_,inside,by simp [Feed.ids]⟩)]
    exact woven.begun id first second inside
  left source inside := by
    rw [←woven.left source inside]
    exact source.pieces_congr fun id member =>
      idle.cursor id (woven.covered source (woven.holds source inside) id member)

theorem Woven.grow (woven : Woven sources start all family before) (inside : feed ∈ family)
    (operand : second ∈ family ∨ second ∈ extra)
    (fresh : ∀ part ∈ extra, part = second ∧ ∃ nodes, part = .items before.issued.supply nodes)
    (cursor : after.cursor = before.cursor) (supply : before.supply < after.supply)
    (issued : ∀ id ∈ second.ids, id < after.supply) :
    Woven sources start (extra ++ all) (.chain before.supply feed second :: family) after := by
  have familyId : ∀ other ∈ family, ∀ id ∈ other.ids, id < before.supply :=
    fun other member id here => woven.issued id (List.mem_flatMap.mpr ⟨other,member,here⟩)
  have partId : ∀ part ∈ all, ∀ id ∈ part.ids, id < before.supply :=
    fun part member id here => woven.issued id (woven.covered part member id here)
  refine ⟨woven.web.grow inside operand fresh partId familyId,?_,?_,?_,?_,?_,?_,?_⟩
  · exact fun source member => List.mem_append_right _ (woven.holds source member)
  · intro part member
    rcases List.mem_append.mp member with new | old
    · obtain ⟨_,nodes,same⟩ := fresh part new
      exact .inr ⟨_,nodes,same⟩
    · exact woven.known part old
  · intro part member id here
    rw [List.flatMap_cons,List.mem_append]
    rcases List.mem_append.mp member with new | old
    · obtain ⟨rfl,_⟩ := fresh part new
      exact .inl (by simp [Feed.ids,here])
    · exact .inr (woven.covered part old id here)
  · intro id member
    rw [List.flatMap_cons,List.mem_append] at member
    rcases member with new | old
    · simp only [Feed.ids,List.mem_cons,List.mem_append] at new
      rcases new with rfl | left | right
      · exact supply
      · exact Nat.lt_trans (familyId feed inside id left) supply
      · exact issued id right
    · exact Nat.lt_trans (woven.issued id old) supply
  · intro id late
    rw [cursor]
    exact woven.unread id (Nat.le_trans (Nat.le_of_lt supply) late)
  · intro id first second' member
    rw [cursor]
    rcases List.mem_cons.mp member with new | old
    · cases new
      exact woven.unread _ (Nat.le_refl _)
    · exact woven.begun id first second' old
  · intro source member
    rw [cursor]
    exact woven.left source member

theorem append_chain {node : Node κ} {whole : Feed κ}
    (done : (Node.sequence feed).append node before = .ok (.sequence whole) after) :
    (∃ other, node = .sequence other ∧ whole = .chain before.supply feed other ∧
      after = before.issued) ∨
    ∃ nodes, whole = .chain before.supply feed (.items before.issued.supply nodes) ∧
      after = before.issued.issued := by
  cases node with
  | sequence other =>
    rw [append_sequences] at done
    cases done
    exact .inl ⟨other,rfl,rfl,rfl⟩
  | deferred pending =>
    rw [append_wait] at done
    cases done
  | foreign value => simp [Node.append,Node.requireNode,Node.isNode] at done
  | _ =>
    rw [append_items rfl (by simp) (by simp)] at done
    cases done
    exact .inr ⟨_,rfl,rfl⟩

theorem appendTo_chain {last : Pending κ} {link : Ident} {token : Token} {node : Node κ}
    {middle : Store} {whole : Feed κ} (known : last.drive host token before = .ok node middle)
    (done : (Pending.appendTo link feed last).drive host token before =
      .ok (.sequence whole) after) :
    whole = .chain middle.supply feed (.items middle.issued.supply [node]) ∧
      after = middle.issued.issued := by
  by_cases live : before.cancelled token = false
  · simp only [Pending.drive,Action.bind_apply,Action.check_live live,known,Action.fresh_apply,
      Action.pure_apply] at done
    cases done
    exact ⟨rfl,rfl⟩
  · simp [Pending.drive,Action.check_stopped (Bool.eq_true_of_not_eq_false live)] at done

theorem Woven.items (woven : Woven sources start all family before) (inside : feed ∈ family)
    (nodes : List (Node κ)) :
    Woven sources start ([.items before.issued.supply nodes] ++ all)
      (.chain before.supply feed (.items before.issued.supply nodes) :: family)
      before.issued.issued := by
  refine woven.grow inside (.inr List.mem_cons_self) (fun part member => ?_) rfl ?_ ?_
  · have same := List.mem_singleton.mp member
    exact ⟨same,nodes,same⟩
  · exact Nat.lt_succ_of_lt (Nat.lt_succ_self _)
  · simp [Feed.ids]

theorem Woven.sequence (woven : Woven sources start all family before) (inside : feed ∈ family)
    (operand : second ∈ family) :
    Woven sources start ([] ++ all) (.chain before.supply feed second :: family) before.issued :=
  woven.grow inside (.inl operand) (by simp) rfl (Nat.lt_succ_self _) fun id here =>
    Nat.lt_succ_of_lt (woven.issued id (List.mem_flatMap.mpr ⟨second,operand,here⟩))

theorem weaves_woven (fit : Sources sources start) (ends : ∀ source ∈ sources, source.ends = true)
    (weaves : Weaves host sources start family after) :
    ∃ all, Woven sources start all family after := by
  induction weaves with
  | given => exact ⟨sources,fit.woven ends⟩
  | meanwhile weaves idle ih =>
    obtain ⟨all,woven⟩ := ih
    exact ⟨all,woven.meanwhile idle⟩
  | composed weaves inside operand done ih =>
    obtain ⟨all,woven⟩ := ih
    rcases append_chain done with ⟨other,rfl,rfl,rfl⟩ | ⟨nodes,rfl,rfl⟩
    · exact ⟨_,woven.sequence inside (operand other rfl)⟩
    · exact ⟨_,woven.items inside nodes⟩
  | awaited weaves inside known idle done ih =>
    obtain ⟨all,woven⟩ := ih
    obtain ⟨rfl,rfl⟩ := appendTo_chain known done
    exact ⟨_,(woven.meanwhile idle).items inside _⟩

theorem Woven.sound (woven : Woven sources start all family after)
    (quiet : ∀ source ∈ sources, ∀ piece ∈ source.pieces start.cursor,
      LeavesAlone host (family.flatMap Feed.ids) piece) : Sound host all family after := by
  refine ⟨?_,?_,?_⟩
  · intro id first second inside read
    rw [woven.begun id first second inside] at read
    exact (read rfl).elim
  · intro id first second inside closed
    rw [woven.begun id first second inside] at closed
    cases closed
  · intro part inside piece member before found last come id here
    have covered : id ∈ family.flatMap Feed.ids := by
      rw [List.flatMap_append,List.mem_append] at here
      rcases here with here | here
      · obtain ⟨other,member',here⟩ := List.mem_flatMap.mp here
        exact woven.covered other member' id here
      · exact here
    rcases woven.known part inside with source | ⟨own,nodes,rfl⟩
    · rw [woven.left part source] at member
      exact quiet part source piece member before found last come id covered
    · obtain ⟨node,_,rfl⟩ : ∃ node, node ∈ nodes ∧ Piece.node node = piece := by
        simp only [Feed.pieces] at member
        split at member
        · cases member
        · obtain ⟨node,inside,same⟩ := List.mem_map.mp member
          exact ⟨node,List.mem_of_mem_drop inside,same⟩
      cases come
      rfl

end weaving

-- Sources that have no end: of each its first items are looked at, as many as a
-- run may come to.
section endless

variable {host : Host κ} {sources family schedule : List (Feed κ)} {start before after : Store}
  {feed whole : Feed κ} (length : Nat)

theorem Sources.cut (fit : Sources sources start) :
    Sources (sources.map (Feed.cut length)) start := by
  refine ⟨?_,?_,?_,?_,fit.unread⟩
  · simpa using fit.plain
  · simpa using fit.single
  · simp only [List.forall_mem_map,Feed.cut_ids]
    exact fun source inside other member =>
      (fit.apart source inside other member).imp_left fun same => by rw [same]
  · simpa using fit.issued

theorem flatMap_cut (family : List (Feed κ)) :
    (family.map (Feed.cut length)).flatMap Feed.ids = family.flatMap Feed.ids := by
  rw [List.flatMap_map]
  simp only [Feed.cut_ids]

theorem append_cut {node : Node κ} (operand : ∀ other, node = .sequence other → other ∈ family)
    (done : (Node.sequence feed).append node before = .ok (.sequence whole) after) :
    ∃ node' : Node κ, (∀ other, node' = .sequence other → other ∈ family.map (Feed.cut length)) ∧
      (Node.sequence (feed.cut length)).append node' before =
        .ok (.sequence (whole.cut length)) after := by
  cases node with
  | sequence other =>
    rw [append_sequences] at done
    cases done
    refine ⟨.sequence (other.cut length),?_,append_sequences _ _ _⟩
    intro _ same
    cases same
    exact List.mem_map_of_mem (operand other rfl)
  | deferred pending =>
    rw [append_wait] at done
    cases done
  | foreign value => simp [Node.append,Node.requireNode,Node.isNode] at done
  | _ =>
    rw [append_items rfl (by simp) (by simp)] at done
    cases done
    exact ⟨_,fun _ same => (by cases same),append_items rfl (by simp) (by simp) _ _⟩

theorem appendTo_cut {last : Pending κ} {link : Ident} {token : Token} {node : Node κ}
    {middle : Store} (known : last.drive host token before = .ok node middle)
    (done : (Pending.appendTo link feed last).drive host token before =
      .ok (.sequence whole) after) :
    (Pending.appendTo link (feed.cut length) last).drive host token before =
      .ok (.sequence (whole.cut length)) after := by
  obtain ⟨rfl,rfl⟩ := appendTo_chain known done
  by_cases live : before.cancelled token = false
  · simp only [Pending.drive,Action.bind_apply,Action.check_live live,known,Action.fresh_apply,
      Action.pure_apply]
    rfl
  · simp [Pending.drive,Action.check_stopped (Bool.eq_true_of_not_eq_false live)] at done

theorem Weaves.cut (weaves : Weaves host sources start family after) :
    Weaves host (sources.map (Feed.cut length)) start (family.map (Feed.cut length)) after := by
  induction weaves with
  | given => exact .given
  | meanwhile weaves idle ih => exact .meanwhile ih (by rwa [flatMap_cut])
  | composed weaves inside operand done ih =>
    obtain ⟨node',operand',done'⟩ := append_cut length operand done
    exact .composed ih (List.mem_map_of_mem inside) operand' done'
  | awaited weaves inside known idle done ih =>
    exact .awaited ih (List.mem_map_of_mem inside) known (by rwa [flatMap_cut])
      (appendTo_cut length known done)

theorem serve_cut (host : Host κ) (schedule : List (Feed κ)) : ∀ store, ∃ bound, ∀ length ≥ bound,
    serve host (schedule.map (Feed.cut length)) store = serve host schedule store := by
  induction schedule with
  | nil => exact fun store => ⟨0,fun _ _ => rfl⟩
  | cons consumer rest ih =>
    intro store
    obtain ⟨bound,same⟩ := consumer.pull_cut host store
    cases pulled : consumer.pull host store with
    | error fault middle =>
      refine ⟨bound,fun length far => ?_⟩
      simp only [List.map_cons,serve,Action.bind_apply,same length far,pulled]
    | ok answer middle =>
      obtain ⟨bound',same'⟩ := ih middle
      refine ⟨max bound bound',fun length far => ?_⟩
      simp only [List.map_cons,serve,Action.bind_apply,same length (by omega),pulled,
        same' length (by omega)]

def Turn.cut (length : Nat) (turn : Turn κ) : Turn κ :=
  {turn with consumer := turn.consumer.cut length}

theorem Turn.part?_cut (turn : Turn κ) :
    (turn.cut length).part? = turn.part?.map (Feed.cut length) := by
  simp [Turn.part?,Turn.cut,Feed.cut_parts]

theorem Turn.took_cut (part : Feed κ) (turn : Turn κ) :
    (turn.cut length).took (part.cut length) = turn.took part := by
  have ident : Option.map (Feed.ident ∘ Feed.cut length) turn.part? =
      Option.map Feed.ident turn.part? := by
    cases turn.part? <;> simp
  simp only [Turn.took,Turn.part?_cut,Option.map_map,ident,Feed.cut_ident]
  rfl

theorem taken_cut (part : Feed κ) (turns : List (Turn κ)) :
    taken (part.cut length) (turns.map (Turn.cut length)) = taken part turns := by
  rw [taken,List.filterMap_map,taken]
  congr
  funext turn
  exact Turn.took_cut length part turn

theorem turns_uncut {turns : List (Turn κ)} : ∀ {schedule : List (Feed κ)},
    turns.map Turn.consumer = schedule.map (Feed.cut length) →
      ∃ turns' : List (Turn κ), turns'.map Turn.consumer = schedule ∧
        turns'.map (Turn.cut length) = turns := by
  induction turns with
  | nil =>
    intro schedule consumers
    obtain rfl := List.map_eq_nil_iff.mp consumers.symm
    exact ⟨[],rfl,rfl⟩
  | cons turn turns ih =>
    intro schedule consumers
    cases schedule with
    | nil => cases consumers
    | cons consumer rest =>
      obtain ⟨same,others⟩ := List.cons.inj consumers
      obtain ⟨turns',rfl,rfl⟩ := ih others
      refine ⟨{turn with consumer} :: turns',rfl,?_⟩
      rw [List.map_cons,Turn.cut,←same]

theorem Shared.uncut {left : Feed κ → List (Piece κ)} {turns : List (Turn κ)}
    (shared : Shared host (family.map (Feed.cut length)) left (turns.map (Turn.cut length))) :
    Shared host family (fun part => left (part.cut length)) turns := by
  have within : ∀ {consumer part : Feed κ}, part ∈ consumer.parts →
      part.cut length ∈ (consumer.cut length).parts := by
    intro consumer part inside
    rw [Feed.cut_parts]
    exact List.mem_map_of_mem inside
  have front : ∀ {turn : Turn κ} {part : Feed κ}, part ∈ turn.consumer.parts.take turn.place →
      part.cut length ∈ (turn.cut length).consumer.parts.take (turn.cut length).place := by
    intro turn part inside
    rw [Turn.cut,Feed.cut_parts,←List.map_take]
    exact List.mem_map_of_mem inside
  refine ⟨?_,?_,?_,?_,?_⟩
  · exact fun turn member => shared.given (turn.cut length) (List.mem_map_of_mem member)
  · rintro past future rfl consumer member part inside
    rw [←taken_cut length]
    exact shared.once _ _ List.map_append (consumer.cut length) (List.mem_map_of_mem member) _
      (within inside)
  · rintro past future rfl turn member part passed
    rw [←taken_cut length]
    exact shared.passed _ _ List.map_append (turn.cut length) (List.mem_map_of_mem member) _
      (front passed)
  · refine (List.pairwise_map.mp shared.inOrder).imp fun order same => order ?_
    rw [Turn.cut,same,Turn.cut]
  · rintro past turn future rfl
    obtain ⟨ahead,given⟩ := shared.onward _ (turn.cut length) _ List.map_append
    refine ⟨fun part passed => ?_,?_⟩
    · rw [←taken_cut length]
      exact ahead _ (front passed)
    · change match turn.given with
        | some (piece,_) => _
        | none => _ at given
      split at given
      · next piece node handed =>
        obtain ⟨_,here,behind⟩ := given
        rw [Turn.part?_cut,Option.map_eq_some_iff] at here
        obtain ⟨part,here,rfl⟩ := here
        rw [taken_cut] at behind
        exact ⟨part,here,behind⟩
      · rw [Turn.cut,Feed.cut_parts,List.length_map] at given
        exact given

theorem ending_shared {ready : Store} {handed : List (Option (Node κ))}
    (fit : Sources sources start) (ends : ∀ source ∈ sources, source.ends = true)
    (weaves : Weaves host sources start family ready)
    (quiet : ∀ source ∈ sources, ∀ piece ∈ source.pieces start.cursor,
      LeavesAlone host (family.flatMap Feed.ids) piece)
    (within : ∀ consumer ∈ schedule, consumer ∈ family)
    (run : serve host schedule ready = .ok handed after) :
    (∀ source ∈ sources, source.coming ready.cursor = source.coming start.cursor) ∧
    ∃ turns : List (Turn κ), turns.map Turn.consumer = schedule ∧
      turns.map Turn.answer = handed ∧ Shared host family (·.coming ready.cursor) turns := by
  obtain ⟨all,woven⟩ := weaves_woven fit ends weaves
  refine ⟨?_,?_⟩
  · intro source inside
    rw [Feed.coming,Feed.coming,woven.left source inside]
  · obtain ⟨turns,consumers,answers,rounds⟩ :=
      woven.web.serve_rounds within (woven.sound quiet) run
    refine ⟨turns,consumers,answers,woven.web.shared rounds fun turn member => ?_⟩
    exact within _ (consumers ▸ List.mem_map_of_mem member)

end endless

-- Consumers that pull in turn on sequences that composition made of the same
-- single-pass sources share the items of each source: what was handed out is at
-- every moment the beginning of them and is all of them once some consumer has
-- moved on; every consumer keeps to the order of its parts and is never held up
-- by a part that is used up. Of a source without an end as many items are looked
-- at as one likes, from a number on that the run does not exceed.
theorem sharing_once {host : Host κ} {sources family schedule : List (Feed κ)}
    {start ready after : Store} {handed : List (Option (Node κ))}
    (fit : Sources sources start) (weaves : Weaves host sources start family ready)
    (quiet : ∀ length, ∀ source ∈ sources, ∀ piece ∈ (source.cut length).pieces start.cursor,
      LeavesAlone host (family.flatMap Feed.ids) piece)
    (within : ∀ consumer ∈ schedule, consumer ∈ family)
    (run : serve host schedule ready = .ok handed after) :
    ((∀ source ∈ sources, source.ends = true) →
      (∀ source ∈ sources, source.coming ready.cursor = source.coming start.cursor) ∧
      ∃ turns : List (Turn κ), turns.map Turn.consumer = schedule ∧
        turns.map Turn.answer = handed ∧ Shared host family (·.coming ready.cursor) turns) ∧
    ∃ bound, ∀ length ≥ bound,
      (∀ source ∈ sources, source.ahead length ready.cursor = source.ahead length start.cursor) ∧
      ∃ turns : List (Turn κ), turns.map Turn.consumer = schedule ∧
        turns.map Turn.answer = handed ∧ Shared host family (·.ahead length ready.cursor) turns := by
  refine ⟨fun ends => ?_,?_⟩
  · refine ending_shared fit ends weaves (fun source inside piece member => ?_) within run
    refine quiet 0 source inside piece ?_
    rwa [Feed.cut_of_ends 0 (ends source inside)]
  · obtain ⟨bound,same⟩ := serve_cut host schedule ready
    refine ⟨bound,fun length far => ?_⟩
    have quiet' : ∀ source ∈ sources.map (Feed.cut length), ∀ piece ∈ source.pieces start.cursor,
        LeavesAlone host ((family.map (Feed.cut length)).flatMap Feed.ids) piece := by
      rw [flatMap_cut,List.forall_mem_map]
      exact quiet length
    have within' : ∀ consumer ∈ schedule.map (Feed.cut length),
        consumer ∈ family.map (Feed.cut length) := by
      rw [List.forall_mem_map]
      exact fun consumer inside => List.mem_map_of_mem (within consumer inside)
    obtain ⟨kept,turns,consumers,answers,shared⟩ := ending_shared (fit.cut length) (by simp)
      (weaves.cut length) quiet' within' ((same length far).trans run)
    obtain ⟨turns,rfl,rfl⟩ := turns_uncut length consumers
    refine ⟨fun source inside => kept _ (List.mem_map_of_mem inside),turns,rfl,?_,
      shared.uncut length⟩
    rw [←answers,List.map_map]
    rfl

def numberHost : Host Nat := ⟨fun code _ => return .text code.repr,0⟩

def numbers : Feed Nat := .body 0 "numbers" [.item 1,.act 0,.item 2,.item 3]

def ticks : Feed Nat := .endless 1 "ticks" id

def closedNumbers : Feed Nat := .chain 2 numbers (.items 3 [.text "end"])

def moreNumbers : Feed Nat := .chain 4 closedNumbers numbers

def tickingNumbers : Feed Nat := .chain 5 moreNumbers ticks

theorem numbers_woven (others : List (Feed Nat)) : Weaves numberHost (numbers :: others) {supply := 2}
    (moreNumbers :: closedNumbers :: numbers :: others) {supply := 5} := by
  have text : (Node.sequence numbers).append (.text "end") {supply := 2} =
      .ok (.sequence closedNumbers) {supply := 4} := rfl
  have again : (Node.sequence closedNumbers).append (.sequence numbers) {supply := 4} =
      .ok (.sequence moreNumbers) {supply := 5} := rfl
  refine .composed (.composed .given (by simp) ?_ text) (by simp) ?_ again
  · intro other same
    cases same
  · intro other same
    cases same
    simp

theorem ticking_woven : Weaves numberHost [numbers,ticks] {supply := 2}
    [tickingNumbers,moreNumbers,closedNumbers,numbers,ticks] {supply := 6} := by
  have behind : (Node.sequence moreNumbers).append (.sequence ticks) {supply := 5} =
      .ok (.sequence tickingNumbers) {supply := 6} := rfl
  refine .composed (numbers_woven [ticks]) (by simp) ?_ behind
  intro other same
  cases same
  simp

theorem number_quiet (ids : List Ident) {own : Ident} {label : String} (entries : List (Entry Nat))
    (cursor : Ident → Cursor) : ∀ piece ∈ (Feed.body own label entries).pieces cursor,
      LeavesAlone numberHost ids piece := by
  have run : ∀ code token store, numberHost.run code token store = .ok (.text code.repr) store :=
    fun _ _ _ => rfl
  intro piece member before found after come id _
  rw [Feed.pieces] at member
  split at member
  · cases member
  · obtain ⟨entry,_,rfl⟩ := List.mem_map.mp member
    cases entry <;>
      simp only [Piece.ofEntry,Piece.give,Action.bind_apply,Action.discard_apply,run,
        Action.pure_apply] at come <;>
      cases come <;> rfl

theorem numbers_shared :
    (∃ after, serve numberHost [closedNumbers,moreNumbers,numbers,closedNumbers,moreNumbers]
        {supply := 5} =
        .ok [some (.text "1"),some (.text "2"),some (.text "3"),some (.text "end"),none] after ∧
      ∃ turns : List (Turn Nat),
        turns.map Turn.answer =
          [some (.text "1"),some (.text "2"),some (.text "3"),some (.text "end"),none] ∧
        Shared numberHost [moreNumbers,closedNumbers,numbers] (·.coming fun _ => {}) turns) ∧
    ∃ after, serve numberHost [closedNumbers,tickingNumbers,ticks,numbers,tickingNumbers,
        closedNumbers,tickingNumbers] {supply := 6} =
        .ok [some (.text "1"),some (.text "2"),some (.text "0"),some (.text "3"),
          some (.text "end"),none,some (.text "1")] after ∧
      ∃ bound, ∀ length ≥ bound, ∃ turns : List (Turn Nat),
        turns.map Turn.answer = [some (.text "1"),some (.text "2"),some (.text "0"),
          some (.text "3"),some (.text "end"),none,some (.text "1")] ∧
        Shared numberHost [tickingNumbers,moreNumbers,closedNumbers,numbers,ticks]
          (·.ahead length fun _ => {}) turns := by
  obtain ⟨after,run⟩ : ∃ after, serve numberHost
      [closedNumbers,moreNumbers,numbers,closedNumbers,moreNumbers] {supply := 5} =
      .ok [some (.text "1"),some (.text "2"),some (.text "3"),some (.text "end"),none] after :=
    ⟨_,rfl⟩
  obtain ⟨after',run'⟩ : ∃ after, serve numberHost [closedNumbers,tickingNumbers,ticks,numbers,
      tickingNumbers,closedNumbers,tickingNumbers] {supply := 6} =
        .ok [some (.text "1"),some (.text "2"),some (.text "0"),some (.text "3"),
          some (.text "end"),none,some (.text "1")] after :=
    ⟨_,rfl⟩
  have fit : Sources [numbers] {supply := 2} := by
    refine ⟨?_,?_,?_,?_,?_⟩ <;> simp [numbers,Feed.isChain,Feed.ids]
  have fit' : Sources [numbers,ticks] {supply := 2} := by
    refine ⟨?_,?_,?_,?_,?_⟩ <;> simp [numbers,ticks,Feed.isChain,Feed.ids]
  have quiet : ∀ (ids : List Ident) length, ∀ source ∈ [numbers,ticks],
      ∀ piece ∈ (source.cut length).pieces fun _ => {}, LeavesAlone numberHost ids piece := by
    intro ids length source inside
    rcases List.mem_pair.mp inside with rfl | rfl
    · exact number_quiet ids _ _
    · exact number_quiet ids _ _
  obtain ⟨_,turns,_,answers,shared⟩ := (sharing_once fit (numbers_woven [])
    (fun length source inside => quiet _ length source (by simp [List.mem_singleton.mp inside]))
    (by simp) run).1 (by simp [numbers,Feed.ends])
  obtain ⟨bound,sharing⟩ := (sharing_once fit' ticking_woven (quiet _) (by simp) run').2
  refine ⟨⟨after,run,turns,answers,shared⟩,after',run',bound,fun length far => ?_⟩
  obtain ⟨_,turns,_,answers,shared⟩ := sharing length far
  exact ⟨turns,answers,shared⟩

end Markup
