import Markup.Proofs.Action

namespace Markup

variable {κ : Type}

-- One thing that pulling a feed comes upon. What was put into a coercing feed
-- is coerced as often as it lies in such feeds.
inductive Piece (κ : Type) where
  | act (code : κ)
  | item (code : κ)
  | node (value : Node κ)
  | coerced (inner : Piece κ)
  | refused (kind : String)

def Piece.ofEntry : Entry κ → Piece κ
  | .act code => .act code
  | .item code => .item code

def Piece.give (host : Host κ) : Piece κ → Action (Option (Node κ))
  | .act code => do
    discard <| host.run code none
    return none
  | .item code => do return some (← host.run code none)
  | .node value => return some value
  | .coerced inner => do
    match ← inner.give host with
    | some value => return some (← value.coerce host)
    | none => return none
  | .refused kind => throw (.noFeed kind)

namespace Feed

@[elab_as_elim,induction_eliminator]
theorem inside {motive : Feed κ → Prop}
    (body : ∀ id label entries, motive (.body id label entries))
    (endless : ∀ id label code, motive (.endless id label code))
    (items : ∀ id nodes, motive (.items id nodes))
    (chain : ∀ id first second, motive first → motive second → motive (.chain id first second))
    (coerce : ∀ id inner, motive inner → motive (.coerce id inner))
    (refused : ∀ id kind, motive (.refused id kind)) : ∀ feed, motive feed
  | .body id label entries => body id label entries
  | .endless id label code => endless id label code
  | .items id nodes => items id nodes
  | .chain id first second =>
    chain id first second (first.inside body endless items chain coerce refused)
      (second.inside body endless items chain coerce refused)
  | .coerce id inner => coerce id inner (inner.inside body endless items chain coerce refused)
  | .refused id kind => refused id kind

def ids : Feed κ → List Ident
  | .body id .. | .endless id .. | .items id _ | .refused id _ => [id]
  | .chain id first second => id :: (first.ids ++ second.ids)
  | .coerce id inner => id :: inner.ids

def ends : Feed κ → Bool
  | .endless .. => false
  | .body .. | .items .. | .refused .. => true
  | .chain _ first second => first.ends && second.ends
  | .coerce _ inner => inner.ends

-- What is left in a feed that ends, seen through the cursors: the pieces that were
-- not come upon yet, in order.
def pieces (cursor : Ident → Cursor) : Feed κ → List (Piece κ)
  | .body id _ entries =>
    if (cursor id).phase = .closed then []
    else (entries.drop (cursor id).position).map Piece.ofEntry
  | .endless .. => []
  | .items id nodes =>
    if (cursor id).phase = .closed then []
    else (nodes.drop (cursor id).position).map .node
  | .chain id first second =>
    if (cursor id).phase = .closed then []
    else (if (cursor id).position = 0 then first.pieces cursor else []) ++ second.pieces cursor
  | .coerce id inner =>
    if (cursor id).phase = .closed then [] else (inner.pieces cursor).map .coerced
  | .refused id kind => if (cursor id).phase = .closed then [] else [.refused kind]

theorem pieces_congr (feed : Feed κ) {one other : Ident → Cursor}
    (same : ∀ id ∈ feed.ids, other id = one id) : feed.pieces other = feed.pieces one := by
  induction feed with
  | body id | items id | refused id => simp [pieces,same id (by simp [ids])]
  | endless => rfl
  | chain id first second ihFirst ihSecond =>
    have left := ihFirst fun other inside => same other (by simp [ids,inside])
    have right := ihSecond fun other inside => same other (by simp [ids,inside])
    simp [pieces,same id (by simp [ids]),left,right]
  | coerce id inner ih =>
    have deep := ih fun other inside => same other (by simp [ids,inside])
    simp [pieces,same id (by simp [ids]),deep]

structure Listed (feed : Feed κ) : Prop where
  single : feed.ids.Nodup
  ends : feed.ends = true

structure Joined (own : Ident) (first second : Feed κ) : Prop where
  apart : own ∉ first.ids
  apart' : own ∉ second.ids
  separate : ∀ id ∈ first.ids, id ∉ second.ids
  first : first.Listed
  second : second.Listed

theorem chain_listed {own : Ident} {first second : Feed κ} :
    (Feed.chain own first second).Listed ↔ Joined own first second := by
  constructor
  · rintro ⟨single,ends⟩
    simp only [ids,List.nodup_cons,List.mem_append,not_or,List.nodup_append] at single
    simp only [Feed.ends,Bool.and_eq_true] at ends
    obtain ⟨⟨apart,apart'⟩,singleFirst,singleSecond,separate⟩ := single
    exact ⟨apart,apart',fun id inside other => separate id inside id other rfl,
      ⟨singleFirst,ends.1⟩,⟨singleSecond,ends.2⟩⟩
  · rintro ⟨apart,apart',separate,first,second⟩
    refine ⟨?_,by rw [Feed.ends,first.ends,second.ends]; rfl⟩
    simp only [ids,List.nodup_cons,List.mem_append,not_or,List.nodup_append]
    refine ⟨⟨apart,apart'⟩,first.single,second.single,?_⟩
    rintro id inside _ other rfl
    exact separate id inside other

theorem coerce_listed {own : Ident} {inner : Feed κ} :
    (Feed.coerce own inner).Listed ↔ own ∉ inner.ids ∧ inner.Listed := by
  constructor
  · intro listed
    obtain ⟨apart,single⟩ := List.nodup_cons.mp listed.single
    exact ⟨apart,single,listed.ends⟩
  · rintro ⟨apart,single,ends⟩
    exact ⟨List.nodup_cons.mpr ⟨apart,single⟩,ends⟩

end Feed

structure Beside (ids : List Ident) (one other : Store) : Prop where
  supply : other.supply = one.supply
  cancelled : other.cancelled = one.cancelled
  cursor : ∀ id, id ∉ ids → other.cursor id = one.cursor id

namespace Beside

theorem refl (ids : List Ident) (store : Store) : Beside ids store store :=
  ⟨rfl,rfl,fun _ _ => rfl⟩

theorem trans (one : Beside ids before middle) (other : Beside ids middle after) :
    Beside ids before after :=
  ⟨other.supply.trans one.supply,other.cancelled.trans one.cancelled,
    fun id outside => (other.cursor id outside).trans (one.cursor id outside)⟩

theorem mono (one : Beside ids before after) (within : ∀ id ∈ ids, id ∈ more) :
    Beside more before after :=
  ⟨one.supply,one.cancelled,fun id outside => one.cursor id fun inside => outside (within id inside)⟩

theorem moved {own : Ident} (inside : own ∈ ids) (store : Store) (value : Cursor) :
    Beside ids store (store.moved own value) :=
  ⟨rfl,rfl,fun _ outside => Store.moved_cursor_other store value fun same => outside (same ▸ inside)⟩

theorem shut {own : Ident} (inside : own ∈ ids) (store : Store) :
    Beside ids store (store.shut own) := .moved inside store _

theorem noted (ids : List Ident) (store : Store) (event : Event) :
    Beside ids store (store.noted event) := ⟨rfl,rfl,fun _ _ => rfl⟩

end Beside

namespace Feed

variable {host : Host κ} {feed : Feed κ} {store ready : Store} {piece : Piece κ}
  {rest : List (Piece κ)}

-- What a pull comes to when a piece is in front. The cursors are brought past
-- the piece first; the pull then fares as the piece does. A thing to be done
-- is followed by another pull, unless doing it touched the feed itself.
structure OpensWith (host : Host κ) (feed : Feed κ) (store : Store) (piece : Piece κ)
    (rest : List (Piece κ)) (ready : Store) : Prop where
  beside : Beside feed.ids store ready
  behind : feed.pieces ready.cursor = rest
  given : ∀ node after, piece.give host ready = .ok (some node) after →
    feed.pull host store = .ok (some node) after
  done : ∀ after, piece.give host ready = .ok none after →
    (∀ id ∈ feed.ids, after.cursor id = ready.cursor id) →
    feed.pull host store = feed.pull host after
  failed : ∀ fault after, piece.give host ready = .error fault after →
    ∃ left, feed.pull host store = .error fault left ∧ Beside feed.ids after left

theorem pieces_open {cursor : Ident → Cursor} (front : feed.pieces cursor = piece :: rest) :
    ∀ own, feed.ids.head? = some own → ¬(cursor own).phase = .closed := by
  intro own first closed
  cases feed <;> simp [ids] at first <;> subst first <;> simp [pieces,closed] at front

theorem pullEntries_item {own : Ident} {label : String} {place : Nat} {code : κ}
    {entries : List (Entry κ)} :
    pullEntries host own label place (.item code :: entries) store =
      match (Piece.item code).give host
        ((store.moved own ⟨place + 1,.ready⟩).noted (.pull label place)) with
      | .ok found after => .ok found after
      | .error fault after => .error fault (after.shut own) := by
  simp only [pullEntries,Piece.give,Action.bind_apply,Action.setCursor_apply,Action.log_apply,
    Action.closing_apply]
  cases host.run code none ((store.moved own ⟨place + 1,.ready⟩).noted (.pull label place)) <;> rfl

theorem pullEntries_act {own : Ident} {label : String} {place : Nat} {code : κ}
    {entries : List (Entry κ)} :
    pullEntries host own label place (.act code :: entries) store =
      match (Piece.act code).give host (store.moved own ⟨place + 1,.ready⟩) with
      | .ok _ after => pullEntries host own label (place + 1) entries after
      | .error fault after => .error fault (after.shut own) := by
  simp only [pullEntries,Piece.give,Action.bind_apply,Action.setCursor_apply,
    Action.discard_apply,Action.closing_apply]
  cases host.run code none (store.moved own ⟨place + 1,.ready⟩) <;> rfl

theorem item_gives {code : κ} : (Piece.item code).give host store ≠ .ok none after := by
  simp only [Piece.give,Action.bind_apply]
  cases host.run code none store <;> simp

theorem act_gives {code : κ} {node : Node κ} :
    (Piece.act code).give host store ≠ .ok (some node) after := by
  simp only [Piece.give,Action.bind_apply,Action.discard_apply]
  cases host.run code none store <;> simp

theorem entry_opens {own : Ident} {label : String} {entries others : List (Entry κ)}
    {entry : Entry κ} (live : ¬(store.cursor own).phase = .closed)
    (front : entries.drop (store.cursor own).position = entry :: others) :
    ∃ ready, OpensWith host (.body own label entries) store (.ofEntry entry)
      (others.map Piece.ofEntry) ready := by
  have further : entries.drop ((store.cursor own).position + 1) = others := by
    rw [←List.drop_drop,front]
    rfl
  have start : (Feed.body own label entries).pull host store =
      pullEntries host own label (store.cursor own).position (entry :: others) store := by
    simp [pull,live,front]
  cases entry with
  | item code =>
    rw [Piece.ofEntry]
    refine ⟨(store.moved own ⟨(store.cursor own).position + 1,.ready⟩).noted
      (.pull label (store.cursor own).position),?_,?_,?_,?_,?_⟩
    · exact (Beside.moved (by simp [ids]) _ _).trans (.noted _ _ _)
    · simp [pieces,further]
    · intro node after given
      rw [start,pullEntries_item,given]
    · exact fun after done => (item_gives done).elim
    · intro fault after failed
      refine ⟨after.shut own,?_,.shut (by simp [ids]) _⟩
      rw [start,pullEntries_item,failed]
  | act code =>
    rw [Piece.ofEntry]
    refine ⟨store.moved own ⟨(store.cursor own).position + 1,.ready⟩,?_,?_,?_,?_,?_⟩
    · exact .moved (by simp [ids]) _ _
    · simp [pieces,further]
    · exact fun node after given => (act_gives given).elim
    · intro after done kept
      have place := kept own (by simp [ids])
      rw [Store.moved_cursor_self] at place
      have again : (Feed.body own label entries).pull host after =
          pullEntries host own label ((store.cursor own).position + 1) others after := by
        simp [pull,place,further]
      rw [start,again,pullEntries_act,done]
    · intro fault after failed
      refine ⟨after.shut own,?_,.shut (by simp [ids]) _⟩
      rw [start,pullEntries_act,failed]

theorem body_opens {own : Ident} {label : String} {entries : List (Entry κ)}
    (front : (Feed.body own label entries).pieces store.cursor = piece :: rest) :
    ∃ ready, OpensWith host (.body own label entries) store piece rest ready := by
  have live := pieces_open front own rfl
  simp only [pieces,live,if_false] at front
  cases more : entries.drop (store.cursor own).position with
  | nil => simp [more] at front
  | cons entry others =>
    simp only [more,List.map_cons,List.cons.injEq] at front
    obtain ⟨rfl,rfl⟩ := front
    exact entry_opens live more

theorem items_opens {own : Ident} {nodes : List (Node κ)}
    (front : (Feed.items own nodes).pieces store.cursor = piece :: rest) :
    ∃ ready, OpensWith host (.items own nodes) store piece rest ready := by
  have live := pieces_open front own rfl
  simp only [pieces,live,if_false] at front
  cases more : nodes.drop (store.cursor own).position with
  | nil => simp [more] at front
  | cons value others =>
    simp only [more,List.map_cons,List.cons.injEq] at front
    obtain ⟨rfl,rfl⟩ := front
    have further : nodes.drop ((store.cursor own).position + 1) = others := by
      rw [←List.drop_drop,more]
      rfl
    have here : nodes[(store.cursor own).position]? = some value := by
      rw [←List.head?_drop,more]
      rfl
    refine ⟨store.moved own ⟨(store.cursor own).position + 1,.ready⟩,?_,?_,?_,?_,?_⟩
    · exact .moved (by simp [ids]) _ _
    · simp [pieces,further]
    · intro node after given
      simp only [Piece.give,Action.pure_apply] at given
      simp only [pull,Action.bind_apply,Action.cursor_apply,live,if_false,here,
        Action.setCursor_apply,Action.pure_apply]
      exact given
    · intro after done
      simp [Piece.give] at done
    · intro fault after failed
      simp [Piece.give] at failed

theorem refused_opens {own : Ident} {kind : String}
    (front : (Feed.refused own kind : Feed κ).pieces store.cursor = piece :: rest) :
    ∃ ready, OpensWith host (.refused own kind) store piece rest ready := by
  have live := pieces_open front own rfl
  simp only [pieces,live,if_false,List.cons.injEq] at front
  obtain ⟨rfl,rfl⟩ := front
  refine ⟨store.shut own,?_,?_,?_,?_,?_⟩
  · exact .shut (by simp [ids]) _
  · simp [pieces]
  · intro node after given
    simp [Piece.give] at given
  · intro after done
    simp [Piece.give] at done
  · intro fault after failed
    simp only [Piece.give,Action.throw_apply,EStateM.Result.error.injEq] at failed
    obtain ⟨rfl,rfl⟩ := failed
    refine ⟨_,?_,.refl _ _⟩
    simp [pull,live]

def pullSecond (host : Host κ) (own : Ident) (second : Feed κ) : Action (Option (Node κ)) := do
  if let some node ← Action.closing own (second.pull host) then return some node
  Action.close own
  return none

theorem chain_first {own : Ident} {first second : Feed κ} (live : ¬(store.cursor own).phase = .closed)
    (unread : (store.cursor own).position = 0) :
    (Feed.chain own first second).pull host store =
      match first.pull host store with
      | .ok (some node) after => .ok (some node) after
      | .ok none after => pullSecond host own second (after.moved own ⟨1,.ready⟩)
      | .error fault after => .error fault (after.shut own) := by
  simp only [pull,Action.bind_apply,Action.cursor_apply,live,if_false,unread,if_true,
    Action.closing_apply]
  cases first.pull host store with
  | error fault after => rfl
  | ok found after => cases found <;> rfl

theorem pullSecond_eq {own : Ident} {second : Feed κ} :
    pullSecond host own second store =
      match second.pull host store with
      | .ok (some node) after => .ok (some node) after
      | .ok none after => .ok none (after.shut own)
      | .error fault after => .error fault (after.shut own) := by
  simp only [pullSecond,Action.bind_apply,Action.closing_apply]
  cases second.pull host store with
  | error fault after => rfl
  | ok found after => cases found <;> rfl

theorem chain_second {own : Ident} {first second : Feed κ} (live : ¬(store.cursor own).phase = .closed)
    (read : ¬(store.cursor own).position = 0) :
    (Feed.chain own first second).pull host store = pullSecond host own second store := by
  rw [pullSecond_eq]
  simp only [pull,Action.bind_apply,Action.cursor_apply,live,if_false,read,Action.closing_apply]
  cases second.pull host store with
  | error fault after => rfl
  | ok found after => cases found <;> rfl

theorem second_kept {own : Ident} {first second : Feed κ} {middle : Store} (apart : own ∉ second.ids)
    (separate : ∀ id ∈ first.ids, id ∉ second.ids) (beside : Beside first.ids store middle) :
    second.pieces (middle.moved own ⟨1,.ready⟩).cursor = second.pieces store.cursor := by
  refine pieces_congr second fun id inside => ?_
  have other : id ≠ own := fun same => apart (same ▸ inside)
  rw [Store.moved_cursor_other _ _ other]
  exact beside.cursor id fun outside => separate id outside inside

theorem coerce_pull {own : Ident} {inner : Feed κ} (live : ¬(store.cursor own).phase = .closed) :
    (Feed.coerce own inner).pull host store =
      match inner.pull host store with
      | .ok (some value) after =>
        match value.coerce host after with
        | .ok node last => .ok (some node) last
        | .error fault last => .error fault (last.shut own)
      | .ok none after => .ok none (after.shut own)
      | .error fault after => .error fault (after.shut own) := by
  simp only [pull,Action.bind_apply,Action.cursor_apply,live,if_false,Action.closing_apply]
  cases inner.pull host store with
  | error fault after => rfl
  | ok found after =>
    cases found with
    | none => rfl
    | some value =>
      simp only [Action.bind_apply,Action.closing_apply]
      cases value.coerce host after <;> rfl

def RunsDry (host : Host κ) (feed : Feed κ) (store : Store) : Prop :=
  ∃ left, feed.pull host store = .ok none left ∧ Beside feed.ids store left ∧
    feed.pieces left.cursor = []

theorem runs_closed (closed : (store.cursor feed.ident).phase = .closed) : RunsDry host feed store := by
  refine ⟨store,pull_closed host closed,.refl _ _,?_⟩
  cases feed with
  | endless => rfl
  | _ => exact if_pos closed

theorem pull_empty (host : Host κ) (feed : Feed κ) (listed : feed.Listed) :
    ∀ store : Store, feed.pieces store.cursor = [] → RunsDry host feed store := by
  induction feed with
  | endless => cases listed.ends
  | body own label entries =>
    intro store empty
    by_cases closed : (store.cursor own).phase = .closed
    · exact runs_closed closed
    · simp only [pieces,closed,if_false,List.map_eq_nil_iff] at empty
      refine ⟨(store.moved own ⟨(store.cursor own).position,.closed⟩).noted (.finish label),?_,?_,?_⟩
      · simp [pull,closed,empty,pullEntries]
      · exact (Beside.moved (by simp [ids]) _ _).trans (.noted _ _ _)
      · simp [pieces]
  | items own nodes =>
    intro store empty
    by_cases closed : (store.cursor own).phase = .closed
    · exact runs_closed closed
    · simp only [pieces,closed,if_false,List.map_eq_nil_iff,List.drop_eq_nil_iff] at empty
      refine ⟨store.shut own,?_,?_,?_⟩
      · simp [pull,closed,empty]
      · exact .shut (by simp [ids]) _
      · simp [pieces]
  | refused own kind =>
    intro store empty
    by_cases closed : (store.cursor own).phase = .closed
    · exact runs_closed closed
    · simp [pieces,closed] at empty
  | chain own first second ihFirst ihSecond =>
    intro store empty
    have joined := chain_listed.mp listed
    by_cases closed : (store.cursor own).phase = .closed
    · exact runs_closed closed
    · simp only [pieces,closed,if_false,List.append_eq_nil_iff] at empty
      obtain ⟨noneFirst,noneSecond⟩ := empty
      by_cases unread : (store.cursor own).position = 0
      · simp only [unread,if_true] at noneFirst
        obtain ⟨middle,first_,beside,_⟩ := ihFirst joined.first store noneFirst
        have kept := second_kept joined.apart' joined.separate beside
        obtain ⟨left,second_,besideSecond,_⟩ := ihSecond joined.second _ (kept.trans noneSecond)
        refine ⟨left.shut own,?_,?_,?_⟩
        · simp only [chain_first closed unread,first_,pullSecond_eq,second_]
        · refine .trans (beside.mono ?_) (.trans (.moved ?_ _ _) (.trans (besideSecond.mono ?_)
            (.shut ?_ _))) <;> simp +contextual [ids]
        · simp [pieces]
      · obtain ⟨left,second_,besideSecond,_⟩ := ihSecond joined.second store noneSecond
        refine ⟨left.shut own,?_,?_,?_⟩
        · simp only [chain_second closed unread,pullSecond_eq,second_]
        · refine .trans (besideSecond.mono ?_) (.shut ?_ _) <;> simp +contextual [ids]
        · simp [pieces]
  | coerce own inner ih =>
    intro store empty
    by_cases closed : (store.cursor own).phase = .closed
    · exact runs_closed closed
    · simp only [pieces,closed,if_false,List.map_eq_nil_iff] at empty
      obtain ⟨left,inner_,beside,_⟩ := ih (coerce_listed.mp listed).2 store empty
      refine ⟨left.shut own,?_,?_,?_⟩
      · simp only [coerce_pull closed,inner_]
      · refine .trans (beside.mono ?_) (.shut ?_ _) <;> simp +contextual [ids]
      · simp [pieces]

theorem second_opens {own : Ident} {first second : Feed κ} (apart : own ∉ second.ids)
    (live : ¬(store.cursor own).phase = .closed) (read : ¬(store.cursor own).position = 0)
    (opens : OpensWith host second store piece rest ready) :
    OpensWith host (.chain own first second) store piece rest ready := by
  have own_ := opens.beside.cursor own apart
  have live' : ¬(ready.cursor own).phase = .closed := by rwa [own_]
  have read' : ¬(ready.cursor own).position = 0 := by rwa [own_]
  refine ⟨opens.beside.mono (by simp +contextual [ids]),?_,?_,?_,?_⟩
  · simp [pieces,live',read',opens.behind]
  · intro node after given
    rw [chain_second live read,pullSecond_eq,opens.given node after given]
  · intro after done kept
    have place := kept own (by simp [ids])
    have live'' : ¬(after.cursor own).phase = .closed := by rwa [place]
    have read'' : ¬(after.cursor own).position = 0 := by rwa [place]
    rw [chain_second live read,chain_second live'' read'',pullSecond_eq,pullSecond_eq,
      opens.done after done fun id inside => kept id (by simp [ids,inside])]
  · intro fault after failed
    obtain ⟨left,pulled,beside⟩ := opens.failed fault after failed
    refine ⟨left.shut own,?_,?_⟩
    · rw [chain_second live read,pullSecond_eq,pulled]
    · exact (beside.mono (by simp +contextual [ids])).trans (.shut (by simp [ids]) _)

theorem first_opens {own : Ident} {first second : Feed κ} (apart : own ∉ first.ids)
    (separate : ∀ id ∈ first.ids, id ∉ second.ids)
    (live : ¬(store.cursor own).phase = .closed) (unread : (store.cursor own).position = 0)
    (opens : OpensWith host first store piece rest ready) :
    OpensWith host (.chain own first second) store piece (rest ++ second.pieces store.cursor) ready := by
  have own_ := opens.beside.cursor own apart
  have live' : ¬(ready.cursor own).phase = .closed := by rwa [own_]
  have unread' : (ready.cursor own).position = 0 := by rwa [own_]
  refine ⟨opens.beside.mono (by simp +contextual [ids]),?_,?_,?_,?_⟩
  · have same : second.pieces ready.cursor = second.pieces store.cursor :=
      pieces_congr second fun id inside =>
        opens.beside.cursor id fun other => separate id other inside
    simp [pieces,live',unread',opens.behind,same]
  · intro node after given
    rw [chain_first live unread,opens.given node after given]
  · intro after done kept
    have place := kept own (by simp [ids])
    have live'' : ¬(after.cursor own).phase = .closed := by rwa [place]
    have unread'' : (after.cursor own).position = 0 := by rwa [place]
    rw [chain_first live unread,chain_first live'' unread'',
      opens.done after done fun id inside => kept id (by simp [ids,inside])]
  · intro fault after failed
    obtain ⟨left,pulled,beside⟩ := opens.failed fault after failed
    refine ⟨left.shut own,?_,?_⟩
    · rw [chain_first live unread,pulled]
    · exact (beside.mono (by simp +contextual [ids])).trans (.shut (by simp [ids]) _)

section coerced

variable {node : Node κ} {fault : Fault} {after : Store}

theorem coerced_some (given : (Piece.coerced piece).give host store = .ok (some node) after) :
    ∃ value middle, piece.give host store = .ok (some value) middle ∧
      value.coerce host middle = .ok node after := by
  simp only [Piece.give,Action.bind_apply] at given
  cases run : piece.give host store with
  | error fault middle => simp [run] at given
  | ok found middle =>
    cases found with
    | none => simp [run] at given
    | some value =>
      refine ⟨value,middle,rfl,?_⟩
      cases coerced : value.coerce host middle <;> simp_all

theorem coerced_none (done : (Piece.coerced piece).give host store = .ok none after) :
    piece.give host store = .ok none after := by
  simp only [Piece.give,Action.bind_apply] at done
  cases run : piece.give host store with
  | error fault middle => simp [run] at done
  | ok found middle =>
    cases found with
    | none => simpa [run] using done
    | some value => cases coerced : value.coerce host middle <;> simp_all

theorem coerced_error (failed : (Piece.coerced piece).give host store = .error fault after) :
    piece.give host store = .error fault after ∨ ∃ value middle,
      piece.give host store = .ok (some value) middle ∧
        value.coerce host middle = .error fault after := by
  simp only [Piece.give,Action.bind_apply] at failed
  cases run : piece.give host store with
  | error problem middle => simp_all
  | ok found middle =>
    cases found with
    | none => simp [run] at failed
    | some value =>
      refine .inr ⟨value,middle,rfl,?_⟩
      cases coerced : value.coerce host middle <;> simp_all

end coerced

theorem coerce_opens {own : Ident} {inner : Feed κ} (apart : own ∉ inner.ids)
    (live : ¬(store.cursor own).phase = .closed)
    (opens : OpensWith host inner store piece rest ready) :
    OpensWith host (.coerce own inner) store (.coerced piece) (rest.map .coerced) ready := by
  have own_ := opens.beside.cursor own apart
  have live' : ¬(ready.cursor own).phase = .closed := by rwa [own_]
  refine ⟨opens.beside.mono (by simp +contextual [ids]),?_,?_,?_,?_⟩
  · simp [pieces,live',opens.behind]
  · intro node after given
    obtain ⟨value,middle,inside,coerced⟩ := coerced_some given
    simp only [coerce_pull live,opens.given value middle inside,coerced]
  · intro after done kept
    have place := kept own (by simp [ids])
    have live'' : ¬(after.cursor own).phase = .closed := by rwa [place]
    rw [coerce_pull live,coerce_pull live'',
      opens.done after (coerced_none done) fun id inside => kept id (by simp [ids,inside])]
  · intro fault after failed
    rcases coerced_error failed with inside | ⟨value,middle,inside,coerced⟩
    · obtain ⟨left,pulled,beside⟩ := opens.failed fault after inside
      refine ⟨left.shut own,?_,?_⟩
      · rw [coerce_pull live,pulled]
      · exact (beside.mono (by simp +contextual [ids])).trans (.shut (by simp [ids]) _)
    · refine ⟨after.shut own,?_,.shut (by simp [ids]) _⟩
      simp only [coerce_pull live,opens.given value middle inside,coerced]

theorem pull_opens (host : Host κ) (feed : Feed κ) (listed : feed.Listed) :
    ∀ (store : Store) (piece : Piece κ) (rest : List (Piece κ)),
      feed.pieces store.cursor = piece :: rest → ∃ ready, OpensWith host feed store piece rest ready := by
  induction feed with
  | body own label entries => exact fun store piece rest front => body_opens front
  | endless => cases listed.ends
  | items own nodes => exact fun store piece rest front => items_opens front
  | refused own kind => exact fun store piece rest front => refused_opens front
  | chain own first second ihFirst ihSecond =>
    intro store piece rest front
    obtain ⟨apart,apart',separate,listedFirst,listedSecond⟩ := chain_listed.mp listed
    have live := pieces_open front own rfl
    simp only [pieces,live,if_false] at front
    by_cases unread : (store.cursor own).position = 0
    · simp only [unread,if_true] at front
      cases left : first.pieces store.cursor with
      | cons one others =>
        simp only [left,List.cons_append,List.cons.injEq] at front
        obtain ⟨rfl,rfl⟩ := front
        obtain ⟨ready,opens⟩ := ihFirst listedFirst store one others left
        exact ⟨ready,first_opens apart separate live unread opens⟩
      | nil =>
        simp only [left,List.nil_append] at front
        obtain ⟨middle,ended,beside,_⟩ := pull_empty host first listedFirst store left
        have kept := second_kept apart' separate beside
        obtain ⟨ready,opens⟩ := ihSecond listedSecond _ piece rest (kept.trans front)
        have later : OpensWith host (.chain own first second)
            (middle.moved own ⟨1,.ready⟩) piece rest
            ready := second_opens apart' (by simp) (by simp) opens
        have start : (Feed.chain own first second).pull host store =
            (Feed.chain own first second).pull host (middle.moved own ⟨1,.ready⟩) := by
          rw [chain_first live unread,ended,chain_second (by simp) (by simp)]
        refine ⟨ready,?_,later.behind,?_,?_,?_⟩
        · refine .trans (beside.mono ?_) (.trans (.moved ?_ _ _) later.beside) <;>
            simp +contextual [ids]
        · intro node after given
          rw [start,later.given node after given]
        · intro after done kept
          rw [start,later.done after done kept]
        · intro fault after failed
          rw [start]
          exact later.failed fault after failed
    · simp only [unread,if_false,List.nil_append] at front
      obtain ⟨ready,opens⟩ := ihSecond listedSecond store piece rest front
      exact ⟨ready,second_opens apart' live unread opens⟩
  | coerce own inner ih =>
    intro store piece rest front
    obtain ⟨apart,listedInner⟩ := coerce_listed.mp listed
    have live := pieces_open front own rfl
    simp only [pieces,live,if_false] at front
    cases left : inner.pieces store.cursor with
    | nil => simp [left] at front
    | cons one others =>
      simp only [left,List.map_cons,List.cons.injEq] at front
      obtain ⟨rfl,rfl⟩ := front
      obtain ⟨ready,opens⟩ := ih listedInner store one others left
      exact ⟨ready,coerce_opens apart live opens⟩

end Feed

end Markup
