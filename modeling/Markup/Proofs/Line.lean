import Markup.Proofs.Feed

namespace Markup

variable {κ : Type}

inductive Source (κ : Type) where
  | nodes (values : List (Node κ))
  | feed (feed : Feed κ)

namespace Source

-- The next item of sources that stand in line, with the line behind it. A
-- source is asked when all that stand before it have ended, not earlier.
def pull (host : Host κ) : List (Source κ) → Action (Option (Node κ × List (Source κ)))
  | [] => return none
  | .nodes [] :: rest => pull host rest
  | .nodes (value :: more) :: rest => return some (value,.nodes more :: rest)
  | .feed inner :: rest => do
    match ← inner.pull host with
    | some value => return some (value,.feed inner :: rest)
    | none => pull host rest

def first (host : Host κ) : Nat → List (Source κ) → Action (List (Node κ))
  | 0,_ => return []
  | count + 1,line => do
    match ← pull host line with
    | none => return []
    | some (value,rest) => return value :: (← first host count rest)

def capacity (limit : Nat) : Source κ → Nat
  | .nodes values => values.length
  | .feed inner => inner.capacity limit

def room (limit : Nat) : List (Source κ) → Nat
  | [] => 0
  | source :: rest => source.capacity limit + room limit rest

theorem room_append (limit : Nat) (line line' : List (Source κ)) :
    room limit (line ++ line') = room limit line + room limit line' := by
  induction line with
  | nil => simp [room]
  | cons source rest ih => simp [room,ih,Nat.add_assoc]

end Source

def Feed.first (host : Host κ) (feed : Feed κ) : Nat → Action (List (Node κ))
  | 0 => return []
  | count + 1 => do
    match ← feed.pull host with
    | none => return []
    | some value => return value :: (← feed.first host count)

inductive Drains (host : Host κ) (token : Token) (limit : Nat) :
    List (Source κ) → Store → List (Node κ) → Store → Prop where
  | nil : Drains host token limit [] start [] start
  | nodes (live : start.cancelled token = false)
      (more : Drains host token limit rest start found last) :
      Drains host token limit (.nodes values :: rest) start (values ++ found) last
  | feed (items : feed.collect host token limit start = .ok values middle)
      (more : Drains host token limit rest middle found last) :
      Drains host token limit (.feed feed :: rest) start (values ++ found) last

structure Shifted (own : List Ident) (one other : Store) : Prop extends Beside own one other where
  journal : other.journal = one.journal

namespace Shifted

theorem refl (own : List Ident) (store : Store) : Shifted own store store :=
  ⟨.refl own store,rfl⟩

theorem trans (one : Shifted own before middle) (other : Shifted own middle after) :
    Shifted own before after :=
  ⟨one.toBeside.trans other.toBeside,other.journal.trans one.journal⟩

theorem moved {id : Ident} (inside : id ∈ own) (store : Store) (value : Cursor) :
    Shifted own store (store.moved id value) :=
  ⟨.moved inside store value,rfl⟩

theorem shut {id : Ident} (inside : id ∈ own) (store : Store) : Shifted own store (store.shut id) :=
  .moved inside store _

theorem along {id : Ident} (shifted : Shifted own one other) (value : Cursor) :
    Shifted own (one.moved id value) (other.moved id value) := by
  refine ⟨⟨shifted.supply,shifted.cancelled,fun place apart => ?_⟩,shifted.journal⟩
  by_cases same : place = id
  · subst same
    simp
  · rw [Store.moved_cursor_other _ _ same,Store.moved_cursor_other _ _ same]
    exact shifted.cursor place apart

end Shifted

inductive EndsAlike (own : List Ident) :
    EStateM.Result Fault Store α → EStateM.Result Fault Store α → Prop where
  | ok (shifted : Shifted own after after') : EndsAlike own (.ok value after) (.ok value after')
  | error (shifted : Shifted own after after') :
      EndsAlike own (.error fault after) (.error fault after')

-- An action that has no part in some sequences: their cursors are nothing to it.
structure Apart (own : List Ident) (action : Action α) : Prop where
  same : ∀ one other, Shifted own one other → EndsAlike own (action one) (action other)
  kept : ∀ start value after, action start = .ok value after →
    ∀ id ∈ own, after.cursor id = start.cursor id

namespace Apart

variable {own : List Ident}

theorem pure (value : α) : Apart own (pure value : Action α) :=
  ⟨fun _ _ shifted => .ok shifted,fun _ _ _ done id _ => by cases done; rfl⟩

theorem bind {action : Action α} {next : α → Action β} (one : Apart own action)
    (other : ∀ value, Apart own (next value)) : Apart own (action >>= next) := by
  refine ⟨?_,?_⟩
  · intro start start' shifted
    have first := one.same start start' shifted
    simp only [Action.bind_apply]
    generalize action start = found at first ⊢
    generalize action start' = found' at first ⊢
    cases first with
    | ok moved => exact (other _).same _ _ moved
    | error moved => exact .error moved
  · intro start value after done id inside
    rw [Action.bind_apply] at done
    cases first : action start with
    | error fault middle => simp [first] at done
    | ok found middle =>
      rw [first] at done
      rw [(other found).kept middle value after done id inside]
      exact one.kept start found middle first id inside

theorem log (event : Event) : Apart own (Action.log event) := by
  refine ⟨fun one other shifted => .ok ⟨⟨shifted.supply,shifted.cancelled,shifted.cursor⟩,?_⟩,?_⟩
  · exact congrArg (event :: ·) shifted.journal
  · intro start value after done id inside
    cases done
    rfl

theorem readCursor {id : Ident} (outside : id ∉ own) : Apart own (Action.cursor id) := by
  refine ⟨?_,fun start value after done other inside => by cases done; rfl⟩
  intro one other shifted
  rw [Action.cursor_apply,Action.cursor_apply,shifted.cursor id outside]
  exact .ok shifted

theorem setCursor {id : Ident} (outside : id ∉ own) (value : Cursor) :
    Apart own (Action.setCursor id value) := by
  refine ⟨fun one other shifted => .ok (shifted.along value),?_⟩
  intro start found after done place inside
  cases done
  exact Store.moved_cursor_other _ _ fun same => outside (same ▸ inside)

theorem closing {id : Ident} (outside : id ∉ own) {action : Action α} (apart : Apart own action) :
    Apart own (Action.closing id action) := by
  refine ⟨?_,?_⟩
  · intro one other shifted
    have same := apart.same one other shifted
    simp only [Action.closing_apply]
    generalize action one = found at same ⊢
    generalize action other = found' at same ⊢
    cases same with
    | ok moved => exact .ok moved
    | error moved =>
      refine .error ?_
      rw [Store.shut,Store.shut,moved.cursor id outside]
      exact moved.along _
  · intro start value after done
    rw [Action.closing_apply] at done
    cases first : action start with
    | error fault middle => simp [first] at done
    | ok found middle =>
      rw [first] at done
      cases done
      exact apart.kept start _ _ first

end Apart

section bodies

variable {host : Host κ} {own : List Ident} {link : Ident}

theorem entries_apart (runs : ∀ code, Apart own (host.run code none)) (outside : link ∉ own)
    (label : String) (entries : List (Entry κ)) :
    ∀ place, Apart own (pullEntries host link label place entries) := by
  induction entries with
  | nil =>
    exact fun place => (Apart.setCursor outside _).bind fun _ => (Apart.log _).bind fun _ => .pure _
  | cons entry rest ih =>
    intro place
    cases entry with
    | act code =>
      refine (Apart.setCursor outside _).bind fun _ => ?_
      have run : Apart own (discard (Action.closing link (host.run code none))) :=
        ((runs code).closing outside).bind fun _ => .pure _
      exact run.bind fun _ => ih (place + 1)
    | item code =>
      exact (Apart.setCursor outside _).bind fun _ => (Apart.log _).bind fun _ =>
        ((runs code).closing outside).bind fun _ => .pure _

theorem body_apart (runs : ∀ code, Apart own (host.run code none)) (outside : link ∉ own)
    (label : String) (entries : List (Entry κ)) :
    Apart own ((Feed.body link label entries).pull host) := by
  refine (Apart.readCursor outside).bind fun cursor => ?_
  split
  · exact .pure _
  · exact entries_apart runs outside label _ _

theorem endless_apart (runs : ∀ code, Apart own (host.run code none)) (outside : link ∉ own)
    (label : String) (code : Nat → κ) : Apart own ((Feed.endless link label code).pull host) := by
  refine (Apart.readCursor outside).bind fun cursor => ?_
  split
  · exact .pure _
  · exact entries_apart runs outside label _ _

end bodies

-- How composition lays sources out in a chain. The identities are those that it
-- gave to the chains and to the iterations over nodes.
inductive LaidOut : List Ident → Feed κ → List (Source κ) → Prop where
  | feed (feed : Feed κ) : LaidOut [] feed [.feed feed]
  | items (link : Ident) (values : List (Node κ)) :
      LaidOut [link] (.items link values) [.nodes values]
  | chain (one : LaidOut own first line) (two : LaidOut other second line')
      (fresh : link ∉ own ++ other)
      (apart : ∀ id ∈ own, id ∉ other) :
      LaidOut (link :: (own ++ other)) (.chain link first second) (line ++ line')

theorem laid_capacity {own : List Ident} {whole : Feed κ} {line : List (Source κ)}
    (laid : LaidOut own whole line) (limit : Nat) :
    whole.capacity limit = Source.room limit line := by
  induction laid with
  | feed feed => rfl
  | items id values => rfl
  | chain one two fresh apart ih ih' => rw [Feed.capacity,ih,ih',Source.room_append]

-- The same while it is read: the line is what is left, and all is everything
-- that composition made, also outside of this feed.
inductive StandsInLine (host : Host κ) (all : List Ident) (cursor : Ident → Cursor) :
    List Ident → Feed κ → List (Source κ) → Prop where
  | feed (apart : Apart all (feed.pull host)) : StandsInLine host all cursor [] feed [.feed feed]
  | items (live : ¬(cursor link).phase = .closed) :
      StandsInLine host all cursor [link] (.items link values) [.nodes (values.drop (cursor link).position)]
  | first (live : ¬(cursor link).phase = .closed) (unread : (cursor link).position = 0)
      (one : StandsInLine host all cursor own first line) (two : StandsInLine host all cursor other second line')
      (fresh : link ∉ own ++ other) (apart : ∀ id ∈ own, id ∉ other) :
      StandsInLine host all cursor (link :: (own ++ other)) (.chain link first second)
        (line ++ line')
  | second (live : ¬(cursor link).phase = .closed) (read : ¬(cursor link).position = 0)
      (two : StandsInLine host all cursor other second line) (fresh : link ∉ own ++ other) :
      StandsInLine host all cursor (link :: (own ++ other)) (.chain link first second) line

inductive GivesAll (host : Host κ) (token : Token) :
    List (Source κ) → Store → List (Node κ) → Store → Prop where
  | ended (pulled : Source.pull host line start = .ok none last) : GivesAll host token line start [] last
  | item (pulled : Source.pull host line start = .ok (some (value,rest)) middle)
      (live : middle.cancelled token = false) (more : GivesAll host token rest middle found last) :
      GivesAll host token line start (value :: found) last

section standing

variable {host : Host κ} {all own : List Ident} {whole : Feed κ} {line : List (Source κ)}

theorem laid_stands (laid : LaidOut own whole line) {cursor : Ident → Cursor}
    (unread : ∀ id ∈ own, cursor id = {})
    (apart : ∀ feed, .feed feed ∈ line → Apart all (feed.pull host)) :
    StandsInLine host all cursor own whole line := by
  induction laid with
  | feed feed => exact .feed (apart feed (by simp))
  | items link values =>
    have begins := unread link (by simp)
    have stands : StandsInLine host all cursor [link] (.items link values)
        [.nodes (values.drop (cursor link).position)] := .items (by simp [begins])
    simpa [begins] using stands
  | @chain own first line other second line' link one two fresh apart' ih ih' =>
    have begins := unread link (by simp)
    refine .first (by simp [begins]) (by simp [begins]) (ih ?_ ?_) (ih' ?_ ?_) fresh apart'
    · exact fun other inside => unread other (by simp [inside])
    · exact fun feed inside => apart feed (by simp [inside])
    · exact fun other inside => unread other (by simp [inside])
    · exact fun feed inside => apart feed (by simp [inside])

theorem stands_congr {cursor cursor' : Ident → Cursor} (stands : StandsInLine host all cursor own whole line)
    (kept : ∀ id ∈ own, cursor' id = cursor id) : StandsInLine host all cursor' own whole line := by
  induction stands with
  | feed apart => exact .feed apart
  | @items link values live =>
    have same := kept link (by simp)
    rw [←same] at live ⊢
    exact .items live
  | @first link own first line other second line' live unread one two fresh apart ih ih' =>
    have same := kept link (by simp)
    rw [←same] at live unread
    refine .first live unread (ih ?_) (ih' ?_) fresh apart
    · exact fun id inside => kept id (by simp [inside])
    · exact fun id inside => kept id (by simp [inside])
  | @second link other second line own first live read two fresh ih =>
    have same := kept link (by simp)
    rw [←same] at live read
    exact .second live read (ih fun id inside => kept id (by simp [inside])) fresh

inductive PullMatches (host : Host κ) (all own : List Ident) (whole : Feed κ) (start : Store) :
    EStateM.Result Fault Store (Option (Node κ × List (Source κ))) →
      EStateM.Result Fault Store (Option (Node κ)) → Prop where
  | item (shifted : Shifted all after after')
      (kept : ∀ id ∈ all, id ∉ own → after'.cursor id = start.cursor id)
      (stands : StandsInLine host all after'.cursor own whole rest) :
      PullMatches host all own whole start (.ok (some (value,rest)) after) (.ok (some value) after')
  | ended (shifted : Shifted all after after')
      (kept : ∀ id ∈ all, id ∉ own → after'.cursor id = start.cursor id) :
      PullMatches host all own whole start (.ok none after) (.ok none after')
  | broke (shifted : Shifted all after after') :
      PullMatches host all own whole start (.error fault after) (.error fault after')

theorem PullMatches.before {start middle : Store}
    {one : EStateM.Result Fault Store (Option (Node κ × List (Source κ)))}
    {other : EStateM.Result Fault Store (Option (Node κ))}
    (matched : PullMatches host all own whole middle one other)
    (kept : ∀ id ∈ all, id ∉ own → middle.cursor id = start.cursor id) :
    PullMatches host all own whole start one other := by
  cases matched with
  | item shifted same stands =>
    exact .item shifted (fun id inside apart => (same id inside apart).trans (kept id inside apart))
      stands
  | ended shifted same =>
    exact .ended shifted fun id inside apart => (same id inside apart).trans (kept id inside apart)
  | broke shifted => exact .broke shifted

theorem alone_pull {feed : Feed κ} (apart : Apart all (feed.pull host)) {start start' : Store}
    (shifted : Shifted all start start') :
    PullMatches host all [] feed start' (Source.pull host [.feed feed] start)
      (feed.pull host start') := by
  have same := apart.same start start' shifted
  simp only [Source.pull,Action.bind_apply]
  generalize one : feed.pull host start = left at same ⊢
  generalize other : feed.pull host start' = right at same ⊢
  cases same with
  | error moved => exact .broke moved
  | ok moved =>
    rename_i after after' value
    have kept : ∀ id ∈ all, id ∉ ([] : List Ident) → after'.cursor id = start'.cursor id :=
      fun id inside _ => apart.kept start' value after' other id inside
    cases value with
    | none => exact .ended moved kept
    | some value => exact .item moved kept (.feed apart)

theorem pull_append (line line' : List (Source κ)) :
    ∀ store, Source.pull host (line ++ line') store =
      match Source.pull host line store with
      | .ok (some (value,rest)) after => .ok (some (value,rest ++ line')) after
      | .ok none after => Source.pull host line' after
      | .error fault after => .error fault after := by
  induction line with
  | nil => exact fun _ => by simp [Source.pull]
  | cons source rest ih =>
    intro store
    cases source with
    | nodes values =>
      cases values with
      | nil => exact ih store
      | cons value more => simp [Source.pull]
    | feed feed =>
      simp only [List.cons_append,Source.pull,Action.bind_apply]
      cases feed.pull host store with
      | error fault after => rfl
      | ok found after =>
        cases found with
        | none => exact ih after
        | some value => rfl

theorem items_pull {link : Ident} {values : List (Node κ)} {start start' : Store}
    (live : ¬(start'.cursor link).phase = .closed) (inside : link ∈ all)
    (shifted : Shifted all start start') :
    PullMatches host all [link] (.items link values) start'
      (Source.pull host [.nodes (values.drop (start'.cursor link).position)] start)
      ((Feed.items link values).pull host start') := by
  have kept : ∀ cursor, ∀ id ∈ all, id ∉ [link] →
      (start'.moved link cursor).cursor id = start'.cursor id :=
    fun cursor id _ other => Store.moved_cursor_other _ _ (by simpa using other)
  simp only [Feed.pull,Action.bind_apply,Action.cursor_apply,live,if_false]
  cases left : values.drop (start'.cursor link).position with
  | nil =>
    have none : values[(start'.cursor link).position]? = none := by
      rw [←List.head?_drop,left]
      rfl
    simp only [none,Source.pull,Action.bind_apply,Action.close_apply,Action.pure_apply]
    exact .ended (shifted.trans (.shut inside _)) (kept _)
  | cons value more =>
    have here : values[(start'.cursor link).position]? = some value := by
      rw [←List.head?_drop,left]
      rfl
    have further : values.drop ((start'.cursor link).position + 1) = more := by
      rw [←List.drop_drop,left]
      rfl
    simp only [here,Source.pull,Action.bind_apply,Action.setCursor_apply,Action.pure_apply]
    refine .item (shifted.trans (.moved inside _ _)) (kept _) ?_
    have stands : StandsInLine host all
        (start'.moved link ⟨(start'.cursor link).position + 1,.ready⟩).cursor [link]
          (.items link values) [.nodes (values.drop
            ((start'.moved link ⟨(start'.cursor link).position + 1,.ready⟩).cursor link).position)] :=
      .items (by simp)
    simpa [further] using stands

theorem second_pull {link : Ident} {own other : List Ident} (first : Feed κ) {second : Feed κ}
    {line : List (Source κ)} {start start' : Store}
    (ih : StandsInLine host all start'.cursor other second line → Shifted all start start' →
      PullMatches host all other second start' (Source.pull host line start)
        (second.pull host start'))
    (live : ¬(start'.cursor link).phase = .closed) (read : ¬(start'.cursor link).position = 0)
    (two : StandsInLine host all start'.cursor other second line) (fresh : link ∉ own ++ other)
    (inside : link ∈ all) (shifted : Shifted all start start') :
    PullMatches host all (link :: (own ++ other)) (.chain link first second) start'
      (Source.pull host line start) ((Feed.chain link first second).pull host start') := by
  rw [Feed.chain_second live read,Feed.pullSecond_eq]
  have apart : link ∉ other := fun inside => fresh (List.mem_append_right own inside)
  generalize one : Source.pull host line start = left at ih ⊢
  generalize two' : second.pull host start' = right at ih ⊢
  cases ih two shifted with
  | @item after after' rest value moved kept stands =>
    have place := kept link inside apart
    refine .item moved (fun id known outside => kept id known fun mine => outside (by simp [mine])) ?_
    exact .second (by rwa [place]) (by rwa [place]) stands fresh
  | @ended after after' moved kept =>
    refine .ended (moved.trans (.shut inside _)) fun id known outside => ?_
    have different : id ≠ link := by rintro rfl; exact outside (by simp)
    rw [Store.shut,Store.moved_cursor_other _ _ different]
    exact kept id known fun mine => outside (by simp [mine])
  | broke moved => exact .broke (moved.trans (.shut inside _))

theorem stands_pull (whole : Feed κ) : ∀ {own : List Ident} {line : List (Source κ)}
    {start start' : Store}, StandsInLine host all start'.cursor own whole line →
      (∀ id ∈ own, id ∈ all) → Shifted all start start' →
        PullMatches host all own whole start' (Source.pull host line start) (whole.pull host start') := by
  induction whole with
  | body | endless | refused =>
    intro own line start start' stands within shifted
    cases stands with
    | feed apart => exact alone_pull apart shifted
  | items link nodes =>
    intro own line start start' stands within shifted
    cases stands with
    | feed apart => exact alone_pull apart shifted
    | items live => exact items_pull live (within _ (by simp)) shifted
  | chain link first second ihFirst ihSecond =>
    intro all' line start start' stands within shifted
    cases stands with
    | feed apart => exact alone_pull apart shifted
    | @second _ other _ _ own _ live read two fresh =>
      refine second_pull first (fun stands moved => ihSecond stands ?_ moved) live read two fresh
        (within link (by simp)) shifted
      exact fun id inside => within id (by simp [inside])
    | @first _ own _ line other _ line' live unread one two fresh apart =>
      have mine := within link (by simp)
      have ownWithin : ∀ id ∈ own, id ∈ all := fun id inside => within id (by simp [inside])
      have otherWithin : ∀ id ∈ other, id ∈ all := fun id inside => within id (by simp [inside])
      have apartOwn : link ∉ own := fun inside => fresh (List.mem_append_left other inside)
      have apartOther : link ∉ other := fun inside => fresh (List.mem_append_right own inside)
      have matched := ihFirst one ownWithin shifted
      rw [pull_append,Feed.chain_first live unread]
      generalize left : Source.pull host line start = found at matched ⊢
      generalize right : first.pull host start' = found' at matched ⊢
      cases matched with
      | @item after after' rest value moved kept stands =>
        have place := kept link mine apartOwn
        refine .item moved (fun id known outside => kept id known fun own => outside (by simp [own])) ?_
        refine .first (by rwa [place]) (by rwa [place]) stands ?_ fresh apart
        refine stands_congr two fun id inside => kept id (otherWithin id inside) ?_
        exact fun reach => apart id reach inside
      | @ended after after' moved kept =>
        have behind : ∀ id ∈ all, id ∉ link :: (own ++ other) →
            (after'.moved link ⟨1,.ready⟩).cursor id = start'.cursor id := by
          intro id known outside
          have different : id ≠ link := by rintro rfl; exact outside (by simp)
          rw [Store.moved_cursor_other _ _ different]
          exact kept id known fun mine => outside (by simp [mine])
        have two' : StandsInLine host all (after'.moved link ⟨1,.ready⟩).cursor other second
            line' := by
          refine stands_congr two fun id inside => ?_
          have different : id ≠ link := by rintro rfl; exact apartOther inside
          rw [Store.moved_cursor_other _ _ different]
          exact kept id (otherWithin id inside) fun reach => apart id reach inside
        have begun : ¬((after'.moved link ⟨1,.ready⟩).cursor link).phase = .closed := by simp
        have read : ¬((after'.moved link ⟨1,.ready⟩).cursor link).position = 0 := by simp
        have second_ := second_pull first
          (fun stands moved => ihSecond stands otherWithin moved) begun read two' fresh mine
          (moved.trans (.moved mine _ _))
        rw [Feed.chain_second begun read] at second_
        exact second_.before behind
      | broke moved => exact .broke (moved.trans (.shut mine _))
  | coerce own inner ih =>
    intro own line start start' stands within shifted
    cases stands with
    | feed apart => exact alone_pull apart shifted

theorem stands_first (count : Nat) : ∀ {own : List Ident} {whole : Feed κ} {line : List (Source κ)}
    {start start' : Store}, StandsInLine host all start'.cursor own whole line →
      (∀ id ∈ own, id ∈ all) → Shifted all start start' →
        EndsAlike all (Source.first host count line start) (whole.first host count start') := by
  induction count with
  | zero => exact fun _ _ shifted => .ok shifted
  | succ count ih =>
    intro own whole line start start' stands within shifted
    have matched := stands_pull whole stands within shifted
    simp only [Source.first,Feed.first,Action.bind_apply]
    generalize Source.pull host line start = found at matched ⊢
    generalize whole.pull host start' = found' at matched ⊢
    cases matched with
    | broke moved => exact .error moved
    | ended moved kept => exact .ok moved
    | @item after after' rest value moved kept stands =>
      have more := ih stands within moved
      simp only [Action.bind_apply]
      generalize Source.first host count rest after = later at more ⊢
      generalize whole.first host count after' = later' at more ⊢
      cases more with
      | ok moved => exact .ok moved
      | error moved => exact .error moved

variable {token : Token} {found : List (Node κ)} {last : Store}

theorem gives_congr {line' : List (Source κ)} {start start' : Store}
    (same : Source.pull host line start = Source.pull host line' start')
    (gives : GivesAll host token line' start' found last) : GivesAll host token line start found last := by
  cases gives with
  | ended pulled => exact .ended (same.trans pulled)
  | item pulled live more => exact .item (same.trans pulled) live more

theorem nodes_give {rest : List (Source κ)} {start : Store} (live : start.cancelled token = false)
    (more : GivesAll host token rest start found last) (values : List (Node κ)) :
    GivesAll host token (.nodes values :: rest) start (values ++ found) last := by
  induction values with
  | nil => exact gives_congr (by rw [Source.pull]) more
  | cons value values ih => exact .item rfl live ih

theorem feed_gives {feed : Feed κ} {rest : List (Source κ)} {middle : Store}
    (more : GivesAll host token rest middle found last) :
    ∀ (fuel : Nat) (values : List (Node κ)) (start : Store),
      Feed.collect.go host token feed fuel start = .ok values middle →
        values.length < fuel ∧ GivesAll host token (.feed feed :: rest) start (values ++ found) last := by
  intro fuel
  induction fuel with
  | zero => exact fun _ _ items => nomatch items
  | succ fuel ih =>
    intro values start items
    simp only [Feed.collect.go,Action.bind_apply] at items
    cases pulled : feed.pull host start with
    | error fault after => simp [pulled] at items
    | ok item after =>
      cases item with
      | none =>
        simp only [pulled,Action.pure_apply,EStateM.Result.ok.injEq] at items
        obtain ⟨rfl,rfl⟩ := items
        refine ⟨Nat.zero_lt_succ _,gives_congr ?_ more⟩
        simp [Source.pull,pulled]
      | some value =>
        simp only [pulled,Action.bind_apply] at items
        by_cases live : after.cancelled token = false
        · rw [Action.check_live live] at items
          cases later : Feed.collect.go host token feed fuel after with
          | error fault last => simp [later] at items
          | ok values' last =>
            simp only [later,Action.pure_apply,EStateM.Result.ok.injEq] at items
            obtain ⟨rfl,rfl⟩ := items
            obtain ⟨few,gives⟩ := ih values' after later
            refine ⟨Nat.succ_lt_succ few,.item ?_ live gives⟩
            simp [Source.pull,pulled]
        · simp [Action.check_stopped (eq_true_of_ne_false live)] at items

theorem drains_give {limit : Nat} {start : Store}
    (drains : Drains host token limit line start found last) :
    GivesAll host token line start found last ∧ found.length ≤ Source.room limit line := by
  induction drains with
  | nil => exact ⟨.ended rfl,by simp⟩
  | nodes live more ih =>
    refine ⟨nodes_give live ih.1 _,?_⟩
    simpa [Source.room,Source.capacity] using ih.2
  | feed items more ih =>
    obtain ⟨few,gives⟩ := feed_gives ih.1 _ _ _ items
    refine ⟨gives,?_⟩
    simpa [Source.room,Source.capacity] using Nat.add_le_add (Nat.le_of_lt_succ few) ih.2

theorem first_congr {line' : List (Source κ)} {start start' : Store} (count : Nat)
    (same : Source.pull host line start = Source.pull host line' start') :
    Source.first host (count + 1) line start = Source.first host (count + 1) line' start' := by
  simp only [Source.first,Action.bind_apply,same]

theorem first_item {rest : List (Source κ)} {value : Node κ} {start middle : Store} (count : Nat)
    (pulled : Source.pull host line start = .ok (some (value,rest)) middle) :
    Source.first host (count + 1) line start =
      match Source.first host count rest middle with
      | .ok values after => .ok (value :: values) after
      | .error fault after => .error fault after := by
  simp only [Source.first,Action.bind_apply,pulled]
  cases Source.first host count rest middle <;> rfl

theorem gives_first {start : Store} (gives : GivesAll host token line start found last)
    (behind : List (Source κ)) (count : Nat) :
    Source.first host (found.length + (count + 1)) (line ++ behind) start =
      match Source.first host (count + 1) behind last with
      | .ok values after => .ok (found ++ values) after
      | .error fault after => .error fault after := by
  induction gives with
  | @ended line start last pulled =>
    have size : ([] : List (Node κ)).length + (count + 1) = count + 1 := Nat.zero_add _
    have same : Source.pull host (line ++ behind) start = Source.pull host behind last := by
      rw [pull_append,pulled]
    rw [size,first_congr count same]
    cases Source.first host (count + 1) behind last <;> rfl
  | @item line start value rest middle found last pulled live more ih =>
    have size : (value :: found).length + (count + 1) = found.length + (count + 1) + 1 :=
      Nat.succ_add _ _
    have same : Source.pull host (line ++ behind) start =
        .ok (some (value,rest ++ behind)) middle := by
      rw [pull_append,pulled]
    rw [size,first_item _ same,ih]
    cases Source.first host (count + 1) behind last <;> rfl

theorem feed_first (feed : Feed κ) (behind : List (Source κ)) (count : Nat) :
    ∀ {start : Store} {values : List (Node κ)}, feed.first host count start = .ok values last →
      values.length = count →
        Source.first host count (.feed feed :: behind) start = .ok values last := by
  induction count with
  | zero => exact fun given _ => given
  | succ count ih =>
    intro start values given full
    simp only [Feed.first,Source.first,Source.pull,Action.bind_apply] at given ⊢
    cases pulled : feed.pull host start with
    | error fault after => simp [pulled] at given
    | ok item after =>
      cases item with
      | none =>
        simp only [pulled,Action.pure_apply,EStateM.Result.ok.injEq] at given
        simp [←given.1] at full
      | some value =>
        simp only [pulled,Action.bind_apply] at given
        cases later : feed.first host count after with
        | error fault last => simp [later] at given
        | ok values' last =>
          simp only [later,Action.pure_apply,EStateM.Result.ok.injEq] at given
          obtain ⟨rfl,rfl⟩ := given
          simp only [Action.pure_apply,Action.bind_apply,ih later (by simpa using full)]

theorem stands_collect {start : Store} (gives : GivesAll host token line start found last) :
    ∀ {own : List Ident} {start' : Store} (fuel : Nat), StandsInLine host all start'.cursor own whole line →
      (∀ id ∈ own, id ∈ all) → Shifted all start start' → found.length < fuel →
        ∃ last', Feed.collect.go host token whole fuel start' = .ok found last' ∧
          Shifted all last last' := by
  induction gives with
  | ended pulled =>
    intro own start' fuel stands within shifted few
    cases fuel with
    | zero => exact absurd few (Nat.not_lt_zero _)
    | succ fuel =>
      have matched := stands_pull whole stands within shifted
      rw [pulled] at matched
      simp only [Feed.collect.go,Action.bind_apply]
      generalize whole.pull host start' = found' at matched ⊢
      cases matched with
      | ended moved kept => exact ⟨_,rfl,moved⟩
  | item pulled live more ih =>
    intro own start' fuel stands within shifted few
    cases fuel with
    | zero => exact absurd few (Nat.not_lt_zero _)
    | succ fuel =>
      have matched := stands_pull whole stands within shifted
      rw [pulled] at matched
      simp only [Feed.collect.go,Action.bind_apply]
      generalize whole.pull host start' = found' at matched ⊢
      cases matched with
      | @item _ after' _ _ moved kept stands =>
        have live' : after'.cancelled token = false := by rwa [moved.cancelled]
        obtain ⟨last',later,moved'⟩ := ih fuel stands within moved (by simpa using few)
        simp only [Action.bind_apply,Action.check_live live',later]
        exact ⟨_,rfl,moved'⟩

end standing

end Markup
