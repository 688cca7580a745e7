import Markup.Proofs.Concatenation
import Markup.Proofs.Flattening

namespace Markup

variable {κ : Type}

def Feed.left (cursor : Ident → Cursor) : Feed κ → Nat
  | .body id _ entries => entries.length - (cursor id).position
  | .endless .. => 0
  | .items id nodes => nodes.length - (cursor id).position
  | .chain id first second =>
    (if (cursor id).position = 0 then first.left cursor else 0) + second.left cursor
  | .coerce _ inner => inner.left cursor
  | .refused .. => 0

namespace Source

def left (cursor : Ident → Cursor) : List (Source κ) → Nat
  | [] => 0
  | .nodes values :: rest => values.length + left cursor rest
  | .feed inner :: rest => inner.left cursor + left cursor rest

def Ends (line : List (Source κ)) : Prop := ∀ inner, .feed inner ∈ line → inner.ends = true

-- The items that a line hands over in some pulls, each with the store at that
-- moment, and what stands in line then. They are pulled whatever becomes of the
-- token meanwhile.
inductive HandsOver (host : Host κ) :
    List (Source κ) → Store → List (Node κ × Store) → List (Source κ) → Store → Prop where
  | nil : HandsOver host line start [] line start
  | item (pulled : pull host line start = .ok (some (value,rest)) middle)
      (more : HandsOver host rest middle handed behind last) :
      HandsOver host line start ((value,middle) :: handed) behind last

inductive HandsOverAll (host : Host κ) :
    List (Source κ) → Store → List (Node κ × Store) → Store → Prop where
  | ended (pulled : pull host line start = .ok none last) : HandsOverAll host line start [] last
  | item (pulled : pull host line start = .ok (some (value,rest)) middle)
      (more : HandsOverAll host rest middle handed last) :
      HandsOverAll host line start ((value,middle) :: handed) last

inductive Fails (host : Host κ) : List (Source κ) → Store → Prop where
  | now (failed : pull host line start = .error fault last) : Fails host line start
  | later (pulled : pull host line start = .ok (some (value,rest)) middle)
      (more : Fails host rest middle) : Fails host line start

end Source

-- A read that fares well leaves no source at an earlier place, and one that gives
-- an item of a feed that ends leaves fewer.
structure Progress (feed : Feed κ) (start : Store) (found : Option (Node κ)) (after : Store) :
    Prop where
  forward : Forward start after
  fewer : feed.ends = true → found.isSome = true → feed.left after.cursor < feed.left start.cursor

section reading

variable {host : Host κ} {start middle after : Store} {found : Option (Node κ)}

theorem Feed.left_capacity (feed : Feed κ) (cursor : Ident → Cursor) (limit : Nat) :
    feed.left cursor ≤ feed.capacity limit := by
  induction feed with
  | body | items => exact Nat.sub_le _ _
  | endless | refused => exact Nat.zero_le _
  | chain id first second ih ih' =>
    rw [Feed.left,Feed.capacity]
    split <;> omega
  | coerce id inner ih => exact ih

theorem Feed.limit_capacity (feed : Feed κ) (endless : feed.ends = false) (limit : Nat) :
    limit ≤ feed.capacity limit := by
  induction feed with
  | body | items | refused => cases endless
  | endless => exact Nat.le_refl limit
  | chain id first second ih ih' =>
    rw [Feed.ends,Bool.and_eq_false_iff] at endless
    rw [Feed.capacity]
    rcases endless with here | there
    · exact Nat.le_trans (ih here) (Nat.le_add_right _ _)
    · exact Nat.le_trans (ih' there) (Nat.le_add_left _ _)
  | coerce id inner ih => exact ih endless

theorem Feed.left_forward (forward : Forward start after) (feed : Feed κ) :
    feed.left after.cursor ≤ feed.left start.cursor := by
  induction feed with
  | body id | items id => exact Nat.sub_le_sub_left (forward id) _
  | endless | refused => exact Nat.le_refl 0
  | chain id first second ih ih' =>
    have place := forward id
    rw [Feed.left,Feed.left]
    split <;> split <;> omega
  | coerce id inner ih => exact ih

theorem forward_idle : KeptByIssuing Forward where
  refl := .refl
  trans := .trans
  issued := fun store => .refl store
  noted := fun store _ _ => .refl store

theorem lazyNext_forward (forward : host.Forward) (id : Ident) (items : List κ) :
    Leaves Forward (LazyList.next host id items) := by
  intro store
  rcases lazy_reads forward id items store with ⟨after,read,further⟩ | ⟨fault,after,read,further⟩ |
    ⟨value,after,read,further,_⟩ <;>
  · rw [read]
    exact further

theorem lazyFold_forward (forward : host.Forward) (id : Ident) (items : List κ)
    {step : α → Node κ → Action α} (steps : ∀ state value, Leaves Forward (step state value))
    (state : α) : Leaves Forward (LazyList.fold host id items step state) := by
  unfold LazyList.fold
  induction items.length + 1 generalizing state with
  | zero => exact fun store => .refl store
  | succ fuel ih =>
    refine forward_idle.bind (lazyNext_forward forward id items) fun found => ?_
    cases found with
    | none => exact forward_idle.refl
    | some value => exact forward_idle.bind (steps state value) ih

theorem coerceWith_leaves {kept : Store → Store → Prop} (idle : KeptByIssuing kept)
    {read : Ident → List κ → Action (List (Node κ))} (reads : ∀ id items, Leaves kept (read id items))
    (value : Node κ) : Leaves kept (value.coerceWith read) :=
  @Composing.coerceWith _ _ idle.composing read read reads value

theorem coerce_forward (forward : host.Forward) (value : Node κ) :
    Leaves Forward (value.coerce host) := by
  unfold Node.coerce
  induction host.depth generalizing value with
  | zero =>
    refine coerceWith_leaves forward_idle (fun id items => ?_) value
    exact forward_idle.refl
  | succ depth ih =>
    refine coerceWith_leaves forward_idle (fun id items => ?_) value
    refine lazyFold_forward forward id items (fun nodes item => ?_) []
    split
    · exact forward_idle.refl
    · exact forward_idle.bind (ih item) fun _ => forward_idle.refl

theorem forward_set {own : Ident} {value : Cursor}
    (others : ∀ id, id ≠ own → (start.cursor id).position ≤ (middle.cursor id).position)
    (mine : (start.cursor own).position ≤ value.position) :
    Forward start (middle.moved own value) := by
  intro id
  by_cases same : id = own
  · subst same
    rwa [Store.moved_cursor_self]
  · rw [Store.moved_cursor_other _ _ same]
    exact others id same

-- The body of a sequence sets its own cursor by the place it has come to, not by
-- what the code there has left.
theorem entries_progress (forward : host.Forward) {own : Ident} {label : String}
    (entries : List (Entry κ)) : ∀ (place : Nat) (middle : Store),
      (∀ id, id ≠ own → (start.cursor id).position ≤ (middle.cursor id).position) →
        (start.cursor own).position ≤ place →
          pullEntries host own label place entries middle = .ok found after →
            Forward start after ∧
              (found.isSome = true → entries ≠ [] ∧ place < (after.cursor own).position) := by
  induction entries with
  | nil =>
    intro place middle others mine done
    cases done
    exact ⟨forward_set others mine,by simp⟩
  | cons entry rest ih =>
    intro place middle others mine done
    have begun : Forward start (middle.moved own ⟨place + 1,.ready⟩) :=
      forward_set others (Nat.le_succ_of_le mine)
    cases entry with
    | act code =>
      have ran := forward code (middle.moved own ⟨place + 1,.ready⟩)
      simp only [pullEntries,Action.bind_apply,Action.setCursor_apply,Action.discard_apply,
        Action.closing_apply] at done
      cases run : host.run code none (middle.moved own ⟨place + 1,.ready⟩) with
      | error fault last => simp [run] at done
      | ok value last =>
        rw [run] at ran
        simp only [run] at done
        obtain ⟨further,given⟩ := ih (place + 1) last (fun id _ => (begun.trans ran) id)
          (Nat.le_succ_of_le mine) done
        exact ⟨further,fun some => ⟨by simp,Nat.lt_of_succ_lt (given some).2⟩⟩
    | item code =>
      have ran := forward code ((middle.moved own ⟨place + 1,.ready⟩).noted (.pull label place))
      simp only [pullEntries,Action.bind_apply,Action.setCursor_apply,Action.log_apply,
        Action.closing_apply] at done
      cases run : host.run code none
          ((middle.moved own ⟨place + 1,.ready⟩).noted (.pull label place)) with
      | error fault last => simp [run] at done
      | ok value last =>
        rw [run] at ran
        simp only [run,Action.pure_apply,EStateM.Result.ok.injEq] at done
        obtain ⟨rfl,rfl⟩ := done
        have further : place + 1 ≤ (last.cursor own).position := by simpa [leftBy] using ran own
        exact ⟨begun.trans ran,fun _ => ⟨by simp,further⟩⟩

theorem body_progress (forward : host.Forward) {own : Ident} {label : String}
    {entries : List (Entry κ)}
    (done : (Feed.body own label entries).pull host start = .ok found after) :
    Progress (.body own label entries) start found after := by
  by_cases closed : (start.cursor own).phase = .closed
  · rw [Feed.pull_closed host closed] at done
    cases done
    exact ⟨.refl _,by simp⟩
  · simp only [Feed.pull,Action.bind_apply,Action.cursor_apply,closed,if_false] at done
    obtain ⟨further,given⟩ := entries_progress forward _ _ start (fun _ _ => Nat.le_refl _)
      (Nat.le_refl _) done
    refine ⟨further,fun _ some => ?_⟩
    obtain ⟨more,place⟩ := given some
    have inside : (start.cursor own).position < entries.length := by
      simpa [List.drop_eq_nil_iff] using more
    rw [Feed.left,Feed.left]
    omega

theorem endless_progress (forward : host.Forward) {own : Ident} {label : String} {code : Nat → κ}
    (done : (Feed.endless own label code).pull host start = .ok found after) :
    Progress (.endless own label code) start found after := by
  by_cases closed : (start.cursor own).phase = .closed
  · rw [Feed.pull_closed host closed] at done
    cases done
    exact ⟨.refl _,by simp⟩
  · simp only [Feed.pull,Action.bind_apply,Action.cursor_apply,closed,if_false] at done
    obtain ⟨further,_⟩ := entries_progress forward _ _ start (fun _ _ => Nat.le_refl _)
      (Nat.le_refl _) done
    exact ⟨further,fun ends => by cases ends⟩

theorem items_progress {own : Ident} {nodes : List (Node κ)}
    (done : (Feed.items own nodes).pull host start = .ok found after) :
    Progress (.items own nodes) start found after := by
  by_cases closed : (start.cursor own).phase = .closed
  · rw [Feed.pull_closed host closed] at done
    cases done
    exact ⟨.refl _,by simp⟩
  · simp only [Feed.pull,Action.bind_apply,Action.cursor_apply,closed,if_false] at done
    cases here : nodes[(start.cursor own).position]? with
    | none =>
      simp only [here,Action.bind_apply,Action.close_apply,Action.pure_apply,
        EStateM.Result.ok.injEq] at done
      obtain ⟨rfl,rfl⟩ := done
      exact ⟨.shut _ _,by simp⟩
    | some value =>
      simp only [here,Action.bind_apply,Action.setCursor_apply,Action.pure_apply,
        EStateM.Result.ok.injEq] at done
      obtain ⟨rfl,rfl⟩ := done
      have inside := (List.getElem?_eq_some_iff.mp here).1
      refine ⟨.moved (Nat.le_succ _),fun _ _ => ?_⟩
      rw [Feed.left,Feed.left,Store.moved_cursor_self]
      dsimp only
      omega

theorem second_progress {own : Ident} {second : Feed κ}
    (ih : ∀ {found after}, second.pull host middle = .ok found after →
      Progress second middle found after)
    (done : Feed.pullSecond host own second middle = .ok found after) :
    Progress second middle found after := by
  rw [Feed.pullSecond_eq] at done
  cases pulled : second.pull host middle with
  | error fault last => simp [pulled] at done
  | ok item last =>
    have near := ih pulled
    cases item with
    | none =>
      simp only [pulled,EStateM.Result.ok.injEq] at done
      obtain ⟨rfl,rfl⟩ := done
      exact ⟨near.forward.trans (.shut _ _),by simp⟩
    | some value =>
      simp only [pulled,EStateM.Result.ok.injEq] at done
      obtain ⟨rfl,rfl⟩ := done
      exact near

theorem coerce_progress (forward : host.Forward) {own : Ident} {inner : Feed κ}
    (live : ¬(start.cursor own).phase = .closed)
    (ih : ∀ {found after}, inner.pull host start = .ok found after → Progress inner start found after)
    (done : (Feed.coerce own inner).pull host start = .ok found after) :
    Progress (.coerce own inner) start found after := by
  rw [Feed.coerce_pull live] at done
  cases pulled : inner.pull host start with
  | error fault last => simp [pulled] at done
  | ok item last =>
    have near := ih pulled
    cases item with
    | none =>
      simp only [pulled,EStateM.Result.ok.injEq] at done
      obtain ⟨rfl,rfl⟩ := done
      exact ⟨near.forward.trans (.shut _ _),by simp⟩
    | some value =>
      have read := coerce_forward forward value last
      cases made : value.coerce host last with
      | error fault end_ => simp [pulled,made] at done
      | ok node end_ =>
        simp only [pulled,made,EStateM.Result.ok.injEq] at done
        obtain ⟨rfl,rfl⟩ := done
        rw [made] at read
        exact ⟨near.forward.trans read,fun ends _ =>
          Nat.lt_of_le_of_lt (Feed.left_forward read inner) (near.fewer ends rfl)⟩

theorem pull_progress (forward : host.Forward) (feed : Feed κ) : ∀ {start : Store}
    {found : Option (Node κ)} {after : Store}, feed.pull host start = .ok found after →
      Progress feed start found after := by
  induction feed with
  | body own label entries => exact body_progress forward
  | endless own label code => exact endless_progress forward
  | items own nodes => exact items_progress
  | refused own kind =>
    intro start found after done
    by_cases closed : (start.cursor own).phase = .closed
    · rw [Feed.pull_closed host closed] at done
      cases done
      exact ⟨.refl _,by simp⟩
    · simp [Feed.pull,closed] at done
  | chain own first second ihFirst ihSecond =>
    intro start found after done
    by_cases closed : (start.cursor own).phase = .closed
    · rw [Feed.pull_closed host closed] at done
      cases done
      exact ⟨.refl _,by simp⟩
    · by_cases unread : (start.cursor own).position = 0
      · rw [Feed.chain_first closed unread] at done
        cases pulled : first.pull host start with
        | error fault last => simp [pulled] at done
        | ok item last =>
          have near := ihFirst pulled
          cases item with
          | some value =>
            simp only [pulled,EStateM.Result.ok.injEq] at done
            obtain ⟨rfl,rfl⟩ := done
            have behind := Feed.left_forward near.forward second
            refine ⟨near.forward,fun ends _ => ?_⟩
            have fewer := near.fewer (Bool.and_eq_true_iff.mp ends).1 rfl
            rw [Feed.left,Feed.left,if_pos unread]
            split <;> omega
          | none =>
            simp only [pulled] at done
            have begun : Forward start (last.moved own ⟨1,.ready⟩) :=
              forward_set (fun id _ => near.forward id) (by simp [unread])
            have later := second_progress ihSecond done
            have behind := Feed.left_forward begun second
            have place : ¬(after.cursor own).position = 0 := by
              have further := later.forward own
              rw [Store.moved_cursor_self] at further
              exact Nat.ne_of_gt further
            refine ⟨begun.trans later.forward,fun ends some => ?_⟩
            have fewer := later.fewer (Bool.and_eq_true_iff.mp ends).2 some
            rw [Feed.left,Feed.left,if_pos unread,if_neg place]
            omega
      · rw [Feed.chain_second closed unread] at done
        have later := second_progress ihSecond done
        have place : ¬(after.cursor own).position = 0 := by
          have further := later.forward own
          omega
        refine ⟨later.forward,fun ends some => ?_⟩
        have fewer := later.fewer (Bool.and_eq_true_iff.mp ends).2 some
        rw [Feed.left,Feed.left,if_neg unread,if_neg place]
        omega
  | coerce own inner ih =>
    intro start found after done
    by_cases closed : (start.cursor own).phase = .closed
    · rw [Feed.pull_closed host closed] at done
      cases done
      exact ⟨.refl _,by simp⟩
    · exact coerce_progress forward closed ih done

end reading

-- What sources in line hand over comes to an end if each of them has one,
-- unless one of them fails.
section lines

variable {host : Host κ} {line : List (Source κ)} {start last : Store}
  {handed : List (Node κ × Store)}

theorem line_room (limit : Nat) (line : List (Source κ)) (cursor : Ident → Cursor) :
    Source.left cursor line ≤ Source.room limit line := by
  induction line with
  | nil => exact Nat.le_refl 0
  | cons source rest ih =>
    cases source with
    | nodes values => exact Nat.add_le_add_left ih _
    | feed inner => exact Nat.add_le_add (inner.left_capacity cursor limit) ih

theorem limit_room (limit : Nat) (endless : ¬Source.Ends line) : limit ≤ Source.room limit line := by
  induction line with
  | nil => exact absurd (by simp [Source.Ends]) endless
  | cons source rest ih =>
    rw [Source.room]
    cases source with
    | nodes values =>
      have later : limit ≤ Source.room limit rest := by
        refine ih fun ends => endless fun inner inside => ends inner ?_
        simpa using inside
      exact Nat.le_add_left_of_le later
    | feed inner =>
      cases here : inner.ends with
      | false => exact Nat.le_add_right_of_le (inner.limit_capacity here limit)
      | true =>
        have later : limit ≤ Source.room limit rest := by
          refine ih fun ends => endless fun other inside => ?_
          rcases List.mem_cons.mp inside with same | inside
          · cases same
            exact here
          · exact ends other inside
        exact Nat.le_add_left_of_le later

theorem line_forward {after : Store} (forward : Forward start after) (line : List (Source κ)) :
    Source.left after.cursor line ≤ Source.left start.cursor line := by
  induction line with
  | nil => exact Nat.le_refl 0
  | cons source rest ih =>
    cases source with
    | nodes values => exact Nat.add_le_add_left ih _
    | feed inner => exact Nat.add_le_add (inner.left_forward forward) ih

theorem line_progress (forward : host.Forward) (line : List (Source κ)) : Source.Ends line →
    ∀ {start after : Store} {found : Option (Node κ × List (Source κ))},
      Source.pull host line start = .ok found after →
        Forward start after ∧ ∀ value rest, found = some (value,rest) →
          Source.Ends rest ∧ Source.left after.cursor rest < Source.left start.cursor line := by
  induction line with
  | nil =>
    intro _ start after found done
    cases done
    exact ⟨.refl _,by simp⟩
  | cons source behind ih =>
    intro ends start after found done
    have later : Source.Ends behind := fun other inside => ends other (List.mem_cons_of_mem _ inside)
    cases source with
    | nodes values =>
      cases values with
      | nil => simpa [Source.left] using ih later done
      | cons value more =>
        cases done
        refine ⟨.refl _,?_⟩
        rintro _ _ ⟨⟩
        refine ⟨fun other inside => later other (by simpa using inside),?_⟩
        simp [Source.left]
    | feed inner =>
      simp only [Source.pull,Action.bind_apply] at done
      cases pulled : inner.pull host start with
      | error fault middle => simp [pulled] at done
      | ok item middle =>
        have near := pull_progress forward inner pulled
        have kept := line_forward near.forward behind
        cases item with
        | some value =>
          simp only [pulled,Action.pure_apply,EStateM.Result.ok.injEq] at done
          obtain ⟨rfl,rfl⟩ := done
          refine ⟨near.forward,?_⟩
          rintro _ _ ⟨⟩
          have fewer := near.fewer (ends inner (List.mem_cons_self ..)) rfl
          exact ⟨ends,Nat.add_lt_add_of_lt_of_le fewer kept⟩
        | none =>
          simp only [pulled] at done
          obtain ⟨further,fewer⟩ := ih later done
          refine ⟨near.forward.trans further,fun value rest given => ?_⟩
          obtain ⟨ends,less⟩ := fewer value rest given
          refine ⟨ends,?_⟩
          rw [Source.left]
          omega

theorem handsOver_few {behind : List (Source κ)} (forward : host.Forward) (ends : Source.Ends line)
    (handing : Source.HandsOver host line start handed behind last) :
    handed.length ≤ Source.left start.cursor line := by
  induction handing with
  | nil => exact Nat.zero_le _
  | item pulled more ih =>
    obtain ⟨later,fewer⟩ := (line_progress forward _ ends pulled).2 _ _ rfl
    exact Nat.lt_of_le_of_lt (ih later) fewer

theorem handsOverAll_handsOver (hands : Source.HandsOverAll host line start handed last) :
    ∃ behind middle, Source.HandsOver host line start handed behind middle ∧
      Source.pull host behind middle = .ok none last := by
  induction hands with
  | ended pulled => exact ⟨_,_,.nil,pulled⟩
  | item pulled more ih =>
    obtain ⟨behind,middle,handing,ended⟩ := ih
    exact ⟨behind,middle,.item pulled handing,ended⟩

theorem handsOver_append {early late : List (Node κ × Store)} {behind : List (Source κ)}
    (handing : Source.HandsOver host line start (early ++ late) behind last) :
    ∃ rest middle, Source.HandsOver host line start early rest middle ∧
      Source.HandsOver host rest middle late behind last := by
  induction early generalizing line start with
  | nil => exact ⟨line,start,.nil,handing⟩
  | cons item early ih =>
    cases handing with
    | item pulled more =>
      obtain ⟨rest,middle,one,other⟩ := ih more
      exact ⟨rest,middle,.item pulled one,other⟩

theorem handsOver_until {early late : List (Node κ × Store)} {value : Node κ} {middle : Store}
    {behind : List (Source κ)}
    (handing : Source.HandsOver host line start (early ++ (value,middle) :: late) behind last) :
    ∃ rest, Source.HandsOver host line start (early ++ [(value,middle)]) rest middle := by
  induction early generalizing line start with
  | nil =>
    cases handing with
    | item pulled more => exact ⟨_,.item pulled .nil⟩
  | cons item early ih =>
    cases handing with
    | item pulled more =>
      obtain ⟨rest,one⟩ := ih more
      exact ⟨rest,.item pulled one⟩

theorem handsOver_room {limit : Nat} {behind : List (Source κ)} (forward : host.Forward)
    (handing : Source.HandsOver host line start handed behind last)
    (enough : handed.length ≤ limit ∨ Source.Ends line) :
    handed.length ≤ Source.room limit line := by
  by_cases ends : Source.Ends line
  · exact Nat.le_trans (handsOver_few forward ends handing) (line_room limit line _)
  · exact Nat.le_trans (enough.resolve_right ends) (limit_room limit ends)

theorem handsOverAll_total (forward : host.Forward) (line : List (Source κ))
    (ends : Source.Ends line) (start : Store) :
    Source.Fails host line start ∨ ∃ handed last,
      Source.HandsOverAll host line start handed last := by
  induction bound : Source.left start.cursor line using Nat.strongRecOn generalizing line start with
  | ind bound ih =>
    cases pulled : Source.pull host line start with
    | error fault last => exact .inl (.now pulled)
    | ok found middle =>
      match found with
      | none => exact .inr ⟨[],middle,.ended pulled⟩
      | some (value,rest) =>
        obtain ⟨later,fewer⟩ := (line_progress forward line ends pulled).2 value rest rfl
        rcases ih _ (bound ▸ fewer) rest later middle rfl with fails | ⟨handed,last,hands⟩
        · exact .inl (.later pulled fails)
        · exact .inr ⟨_,last,.item pulled hands⟩

end lines

theorem stands_handsOver {host : Host κ} {token : Token} {all : List Ident} {whole : Feed κ}
    {line behind : List (Source κ)} {start last : Store} {handed : List (Node κ × Store)}
    (handing : Source.HandsOver host line start handed behind last) (fuel : Nat) :
    ∀ {own : List Ident} {start' : Store}, StandsInLine host all start'.cursor own whole line →
      (∀ id ∈ own, id ∈ all) → Shifted all start start' →
        (∀ item ∈ handed, item.2.cancelled token = false) →
          ∃ last', StandsInLine host all last'.cursor own whole behind ∧ Shifted all last last' ∧
            Feed.collect.go host token whole (handed.length + fuel) start' =
              (do return handed.map Prod.fst ++ (← Feed.collect.go host token whole fuel)) last' := by
  induction handing with
  | nil =>
    intro own start' stands within shifted _
    refine ⟨start',stands,shifted,?_⟩
    rw [List.length_nil,Nat.zero_add]
    simp only [List.map_nil,List.nil_append,bind_pure]
  | @item line start value rest middle handed behind last pulled more ih =>
    intro own start' stands within shifted live
    obtain ⟨here,later⟩ := List.forall_mem_cons.mp live
    have matched := stands_pull whole stands within shifted
    rw [pulled] at matched
    rw [List.length_cons,Nat.succ_add]
    simp only [Feed.collect.go,Action.bind_apply]
    generalize whole.pull host start' = found at matched ⊢
    cases matched with
    | @item _ middle' _ _ moved kept stands =>
      obtain ⟨last',stands,moved',drains⟩ := ih stands within moved later
      refine ⟨last',stands,moved',?_⟩
      have live' : middle'.cancelled token = false := by
        rw [moved.cancelled]
        exact here
      simp only [Action.bind_apply,Action.check_live live',drains]
      cases Feed.collect.go host token whole fuel last' <;> rfl

-- A call of drain: the token that it goes by, and the store as it begins. Nobody
-- has read in what composition made, and the sources have no part in that.
structure Called (host : Host κ) (line : List (Source κ)) (made : List Ident)
    (given : Option Token) (start : Store) (token : Token) (begin : Store) : Prop
    extends Unshared host line made start where
  taken : Action.tokenOr given start = .ok token begin

-- A drained sequence heeds the token when it is called and at each item that its
-- sources hand over, and at no other moment. Where it stops, the sources are as
-- they were at that moment: the items up to there were pulled and no others, and
-- a source behind them need not have an end.
structure Heeds (host : Host κ) (whole : Feed κ) (line : List (Source κ)) (made : List Ident) :
    Prop where
  hands : Source.Ends line → ∀ begin, ¬Source.Fails host line begin →
    ∃ handed last, Source.HandsOverAll host line begin handed last
  answers : ∀ {given start token begin handed last limit},
    Called host line made given start token begin →
      Source.HandsOverAll host line begin handed last →
      handed.length ≤ limit ∨ Source.Ends line →
        ((∃ items after, (Node.sequence whole).collect host given limit start = .ok items after) ↔
          begin.cancelled token = false ∧ ∀ item ∈ handed, item.2.cancelled token = false)
  complete : ∀ {given start token begin handed last limit},
    Called host line made given start token begin →
      Source.HandsOverAll host line begin handed last →
      handed.length ≤ limit ∨ Source.Ends line → begin.cancelled token = false →
        (∀ item ∈ handed, item.2.cancelled token = false) →
          ∃ last', (Node.sequence whole).collect host given limit start =
            .ok (handed.map Prod.fst) last' ∧ Shifted made last last'
  unbegun : ∀ {given start token begin limit}, Called host line made given start token begin →
    begin.cancelled token = true →
      (Node.sequence whole).collect host given limit start = .error Fault.stopped begin
  stopped : ∀ {given start token begin early value middle behind limit},
    Called host line made given start token begin →
      Source.HandsOver host line begin (early ++ [(value,middle)]) behind middle →
        early.length ≤ limit ∨ Source.Ends line → begin.cancelled token = false →
          (∀ item ∈ early, item.2.cancelled token = false) → middle.cancelled token = true →
            ∃ middle', (Node.sequence whole).collect host given limit start =
              .error Fault.stopped middle' ∧ Shifted made middle middle'

section calling

variable {host : Host κ} {made : List Ident} {whole : Feed κ} {line behind : List (Source κ)}
  {given : Option Token} {token : Token} {start begin last : Store} {handed : List (Node κ × Store)}
  {limit : Nat}

theorem drain_unbegun (called : Called host line made given start token begin)
    (cancelled : begin.cancelled token = true) :
    (Node.sequence whole).collect host given limit start = .error Fault.stopped begin := by
  simp [Node.collect,called.taken,Action.check_stopped cancelled]

theorem called_handsOver (forward : host.Forward) (laid : LaidOut made whole line)
    (called : Called host line made given start token begin)
    (handing : Source.HandsOver host line begin handed behind last)
    (enough : handed.length ≤ limit ∨ Source.Ends line) (live : begin.cancelled token = false)
    (all : ∀ item ∈ handed, item.2.cancelled token = false) :
    ∃ fuel last', StandsInLine host made last'.cursor made whole behind ∧ Shifted made last last' ∧
      (Node.sequence whole).collect host given limit start =
        (do return handed.map Prod.fst ++ (← Feed.collect.go host token whole (fuel + 1))) last' := by
  have unread : ∀ id ∈ made, begin.cursor id = {} := by
    rw [(token_issued called.taken).cursor]
    exact called.unread
  have few := handsOver_room forward handing enough
  rw [←laid_capacity laid] at few
  obtain ⟨fuel,room⟩ := Nat.exists_eq_add_of_le few
  obtain ⟨last',stands,shifted,drains⟩ := stands_handsOver handing (fuel + 1)
    (laid_stands laid unread called.apart) (fun _ inside => inside) (.refl _ _) all
  refine ⟨fuel,last',stands,shifted,?_⟩
  rw [←drains,←Nat.add_assoc,←room]
  simp only [Node.collect,Action.bind_apply,called.taken,Action.check_live live,Feed.collect]

theorem drain_complete (forward : host.Forward) (laid : LaidOut made whole line)
    (called : Called host line made given start token begin)
    (hands : Source.HandsOverAll host line begin handed last)
    (enough : handed.length ≤ limit ∨ Source.Ends line) (live : begin.cancelled token = false)
    (all : ∀ item ∈ handed, item.2.cancelled token = false) :
    ∃ last', (Node.sequence whole).collect host given limit start =
      .ok (handed.map Prod.fst) last' ∧ Shifted made last last' := by
  obtain ⟨behind,middle,handing,ended⟩ := handsOverAll_handsOver hands
  obtain ⟨fuel,middle',stands,shifted,drains⟩ :=
    called_handsOver forward laid called handing enough live all
  have matched := stands_pull whole stands (fun _ inside => inside) shifted
  rw [ended] at matched
  simp only [drains,Feed.collect.go,Action.bind_apply]
  generalize whole.pull host middle' = found at matched ⊢
  cases matched with
  | ended moved kept => exact ⟨_,by simp,moved⟩

theorem drain_stopped (forward : host.Forward) (laid : LaidOut made whole line)
    {early : List (Node κ × Store)} {value : Node κ} {middle : Store}
    (called : Called host line made given start token begin)
    (handing : Source.HandsOver host line begin (early ++ [(value,middle)]) behind middle)
    (enough : early.length ≤ limit ∨ Source.Ends line) (live : begin.cancelled token = false)
    (before : ∀ item ∈ early, item.2.cancelled token = false)
    (cancelled : middle.cancelled token = true) :
    ∃ middle', (Node.sequence whole).collect host given limit start =
      .error Fault.stopped middle' ∧ Shifted made middle middle' := by
  obtain ⟨rest,ready,one,next⟩ := handsOver_append handing
  obtain ⟨fuel,ready',stands,shifted,drains⟩ :=
    called_handsOver forward laid called one enough live before
  cases next with
  | item pulled more =>
    have matched := stands_pull whole stands (fun _ inside => inside) shifted
    rw [pulled] at matched
    simp only [drains,Feed.collect.go,Action.bind_apply]
    generalize whole.pull host ready' = found at matched ⊢
    cases matched with
    | @item _ middle' _ _ moved kept stands =>
      have cancelled' : middle'.cancelled token = true := by
        rw [moved.cancelled]
        exact cancelled
      exact ⟨middle',by simp [Action.check_stopped cancelled'],moved⟩

theorem drain_answers (forward : host.Forward) (laid : LaidOut made whole line)
    (called : Called host line made given start token begin)
    (hands : Source.HandsOverAll host line begin handed last)
    (enough : handed.length ≤ limit ∨ Source.Ends line) :
    (∃ items after, (Node.sequence whole).collect host given limit start = .ok items after) ↔
      begin.cancelled token = false ∧ ∀ item ∈ handed, item.2.cancelled token = false := by
  constructor
  · rintro ⟨items,after,drains⟩
    have live : begin.cancelled token = false := by
      by_contra cancelled
      rw [drain_unbegun called (eq_true_of_ne_false cancelled)] at drains
      cases drains
    refine ⟨live,?_⟩
    cases first : handed.find? fun item => item.2.cancelled token with
    | none => simpa using first
    | some item =>
      obtain ⟨value,middle⟩ := item
      obtain ⟨cancelled,early,late,rfl,before⟩ := List.find?_eq_some_iff_append.mp first
      obtain ⟨behind,_,handing,_⟩ := handsOverAll_handsOver hands
      obtain ⟨rest,handing⟩ := handsOver_until handing
      have few : early.length ≤ limit ∨ Source.Ends line := by
        refine enough.imp_left fun few => Nat.le_trans ?_ few
        simp
      obtain ⟨_,stops,_⟩ := drain_stopped forward laid called handing few live
        (fun item inside => by simpa using before item inside) cancelled
      rw [drains] at stops
      cases stops
  · rintro ⟨live,all⟩
    obtain ⟨last',drains,_⟩ := drain_complete forward laid called hands enough live all
    exact ⟨_,_,drains⟩

theorem laid_heeds (forward : host.Forward) (laid : LaidOut made whole line) :
    Heeds host whole line made :=
  ⟨fun ends begin sound => (handsOverAll_total forward line ends begin).resolve_left sound,
    drain_answers forward laid,drain_complete forward laid,drain_unbegun,
    drain_stopped forward laid⟩

end calling

inductive Wrapping (κ : Type) where
  | added (addition : Addition κ)
  | behind (feed : Feed κ)

def Node.wrap (node : Node κ) : Wrapping κ → Action (Node κ)
  | .added addition => node.receive addition
  | .behind feed => (Node.sequence feed).append node

-- What becomes of an addition, or of appending to a sequence, when the node
-- that waited is known. There is no host in it: nothing is started any more.
def Node.resume (node : Node κ) : Wrapping κ → Action (Node κ)
  | .added addition => node.receive addition
  | .behind feed => do
    let id ← Action.fresh
    return .sequence (.chain id feed (.items (← Action.fresh) [node]))

-- A wait that lies around another: it looks at the token, drives the other once
-- with that token and goes on from what that gave.
def Surrounds (inner wait : Pending κ) (goOn : Node κ → Action (Node κ)) : Prop :=
  ∀ (host : Host κ) (token : Token) (store : Store), store.cancelled token = false →
    wait.drive host token store = (do goOn (← inner.drive host token)) store

theorem surrounds_one {inner wait : Pending κ} {goOn : Node κ → Action (Node κ)}
    (around : ∀ (host : Host κ) token, wait.drive host token =
      (do Action.check token; goOn (← inner.drive host token))) : Surrounds inner wait goOn := by
  intro host token store live
  rw [around,Action.bind_apply,Action.check_live live]

theorem surrounds_trans {inner middle outer : Pending κ} {goOn further : Node κ → Action (Node κ)}
    (one : Surrounds inner middle goOn) (other : Surrounds middle outer further) :
    Surrounds inner outer fun node => goOn node >>= further := by
  intro host token store live
  rw [other host token store live,Action.bind_apply,one host token store live]
  simp only [Action.bind_apply]
  cases inner.drive host token store <;> rfl

theorem wait_wrapped {wrappings : List (Wrapping κ)}
    (proper : ∀ child, .added (.child child) ∈ wrappings → child.isNode = true) :
    ∀ (inner : Pending κ) (store : Store), ∃ wait built,
      wrappings.foldlM Node.wrap (.deferred inner) store = .ok (.deferred wait) built ∧
        Issued store built ∧ Surrounds inner wait fun node => wrappings.foldlM Node.resume node := by
  induction wrappings with
  | nil =>
    refine fun inner store => ⟨inner,store,rfl,.refl _,fun host token start live => ?_⟩
    simp only [List.foldlM_nil,bind_pure]
  | cons wrapping rest ih =>
    intro inner store
    have later := ih fun child inside => proper child (List.mem_cons_of_mem _ inside)
    have around : ∀ wait : Pending κ, (Node.deferred inner).wrap wrapping store =
        .ok (.deferred wait) store.issued → (∀ (host : Host κ) token, wait.drive host token =
          (do Action.check token; (← inner.drive host token).resume wrapping)) →
            ∃ wait built, (wrapping :: rest).foldlM Node.wrap (.deferred inner) store =
              .ok (.deferred wait) built ∧ Issued store built ∧
                Surrounds inner wait fun node => (wrapping :: rest).foldlM Node.resume node := by
      intro middle wrapped drives
      obtain ⟨wait,built,composed,issued,surrounds⟩ := later middle store.issued
      refine ⟨wait,built,?_,(Issued.one _).trans issued,?_⟩
      · rw [List.foldlM_cons,Action.bind_apply,wrapped]
        exact composed
      · simp only [List.foldlM_cons]
        exact surrounds_trans (surrounds_one drives) surrounds
    cases wrapping with
    | added addition =>
      cases addition with
      | attr value => exact around (.attach store.supply inner value) rfl fun _ _ => rfl
      | child other =>
        exact around (.append store.supply inner other)
          (append_deferred (proper other (by simp)) inner store) fun _ _ => rfl
    | behind feed =>
      exact around (.appendTo store.supply feed inner) (append_wait feed inner store) fun _ _ => rfl

-- Cancelling, for those that drain a sequence and those that resolve a node. What
-- composition makes of sequences is laid out along its sources, and whatever is so
-- laid out heeds the token at the call and at each item that they hand over.
-- However many waits lie around a thunk, it is not started with a cancelled token,
-- and with a live one it is started once and is handed that token.
theorem cancellation_heeded {host : Host κ} (forward : host.Forward) :
    (∀ {made : List Ident} {whole : Feed κ} {line : List (Source κ)}, LaidOut made whole line →
      Heeds host whole line made) ∧
    (∀ {bs : List (Node κ)} {begun : Ident → Cursor} {own : Set Ident} {store : Store}
      (given : Option Token) (feed : Feed κ), (∀ b ∈ bs, b.isNode = true) →
        Waits host begun own bs → Ready begun store own →
          ∃ node built whole last sources made,
            (Node.sequence feed).appendAll bs store = .ok node built ∧
            Unwraps host given node built (.sequence whole) last ∧
            Contributes host given bs store sources last ∧
            (∀ id ∈ made, store.supply ≤ id ∧ id < last.supply ∧ last.cursor id = {}) ∧
            Heeds host whole (.feed feed :: sources) made) ∧
    ∀ (wrappings : List (Wrapping κ)) (inner : Pending κ) (store : Store),
      (∀ child, .added (.child child) ∈ wrappings → child.isNode = true) →
        ∃ wait built, wrappings.foldlM Node.wrap (.deferred inner) store = .ok (.deferred wait) built ∧
          ∀ given start token begin, Action.tokenOr given start = .ok token begin →
            (begin.cancelled token = true →
              (Node.deferred wait).drive host given start = .error Fault.stopped begin) ∧
            (begin.cancelled token = false → (Node.deferred wait).drive host given start =
              (do wrappings.foldlM Node.resume (← inner.drive host token)) begin) := by
  refine ⟨laid_heeds forward,?_,?_⟩
  · intro bs begun own store given feed proper waits ready
    obtain ⟨built,last,node,whole,sources,made,appended⟩ := appended_all given waits proper
      (Made.feed feed store) (by simp) ready
    refine ⟨node,built,whole,last,sources,made,appended.composed,appended.unwraps,
      appended.contributes,fun id inside => ?_,laid_heeds forward appended.make.laid⟩
    have newer : store.supply ≤ id := by simpa using appended.newer id inside
    exact ⟨newer,appended.make.known id inside,appended.make.unread id inside⟩
  · intro wrappings inner store proper
    obtain ⟨wait,built,wrapped,_,surrounds⟩ := wait_wrapped proper inner store
    refine ⟨wait,built,wrapped,fun given start token begin taken =>
      ⟨fun cancelled => ?_,fun live => ?_⟩⟩
    · simp [Node.drive,taken,Action.check_stopped cancelled]
    · simp only [Node.drive,Action.bind_apply,taken,Action.check_live live]
      rw [surrounds host token begin live,Action.bind_apply]

def haltingHost : Host Nat where
  depth := 0
  run
    | 0,_ => return .text "x"
    | 1,_ => do
      Action.cancel (.named "t")
      return .text "y"
    | _,_ => return .text "late"

def calmItems : Feed Nat := .body 0 "xs" [.item 0,.item 0]

def haltingItems : Feed Nat := .endless 1 "ys" id

def haltingNodes : List (Node Nat) := [.deferred (.body 3 "late" 2),.sequence haltingItems]

theorem haltingHost_forward : haltingHost.Forward
  | 0,_ | 1,_ | _ + 2,_ => .refl _

theorem haltingHost_apart (made : List Ident) : ∀ code, Apart made (haltingHost.run code none)
  | 0 | _ + 2 => .pure _
  | 1 => by
    refine ⟨fun one other shifted => .ok ⟨⟨shifted.supply,?_,shifted.cursor⟩,shifted.journal⟩,?_⟩
    · exact congrArg (fun flags other => if other = Token.named "t" then true else flags other)
        shifted.cancelled
    · intro start value after done id inside
      cases done
      rfl

theorem haltingNodes_wait : Waits haltingHost (fun _ => {}) ∅ haltingNodes := by
  have remark : ∀ token store, Ready (fun _ => {}) store ∅ → ∃ found after,
      (Pending.body 3 "late" 2).drive haltingHost token store = .ok found after ∧
        Handed (fun _ => {}) store ∅ after ∅ :=
    fun token store ready => ⟨_,_,rfl,(Handed.refl ready).noted _⟩
  have behind : Waits haltingHost (fun _ => {}) ∅ [.sequence haltingItems] := .known (by simp) .nil
  exact .wait remark behind (by simp) (by simp)

theorem haltingNodes_line {given : Option Token} {start last : Store} {sources : List (Source Nat)}
    (contributes : Contributes haltingHost given haltingNodes start sources last) :
    sources = [.nodes [.text "late"],.feed haltingItems] := by
  cases contributes with
  | other noFeed known => exact absurd rfl (known _)
  | deferred issued taken driven more =>
    cases driven
    cases more with
    | other noFeed known => exact absurd rfl (noFeed _)
    | sequence more =>
      cases more with
      | nil issued => rfl

theorem haltingNodes_last {node : Node Nat} {built last : Store} {whole : Feed Nat}
    (composed : (Node.sequence calmItems).appendAll haltingNodes {supply := 4} = .ok node built)
    (unwraps : Unwraps haltingHost (some (.named "t")) node built (.sequence whole) last) :
    last = {supply := 9,journal := [.drive "late"]} := by
  cases composed
  cases unwraps with
  | drive driven more =>
    cases driven
    cases more with
    | known => rfl

theorem haltingItems_heeded :
    haltingHost.Forward ∧
    Called haltingHost [.feed calmItems,.feed haltingItems] [2] (some (.named "t")) {supply := 4}
      (.named "t") {supply := 4} ∧
    (∃ middle, (Node.sequence (.chain 2 calmItems haltingItems)).collect haltingHost
        (some (.named "t")) 4000 {supply := 4} = .error Fault.stopped middle ∧
      middle.journal.reverse.map Event.line =
        ["pull xs:0","pull xs:1","end xs","pull ys:0","pull ys:1"]) ∧
    (∃ node built whole last middle,
      (Node.sequence calmItems).appendAll haltingNodes {supply := 4} = .ok node built ∧
      Unwraps haltingHost (some (.named "t")) node built (.sequence whole) last ∧
      (Node.sequence whole).collect haltingHost (some (.named "t")) 4000 last =
        .error Fault.stopped middle ∧
      middle.journal.reverse.map Event.line =
        ["drive late","pull xs:0","pull xs:1","end xs","pull ys:0","pull ys:1"]) ∧
    ∃ wait built, [Wrapping.behind calmItems,.added (.attr (.fixed "a" "b")),
        .added (.child (.text "c"))].foldlM Node.wrap (.deferred (.body 3 "late" 2)) {supply := 4} =
          .ok (.deferred wait) built ∧
      (Node.deferred wait).drive haltingHost (some (.named "t")) (built.stopped (.named "t")) =
        .error Fault.stopped (built.stopped (.named "t")) := by
  obtain ⟨drain,compose,resolve⟩ := cancellation_heeded haltingHost_forward
  have laid : LaidOut [2] (.chain 2 calmItems haltingItems) [.feed calmItems,.feed haltingItems] :=
    .chain (.feed _) (.feed _) (by simp) (by simp)
  have called : Called haltingHost [.feed calmItems,.feed haltingItems] [2] (some (.named "t"))
      {supply := 4} (.named "t") {supply := 4} := by
    refine ⟨⟨by simp,?_⟩,rfl⟩
    simp only [List.mem_cons,Source.feed.injEq,List.not_mem_nil,or_false]
    rintro feed (rfl | rfl)
    · exact body_apart (haltingHost_apart [2]) (by simp) _ _
    · exact endless_apart (haltingHost_apart [2]) (by simp) _ _
  have handing : Source.HandsOver haltingHost [.feed calmItems,.feed haltingItems] {supply := 4}
      ([_,_,_] ++ [_]) _ _ :=
    .item rfl (.item rfl (.item rfl (.item rfl .nil)))
  obtain ⟨middle,stops,shifted⟩ := (drain laid).stopped called handing
    (.inl (by decide : 3 ≤ 4000)) rfl
    (by simp only [List.forall_mem_cons]; exact ⟨trivial,trivial,trivial,nofun⟩) rfl
  obtain ⟨node,built,whole,last,sources,made,composed,unwraps,contributes,fresh,heeds⟩ :=
    compose (some (.named "t")) calmItems (by simp [haltingNodes,Node.isNode]) haltingNodes_wait
      (⟨by simp,by simp,fun _ _ => ⟨rfl,rfl⟩,fun _ => rfl⟩ : Ready (fun _ => {}) {supply := 4} ∅)
  obtain rfl := haltingNodes_line contributes
  obtain rfl := haltingNodes_last composed unwraps
  have apart : ∀ feed, .feed feed ∈ [Source.feed calmItems,.nodes [.text "late"],.feed haltingItems] →
      Apart made (feed.pull haltingHost) := by
    have outside : ∀ id, id < 4 → id ∉ made :=
      fun id small inside => Nat.not_le_of_lt small (fresh id inside).1
    simp only [List.mem_cons,Source.feed.injEq,reduceCtorEq,List.not_mem_nil,or_false,false_or]
    rintro feed (rfl | rfl)
    · exact body_apart (haltingHost_apart made) (outside 0 (by decide)) _ _
    · exact endless_apart (haltingHost_apart made) (outside 1 (by decide)) _ _
  have handing' : Source.HandsOver haltingHost [.feed calmItems,.nodes [.text "late"],.feed haltingItems]
      {supply := 9,journal := [.drive "late"]} ([_,_,_,_] ++ [_]) _ _ :=
    .item rfl (.item rfl (.item rfl (.item rfl (.item rfl .nil))))
  have called' : Called haltingHost [.feed calmItems,.nodes [.text "late"],.feed haltingItems] made
      (some (.named "t")) {supply := 9,journal := [.drive "late"]} (.named "t")
        {supply := 9,journal := [.drive "late"]} :=
    ⟨⟨fun id inside => (fresh id inside).2.2,apart⟩,rfl⟩
  obtain ⟨middle',stops',shifted'⟩ := heeds.stopped called' handing' (.inl (by decide : 4 ≤ 4000)) rfl
    (by simp only [List.forall_mem_cons]; exact ⟨trivial,trivial,trivial,trivial,nofun⟩) rfl
  obtain ⟨wait,built',wrapped,drives⟩ := resolve [.behind calmItems,.added (.attr (.fixed "a" "b")),
    .added (.child (.text "c"))] (.body 3 "late" 2) {supply := 4} (by simp [Node.isNode])
  refine ⟨haltingHost_forward,called,⟨middle,stops,by rw [shifted.journal]; rfl⟩,
    ⟨node,built,whole,_,middle',composed,unwraps,stops',by rw [shifted'.journal]; rfl⟩,
    wait,built',wrapped,?_⟩
  exact (drives _ _ _ _ rfl).1 (by simp [Store.stopped])

end Markup
