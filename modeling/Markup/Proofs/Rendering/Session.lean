import Markup.Proofs.Rendering.Moves

namespace Markup.Rendering

variable {κ : Type}

-- A consumer that may cancel the token of the run whenever it is about to ask
-- for a chunk. The number tells how many chunks it has got so far.
abbrev Consumer := Nat → Bool

def Consumer.silent : Consumer := fun _ => false

def Consumer.turn (consumer : Consumer) (asked : Nat) (token : Token) (store : Store) : Store :=
  if consumer asked then store.stopped token else store

def listen (host : Host κ) (consumer : Consumer) (fuel : Nat) :
    Nat → Nat → List String → Stream κ → Action (List String × Stream.Ending κ)
  | 0, _, chunks, stream => return (chunks.reverse,.more stream)
  | count + 1, asked, chunks, stream => do
    if consumer asked then Action.cancel stream.token
    let found : Except Fault (Option (String × Stream κ)) ←
      tryCatch (do return .ok (← stream.next host fuel)) fun fault => return .error fault
    match found with
    | .error fault => return (chunks.reverse,.failed fault)
    | .ok none => return (chunks.reverse,.finished)
    | .ok (some (chunk,rest)) => listen host consumer fuel count (asked + 1) (chunk :: chunks) rest

-- A whole run from the moment the consumer has asked for its next chunk: steps
-- without a chunk, a chunk and the turn of the consumer after it, and the end.
inductive Session (host : Host κ) (consumer : Consumer) :
    Nat → Stream κ → Store → Trace κ → Verdict → Store → Prop where
  | quiet (moves : Moves host stream store trace next middle) (silent : chunksOf trace = [])
      (more : Session host consumer asked next middle rest verdict after) :
      Session host consumer asked stream store (trace ++ rest) verdict after
  | chunk (moves : Moves host stream store trace next middle) (written : chunksOf trace = [text])
      (more : Session host consumer (asked + 1) next
        (consumer.turn (asked + 1) next.token middle) rest verdict after) :
      Session host consumer asked stream store (trace ++ rest) verdict after
  | last (halts : Halts host stream store trace verdict after) :
      Session host consumer asked stream store trace verdict after

inductive Seen (host : Host κ) : Stream κ → Store → Trace κ → Prop where
  | none : Seen host stream store []
  | step (moves : Moves host stream store trace next middle) (more : Seen host next middle rest) :
      Seen host stream store (trace ++ rest)
  | last (halts : Halts host stream store trace verdict after) : Seen host stream store trace

-- The token becomes cancelled at some moment of the run: before a step, or while an
-- item is come by.
inductive Cancels (host : Host κ) (consumer : Consumer) : Nat → Stream κ → Store → Prop where
  | now (cancelled : store.cancelled stream.token = true) : Cancels host consumer asked stream store
  | item (given : feed.pull host store = .ok (some node) after)
      (cancelled : after.cancelled token = true) :
      Cancels host consumer asked ⟨token,options,.pull feed :: rest⟩ store
  | quiet (moves : Moves host stream store trace next middle) (silent : chunksOf trace = [])
      (more : Cancels host consumer asked next middle) : Cancels host consumer asked stream store
  | chunk (moves : Moves host stream store trace next middle) (written : chunksOf trace = [text])
      (more : Cancels host consumer (asked + 1) next
        (consumer.turn (asked + 1) next.token middle)) : Cancels host consumer asked stream store

variable {host : Host κ} {stream next : Stream κ} {store after : Store} {trace : Trace κ}
  {verdict : Verdict} {consumer : Consumer}

theorem chunksOf_append (one other : Trace κ) :
    chunksOf (one ++ other) = chunksOf one ++ chunksOf other := List.filterMap_append

@[simp] theorem chunksOf_nil : chunksOf ([] : Trace κ) = [] := rfl

@[simp] theorem chunksOf_wrote (flag : Bool) (chunk : String) (rest : Trace κ) :
    chunksOf ((flag,.wrote chunk) :: rest) = chunk :: chunksOf rest := rfl

theorem moves_unique (one : Moves host stream store trace next after)
    (other : Moves host stream store trace' next' after') :
    trace = trace' ∧ next = next' ∧ after = after' := by
  have same := (step_moves one).symm.trans (step_moves other)
  cases one with
  | leaf text => cases other <;> simp_all [leafText,stepOf,chunksOf,chunkOf]
  | resolved driven live done => cases other <;> simp_all [isDriven]
  | item given live => cases other <;> simp_all
  | ended given => cases other <;> simp_all
  | deferred live done => cases other <;> simp_all [leafText]
  | fixed => cases other <;> simp_all [isDriven]
  | chunk => cases other; simp
  | opening => cases other; simp
  | element | fragment | sequence => cases other <;> simp_all [leafText]

theorem moves_not_halts (one : Moves host stream store trace next after)
    (other : Halts host stream store trace' verdict after') : False := by
  have same := (step_moves one).symm.trans (step_halts other)
  cases other with
  | finished => cases one
  | _ => simp [Verdict.outcome] at same

theorem halts_unique (one : Halts host stream store trace verdict after)
    (other : Halts host stream store trace' verdict' after') :
    trace = trace' ∧ verdict = verdict' ∧ after = after' := by
  cases one <;> cases other <;> simp_all

theorem session_unique (session : Session host consumer asked stream store trace verdict after) :
    ∀ {trace' verdict' after'}, Session host consumer asked stream store trace' verdict' after' →
      trace = trace' ∧ verdict = verdict' ∧ after = after' := by
  induction session with
  | quiet moves silent more ih =>
    intro trace' verdict' after' other
    cases other with
    | quiet moves' silent' more' =>
      obtain ⟨rfl,rfl,rfl⟩ := moves_unique moves moves'
      obtain ⟨rfl,rfl,rfl⟩ := ih more'
      exact ⟨rfl,rfl,rfl⟩
    | chunk moves' written =>
      obtain ⟨rfl,rfl,rfl⟩ := moves_unique moves moves'
      rw [silent] at written
      cases written
    | last halts => exact (moves_not_halts moves halts).elim
  | chunk moves written more ih =>
    intro trace' verdict' after' other
    cases other with
    | quiet moves' silent =>
      obtain ⟨rfl,rfl,rfl⟩ := moves_unique moves moves'
      rw [written] at silent
      cases silent
    | chunk moves' written' more' =>
      obtain ⟨rfl,rfl,rfl⟩ := moves_unique moves moves'
      obtain ⟨rfl,rfl,rfl⟩ := ih more'
      exact ⟨rfl,rfl,rfl⟩
    | last halts => exact (moves_not_halts moves halts).elim
  | last halts =>
    intro trace' verdict' after' other
    cases other with
    | quiet moves | chunk moves => exact (moves_not_halts moves halts).elim
    | last halts' => exact halts_unique halts halts'

theorem seen_before (seen : Seen host stream store part) :
    ∀ {asked whole verdict after},
      Session host .silent asked stream store whole verdict after → part <+: whole := by
  induction seen with
  | none => exact fun _ => List.nil_prefix
  | step moves more ih =>
    intro asked whole verdict after session
    cases session with
    | quiet moves' silent others =>
      obtain ⟨rfl,rfl,rfl⟩ := moves_unique moves moves'
      exact List.prefix_append_right_inj _ |>.mpr (ih others)
    | chunk moves' written others =>
      obtain ⟨rfl,rfl,rfl⟩ := moves_unique moves moves'
      exact List.prefix_append_right_inj _ |>.mpr (ih others)
    | last halts => exact (moves_not_halts moves halts).elim
  | last halts =>
    intro asked whole verdict after session
    cases session with
    | quiet moves | chunk moves => exact (moves_not_halts moves halts).elim
    | last halts' =>
      obtain ⟨rfl,rfl,rfl⟩ := halts_unique halts halts'
      exact List.prefix_rfl

theorem session_seen (session : Session host .silent asked stream store trace verdict after) :
    Seen host stream store trace := by
  induction session with
  | quiet moves _ _ ih | chunk moves _ _ ih => exact .step moves ih
  | last halts => exact .last halts

theorem moves_chunks (moves : Moves host stream store trace next after) :
    chunksOf trace = [] ∨ ∃ text, chunksOf trace = [text] := by
  cases moves with
  | chunk | leaf | opening => exact .inr ⟨_,rfl⟩
  | _ => exact .inl rfl

theorem halts_chunks (halts : Halts host stream store trace verdict after) :
    chunksOf trace = [] := by
  cases halts <;> rfl

theorem moves_token (moves : Moves host stream store trace next after) :
    next.token = stream.token := by
  cases moves <;> rfl

theorem listen_silent (host : Host κ) (fuel count asked : Nat) (chunks : List String)
    (stream : Stream κ) :
    listen host .silent fuel count asked chunks stream = stream.read host fuel count chunks := by
  induction count generalizing asked chunks stream with
  | zero => rfl
  | succ count ih =>
    unfold listen Stream.read
    simp only [Consumer.silent,Bool.false_eq_true,if_false]
    congr 1
    funext found
    cases found with
    | error fault => rfl
    | ok given =>
      cases given with
      | none => rfl
      | some pair => exact ih _ _ _

def Verdict.ending {κ : Type} : Verdict → Stream.Ending κ
  | .finished => .finished
  | .stopped => .failed Fault.stopped
  | .broke fault => .failed fault

def Verdict.left (store : Store) : Verdict → Store
  | .finished => store
  | .stopped => store.noted .cancelled
  | .broke fault => if Stream.Fault.isCancellation fault then store.noted .cancelled else store

theorem next_quiet (moves : Moves host stream store trace next after)
    (silent : chunksOf trace = []) (fuel : Nat) :
    stream.next host (fuel + 1) store = next.next host fuel after := by
  simp only [Stream.next,Action.bind_apply,Action.tryCatch_apply,step_moves moves,stepOf,silent]

theorem next_chunk (moves : Moves host stream store trace next after)
    (written : chunksOf trace = [text]) (fuel : Nat) :
    stream.next host (fuel + 1) store = .ok (some (text,next)) after := by
  simp only [Stream.next,Action.bind_apply,Action.tryCatch_apply,step_moves moves,stepOf,written,
    Action.pure_apply]

def Verdict.answer (store : Store) : Verdict → EStateM.Result Fault Store (Option (String × Stream κ))
  | .finished => .ok none store
  | .stopped => .error Fault.stopped (store.noted .cancelled)
  | .broke fault => .error fault ((Verdict.broke fault).left store)

theorem next_halts (halts : Halts host stream store trace verdict after) (fuel : Nat) :
    stream.next host (fuel + 1) store = verdict.answer after := by
  simp only [Stream.next,Action.bind_apply,Action.tryCatch_apply,step_halts halts]
  cases verdict with
  | finished => rfl
  | stopped => rfl
  | broke fault =>
    simp only [Verdict.outcome,Verdict.answer,Verdict.left]
    cases Stream.Fault.isCancellation fault <;> rfl

def answerOf (host : Host κ) (consumer : Consumer) (first fuel count asked : Nat)
    (chunks : List String) (stream : Stream κ) : Action (List String × Stream.Ending κ) := do
  let found : Except Fault (Option (String × Stream κ)) ←
    tryCatch (do return .ok (← stream.next host first)) fun fault => return .error fault
  match found with
  | .error fault => return (chunks.reverse,.failed fault)
  | .ok none => return (chunks.reverse,.finished)
  | .ok (some (chunk,rest)) => listen host consumer fuel count (asked + 1) (chunk :: chunks) rest

theorem listen_succ (host : Host κ) (consumer : Consumer) (fuel count asked : Nat)
    (chunks : List String) (stream : Stream κ) (store : Store) :
    listen host consumer fuel (count + 1) asked chunks stream store =
      answerOf host consumer fuel fuel count asked chunks stream
        (consumer.turn asked stream.token store) := by
  unfold listen Consumer.turn
  split <;> rfl

theorem silent_turn (asked : Nat) (token : Token) (store : Store) :
    Consumer.silent.turn asked token store = store := rfl

theorem answer_quiet (moves : Moves host stream store trace next after)
    (silent : chunksOf trace = []) (first fuel count asked : Nat) (chunks : List String) :
    answerOf host consumer (first + 1) fuel count asked chunks stream store =
      answerOf host consumer first fuel count asked chunks next after := by
  simp only [answerOf,Action.bind_apply,Action.tryCatch_apply,next_quiet moves silent]

theorem answer_chunk (moves : Moves host stream store trace next after)
    (written : chunksOf trace = [text]) (first fuel count asked : Nat) (chunks : List String) :
    answerOf host consumer (first + 1) fuel (count + 1) asked chunks stream store =
      answerOf host consumer fuel fuel count (asked + 1) (text :: chunks) next
        (consumer.turn (asked + 1) next.token after) := by
  rw [answerOf]
  simp only [Action.bind_apply,Action.tryCatch_apply,next_chunk moves written,Action.pure_apply]
  exact listen_succ ..

-- A run that comes to its end is what a consumer with enough steps and chunks
-- to ask for gets to see.
theorem session_answer (session : Session host consumer asked stream store trace verdict after) :
    ∃ bound, ∀ first fuel count chunks, bound ≤ first → bound ≤ fuel → bound ≤ count →
      answerOf host consumer first fuel count asked chunks stream store =
        .ok (chunks.reverse ++ chunksOf trace,verdict.ending) (verdict.left after) := by
  induction session with
  | quiet moves silent more ih =>
    obtain ⟨bound,reached⟩ := ih
    refine ⟨bound + 1,?_⟩
    intro first fuel count chunks enough enoughFuel enoughCount
    obtain ⟨first,rfl⟩ := Nat.exists_eq_add_of_le' (Nat.le_trans (Nat.le_add_left 1 bound) enough)
    rw [answer_quiet moves silent,chunksOf_append,silent,List.nil_append]
    exact reached first fuel count chunks (by omega) (by omega) (by omega)
  | @chunk stream store trace next middle text asked rest verdict after moves written more ih =>
    obtain ⟨bound,reached⟩ := ih
    refine ⟨bound + 1,?_⟩
    intro first fuel count chunks enough enoughFuel enoughCount
    obtain ⟨first,rfl⟩ := Nat.exists_eq_add_of_le' (Nat.le_trans (Nat.le_add_left 1 bound) enough)
    obtain ⟨count,rfl⟩ := Nat.exists_eq_add_of_le' (Nat.le_trans (Nat.le_add_left 1 bound) enoughCount)
    have later := reached fuel fuel count (text :: chunks) (by omega) (by omega) (by omega)
    rw [answer_chunk moves written,later,chunksOf_append,written]
    simp
  | last halts =>
    refine ⟨1,?_⟩
    intro first fuel count chunks enough _ _
    obtain ⟨first,rfl⟩ := Nat.exists_eq_add_of_le' enough
    unfold answerOf
    simp only [Action.bind_apply,Action.tryCatch_apply,next_halts halts,halts_chunks halts,
      List.append_nil]
    cases halts <;> rfl

theorem session_listen
    (session : Session host consumer asked stream (consumer.turn asked stream.token store) trace
      verdict after) :
    ∃ bound, ∀ fuel count chunks, bound ≤ fuel → bound ≤ count →
      listen host consumer fuel count asked chunks stream store =
        .ok (chunks.reverse ++ chunksOf trace,verdict.ending) (verdict.left after) := by
  obtain ⟨bound,reached⟩ := session_answer session
  refine ⟨bound + 1,?_⟩
  intro fuel count chunks enough enoughCount
  obtain ⟨count,rfl⟩ := Nat.exists_eq_add_of_le' (Nat.le_trans (Nat.le_add_left 1 bound) enoughCount)
  rw [listen_succ]
  exact reached fuel fuel count chunks (by omega) (by omega) (by omega)

theorem session_read (session : Session host .silent asked stream store trace verdict after) :
    ∃ bound, ∀ fuel count chunks, bound ≤ fuel → bound ≤ count →
      stream.read host fuel count chunks store =
        .ok (chunks.reverse ++ chunksOf trace,verdict.ending) (verdict.left after) := by
  have unturned : Session host .silent asked stream
      (Consumer.silent.turn asked stream.token store) trace verdict after := session
  obtain ⟨bound,reached⟩ := session_listen unturned
  exact ⟨bound,fun fuel count chunks enough enoughCount => by
    rw [←listen_silent host fuel count asked]
    exact reached fuel count chunks enough enoughCount⟩

theorem listen_more (host : Host κ) (consumer : Consumer) (fuel count : Nat) :
    ∀ (asked : Nat) (chunks : List String) (stream : Stream κ) (store : Store),
      ∃ more ending last, listen host consumer fuel count asked chunks stream store =
        .ok (chunks.reverse ++ more,ending) last := by
  induction count with
  | zero => exact fun _ chunks _ _ => ⟨[],_,_,by rw [List.append_nil]; rfl⟩
  | succ count ih =>
    intro asked chunks stream store
    rw [listen_succ,answerOf]
    simp only [Action.bind_apply,Action.tryCatch_apply]
    cases stream.next host fuel (consumer.turn asked stream.token store) with
    | error fault last => exact ⟨[],_,_,by rw [List.append_nil]; rfl⟩
    | ok found middle =>
      cases found with
      | none => exact ⟨[],_,_,by rw [List.append_nil]; rfl⟩
      | some pair =>
        obtain ⟨more,ending,last,listens⟩ := ih (asked + 1) (pair.1 :: chunks) pair.2 middle
        refine ⟨pair.1 :: more,ending,last,?_⟩
        simpa using listens

theorem answer_more (host : Host κ) (consumer : Consumer) (first fuel count asked : Nat)
    (chunks : List String) (stream : Stream κ) (store : Store) :
    ∃ more ending last, answerOf host consumer first fuel count asked chunks stream store =
      .ok (chunks.reverse ++ more,ending) last := by
  rw [answerOf]
  simp only [Action.bind_apply,Action.tryCatch_apply]
  cases stream.next host first store with
  | error fault last => exact ⟨[],_,_,by rw [List.append_nil]; rfl⟩
  | ok found middle =>
    cases found with
    | none => exact ⟨[],_,_,by rw [List.append_nil]; rfl⟩
    | some pair =>
      obtain ⟨more,ending,last,listens⟩ :=
        listen_more host consumer fuel count (asked + 1) (pair.1 :: chunks) pair.2 middle
      refine ⟨pair.1 :: more,ending,last,?_⟩
      simpa using listens

theorem seen_answer (seen : Seen host stream store trace) :
    ∃ bound, ∀ first fuel count asked chunks, bound ≤ first → bound ≤ fuel → bound ≤ count →
      ∃ more ending last, answerOf host .silent first fuel count asked chunks stream store =
        .ok (chunks.reverse ++ more,ending) last ∧ chunksOf trace <+: more := by
  induction seen with
  | none =>
    refine ⟨0,fun first fuel count asked chunks _ _ _ => ?_⟩
    obtain ⟨more,ending,last,answer⟩ := answer_more host .silent first fuel count asked chunks _ _
    exact ⟨more,ending,last,answer,List.nil_prefix⟩
  | last halts =>
    refine ⟨0,fun first fuel count asked chunks _ _ _ => ?_⟩
    obtain ⟨more,ending,last,answer⟩ := answer_more host .silent first fuel count asked chunks _ _
    exact ⟨more,ending,last,answer,by rw [halts_chunks halts]; exact List.nil_prefix⟩
  | step moves more ih =>
    obtain ⟨bound,reached⟩ := ih
    refine ⟨bound + 1,?_⟩
    intro first fuel count asked chunks enough enoughFuel enoughCount
    obtain ⟨first,rfl⟩ := Nat.exists_eq_add_of_le' (Nat.le_trans (Nat.le_add_left 1 bound) enough)
    rcases moves_chunks moves with silent | ⟨text,written⟩
    · rw [answer_quiet moves silent,chunksOf_append,silent,List.nil_append]
      exact reached first fuel count asked chunks (by omega) (by omega) (by omega)
    · obtain ⟨count,rfl⟩ :=
        Nat.exists_eq_add_of_le' (Nat.le_trans (Nat.le_add_left 1 bound) enoughCount)
      obtain ⟨more,ending,last,answer,sofar⟩ :=
        reached fuel fuel count (asked + 1) (text :: chunks) (by omega) (by omega) (by omega)
      refine ⟨text :: more,ending,last,?_,?_⟩
      · rw [answer_chunk moves written,silent_turn,answer]
        simp
      · rw [chunksOf_append,written]
        exact List.cons_prefix_cons.mpr ⟨rfl,sofar⟩

theorem seen_read (seen : Seen host stream store trace) :
    ∃ bound, ∀ fuel count, bound ≤ fuel → bound ≤ count →
      ∃ chunks ending last, stream.read host fuel count [] store = .ok (chunks,ending) last ∧
        chunksOf trace <+: chunks := by
  obtain ⟨bound,reached⟩ := seen_answer seen
  refine ⟨bound + 1,?_⟩
  intro fuel count enough enoughCount
  obtain ⟨count,rfl⟩ := Nat.exists_eq_add_of_le' (Nat.le_trans (Nat.le_add_left 1 bound) enoughCount)
  obtain ⟨more,ending,last,answer,sofar⟩ :=
    reached fuel fuel count 0 [] (by omega) (by omega) (by omega)
  refine ⟨more,ending,last,?_,sofar⟩
  rw [←listen_silent host fuel (count + 1) 0,listen_succ,silent_turn]
  exact answer

-- What a consumer gets to see is always such a run, unless the steps did not
-- suffice.

def NextMatches (host : Host κ) (consumer : Consumer) (asked : Nat) (stream : Stream κ)
    (store : Store) :
    EStateM.Result Fault Store (Option (String × Stream κ)) → Prop
  | .ok none after => ∃ trace,
      Session host consumer asked stream store trace .finished after ∧ chunksOf trace = []
  | .ok (some (text,next)) after => ∀ rest verdict last,
      Session host consumer (asked + 1) next (consumer.turn (asked + 1) next.token after) rest verdict
        last → ∃ trace, Session host consumer asked stream store trace verdict last ∧
          chunksOf trace = text :: chunksOf rest
  | .error fault after => fault = .tooDeep ∨ ∃ trace verdict last,
      Session host consumer asked stream store trace verdict last ∧ chunksOf trace = [] ∧
        verdict.ending = (.failed fault : Stream.Ending κ) ∧ verdict.left last = after

theorem matches_quiet (moves : Moves host stream store trace next middle)
    (silent : chunksOf trace = [])
    {result : EStateM.Result Fault Store (Option (String × Stream κ))}
    (matched : NextMatches host consumer asked next middle result) :
    NextMatches host consumer asked stream store result := by
  cases result with
  | ok found after =>
    cases found with
    | none =>
      obtain ⟨rest,session,quiet⟩ := matched
      exact ⟨_,.quiet moves silent session,by rw [chunksOf_append,silent,quiet]; rfl⟩
    | some pair =>
      intro rest verdict last session
      obtain ⟨trace',whole,chunks⟩ := matched rest verdict last session
      exact ⟨_,.quiet moves silent whole,by rw [chunksOf_append,silent,chunks]; rfl⟩
  | error fault after =>
    refine matched.imp_right fun ⟨rest,verdict,last,session,quiet,ending,left⟩ => ?_
    exact ⟨_,verdict,last,.quiet moves silent session,by rw [chunksOf_append,silent,quiet]; rfl,
      ending,left⟩

theorem next_matches (host : Host κ) (consumer : Consumer) (asked fuel : Nat) :
    ∀ (stream : Stream κ) (store : Store),
      NextMatches host consumer asked stream store (stream.next host fuel store) := by
  induction fuel with
  | zero => exact fun stream store => .inl rfl
  | succ fuel ih =>
    intro stream store
    rcases advance host stream store with ⟨trace,next,middle,moves⟩ | ⟨trace,verdict,after,halts⟩
    · rcases moves_chunks moves with silent | ⟨text,written⟩
      · rw [next_quiet moves silent]
        exact matches_quiet moves silent (ih next middle)
      · rw [next_chunk moves written]
        intro rest verdict last session
        exact ⟨_,.chunk moves written session,by rw [chunksOf_append,written]; rfl⟩
    · rw [next_halts halts]
      cases verdict with
      | finished => exact ⟨_,.last halts,halts_chunks halts⟩
      | stopped => exact .inr ⟨_,_,_,.last halts,halts_chunks halts,rfl,rfl⟩
      | broke fault => exact .inr ⟨_,_,_,.last halts,halts_chunks halts,rfl,rfl⟩

theorem listen_session {fuel count : Nat} {found : List String} {ending : Stream.Ending κ}
    {last : Store} (ended : ∀ rest, ending ≠ .more rest) (deep : ending ≠ .failed .tooDeep) :
    ∀ {asked : Nat} {chunks : List String} {stream : Stream κ} {store : Store},
      listen host consumer fuel count asked chunks stream store = .ok (found,ending) last →
        ∃ trace verdict after,
          Session host consumer asked stream (consumer.turn asked stream.token store) trace verdict
            after ∧ found = chunks.reverse ++ chunksOf trace ∧ verdict.ending = ending ∧
              verdict.left after = last := by
  induction count with
  | zero =>
    intro asked chunks stream store run
    simp only [listen,Action.pure_apply,EStateM.Result.ok.injEq,Prod.mk.injEq] at run
    exact (ended _ run.1.2.symm).elim
  | succ count ih =>
    intro asked chunks stream store run
    rw [listen_succ,answerOf] at run
    have matched := next_matches host consumer asked fuel stream
      (consumer.turn asked stream.token store)
    simp only [Action.bind_apply,Action.tryCatch_apply] at run
    cases answer : stream.next host fuel (consumer.turn asked stream.token store) with
    | error fault after =>
      simp only [answer,Action.pure_apply,EStateM.Result.ok.injEq,Prod.mk.injEq] at run
      obtain ⟨⟨rfl,rfl⟩,rfl⟩ := run
      rw [answer] at matched
      rcases matched with rfl | ⟨trace,verdict,last,session,quiet,ends,left⟩
      · exact (deep rfl).elim
      · exact ⟨trace,verdict,last,session,by rw [quiet,List.append_nil],ends,left⟩
    | ok given after =>
      rw [answer] at matched
      cases given with
      | none =>
        simp only [answer,Action.pure_apply,EStateM.Result.ok.injEq,Prod.mk.injEq] at run
        obtain ⟨⟨rfl,rfl⟩,rfl⟩ := run
        obtain ⟨trace,session,quiet⟩ := matched
        exact ⟨trace,.finished,_,session,by rw [quiet,List.append_nil],rfl,rfl⟩
      | some pair =>
        obtain ⟨text,next⟩ := pair
        simp only [answer,Action.pure_apply] at run
        obtain ⟨rest,verdict,finally_,session,chunks',ends,left⟩ := ih run
        obtain ⟨trace,whole,written⟩ := matched rest verdict finally_ session
        refine ⟨trace,verdict,finally_,whole,?_,ends,left⟩
        rw [chunks',written]
        simp

end Markup.Rendering
