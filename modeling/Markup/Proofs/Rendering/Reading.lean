import Markup.Proofs.Rendering.RenderEvents

namespace Markup.Rendering

variable {κ : Type} {host : Host κ} {stream next last : Stream κ}
  {store middle after : Store} {events : List (RenderEvent κ)} {trace : Trace κ} {verdict : Verdict}

theorem textsOf_append (one other : List (RenderEvent κ)) :
    textsOf (one ++ other) = textsOf one ++ textsOf other := List.filterMap_append

@[simp] theorem textsOf_nil : textsOf ([] : List (RenderEvent κ)) = [] := rfl

@[simp] theorem textsOf_chunk (text : String) (rest : List (RenderEvent κ)) :
    textsOf (.chunk text :: rest) = text :: textsOf rest := rfl

theorem nextEvents_texts (moves : Moves host stream store trace next after) :
    textsOf (nextEvents stream) = chunksOf trace := by
  cases moves with
  | leaf text => rw [nextEvents_leaf text]; rfl
  | resolved driven live done => rw [nextEvents_driven driven]; rfl
  | _ => rfl

theorem nextEvents_written (moves : Moves host stream store trace next after)
    (written : chunksOf trace = [text]) : nextEvents stream = [.chunk text] := by
  cases moves with
  | leaf shown =>
    rw [nextEvents_leaf shown]
    simpa using written
  | chunk | opening => simpa [nextEvents] using written
  | _ => exact absurd written.symm (List.cons_ne_nil _ _)

theorem silent_store (moves : Moves host stream store trace next after)
    (silent : nextEvents stream = []) : after = store := by
  cases moves with
  | resolved driven _ _ => simp [nextEvents_driven driven] at silent
  | deferred | item | ended => simp [nextEvents] at silent
  | _ => rfl

theorem runEvents_silent (ran : RunEvents host stream store events next after) (silent : events = []) :
    after = store := by
  induction ran with
  | refl => rfl
  | step moves more ih =>
    obtain ⟨here,later⟩ := List.append_eq_nil_iff.mp silent
    rw [ih later,silent_store moves here]

def EndsWithChunk (events : List (RenderEvent κ)) : Prop :=
  ∀ event, events.getLast? = some event → ∃ text, event = .chunk text

theorem EndsWithChunk.behind {front behind : List (RenderEvent κ)}
    (delivers : EndsWithChunk (front ++ behind)) :
    EndsWithChunk behind := by
  intro event ends
  refine delivers event ?_
  rw [List.getLast?_append,ends]
  rfl

theorem EndsWithChunk.append {front behind : List (RenderEvent κ)} (first : EndsWithChunk front)
    (second : EndsWithChunk behind) : EndsWithChunk (front ++ behind) := by
  intro event ends
  rw [List.getLast?_append] at ends
  rcases Option.or_eq_some_iff.mp ends with later | ⟨_,earlier⟩
  · exact second event later
  · exact first event earlier

theorem EndsWithChunk.silent (delivers : EndsWithChunk events) (silent : textsOf events = []) :
    events = [] := by
  rcases List.eq_nil_or_concat events with empty | ⟨front,event,rfl⟩
  · exact empty
  · obtain ⟨text,rfl⟩ := delivers event (by simp)
    simp [textsOf_append] at silent

theorem delivers_chunk (events : List (RenderEvent κ)) (text : String) :
    EndsWithChunk (events ++ [.chunk text]) := by
  intro event ends
  rw [List.getLast?_concat] at ends
  exact ⟨text,(Option.some.inj ends).symm⟩

theorem next_runEvents {fuel : Nat} {text : String} :
    ∀ {stream : Stream κ} {store : Store}, stream.next host fuel store = .ok (some (text,next)) after →
      ∃ events, RunEvents host stream store (events ++ [.chunk text]) next after ∧
        textsOf events = [] := by
  induction fuel with
  | zero =>
    intro stream store given
    cases given
  | succ fuel ih =>
    intro stream store given
    rcases advance host stream store with ⟨trace,between,middle,moves⟩ | ⟨trace,verdict,last,halts⟩
    · rcases moves_chunks moves with silent | ⟨chunk,written⟩
      · rw [next_quiet moves silent] at given
        obtain ⟨events,ran,quiet⟩ := ih given
        refine ⟨nextEvents stream ++ events,?_,?_⟩
        · rw [List.append_assoc]
          exact .step moves ran
        · rw [textsOf_append,nextEvents_texts moves,silent,quiet]
          rfl
      · rw [next_chunk moves written] at given
        cases given
        exact ⟨[],.one moves (nextEvents_written moves written),rfl⟩
    · rw [next_halts halts] at given
      cases verdict <;> cases given

theorem read_runEvents {fuel count : Nat} {found : List String} :
    ∀ {chunks : List String} {stream : Stream κ} {store : Store},
      stream.read host fuel count chunks store = .ok (found,.more next) after →
        ∃ events, RunEvents host stream store events next after ∧ EndsWithChunk events ∧
          found = chunks.reverse ++ textsOf events ∧ (textsOf events).length = count := by
  induction count with
  | zero =>
    intro chunks stream store run
    cases run
    exact ⟨[],.refl,nofun,by simp,rfl⟩
  | succ count ih =>
    intro chunks stream store run
    unfold Stream.read at run
    simp only [Action.bind_apply,Action.tryCatch_apply] at run
    cases answer : stream.next host fuel store with
    | error fault middle =>
      simp only [answer] at run
      cases run
    | ok given middle =>
      cases given with
      | none =>
        simp only [answer] at run
        cases run
      | some pair =>
        obtain ⟨text,between⟩ := pair
        simp only [answer,Action.pure_apply] at run
        obtain ⟨first,ran,quiet⟩ := next_runEvents answer
        obtain ⟨events,more,delivers,rfl,counted⟩ := ih run
        refine ⟨_,ran.trans more,?_,?_,?_⟩
        · exact (delivers_chunk first text).append delivers
        · simp [textsOf_append,quiet]
        · simp [textsOf_append,quiet,counted]

theorem runEvents_first (ran : RunEvents host stream store events last after) :
    textsOf events = [] ∨ ∃ text later bound next middle,
      textsOf events = text :: textsOf later ∧ (EndsWithChunk events → EndsWithChunk later) ∧
        RunEvents host next middle later last after ∧
          ∀ fuel, bound ≤ fuel → stream.next host fuel store = .ok (some (text,next)) middle := by
  induction ran with
  | refl => exact .inl rfl
  | @step stream store trace next middle rest last after moves more ih =>
    -- A step without a chunk belongs to the request that is going on, a step
    -- with one answers it.
    rcases moves_chunks moves with silent | ⟨chunk,written⟩
    · have quiet : textsOf (nextEvents stream ++ rest) = textsOf rest := by
        rw [textsOf_append,nextEvents_texts moves,silent,List.nil_append]
      rcases ih with none | ⟨text,later,bound,next,middle,same,delivers,ran,given⟩
      · exact .inl (quiet.trans none)
      · refine .inr ⟨text,later,bound + 1,next,middle,quiet.trans same,?_,ran,?_⟩
        · exact fun whole => delivers whole.behind
        · intro fuel enough
          obtain ⟨fuel,rfl⟩ := Nat.exists_eq_add_of_le' (Nat.le_trans (Nat.le_add_left 1 bound) enough)
          rw [next_quiet moves silent]
          exact given fuel (by omega)
    · refine .inr ⟨chunk,rest,1,next,middle,?_,EndsWithChunk.behind,more,?_⟩
      · rw [nextEvents_written moves written]
        rfl
      · intro fuel enough
        obtain ⟨fuel,rfl⟩ := Nat.exists_eq_add_of_le' enough
        exact next_chunk moves written fuel

theorem runEvents_read {count : Nat} :
    ∀ {stream : Stream κ} {store : Store} {events : List (RenderEvent κ)},
      RunEvents host stream store events last after → (textsOf events).length = count →
        ∃ bound next middle, (EndsWithChunk events → middle = after) ∧ ∀ fuel chunks, bound ≤ fuel →
          stream.read host fuel count chunks store =
            .ok (chunks.reverse ++ textsOf events,.more next) middle := by
  induction count with
  | zero =>
    intro stream store events ran counted
    have none := List.length_eq_zero_iff.mp counted
    refine ⟨0,stream,store,?_,?_⟩
    · exact fun delivers => (runEvents_silent ran (delivers.silent none)).symm
    · intro fuel chunks _
      rw [none,List.append_nil]
      rfl
  | succ count ih =>
    intro stream store events ran counted
    rcases runEvents_first ran with none | ⟨text,later,bound,between,middle,same,delivers,more,given⟩
    · rw [none] at counted
      cases counted
    · rw [same] at counted ⊢
      obtain ⟨bound',next,ending,ends,reached⟩ := ih more (Nat.succ.inj counted)
      refine ⟨max bound bound',next,ending,fun whole => ends (delivers whole),?_⟩
      intro fuel chunks enough
      unfold Stream.read
      simp only [Action.bind_apply,Action.tryCatch_apply,given fuel (by omega),Action.pure_apply]
      rw [reached fuel _ (by omega)]
      simp

theorem runEvents_runs (ran : RunEvents host stream store events next after) :
    ∃ trace, Runs host stream store trace next after ∧ chunksOf trace = textsOf events := by
  induction ran with
  | refl => exact ⟨[],.refl,rfl⟩
  | step moves more ih =>
    obtain ⟨trace,runs,same⟩ := ih
    exact ⟨_,.step moves runs,by rw [chunksOf_append,textsOf_append,nextEvents_texts moves,same]⟩

theorem session_runEvents (session : Session host .silent asked stream store trace verdict after) :
    ∃ events next middle last, RunEvents host stream store events next middle ∧
      Halts host next middle last verdict after ∧ textsOf events = chunksOf trace := by
  induction session with
  | quiet moves silent more ih =>
    obtain ⟨events,next,middle,last,ran,halts,same⟩ := ih
    refine ⟨_,next,middle,last,.step moves ran,halts,?_⟩
    rw [textsOf_append,chunksOf_append,nextEvents_texts moves,same]
  | chunk moves written more ih =>
    obtain ⟨events,next,middle,last,ran,halts,same⟩ := ih
    refine ⟨_,next,middle,last,.step moves ran,halts,?_⟩
    rw [textsOf_append,chunksOf_append,nextEvents_texts moves,same]
  | last halts => exact ⟨[],_,_,_,.refl,halts,(halts_chunks halts).symm⟩

theorem runEvents_ends (ran : RunEvents host stream store events next middle)
    (halts : Halts host next middle trace verdict after) :
    ∃ bound, ∀ fuel count, bound ≤ fuel → bound ≤ count →
      stream.read host fuel count [] store =
        .ok (textsOf events,verdict.ending) (verdict.left after) := by
  obtain ⟨whole,runs,same⟩ := runEvents_runs ran
  obtain ⟨bound,reached⟩ := session_read (runs.session (fun _ => .last halts) 0)
  refine ⟨bound,fun fuel count enough many => ?_⟩
  rw [reached fuel count [] enough many,chunksOf_append,halts_chunks halts,same]
  simp

theorem read_ends {fuel count : Nat} {texts : List String} {ending : Stream.Ending κ} {left : Store}
    (run : stream.read host fuel count [] store = .ok (texts,ending) left)
    (ended : ∀ rest, ending ≠ .more rest) (deep : ending ≠ .failed .tooDeep) :
    ∃ events next middle trace verdict after, RunEvents host stream store events next middle ∧
      Halts host next middle trace verdict after ∧ textsOf events = texts ∧
        verdict.ending = ending ∧ verdict.left after = left := by
  rw [←listen_silent host fuel count 0] at run
  obtain ⟨trace,verdict,after,session,rfl,ends,same⟩ := listen_session ended deep run
  obtain ⟨events,next,middle,last,ran,halts,written⟩ := session_runEvents session
  exact ⟨events,next,middle,last,verdict,after,ran,halts,written,ends,same⟩

end Markup.Rendering
