import Markup.Proofs.Selector.Grammar

namespace Markup.Selector

-- A reader looks one character ahead and no further. What is left behind a
-- token may be cut off, or replaced by a text that begins alike, and the token
-- is read as before.
def SameStart (s whole : List Char) : Prop := ∀ c rest, s = c :: rest → ∃ other, whole = c :: other

theorem SameStart.nil (whole : List Char) : SameStart [] whole := by
  intro c rest found
  cases found

theorem SameStart.cons (c : Char) (s whole : List Char) : SameStart (c :: s) (c :: whole) := by
  intro d rest found
  cases found
  exact ⟨whole,rfl⟩

theorem SameStart.behind (front : List Char) (fits : SameStart s whole) :
    SameStart (front ++ s) (front ++ whole) := by
  cases front with
  | nil => exact fits
  | cons c more => exact .cons c _ _

theorem Stops.fits (stops : Stops p whole) (fits : SameStart s whole) : Stops p s := by
  intro c rest found
  obtain ⟨other,same⟩ := fits c rest found
  exact stops c other same

theorem dropWhile_stops (p : Char → Bool) (s : List Char) : Stops p (s.dropWhile p) := by
  intro c rest found
  have stop := List.head_dropWhile_not p (l := s) (by simp [found])
  simpa [found] using stop

theorem run_kept {p : Char → Bool} {s : List Char} (fits : SameStart rest (s.dropWhile p)) :
    (s.takeWhile p ++ rest).takeWhile p = s.takeWhile p ∧
      (s.takeWhile p ++ rest).dropWhile p = rest := by
  have run : ∀ c ∈ s.takeWhile p, p c = true := fun c inside => List.mem_takeWhile_imp inside
  have stops : Stops p rest := (dropWhile_stops p s).fits fits
  exact ⟨takeWhile_run run stops,dropWhile_run run stops⟩

theorem blank_kept (s : List Char) : ∃ gap, s = gap ++ Text.dropBlank s ∧
    ∀ rest, SameStart rest (Text.dropBlank s) → Text.dropBlank (gap ++ rest) = rest :=
  ⟨s.takeWhile Text.isBlank,(List.takeWhile_append_dropWhile).symm,
    fun _ fits => (run_kept fits).2⟩

theorem part_kept (read : readPart c s = .ok (part,left)) : ∃ text, s = text ++ left ∧
    ∀ rest, SameStart rest left → readPart c (text ++ rest) = .ok (part,rest) := by
  unfold readPart at read
  split at read
  · rename_i hash
    simp only [Except.ok.injEq,Prod.mk.injEq] at read
    obtain ⟨rfl,rfl⟩ := read
    refine ⟨s.takeWhile inId,(List.takeWhile_append_dropWhile).symm,fun rest fits => ?_⟩
    rw [readPart,if_pos hash,(run_kept fits).1,(run_kept fits).2]
  · rename_i noHash
    split at read
    · rename_i dot
      simp only [Except.ok.injEq,Prod.mk.injEq] at read
      obtain ⟨rfl,rfl⟩ := read
      refine ⟨s.takeWhile inClass,(List.takeWhile_append_dropWhile).symm,fun rest fits => ?_⟩
      rw [readPart,if_neg noHash,if_pos dot,(run_kept fits).1,(run_kept fits).2]
    · split at read
      · rename_i bracket
        subst bracket
        obtain ⟨text,start,written⟩ := bracket_written read
        cases written with
        | id | cls => simp at start
        | @pair name value some named valued =>
          refine ⟨name ++ '=' :: (value ++ [']']),by simpa using start,fun rest _ => ?_⟩
          have closed : readPart '[' (name ++ '=' :: (value ++ ']' :: rest)) = .ok (_,rest) :=
            pair_read some named valued
          simpa using closed
      · cases read

theorem tag_kept {tag : String} (read : tagName s = .ok (tag,left)) : ∃ text, s = text ++ left ∧
    ∀ rest, SameStart rest left → tagName (text ++ rest) = .ok (tag,rest) := by
  obtain ⟨before,start,begins⟩ := blank_kept s
  unfold tagName at read
  cases front : Text.dropBlank s with
  | nil => simp [front] at read
  | cons c others =>
    simp only [front] at read start begins
    split at read
    · rename_i letter
      simp only [Except.ok.injEq,Prod.mk.injEq] at read
      obtain ⟨rfl,rfl⟩ := read
      have first : (c :: others).takeWhile inTag = c :: others.takeWhile inTag :=
        List.takeWhile_cons_of_pos (inTag_iff.mpr (.inl letter))
      obtain ⟨gap,behind,ends⟩ := blank_kept ((c :: others).dropWhile inTag)
      refine ⟨before ++ ((c :: others).takeWhile inTag ++ gap),?_,fun rest fits => ?_⟩
      · rw [List.append_assoc,List.append_assoc,←behind,List.takeWhile_append_dropWhile]
        exact start
      · have fits' : SameStart (gap ++ rest) ((c :: others).dropWhile inTag) := by
          have later := fits.behind gap
          rwa [←behind] at later
        obtain ⟨name,after⟩ := run_kept fits'
        rw [tagName,List.append_assoc,List.append_assoc,
          begins _ (by rw [first]; exact .cons c _ _)]
        rw [first,List.cons_append] at name after ⊢
        simp only [letter,if_true,name,after,ends rest fits]
    · cases read

-- How a reader gets stuck: what it has taken can be brought to an end, but not
-- by anything that goes on with the character it stopped at.
structure Stuck (reader : List Char → Except Refusal α) (taken : List Char) (refusal : Refusal) :
    Prop where
  viable : ∃ more value, reader (taken ++ more) = .ok value
  decided : ∀ c rest, refusal.rest = c :: rest → ∀ other,
    reader (taken ++ c :: other) = .error ⟨refusal.detail,c :: other⟩

theorem Stuck.behind {reader : List Char → Except Refusal α} {change : List Part → α}
    (step : ∀ rest, SameStart rest (taken ++ refusal.rest) →
      reader (front ++ rest) = (partsFrom rest).map change)
    (stuck : Stuck partsFrom taken refusal) : Stuck reader (front ++ taken) refusal := by
  refine ⟨?_,?_⟩
  · cases taken with
    | nil => exact ⟨[],change [],by simpa [partsFrom,Except.map] using step [] (.nil _)⟩
    | cons c more =>
      obtain ⟨last,parts,read⟩ := stuck.viable
      refine ⟨last,change parts,?_⟩
      rw [List.append_assoc,step (c :: more ++ last) (.cons c _ _),read]
      rfl
  · intro c rest found other
    rw [List.append_assoc,step _ (by rw [found]; exact .behind taken (.cons c _ _)),
      stuck.decided c rest found other]
    rfl

theorem bracket_closes {name value : List Char} (some : name ≠ [])
    (named : ∀ c ∈ name, inName c = true) (valued : ∀ c ∈ value, inValue c = true) :
    ∃ part, bracketPart (name ++ '=' :: (value ++ [']'])) = .ok (part,[]) := by
  have free : ']' ∉ value := fun inside => by simpa [inValue] using valued _ inside
  have read : readPart '[' (name ++ '=' :: (value ++ [']'])) = .ok (_,[]) :=
    pair_read some (fun c inside => inName_iff.mp (named c inside)) free
  rw [readPart,if_neg (by decide),if_neg (by decide),if_pos rfl] at read
  exact ⟨_,read⟩

theorem bracket_ends {name : List Char} (some : name ≠ []) (named : ∀ c ∈ name, inName c = true) :
    ∃ more part, bracketPart (name ++ more) = .ok (part,[]) := by
  have nothing : ∀ c ∈ ([] : List Char), inValue c = true := by simp
  exact ⟨_,bracket_closes some named nothing⟩

theorem bracket_stuck (refused : bracketPart s = .error refusal) : ∃ taken,
    s = taken ++ refusal.rest ∧ (∃ more part, bracketPart (taken ++ more) = .ok (part,[])) ∧
      ∀ c rest, refusal.rest = c :: rest → ∀ other,
        bracketPart (taken ++ c :: other) = .error ⟨refusal.detail,c :: other⟩ := by
  have whole := List.takeWhile_append_dropWhile (p := inName) (l := s)
  have named : ∀ c ∈ s.takeWhile inName, inName c = true := fun c inside =>
    List.mem_takeWhile_imp inside
  have stops := dropWhile_stops inName s
  unfold bracketPart at refused
  dsimp only at refused
  cases name : s.takeWhile inName with
  | nil =>
    simp only [name,Except.error.injEq] at refused
    subst refused
    rw [name,List.nil_append] at whole
    have single : ∀ c ∈ ['-'], inName c = true := by simp [inName]
    obtain ⟨more,part,closed⟩ := bracket_ends (by simp) single
    refine ⟨[],whole.symm,⟨_,part,closed⟩,fun c rest found other => ?_⟩
    simp [bracketPart,stops c rest found]
  | cons first others =>
    rw [name] at named whole
    have some : first :: others ≠ [] := by simp
    cases behind : s.dropWhile inName with
    | nil =>
      simp only [name,behind,Except.error.injEq] at refused
      subst refused
      rw [behind] at whole
      exact ⟨first :: others,whole.symm,bracket_ends some named,fun c rest found => by cases found⟩
    | cons c more =>
      simp only [name,behind] at refused
      rw [behind] at whole stops
      split at refused
      · rename_i equals
        subst equals
        cases close : more.dropWhile inValue with
        | nil =>
          simp only [close,Except.error.injEq] at refused
          subst refused
          have valued : ∀ c ∈ more, inValue c = true := List.dropWhile_eq_nil_iff.mp close
          obtain ⟨part,closed⟩ := bracket_closes some named valued
          refine ⟨first :: others ++ '=' :: more,by simpa using whole.symm,⟨[']'],part,?_⟩,?_⟩
          · simpa using closed
          · exact fun c rest found => by cases found
        | cons last tail => simp [close] at refused
      · rename_i other
        simp only [Except.error.injEq] at refused
        subst refused
        refine ⟨first :: others,whole.symm,bracket_ends some named,fun d rest found later => ?_⟩
        cases found
        have stops' : Stops inName (c :: later) := stops.fits (.cons c _ _)
        simp only [bracketPart,takeWhile_run named stops',dropWhile_run named stops',other,if_false]

theorem part_stuck (refused : readPart c s = .error refusal) :
    ∃ taken, c :: s = taken ++ refusal.rest ∧ Stuck partsFrom taken refusal := by
  unfold readPart at refused
  split at refused
  · cases refused
  · rename_i noHash
    split at refused
    · cases refused
    · rename_i noDot
      split at refused
      · rename_i bracket
        subst bracket
        obtain ⟨taken,start,⟨more,part,closed⟩,decided⟩ := bracket_stuck refused
        refine ⟨'[' :: taken,by simp [start],⟨more,[part],?_⟩,fun c rest found other => ?_⟩
        · rw [List.cons_append,partsFrom_cons,readPart,if_neg noHash,if_neg noDot,if_pos rfl,closed]
          simp only [Text.dropBlank_nil]
          rw [partsFrom]
        · rw [List.cons_append,partsFrom_cons,readPart,if_neg noHash,if_neg noDot,if_pos rfl,
            decided c rest found other]
      · rename_i noBracket
        simp only [Except.error.injEq] at refused
        subst refused
        refine ⟨[],rfl,⟨[],[],by simp [partsFrom]⟩,fun d rest found other => ?_⟩
        cases found
        rw [List.nil_append,partsFrom_cons,readPart,if_neg noHash,if_neg noDot,if_neg noBracket]

theorem parts_step (read : readPart c s = .ok (part,left)) : ∃ front,
    c :: s = front ++ Text.dropBlank left ∧ ∀ rest, SameStart rest (Text.dropBlank left) →
      partsFrom (front ++ rest) = (partsFrom rest).map (part :: ·) := by
  obtain ⟨text,start,kept⟩ := part_kept read
  obtain ⟨gap,behind,ends⟩ := blank_kept left
  refine ⟨c :: (text ++ gap),by simp [start,←behind],fun rest fits => ?_⟩
  have fits' : SameStart (gap ++ rest) left := by
    have later := fits.behind gap
    rwa [←behind] at later
  rw [List.cons_append,List.append_assoc,partsFrom_cons,kept _ fits']
  simp only [ends rest fits]
  cases partsFrom rest <;> rfl

theorem parts_stuck (refused : partsFrom s = .error refusal) :
    ∃ taken, s = taken ++ refusal.rest ∧ Stuck partsFrom taken refusal := by
  induction s using partsFrom.induct with
  | case1 => simp [partsFrom] at refused
  | case2 c s found failed =>
    rw [partsFrom_cons,failed] at refused
    cases refused
    exact part_stuck failed
  | case3 c s part left found failed more ih =>
    rw [partsFrom_cons,found] at refused
    simp only [more] at refused
    cases refused
    obtain ⟨front,start,step⟩ := parts_step found
    obtain ⟨taken,behind,stuck⟩ := ih more
    exact ⟨front ++ taken,by rw [start,behind,List.append_assoc],
      stuck.behind fun rest fits => step rest (by rwa [behind])⟩
  | case4 c s part left found parts done ih =>
    rw [partsFrom_cons,found] at refused
    simp [done] at refused

theorem tag_stuck (refused : tagName s = .error refusal) :
    ∃ taken, s = taken ++ refusal.rest ∧ Stuck readShape taken refusal := by
  obtain ⟨gap,blanks,start⟩ := blanks_taken s
  have stops : Stops Text.isBlank (Text.dropBlank s) := dropWhile_stops _ s
  have letter : TagText ['a'] := .intro rfl (by simp)
  have cut : Split (gap ++ (['a'] ++ ([] ++ []))) ['a'] [] :=
    .intro blanks letter (by simp [Blanks]) .nil
  have named : ∃ more shape, readShape (gap ++ more) = .ok shape := ⟨_,_,split_read cut⟩
  unfold tagName at refused
  cases front : Text.dropBlank s with
  | nil =>
    simp only [front,Except.error.injEq] at refused
    subst refused
    exact ⟨gap,by rw [←front]; exact start,named,fun c rest found => by cases found⟩
  | cons c others =>
    simp only [front] at refused
    split at refused
    · cases refused
    · rename_i noLetter
      cases refused
      refine ⟨gap,by rw [←front]; exact start,named,fun d rest found other => ?_⟩
      cases found
      have stops' : Stops Text.isBlank (c :: other) := stops.fits (by rw [front]; exact .cons c _ _)
      have unread : tagName (gap ++ c :: other) = .error ⟨.noTag,c :: other⟩ := by
        rw [tagName,dropBlank_run blanks stops']
        exact if_neg noLetter
      rw [readShape,unread]

theorem shape_stuck (refused : readShape s = .error refusal) :
    ∃ taken, s = taken ++ refusal.rest ∧ Stuck readShape taken refusal := by
  unfold readShape at refused
  cases named : tagName s with
  | error other =>
    simp only [named,Except.error.injEq] at refused
    subst refused
    exact tag_stuck named
  | ok pair =>
    obtain ⟨tag,left⟩ := pair
    simp only [named] at refused
    obtain ⟨text,start,kept⟩ := tag_kept named
    cases more : partsFrom left with
    | ok parts => simp [more] at refused
    | error other =>
      simp only [more,Except.error.injEq] at refused
      subst refused
      obtain ⟨taken,behind,stuck⟩ := parts_stuck more
      have step : ∀ rest, SameStart rest (taken ++ other.rest) →
          readShape (text ++ rest) = (partsFrom rest).map (Shape.mk tag) := by
        intro rest fits
        rw [readShape,kept rest (by rwa [behind])]
        dsimp only
        cases partsFrom rest <;> rfl
      exact ⟨text ++ taken,by rw [start,behind,List.append_assoc],stuck.behind step⟩

def Viable (s : List Char) : Prop := ∃ more found, read (String.ofList (s ++ more)) = .ok found

theorem viable_take {s : List Char} (viable : Viable (s.take n)) (fewer : m ≤ n) :
    Viable (s.take m) := by
  obtain ⟨more,found,accepted⟩ := viable
  have whole : s.take m ++ ((s.take n).drop m ++ more) = s.take n ++ more := by
    have front : (s.take n).take m = s.take m := by rw [List.take_take,Nat.min_eq_left fewer]
    rw [←List.append_assoc,←front,List.take_append_drop]
  exact ⟨(s.take n).drop m ++ more,found,by rwa [whole]⟩

-- The place that a refusal names: everything in front of it can still become a
-- selector, and whatever goes on with the character that stands there is refused
-- at the same place and for the same reason. So the place is the end of the
-- longest beginning that can become one.
structure Pinpoints (selector : String) (fault : Fault) : Prop where
  whole : fault.selector = selector
  within : fault.position ≤ selector.length
  viable : Viable (selector.toList.take fault.position)
  decided : fault.position < selector.length → ∀ other : String,
    selector.toList.take (fault.position + 1) <+: other.toList →
      read other = .error ⟨other,fault.position,fault.detail⟩
  longest : ∀ n ≤ selector.length, Viable (selector.toList.take n) ↔ n ≤ fault.position

theorem read_stuck {selector : String} {fault : Fault} (rejected : read selector = .error fault) :
    ∃ taken left, selector.toList = taken ++ left ∧ fault.selector = selector ∧
      fault.position = taken.length ∧ Viable taken ∧ ∀ c rest, left = c :: rest →
        ∀ other : String, taken ++ [c] <+: other.toList →
          read other = .error ⟨other,taken.length,fault.detail⟩ := by
  unfold read at rejected
  cases shaped : readShape selector.toList with
  | ok shape => simp [shaped] at rejected
  | error refusal =>
    simp only [shaped,Except.error.injEq] at rejected
    subst rejected
    obtain ⟨taken,start,stuck⟩ := shape_stuck shaped
    have behind (other : List Char) : (taken ++ other).length - other.length = taken.length := by
      simp
    refine ⟨taken,refusal.rest,start,rfl,by rw [start,behind],?_,?_⟩
    · obtain ⟨more,shape,done⟩ := stuck.viable
      refine ⟨more,⟨shape.tag,merge shape.parts⟩,?_⟩
      simp only [read,String.toList_ofList,done]
    · rintro c rest found other ⟨later,same⟩
      have longer : other.toList = taken ++ c :: later := by simp [←same]
      rw [read,longer,stuck.decided c rest found later]
      simp only [behind]

theorem refusal_pinpoints (κ : Type) {selector : String} {fault : Fault}
    (rejected : read selector = .error fault) : Pinpoints selector fault ∧
      ∀ store, parseElement (κ := κ) selector store =
        .error (.selector fault) {store with journal := .rejected fault :: store.journal} := by
  refine ⟨?_,fun store => by simp only [parseElement,rejected]; rfl⟩
  obtain ⟨taken,left,start,whole,place,viable,decided⟩ := read_stuck rejected
  have length : selector.length = taken.length + left.length := by
    rw [←String.length_toList,start,List.length_append]
  have front : selector.toList.take taken.length = taken := by simp [start]
  have next : fault.position < selector.length → ∀ other : String,
      selector.toList.take (fault.position + 1) <+: other.toList →
        read other = .error ⟨other,fault.position,fault.detail⟩ := by
    intro inside other begins
    rw [place] at inside begins ⊢
    obtain ⟨c,rest,found⟩ : ∃ c rest, left = c :: rest :=
      List.exists_cons_of_length_pos (by omega)
    have through : selector.toList.take (taken.length + 1) = taken ++ [c] := by
      simp [start,found,List.take_append,List.take_of_length_le]
    exact decided c rest found other (through ▸ begins)
  refine ⟨whole,by omega,by rwa [place,front],next,fun n inside => ⟨?_,?_⟩⟩
  · rintro ⟨more,found,accepted⟩
    by_contra beyond
    have further : selector.toList.take (fault.position + 1) <+:
        (String.ofList (selector.toList.take n ++ more)).toList := by
      rw [String.toList_ofList]
      exact (List.take_prefix_take_left (by omega)).trans (List.prefix_append _ _)
    have refused := next (by omega) _ further
    rw [accepted] at refused
    cases refused
  · intro fewer
    rw [place] at fewer
    exact viable_take (n := taken.length) (by rwa [front]) fewer

theorem strayMark_pinpointed : read "p.a [b?c]" = .error ⟨"p.a [b?c]",6,.expected '=' (some '?')⟩ ∧
    Pinpoints "p.a [b?c]" ⟨"p.a [b?c]",6,.expected '=' (some '?')⟩ := by
  have rejected : read "p.a [b?c]" = .error ⟨"p.a [b?c]",6,.expected '=' (some '?')⟩ := by
    decide +kernel
  exact ⟨rejected,(refusal_pinpoints Nat rejected).1⟩

end Markup.Selector
