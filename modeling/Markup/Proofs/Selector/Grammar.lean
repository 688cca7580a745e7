import Markup.Build
import Mathlib.Data.List.TakeWhile

namespace Markup.Selector

-- The written form of a selector, said without a reader. Nothing here decides
-- how far a token reaches: an id may stop before blanks that belong to it as
-- well, and a closing bracket may stand inside an id or a class.
def Blanks (s : List Char) : Prop := ∀ c ∈ s, Text.isBlank c = true

inductive TagText : List Char → Prop where
  | intro (head : Text.isAsciiLetter c = true)
      (tail : ∀ d ∈ s, Text.isAsciiLetter d = true ∨ Text.isAsciiDigit d = true ∨ d = '-') :
      TagText (c :: s)

inductive PartText : List Char → Part → Prop where
  | id (run : ∀ c ∈ body, c ≠ '#' ∧ c ≠ '.' ∧ c ≠ '[') :
      PartText ('#' :: body) ⟨"id",String.ofList (Text.trim body)⟩
  | cls (run : ∀ c ∈ body, Text.isBlank c = false ∧ c ≠ '[' ∧ c ≠ '.' ∧ c ≠ '#') :
      PartText ('.' :: body) ⟨"class",String.ofList body⟩
  | pair (some : name ≠ [])
      (named : ∀ c ∈ name, Text.isAlphabetic c = true ∨ Text.isAsciiDigit c = true ∨ c = '-')
      (valued : ']' ∉ value) :
      PartText ('[' :: (name ++ '=' :: (value ++ [']'])))
        ⟨String.ofList name,
          String.ofList (if String.ofList name = "id" then Text.trim value else value)⟩

inductive PartsText : List Char → List Part → Prop where
  | nil : PartsText [] []
  | cons (first : PartText text part) (gap : Blanks blank) (more : PartsText rest parts) :
      PartsText (text ++ (blank ++ rest)) (part :: parts)

inductive Split : List Char → List Char → List Part → Prop where
  | intro (lead : Blanks before) (tag : TagText name) (gap : Blanks after)
      (tail : PartsText rest parts) : Split (before ++ (name ++ (after ++ rest))) name parts

theorem blank_toNat (blank : Text.isBlank c = true) :
    c.toNat ≤ 0x20 ∨ 0x85 ≤ c.toNat := by
  simp only [Text.isBlank,Bool.or_eq_true,Bool.and_eq_true,decide_eq_true_eq,beq_iff_eq] at blank
  omega

theorem letter_toNat (letter : Text.isAsciiLetter c = true) :
    0x41 ≤ c.toNat ∧ c.toNat ≤ 0x7a := by
  simp only [Text.isAsciiLetter,Bool.or_eq_true,Bool.and_eq_true,decide_eq_true_eq,Char.le_def,
    UInt32.le_iff_toNat_le] at letter
  have a : 'a'.val.toNat = 0x61 := rfl
  have z : 'z'.val.toNat = 0x7a := rfl
  have upperA : 'A'.val.toNat = 0x41 := rfl
  have upperZ : 'Z'.val.toNat = 0x5a := rfl
  change 0x41 ≤ c.val.toNat ∧ c.val.toNat ≤ 0x7a
  omega

theorem inTag_iff {c : Char} :
    inTag c = true ↔ Text.isAsciiLetter c = true ∨ Text.isAsciiDigit c = true ∨ c = '-' := by
  simp [inTag,or_assoc]

theorem inName_iff {c : Char} :
    inName c = true ↔ Text.isAlphabetic c = true ∨ Text.isAsciiDigit c = true ∨ c = '-' := by
  simp [inName,or_assoc]

theorem inId_iff {c : Char} : inId c = true ↔ c ≠ '#' ∧ c ≠ '.' ∧ c ≠ '[' := by
  simp [inId,opensPart,and_assoc]

theorem inClass_iff {c : Char} :
    inClass c = true ↔ Text.isBlank c = false ∧ c ≠ '[' ∧ c ≠ '.' ∧ c ≠ '#' := by
  simp only [inClass,opensPart,Bool.and_eq_true,Bool.not_eq_true',Bool.or_eq_false_iff,
    beq_eq_false_iff_ne]
  constructor
  · rintro ⟨blank,⟨hash,dot⟩,bracket⟩; exact ⟨blank,bracket,dot,hash⟩
  · rintro ⟨blank,bracket,dot,hash⟩; exact ⟨blank,⟨hash,dot⟩,bracket⟩

theorem blank_not_opens (blank : Text.isBlank c = true) : opensPart c = false := by
  cases opens : opensPart c with
  | false => rfl
  | true =>
    simp only [opensPart,Bool.or_eq_true,beq_iff_eq] at opens
    rcases opens with (rfl | rfl) | rfl <;> exact absurd blank (by decide)

theorem opens_not_blank (opens : opensPart c = true) : Text.isBlank c = false := by
  cases blank : Text.isBlank c with
  | false => rfl
  | true => rw [blank_not_opens blank] at opens; cases opens

theorem blank_inId (blank : Text.isBlank c = true) : inId c = true := by
  simp [inId,blank_not_opens blank]

theorem opens_not_inTag (opens : opensPart c = true) : inTag c = false := by
  simp only [opensPart,Bool.or_eq_true,beq_iff_eq] at opens
  rcases opens with (rfl | rfl) | rfl <;> decide

theorem blank_not_inTag (blank : Text.isBlank c = true) : inTag c = false := by
  cases tagged : inTag c with
  | false => rfl
  | true =>
    have low := blank_toNat blank
    rcases inTag_iff.mp tagged with letter | digit | rfl
    · have high := letter_toNat letter
      omega
    · simp only [Text.isAsciiDigit,Bool.and_eq_true,decide_eq_true_eq,Char.le_def,
        UInt32.le_iff_toNat_le] at digit
      have zero : '0'.val.toNat = 0x30 := rfl
      have nine : '9'.val.toNat = 0x39 := rfl
      change c.val.toNat ≤ 0x20 ∨ 0x85 ≤ c.val.toNat at low
      omega
    · exact absurd blank (by decide)

theorem letter_not_blank (letter : Text.isAsciiLetter c = true) : Text.isBlank c = false := by
  cases blank : Text.isBlank c with
  | false => rfl
  | true =>
    have tagged := inTag_iff.mpr (.inl letter)
    rw [blank_not_inTag blank] at tagged
    cases tagged

def Stops (p : Char → Bool) (s : List Char) : Prop := ∀ c rest, s = c :: rest → p c = false

theorem takeWhile_run {p : Char → Bool} (run : ∀ c ∈ s, p c = true) (stops : Stops p rest) :
    (s ++ rest).takeWhile p = s := by
  rw [List.takeWhile_append_of_pos run]
  cases rest with
  | nil => simp
  | cons c more => simp [stops c more rfl]

theorem dropWhile_run {p : Char → Bool} (run : ∀ c ∈ s, p c = true) (stops : Stops p rest) :
    (s ++ rest).dropWhile p = rest := by
  rw [List.dropWhile_append_of_pos run]
  cases rest with
  | nil => rfl
  | cons c more => simp [stops c more rfl]

theorem dropBlank_run (gap : Blanks blank) (stops : Stops Text.isBlank rest) :
    Text.dropBlank (blank ++ rest) = rest := dropWhile_run gap stops

theorem trim_append_blanks (gap : Blanks blank) (body : List Char) :
    Text.trim (body ++ blank) = Text.trim body := by
  have inner : Text.dropBlank (body ++ blank) = Text.dropBlank body ++ blank ∨
      (Text.dropBlank body = [] ∧ Text.dropBlank (body ++ blank) = []) := by
    unfold Text.dropBlank
    rw [List.dropWhile_append]
    split
    · rename_i empty
      refine .inr ⟨by simpa using empty,?_⟩
      exact List.dropWhile_eq_nil_iff.mpr gap
    · exact .inl rfl
  unfold Text.trim
  rcases inner with kept | ⟨empty,gone⟩
  · rw [kept,List.reverse_append]
    congr 1
    exact List.dropWhile_append_of_pos fun c inside => gap c (List.mem_reverse.mp inside)
  · rw [empty,gone]

theorem parts_start (written : PartsText s parts) : Stops (fun c => !opensPart c) s := by
  intro c rest found
  cases written with
  | nil => cases found
  | cons first gap more => cases first <;> (cases found; rfl)

theorem parts_not_blank (written : PartsText s parts) : Stops Text.isBlank s := by
  intro c rest found
  exact opens_not_blank (by simpa using parts_start written c rest found)

-- Each kind of part is read to its end, or with the blanks behind it, which an
-- id swallows and a trim takes away.

theorem id_read {body : List Char} (run : ∀ c ∈ body, c ≠ '#' ∧ c ≠ '.' ∧ c ≠ '[')
    (gap : Blanks blank) (more : PartsText rest parts) :
    readPart '#' (body ++ (blank ++ rest)) =
      .ok (⟨"id",String.ofList (Text.trim body)⟩,rest) := by
  have reach : ∀ c ∈ body ++ blank, inId c = true := by
    intro c inside
    rcases List.mem_append.mp inside with own | follows
    · exact inId_iff.mpr (run c own)
    · exact blank_inId (gap c follows)
  have stops : Stops inId rest := fun c tail found => by
    simpa [inId] using parts_start more c tail found
  rw [readPart,if_pos rfl,←List.append_assoc,takeWhile_run reach stops,
    dropWhile_run reach stops,trim_append_blanks gap]

theorem class_read {body : List Char}
    (run : ∀ c ∈ body, Text.isBlank c = false ∧ c ≠ '[' ∧ c ≠ '.' ∧ c ≠ '#')
    (gap : Blanks blank) (more : PartsText rest parts) :
    readPart '.' (body ++ (blank ++ rest)) =
      .ok (⟨"class",String.ofList body⟩,blank ++ rest) := by
  have reach : ∀ c ∈ body, inClass c = true := fun c inside => inClass_iff.mpr (run c inside)
  have stops : Stops inClass (blank ++ rest) := by
    intro c tail found
    cases blank with
    | nil =>
      have opens := parts_start more c tail found
      simp_all [inClass]
    | cons d others =>
      cases found
      simp [inClass,gap c (by simp)]
  rw [readPart,if_neg (by decide),if_pos rfl,takeWhile_run reach stops,dropWhile_run reach stops]

theorem pair_read {name value after : List Char} (some : name ≠ [])
    (named : ∀ c ∈ name, Text.isAlphabetic c = true ∨ Text.isAsciiDigit c = true ∨ c = '-')
    (valued : ']' ∉ value) :
    readPart '[' (name ++ '=' :: (value ++ ']' :: after)) =
      .ok (⟨String.ofList name,
        String.ofList (if String.ofList name = "id" then Text.trim value else value)⟩,after) := by
  have nameRun : ∀ c ∈ name, inName c = true := fun c inside => inName_iff.mpr (named c inside)
  have nameStops : Stops inName ('=' :: (value ++ ']' :: after)) := by
    intro c tail found
    cases found
    decide +kernel
  have valueRun : ∀ c ∈ value, inValue c = true := by
    intro c inside
    simpa [inValue] using fun same : c = ']' => valued (same ▸ inside)
  have valueStops : Stops inValue (']' :: after) := by
    intro c tail found
    cases found
    rfl
  rw [readPart,if_neg (by decide),if_neg (by decide),if_pos rfl,bracketPart,
    takeWhile_run nameRun nameStops,dropWhile_run nameRun nameStops]
  obtain ⟨first,others,rfl⟩ := List.exists_cons_of_ne_nil some
  simp only [if_true,dropWhile_run valueRun valueStops,takeWhile_run valueRun valueStops]

-- What one part leaves is at most blanks away from where the grammar goes on.
theorem part_read (first : PartText text part) (gap : Blanks blank) (more : PartsText rest parts) :
    ∃ c s left, text ++ (blank ++ rest) = c :: s ∧ readPart c s = .ok (part,left) ∧
      Text.dropBlank left = rest := by
  cases first with
  | @id body run =>
    have none : Blanks [] := by simp [Blanks]
    exact ⟨'#',_,rest,rfl,id_read run gap more,dropBlank_run none (parts_not_blank more)⟩
  | @cls body run =>
    exact ⟨'.',_,blank ++ rest,rfl,class_read run gap more,
      dropBlank_run gap (parts_not_blank more)⟩
  | @pair name value some named valued =>
    exact ⟨'[',_,blank ++ rest,by simp,pair_read some named valued,
      dropBlank_run gap (parts_not_blank more)⟩

theorem partsFrom_cons (c : Char) (s : List Char) :
    partsFrom (c :: s) =
      match readPart c s with
      | .error refusal => .error refusal
      | .ok (part,left) =>
        match partsFrom (Text.dropBlank left) with
        | .error refusal => .error refusal
        | .ok parts => .ok (part :: parts) := by
  rw [partsFrom]
  split
  · rename_i refusal found
    rw [found]
  · rename_i part left found
    cases more : partsFrom (Text.dropBlank left) <;> simp only [found,more]

theorem parts_read (written : PartsText s parts) : partsFrom s = .ok parts := by
  induction written with
  | nil => rw [partsFrom]
  | cons first gap more ih =>
    obtain ⟨c,s,left,start,read,left_eq⟩ := part_read first gap more
    rw [start,partsFrom_cons,read]
    simp only [left_eq,ih]

theorem split_read (cut : Split s name parts) : readShape s = .ok ⟨String.ofList name,parts⟩ := by
  cases cut with
  | @intro before name after rest parts lead tag gap tail =>
    cases tag with
    | @intro c others head inside =>
      have leadStops : Stops Text.isBlank (c :: others ++ (after ++ rest)) := by
        intro d more found
        cases found
        exact letter_not_blank head
      have run : ∀ d ∈ c :: others, inTag d = true := by
        intro d member
        rcases List.mem_cons.mp member with rfl | later
        · exact inTag_iff.mpr (.inl head)
        · exact inTag_iff.mpr (inside d later)
      have tagStops : Stops inTag (after ++ rest) := by
        intro d more found
        cases after with
        | nil => exact opens_not_inTag (by simpa using parts_start tail d more found)
        | cons e blanks =>
          cases found
          exact blank_not_inTag (gap d (by simp))
      have named : tagName (before ++ (c :: others ++ (after ++ rest))) =
          .ok (String.ofList (c :: others),rest) := by
        rw [tagName,dropBlank_run lead leadStops,List.cons_append]
        simp only [head,if_true]
        rw [←List.cons_append,takeWhile_run run tagStops,dropWhile_run run tagStops,
          dropBlank_run gap (parts_not_blank tail)]
      rw [readShape,named]
      simp [parts_read tail]

theorem bracket_written (read : bracketPart s = .ok (part,left)) :
    ∃ text, '[' :: s = text ++ left ∧ PartText text part := by
  unfold bracketPart at read
  dsimp only at read
  have whole := List.takeWhile_append_dropWhile (p := inName) (l := s)
  have named : ∀ c ∈ s.takeWhile inName, inName c = true := fun c inside =>
    List.mem_takeWhile_imp inside
  cases name : s.takeWhile inName with
  | nil => simp [name] at read
  | cons first others =>
    cases behind : s.dropWhile inName with
    | nil => simp [name,behind] at read
    | cons c more =>
      simp only [name,behind] at read
      rw [name,behind] at whole
      rw [name] at named
      split at read
      · rename_i equals
        subst equals
        have inner := List.takeWhile_append_dropWhile (p := inValue) (l := more)
        cases close : more.dropWhile inValue with
        | nil => simp [close] at read
        | cons last tail =>
          simp only [close,Except.ok.injEq,Prod.mk.injEq] at read
          obtain ⟨rfl,rfl⟩ := read
          have closing : last = ']' := by
            have stop := List.head_dropWhile_not inValue (l := more) (by simp [close])
            simpa [close,inValue] using stop
          subst closing
          rw [close] at inner
          have open_value : ']' ∉ more.takeWhile inValue := by
            intro inside
            simpa [inValue] using List.mem_takeWhile_imp inside
          refine ⟨_,?_,.pair (List.cons_ne_nil first others)
            (fun c inside => inName_iff.mp (named c inside)) open_value⟩
          rw [←whole]
          simpa using inner.symm
      · cases read

theorem part_written (read : readPart c s = .ok (part,left)) :
    ∃ text, c :: s = text ++ left ∧ PartText text part := by
  unfold readPart at read
  split at read
  · rename_i hash
    subst hash
    simp only [Except.ok.injEq,Prod.mk.injEq] at read
    obtain ⟨rfl,rfl⟩ := read
    exact ⟨_,by rw [List.cons_append,List.takeWhile_append_dropWhile],
      .id fun d inside => inId_iff.mp (List.mem_takeWhile_imp inside)⟩
  · split at read
    · rename_i dot
      subst dot
      simp only [Except.ok.injEq,Prod.mk.injEq] at read
      obtain ⟨rfl,rfl⟩ := read
      exact ⟨_,by rw [List.cons_append,List.takeWhile_append_dropWhile],
        .cls fun d inside => inClass_iff.mp (List.mem_takeWhile_imp inside)⟩
    · split at read
      · rename_i bracket
        subst bracket
        exact bracket_written read
      · cases read

theorem blanks_taken (s : List Char) :
    ∃ blank, Blanks blank ∧ s = blank ++ Text.dropBlank s :=
  ⟨s.takeWhile Text.isBlank,fun _ inside => List.mem_takeWhile_imp inside,
    (List.takeWhile_append_dropWhile).symm⟩

theorem parts_written (read : partsFrom s = .ok parts) : PartsText s parts := by
  induction s using partsFrom.induct generalizing parts with
  | case1 =>
    rw [partsFrom] at read
    cases read
    exact .nil
  | case2 c s refusal found => simp [partsFrom_cons,found] at read
  | case3 c s part left found refusal failed ih => simp [partsFrom_cons,found,failed] at read
  | case4 c s part left found parts done ih =>
    simp only [partsFrom_cons,found,done,Except.ok.injEq] at read
    subst read
    obtain ⟨text,start,first⟩ := part_written found
    obtain ⟨blank,gap,split⟩ := blanks_taken left
    rw [start,split]
    exact .cons first gap (ih done)

theorem tag_written {tag : String} (read : tagName s = .ok (tag,rest)) :
    ∃ before name after, s = before ++ (name ++ (after ++ rest)) ∧ Blanks before ∧
      TagText name ∧ Blanks after ∧ tag = String.ofList name := by
  obtain ⟨before,lead,start⟩ := blanks_taken s
  unfold tagName at read
  cases begun : Text.dropBlank s with
  | nil => simp [begun] at read
  | cons c others =>
    simp only [begun] at read
    split at read
    · rename_i letter
      simp only [Except.ok.injEq,Prod.mk.injEq] at read
      obtain ⟨rfl,rfl⟩ := read
      obtain ⟨after,gap,tail⟩ := blanks_taken ((c :: others).dropWhile inTag)
      refine ⟨before,(c :: others).takeWhile inTag,after,?_,lead,?_,gap,rfl⟩
      · rw [←tail,List.takeWhile_append_dropWhile,←begun]
        exact start
      · rw [List.takeWhile_cons_of_pos (inTag_iff.mpr (.inl letter))]
        exact .intro letter fun d inside => inTag_iff.mp (List.mem_takeWhile_imp inside)
    · cases read

theorem split_written (read : readShape s = .ok shape) :
    ∃ name, Split s name shape.parts ∧ shape.tag = String.ofList name := by
  unfold readShape at read
  cases named : tagName s with
  | error refusal => simp [named] at read
  | ok pair =>
    obtain ⟨tag,rest⟩ := pair
    cases more : partsFrom rest with
    | error refusal => simp [named,more] at read
    | ok parts =>
      simp only [named,more,Except.ok.injEq] at read
      subst read
      obtain ⟨before,name,after,start,lead,text,gap,same⟩ := tag_written named
      exact ⟨name,start ▸ .intro lead text gap (parts_written more),same⟩

theorem read_split (cut : Split selector.toList name parts) :
    read selector = .ok ⟨String.ofList name,merge parts⟩ := by
  simp [read,split_read cut]

theorem accepted_split (accepted : read selector = .ok found) :
    ∃ name parts, Split selector.toList name parts := by
  unfold read at accepted
  cases shaped : readShape selector.toList with
  | error refusal => simp [shaped] at accepted
  | ok shape =>
    obtain ⟨name,cut,_⟩ := split_written shaped
    exact ⟨name,shape.parts,cut⟩

-- The reader accepts exactly what can be cut at all, every cut names the same
-- tag and parts, and these are what the element is made of. The store of the
-- run is left as it is.
theorem read_exactly_split (κ : Type) (selector : String) :
    ((∃ found, read selector = .ok found) ↔
      ∃ name parts, Split selector.toList name parts) ∧
    ∀ name parts, Split selector.toList name parts →
      (∀ name' parts', Split selector.toList name' parts' → name' = name ∧ parts' = parts) ∧
      ∀ store, parseElement (κ := κ) selector store =
        .ok (.element (String.ofList name)
          ((merge parts).map fun part => .fixed part.name part.value) []) store := by
  refine ⟨⟨fun ⟨found,accepted⟩ => accepted_split accepted,
    fun ⟨name,parts,cut⟩ => ⟨_,read_split cut⟩⟩,?_⟩
  intro name parts cut
  constructor
  · intro name' parts' other
    have same := (split_read cut).symm.trans (split_read other)
    simp only [Except.ok.injEq,Shape.mk.injEq,String.ofList_inj] at same
    exact ⟨same.1.symm,same.2.symm⟩
  · intro store
    simp only [parseElement,read_split cut]
    rfl

end Markup.Selector
