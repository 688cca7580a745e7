import Mathlib.Data.List.Basic
import Markup.Proofs.Yaml.Numerals
import Markup.Proofs.Yaml.Values

namespace Markup.Yaml

open Implied

def withoutLine (s : List Char) : List Char := s.filter (· != '_')

def digitCount (written : String) : Nat :=
  (withoutLine ((unsigned written.toList).takeWhile isDigitOrLine)).length

-- Plain texts that look like a number or a moment and are none: a base is named
-- and no digit follows, there are too many digits or groups of sixty, or there is
-- no such day or time.
inductive InvalidScalar (written : String) : Trouble → Prop where
  | digitless (named : (mark,base) ∈ [('b',2), ('x',16)])
      (form : unsigned written.toList = '0' :: mark :: rest) (lines : ∀ c ∈ rest, c = '_') :
      InvalidScalar written (.notWhole base "")
  | digits (many : Number.mostDigits < digitCount written) :
      InvalidScalar written (.manyDigits (digitCount written))
  | groups (many : 174 ≤ written.toList.count ':') : InvalidScalar written .groupRange
  | moment (read : Moment.read written.toList = some moment)
      (fault : moment.fault? = some what) : InvalidScalar written (.momentRange what)

theorem withoutBreak_unbroken (unbroken : Unbroken written) :
    withoutBreak written.toList = written.toList := by
  unfold withoutBreak
  split
  · rename_i c rest ends
    have last : written.toList.getLast? = some '\n' := by
      rw [List.getLast?_eq_head?_reverse,ends]
      rfl
    exact absurd rfl (unbroken '\n' last)
  · rfl

def HasForm (written : String) : Tag → Prop
  | .bool => isBool written.toList = true
  | .fraction => isFraction written.toList = true
  | .whole => isWhole written.toList = true
  | .moment => Moment.implied written.toList = true
  | _ => True

theorem implied_form (unbroken : Unbroken written) : HasForm written (implied written) := by
  unfold implied
  rw [withoutBreak_unbroken unbroken]
  dsimp only
  split
  · assumption
  split
  · assumption
  split
  · assumption
  split
  · trivial
  split
  · trivial
  split
  · assumption
  repeat' split
  all_goals trivial

theorem map_failed {α β : Type} {change : α → β} {result : Except Trouble α}
    (failed : result.map change = .error trouble) : result = .error trouble := by
  cases result with
  | ok value => cases failed
  | error other => exact congrArg Except.error (Except.error.inj failed)

section numerals

variable {s rest : List Char} {c : Char}

theorem signed_front {change : List Char → List Char} (begins : unsigned s = c :: rest)
    (other : c ≠ '-' ∧ c ≠ '+')
    (signs : ∀ mark ∈ ['-', '+'], ∀ more, change (mark :: more) = mark :: change more)
    (front : ∀ more, change (c :: more) = c :: change more) :
    ∃ negative, Number.signed (change s) = .ok (negative,c :: change rest) := by
  unfold unsigned at begins
  split at begins
  · subst begins
    rw [signs '-' (.head _),front]
    exact ⟨true,rfl⟩
  · subst begins
    rw [signs '+' (.tail _ (.head _)),front]
    exact ⟨false,rfl⟩
  · subst begins
    rw [front]
    refine ⟨false,?_⟩
    unfold Number.signed
    rw [Number.readSign_digit other]

theorem withoutLine_cons (other : c ≠ '_') (rest : List Char) :
    withoutLine (c :: rest) = c :: withoutLine rest :=
  List.filter_cons_of_pos (by simp [other])

theorem withoutLine_append (s rest : List Char) :
    withoutLine (s ++ rest) = withoutLine s ++ withoutLine rest := List.filter_append ..

theorem withoutLine_run (run : ∀ c ∈ s, isDigitOrLine c = true) :
    ∀ c ∈ withoutLine s, Json.isDigit c = true := by
  intro c inside
  obtain ⟨member,other⟩ := List.mem_filter.mp inside
  rcases Bool.or_eq_true_iff.mp (run c member) with digit | line
  · exact digit
  · simp only [bne_iff_ne] at other
    exact absurd (eq_of_beq line) other

theorem digit_front (digit : Json.isDigit c = true) :
    c ≠ '-' ∧ c ≠ '+' ∧ c ≠ '_' ∧ c.toNat < 0x41 := by
  have each : ∀ c ∈ Number.decimalChars, c ≠ '-' ∧ c ≠ '+' ∧ c ≠ '_' ∧ c.toNat < 0x41 :=
    Number.listed (by decide)
  exact each c (Number.isDigit_chars digit)

theorem withoutLine_kept (kept : ∀ c ∈ s, c ≠ '_') : withoutLine s = s :=
  List.filter_eq_self.mpr fun c inside => bne_iff_ne.mpr (kept c inside)

def Group (group : List Char) : Prop :=
  group ≠ [] ∧ group.length ≤ 2 ∧ ∀ c ∈ group, Json.isDigit c = true

theorem groups_chars {groups : List (List Char)} (each : ∀ group ∈ groups, Group group)
    (inside : c ∈ groups.flatMap (':' :: ·)) : c = ':' ∨ Json.isDigit c = true := by
  obtain ⟨group,member,here⟩ := List.mem_flatMap.mp inside
  exact (List.mem_cons.mp here).imp_right ((each group member).2.2 c)

theorem sixties_groups (count : Nat) (s : List Char) :
    ∃ groups : List (List Char), s = groups.flatMap (':' :: ·) ++ sixties count s ∧
      ∀ group ∈ groups, Group group := by
  induction count, s using sixties.induct with
  | case1 count a rest other =>
    refine ⟨[],?_,nofun⟩
    unfold sixties
    simp only [other,if_true]
    rfl
  | case2 count a digit b more both ih =>
    obtain ⟨groups,same,each⟩ := ih
    refine ⟨[a,b] :: groups,?_,List.forall_mem_cons.mpr ⟨⟨nofun,Nat.le_refl 2,?_⟩,each⟩⟩
    · rw [sixties,if_neg digit,if_pos both]
      exact congrArg (fun behind => ':' :: a :: b :: behind) same
    · exact List.forall_mem_cons.mpr
        ⟨Bool.not_not_eq.mp digit,List.forall_mem_singleton.mpr both.2⟩
  | case3 count a digit b more single ih =>
    obtain ⟨groups,same,each⟩ := ih
    refine ⟨[a] :: groups,?_,List.forall_mem_cons.mpr ⟨⟨nofun,Nat.le_succ 1,?_⟩,each⟩⟩
    · rw [sixties,if_neg digit,if_neg single]
      exact congrArg (fun behind => ':' :: a :: behind) same
    · exact List.forall_mem_singleton.mpr (Bool.not_not_eq.mp digit)
  | case4 count a digit =>
    refine ⟨[[a]],?_,List.forall_mem_singleton.mpr ⟨nofun,Nat.le_succ 1,?_⟩⟩
    · rw [sixties,if_neg digit]
      rfl
    · exact List.forall_mem_singleton.mpr (Bool.not_not_eq.mp digit)
  | case5 count s other =>
    refine ⟨[],?_,nofun⟩
    rw [sixties]
    · rfl
    · exact other

theorem sexagesimal_groups (found : sexagesimal s = some after) :
    ∃ groups : List (List Char),
      s = s.takeWhile isDigitOrLine ++ (groups.flatMap (':' :: ·) ++ after) ∧ groups ≠ [] ∧
        ∀ group ∈ groups, Group group := by
  unfold sexagesimal at found
  split at found
  · split at found
    · dsimp only at found
      split at found
      · rename_i c rest _ shorter
        cases found
        generalize behind : (c :: rest).dropWhile isDigitOrLine = left at shorter ⊢
        obtain ⟨groups,same,each⟩ := sixties_groups left.length left
        refine ⟨groups,?_,?_,each⟩
        · rw [← same,← behind,List.takeWhile_append_dropWhile]
        · rintro rfl
          rw [← show left = sixties left.length left from same] at shorter
          exact Nat.lt_irrefl _ shorter
      · cases found
    · cases found
  · cases found

theorem sexagesimal_begins (found : sexagesimal s = some after) :
    ∃ c rest, s = c :: rest ∧ Json.isDigit c = true := by
  unfold sexagesimal at found
  split at found
  · rename_i c rest
    split at found
    · rename_i digit
      exact ⟨c,rest,rfl,digit⟩
    · cases found
  · cases found

end numerals

section wholes

variable {written : String} {s rest : List Char} {c : Char}

theorem decimal_invalid (some : s ≠ []) (digits : ∀ c ∈ s, Json.isDigit c = true)
    (failed : Number.whole 10 s = .error trouble) :
    trouble = .manyDigits s.length ∧ Number.mostDigits < s.length := by
  rw [Number.whole_digits (by decide) (Number.allDigits_ten digits)] at failed
  split at failed
  · rename_i many
    cases failed
    exact ⟨rfl,many.2⟩
  · rw [if_neg (by simpa using some)] at failed
    cases failed

theorem based_invalid (named : (mark,base) ∈ [('b',2), ('x',16)])
    (form : unsigned written.toList = '0' :: mark :: rest)
    (digits : ∀ c ∈ rest, (Number.digit? base c).isSome ∨ c = '_')
    (failed : Number.whole base (withoutLine rest) = .error trouble) :
    InvalidScalar written trouble := by
  have bases : ∀ pair ∈ [('b',2), ('x',16)], pair.2 ∈ [2,8,10,16] ∧ pair.2 ≠ 10 := by decide
  obtain ⟨known,other⟩ := bases _ named
  have all : Number.AllDigits base (withoutLine rest) := by
    intro c inside
    obtain ⟨member,line⟩ := List.mem_filter.mp inside
    exact (digits c member).resolve_right (bne_iff_ne.mp line)
  rw [Number.whole_digits known all,if_neg fun many => other many.1] at failed
  split at failed
  · rename_i empty
    cases failed
    refine .digitless named form fun c inside => ?_
    have none := List.filter_eq_nil_iff.mp (List.isEmpty_iff.mp empty) c inside
    simpa using none
  · cases failed

theorem octal_value (digits : ∀ c ∈ rest, ('0' ≤ c ∧ c ≤ '7') ∨ c = '_') :
    ∃ value, Number.magnitude ('0' :: withoutLine rest) = .ok value := by
  have known : ∀ c ∈ (List.range' 48 8).map Char.ofNat,
      (Number.digit? 8 c).isSome ∧ c ≠ 'b' ∧ c ≠ 'x' := Number.listed (by decide)
  have each : ∀ c ∈ withoutLine rest, (Number.digit? 8 c).isSome ∧ c ≠ 'b' ∧ c ≠ 'x' := by
    intro c inside
    obtain ⟨member,line⟩ := List.mem_filter.mp inside
    have range := (digits c member).resolve_right (bne_iff_ne.mp line)
    exact known c (Number.mem_between range.1 range.2)
  have all : Number.AllDigits 8 ('0' :: withoutLine rest) :=
    List.forall_mem_cons.mpr ⟨by decide,fun c inside => (each c inside).1⟩
  have whole : ∃ value, Number.whole 8 ('0' :: withoutLine rest) = .ok value := by
    rw [Number.whole_digits (by decide) all]
    exact ⟨_,rfl⟩
  generalize withoutLine rest = digits at each whole
  unfold Number.magnitude
  split
  · rename_i empty
    cases empty
  · exact ⟨0,rfl⟩
  · rename_i same
    cases same
    exact absurd rfl (each 'b' List.mem_cons_self).2.1
  · rename_i same
    cases same
    exact absurd rfl (each 'x' List.mem_cons_self).2.2
  · exact whole
  · rename_i other
    exact absurd rfl (other _)

theorem magnitude_other (other : c ≠ '0') (rest : List Char) :
    Number.magnitude (c :: rest) =
      if (c :: rest).contains ':' then
        (Number.readAll (Number.whole 10) (Text.split ':' (c :: rest))).map
          (·.foldl (fun value group => value * 60 + group) 0)
      else Number.whole 10 (c :: rest) := by
  unfold Number.magnitude
  split
  · rename_i empty
    cases empty
  all_goals first
    | rfl
    | (rename_i same; cases same; exact absurd rfl other)

theorem withoutLine_groups {groups : List (List Char)} (each : ∀ group ∈ groups, Group group) :
    withoutLine (groups.flatMap (':' :: ·)) = groups.flatMap (':' :: ·) := by
  refine withoutLine_kept fun c inside => ?_
  rcases groups_chars each inside with rfl | digit
  · decide
  · exact (digit_front digit).2.2.1

theorem group_whole {group : List Char} (form : Group group) :
    ∃ value, Number.whole 10 group = .ok value := by
  obtain ⟨some,most,digits⟩ := form
  have short : ¬(10 = 10 ∧ Number.mostDigits < group.length) := by
    simp only [Number.mostDigits]
    omega
  rw [Number.whole_digits (by decide) (Number.allDigits_ten digits),if_neg short,
    if_neg (by simpa using some)]
  exact ⟨_,rfl⟩

theorem digits_unmarked (digits : ∀ c ∈ s, Json.isDigit c = true) : ':' ∉ s := by
  intro inside
  have digit := digits ':' inside
  revert digit
  decide

theorem split_sixties {groups : List (List Char)} (run : ∀ c ∈ s, isDigitOrLine c = true)
    (each : ∀ group ∈ groups, Group group) :
    Text.split ':' (withoutLine s ++ groups.flatMap (':' :: ·)) = withoutLine s :: groups :=
  Number.split_groups ':' _ groups (digits_unmarked (withoutLine_run run))
    fun group member => digits_unmarked (each group member).2.2

theorem takeWhile_run (s : List Char) : ∀ c ∈ s.takeWhile isDigitOrLine, isDigitOrLine c = true :=
  fun _ inside => List.mem_takeWhile_imp inside

theorem frontDigits_some (begins : s = c :: rest) (digit : Json.isDigit c = true) :
    withoutLine (s.takeWhile isDigitOrLine) ≠ [] := by
  have front : isDigitOrLine c = true := Bool.or_eq_true_iff.mpr (.inl digit)
  rw [begins,List.takeWhile_cons_of_pos front,withoutLine_cons (digit_front digit).2.2.1]
  exact List.cons_ne_nil _ _

theorem whole_failed (begins : unsigned written.toList = c :: rest)
    (front : c ≠ '-' ∧ c ≠ '+' ∧ c ≠ '_') (failed : Number.ofWhole written = .error trouble) :
    Number.magnitude (c :: withoutLine rest) = .error trouble := by
  have marks : ∀ mark ∈ ['-', '+'], mark ≠ '_' := Number.listed (by decide)
  obtain ⟨negative,signed⟩ := signed_front begins ⟨front.1,front.2.1⟩
    (fun mark inside => withoutLine_cons (marks mark inside)) (withoutLine_cons front.2.2)
  unfold Number.ofWhole at failed
  rw [show Number.withoutLines written = withoutLine written.toList from rfl,signed] at failed
  exact map_failed failed

section decimals

variable (begins : unsigned written.toList = c :: rest) (digit : Json.isDigit c = true)
  (other : c ≠ '0') (failed : Number.magnitude (c :: withoutLine rest) = .error trouble)

include begins digit other failed

theorem run_invalid (plain : ∀ c ∈ rest, isDigitOrLine c = true) : InvalidScalar written trouble := by
  have run : ∀ c ∈ unsigned written.toList, isDigitOrLine c = true := by
    rw [begins]
    exact List.forall_mem_cons.mpr ⟨Bool.or_eq_true_iff.mpr (.inl digit),plain⟩
  have count : withoutLine ((unsigned written.toList).takeWhile isDigitOrLine) =
      c :: withoutLine rest := by
    rw [List.takeWhile_eq_self_iff.mpr run,begins,withoutLine_cons (digit_front digit).2.2.1]
  have digits : ∀ front ∈ c :: withoutLine rest, Json.isDigit front = true := by
    rw [← count]
    exact withoutLine_run (takeWhile_run _)
  rw [magnitude_other other,if_neg (by simpa using digits_unmarked digits)] at failed
  obtain ⟨rfl,many⟩ := decimal_invalid (List.cons_ne_nil _ _) digits failed
  rw [← count] at many ⊢
  exact .digits many

theorem groups_invalid (form : sexagesimal (unsigned written.toList) = some []) :
    InvalidScalar written trouble := by
  obtain ⟨groups,cut,some,each⟩ := sexagesimal_groups form
  have run := takeWhile_run (unsigned written.toList)
  have first := frontDigits_some begins digit
  have whole : c :: withoutLine rest =
      withoutLine ((unsigned written.toList).takeWhile isDigitOrLine) ++
        groups.flatMap (':' :: ·) := by
    calc c :: withoutLine rest = withoutLine (unsigned written.toList) := by
          rw [begins,withoutLine_cons (digit_front digit).2.2.1]
      _ = _ := congrArg withoutLine cut
      _ = _ := by rw [List.append_nil,withoutLine_append,withoutLine_groups each]
  have marked : (c :: withoutLine rest).contains ':' = true := by
    rw [whole]
    obtain ⟨group,more,rfl⟩ := List.exists_cons_of_ne_nil some
    simp
  rw [magnitude_other other,if_pos marked,whole,split_sixties run each] at failed
  have failed := map_failed failed
  obtain ⟨values,others,_⟩ :=
    Number.readAll_ok groups fun group member => group_whole (each group member)
  unfold Number.readAll at failed
  split at failed
  · rename_i wrong
    cases failed
    obtain ⟨rfl,many⟩ := decimal_invalid first (withoutLine_run run) wrong
    exact .digits many
  · rw [others] at failed
    cases failed

end decimals

theorem whole_invalid (looks : isWhole written.toList = true)
    (failed : Number.ofWhole written = .error trouble) : InvalidScalar written trouble := by
  unfold isWhole at looks
  split at looks
  · rename_i rest form
    have failed := whole_failed form (by decide) failed
    rw [withoutLine_cons (by decide)] at failed
    refine based_invalid (.head _) form (fun c inside => ?_) failed
    have allowed := List.all_eq_true.mp (Bool.and_eq_true_iff.mp looks).2 c inside
    rcases Bool.or_eq_true_iff.mp allowed with digit | line
    · rcases Bool.or_eq_true_iff.mp digit with zero | one
      · exact .inl (eq_of_beq zero ▸ by decide)
      · exact .inl (eq_of_beq one ▸ by decide)
    · exact .inr (eq_of_beq line)
  · rename_i rest form
    have failed := whole_failed form (by decide) failed
    rw [withoutLine_cons (by decide)] at failed
    refine based_invalid (.tail _ (.head _)) form (fun c inside => ?_) failed
    have allowed := List.all_eq_true.mp (Bool.and_eq_true_iff.mp looks).2 c inside
    have each : ∀ c ∈ Number.digitChars, (Number.digit? 16 c).isSome := Number.listed (by decide)
    rcases Bool.or_eq_true_iff.mp allowed with digit | line
    · exact .inl (each c (Number.hexValue_chars digit))
    · exact .inr (eq_of_beq line)
  · rename_i form
    cases whole_failed form (by decide) failed
  · rename_i rest _ _ form
    obtain ⟨value,made⟩ := octal_value fun c inside => by
      have allowed := List.all_eq_true.mp looks c inside
      simpa only [Bool.or_eq_true,Bool.and_eq_true,decide_eq_true_eq,beq_iff_eq] using allowed
    rw [whole_failed form (by decide) failed] at made
    cases made
  · rename_i c rest _ _ _ zero form
    obtain ⟨digit,either⟩ := Bool.and_eq_true_iff.mp looks
    obtain ⟨minus,plus,line,_⟩ := digit_front digit
    have failed := whole_failed form ⟨minus,plus,line⟩ failed
    rcases Bool.or_eq_true_iff.mp either with plain | sixty
    · exact run_invalid form digit zero failed (List.all_eq_true.mp plain)
    · rw [← form] at sixty
      exact groups_invalid form digit zero failed (eq_of_beq sixty)
  · cases looks

end wholes

def tidy (s : List Char) : List Char := Text.lower (withoutLine s)

section fractions

variable {written : String} {s front behind : List Char} {c : Char}

theorem tidy_append (s rest : List Char) : tidy (s ++ rest) = tidy s ++ tidy rest := by
  unfold tidy Text.lower
  rw [withoutLine_append,List.flatMap_append]

theorem lower_below (below : c.toNat < 0x41) : Text.Lower.ofChar c = [c] := by
  have least : (Text.Lower.shifts.all fun row => 0x41 ≤ row.1) = true := by decide +kernel
  have none : Text.Lower.shift? c.toNat = none := by
    unfold Text.Lower.shift?
    rw [List.find?_eq_none.mpr]
    intro row inside
    have first := of_decide_eq_true (List.all_eq_true.mp least row inside)
    simp only [Bool.and_eq_true,decide_eq_true_eq,not_and]
    omega
  have other : c ≠ '\u0130' := by
    rintro rfl
    revert below
    decide
  unfold Text.Lower.ofChar
  rw [if_neg other,none]

theorem lower_kept (kept : ∀ c ∈ s, Text.Lower.ofChar c = [c]) : Text.lower s = s := by
  unfold Text.lower
  rw [List.flatMap_congr kept]
  exact List.flatMap_singleton' s

theorem lower_digits (digits : ∀ c ∈ s, Json.isDigit c = true) : Text.lower s = s :=
  lower_kept fun c inside => lower_below (digit_front (digits c inside)).2.2.2

theorem tidy_run (run : ∀ c ∈ s, isDigitOrLine c = true) : tidy s = withoutLine s :=
  lower_digits (withoutLine_run run)

theorem tidy_digits (digits : ∀ c ∈ s, Json.isDigit c = true) : tidy s = s := by
  rw [tidy,withoutLine_kept fun c inside => (digit_front (digits c inside)).2.2.1,
    lower_digits digits]

theorem tidy_char (other : c ≠ '_') (lower : Text.Lower.ofChar c = [small]) (rest : List Char) :
    tidy (c :: rest) = small :: tidy rest := by
  unfold tidy
  rw [withoutLine_cons other,Text.lower,List.flatMap_cons,lower]
  rfl

theorem tidy_cons (below : c.toNat < 0x41) (rest : List Char) :
    tidy (c :: rest) = c :: tidy rest := by
  refine tidy_char ?_ (lower_below below) rest
  rintro rfl
  revert below
  decide

theorem tidy_point (rest : List Char) : tidy ('.' :: rest) = '.' :: tidy rest :=
  tidy_cons (by decide) rest

theorem tidy_groups {groups : List (List Char)} (each : ∀ group ∈ groups, Group group) :
    tidy (groups.flatMap (':' :: ·)) = groups.flatMap (':' :: ·) := by
  rw [tidy,withoutLine_groups each]
  refine lower_kept fun c inside => lower_below ?_
  rcases groups_chars each inside with rfl | digit
  · decide
  · exact (digit_front digit).2.2.2

theorem exponent_ending (ends : endsFraction s = true) : Number.Ending (tidy s) := by
  rcases Bool.or_eq_true_iff.mp ends with empty | exponent
  · cases List.isEmpty_iff.mp empty
    exact .nothing
  · unfold isExponent at exponent
    split at exponent
    · rename_i mark sign digits
      simp only [Bool.and_eq_true,Bool.or_eq_true,beq_iff_eq,Bool.not_eq_true',
        List.isEmpty_eq_false_iff,List.all_eq_true] at exponent
      obtain ⟨⟨⟨marked,signed⟩,some⟩,digit⟩ := exponent
      have below : sign.toNat < 0x41 := by rcases signed with rfl | rfl <;> decide
      have lower : mark ≠ '_' ∧ Text.Lower.ofChar mark = ['e'] := by
        rcases marked with rfl | rfl <;> decide +kernel
      rw [tidy_char lower.1 lower.2,tidy_cons below,tidy_digits digit]
      exact .exponent signed some digit
    · cases exponent

theorem point_fractional (run : ∀ c ∈ front, isDigitOrLine c = true)
    (some : withoutLine front ++ withoutLine (behind.takeWhile isDigitOrLine) ≠ [])
    (ends : endsFraction (behind.dropWhile isDigitOrLine) = true) :
    Number.Fractional (tidy (front ++ '.' :: behind)) := by
  have decimals := takeWhile_run behind
  have cut : behind = behind.takeWhile isDigitOrLine ++ behind.dropWhile isDigitOrLine :=
    List.takeWhile_append_dropWhile.symm
  rw [tidy_append,tidy_run run,tidy_point,cut,tidy_append,tidy_run decimals]
  exact .point (withoutLine_run run) some (withoutLine_run decimals) (exponent_ending ends)

theorem fractional_unmarked (form : Number.Fractional s) : ':' ∉ s := fun inside => by
  have colon := form.chars ':' inside
  revert colon
  decide

theorem fractional_value (form : Number.Fractional s) :
    ∃ value, Number.fractionMagnitude s = .ok value := by
  unfold Number.fractionMagnitude
  split
  · exact ⟨_,rfl⟩
  split
  · exact ⟨_,rfl⟩
  rw [if_neg fun colon => fractional_unmarked form (List.contains_iff_mem.mp colon)]
  exact form.value

theorem unsigned_suffix (s : List Char) : unsigned s <:+ s := by
  unfold unsigned
  split
  · exact List.suffix_cons _ _
  · exact List.suffix_cons _ _
  · exact List.suffix_refl _

theorem groups_colons (groups : List (List Char)) :
    groups.length ≤ (groups.flatMap (':' :: ·)).count ':' := by
  induction groups with
  | nil => exact Nat.le_refl 0
  | cons group more ih =>
    simp only [List.length_cons,List.flatMap_cons,List.cons_append,List.count_cons_self,
      List.count_append]
    omega

theorem grouped_trouble {first : List Char} {more : List (List Char)}
    (parts : ∀ part ∈ first :: more, Number.Fractional part) (some : more ≠ [])
    (failed : Number.fractionMagnitude (first ++ more.flatMap (':' :: ·)) = .error trouble) :
    trouble = .groupRange ∧ 174 ≤ more.length := by
  have unmarked := fun part inside => fractional_unmarked (parts part inside)
  obtain ⟨here,others⟩ := List.forall_mem_cons.mp unmarked
  have cut := Number.split_groups ':' first more here others
  have colon : ':' ∈ first ++ more.flatMap (':' :: ·) := by
    obtain ⟨part,rest,rfl⟩ := List.exists_cons_of_ne_nil some
    simp
  obtain ⟨values,read,same⟩ := Number.readAll_ok _ fun part inside => (parts part inside).value
  generalize first ++ more.flatMap (':' :: ·) = body at failed cut colon
  unfold Number.fractionMagnitude at failed
  split at failed
  · cases failed
  split at failed
  · cases failed
  rw [if_pos (List.contains_iff_mem.mpr colon),cut,read] at failed
  obtain ⟨rfl,long⟩ := Number.sumGroups_trouble 0 _ _ failed
  refine ⟨rfl,?_⟩
  simp only [List.length_reverse,same,List.length_cons] at long
  omega

theorem pointed_parts {init : List (List Char)} {run last : List Char} (some : run ≠ [])
    (digits : ∀ c ∈ run, Json.isDigit c = true) (each : ∀ group ∈ init ++ [last], Group group)
    (decimals : ∀ c ∈ behind, Json.isDigit c = true) :
    ∀ part ∈ run :: (init ++ [last ++ '.' :: behind]), Number.Fractional part := by
  obtain ⟨fronts,final⟩ := List.forall_mem_append.mp each
  obtain ⟨there,_,lastDigits⟩ := List.forall_mem_singleton.mp final
  have pointed : Number.Fractional (last ++ '.' :: (behind ++ [])) :=
    .point lastDigits (List.append_ne_nil_of_left_ne_nil there _) decimals .nothing
  rw [List.append_nil] at pointed
  refine List.forall_mem_cons.mpr ⟨.digits some digits,List.forall_mem_append.mpr
    ⟨fun group inside => ?_,List.forall_mem_singleton.mpr pointed⟩⟩
  exact .digits (fronts group inside).1 (fronts group inside).2.2

theorem grouped_invalid (form : sexagesimal (unsigned written.toList) = some ('.' :: behind))
    (decimals : ∀ c ∈ behind, isDigitOrLine c = true)
    (failed : Number.fractionMagnitude (tidy (unsigned written.toList)) = .error trouble) :
    InvalidScalar written trouble := by
  obtain ⟨groups,cut,some,each⟩ := sexagesimal_groups form
  obtain ⟨c,rest,begins,digit⟩ := sexagesimal_begins form
  obtain ⟨init,last,rfl⟩ := (List.eq_nil_or_concat' groups).resolve_left some
  have run := takeWhile_run (unsigned written.toList)
  have whole : tidy (unsigned written.toList) =
      withoutLine ((unsigned written.toList).takeWhile isDigitOrLine) ++
        (init ++ [last ++ '.' :: withoutLine behind]).flatMap (':' :: ·) := by
    calc tidy (unsigned written.toList) = _ := congrArg tidy cut
      _ = withoutLine _ ++ ((init ++ [last]).flatMap (':' :: ·) ++ '.' :: withoutLine behind) := by
          rw [tidy_append,tidy_append,tidy_run run,tidy_groups each,tidy_point,tidy_run decimals]
      _ = _ := by simp
  have parts := pointed_parts (frontDigits_some begins digit) (withoutLine_run run) each
    (withoutLine_run decimals)
  rw [whole] at failed
  obtain ⟨rfl,many⟩ := grouped_trouble parts (by simp) failed
  refine .groups ?_
  calc 174 ≤ (init ++ [last]).length := by simpa using many
    _ ≤ ((init ++ [last]).flatMap (':' :: ·)).count ':' := groups_colons _
    _ ≤ (unsigned written.toList).count ':' := by
        rw [cut,List.count_append,List.count_append]
        omega
    _ ≤ written.toList.count ':' := (unsigned_suffix _).sublist.count_le _

theorem fraction_failed (begins : unsigned written.toList = c :: rest)
    (front : c ≠ '-' ∧ c ≠ '+' ∧ c ≠ '_' ∧ c.toNat < 0x41)
    (failed : Number.ofFraction written = .error trouble) :
    Number.fractionMagnitude (tidy (unsigned written.toList)) = .error trouble := by
  have marks : ∀ mark ∈ ['-', '+'], mark.toNat < 0x41 := Number.listed (by decide)
  obtain ⟨negative,signed⟩ := signed_front begins ⟨front.1,front.2.1⟩
    (fun mark inside => tidy_cons (marks mark inside)) (tidy_cons front.2.2.2)
  unfold Number.ofFraction at failed
  rw [show Text.lower (Number.withoutLines written) = tidy written.toList from rfl,signed] at failed
  rw [begins,tidy_cons front.2.2.2]
  exact map_failed failed

theorem fraction_refuted (begins : unsigned written.toList = c :: rest)
    (front : c ≠ '-' ∧ c ≠ '+' ∧ c ≠ '_' ∧ c.toNat < 0x41)
    (failed : Number.ofFraction written = .error trouble) :
    ¬∃ value, Number.fractionMagnitude (tidy (unsigned written.toList)) = .ok value := by
  rintro ⟨value,made⟩
  rw [fraction_failed begins front failed] at made
  cases made

theorem infinite_value (looks : [".inf", ".Inf", ".INF"].contains (String.ofList s) = true) :
    (∃ rest, s = '.' :: rest) ∧ ∃ value, Number.fractionMagnitude (tidy s) = .ok value := by
  have words : ∀ word ∈ [".inf", ".Inf", ".INF"], word.toList.head? = some '.' ∧
      tidy word.toList = ['.', 'i', 'n', 'f'] := by decide +kernel
  obtain ⟨front,small⟩ := words _ (List.contains_iff_mem.mp looks)
  rw [String.toList_ofList] at front small
  refine ⟨List.head?_eq_some_iff.mp front,.infinite false,?_⟩
  rw [small]
  rfl

theorem fraction_invalid (looks : isFraction written.toList = true)
    (failed : Number.ofFraction written = .error trouble) : InvalidScalar written trouble := by
  have point : '.' ≠ '-' ∧ '.' ≠ '+' ∧ '.' ≠ '_' ∧ '.'.toNat < 0x41 := by decide
  unfold isFraction at looks
  simp only [Bool.or_eq_true] at looks
  rcases looks with (((infinite | undefined) | pointFirst) | pointLater) | sixty
  · obtain ⟨⟨rest,begins⟩,made⟩ := infinite_value infinite
    exact absurd made (fraction_refuted begins point failed)
  · have words : ∀ word ∈ [".nan", ".NaN", ".NAN"], (Number.ofFraction word).isOk = true := by
      decide +kernel
    rw [String.ofList_toList] at undefined
    have made := words _ (List.contains_iff_mem.mp undefined)
    rw [failed] at made
    cases made
  · split at pointFirst
    · rename_i c rest begins
      obtain ⟨digit,ends⟩ := Bool.and_eq_true_iff.mp pointFirst
      have whole : unsigned written.toList = [] ++ '.' :: (c :: rest) := by
        rw [begins]
        rfl
      have run : isDigitOrLine c = true := Bool.or_eq_true_iff.mpr (.inl digit)
      have form : Number.Fractional (tidy ([] ++ '.' :: (c :: rest))) :=
        point_fractional (List.forall_mem_nil _) (frontDigits_some rfl digit)
          (by rwa [List.dropWhile_cons_of_pos run])
      rw [← whole] at form
      exact absurd (fractional_value form) (fraction_refuted whole point failed)
    · cases pointFirst
  · obtain ⟨front,pointLater⟩ := Bool.and_eq_true_iff.mp pointLater
    obtain ⟨c,here,digit⟩ := (Option.any_eq_true ..).mp front
    obtain ⟨rest,begins⟩ := List.head?_eq_some_iff.mp here
    split at pointLater
    · rename_i behind left
      have whole : unsigned written.toList =
          (unsigned written.toList).takeWhile isDigitOrLine ++ '.' :: behind := by
        rw [← left,List.takeWhile_append_dropWhile]
      have form := point_fractional (takeWhile_run (unsigned written.toList))
        (List.append_ne_nil_of_left_ne_nil (frontDigits_some begins digit) _) pointLater
      rw [← whole] at form
      exact absurd (fractional_value form) (fraction_refuted begins (digit_front digit) failed)
    · cases pointLater
  · split at sixty
    · rename_i behind form
      obtain ⟨c,rest,begins,digit⟩ := sexagesimal_begins form
      exact grouped_invalid form (List.all_eq_true.mp sixty)
        (fraction_failed begins (digit_front digit) failed)
    · cases sixty

end fractions

theorem bool_value (looks : isBool written.toList = true) :
    ∃ value, Node.boolOf written = .ok value := by
  have words : ∀ word ∈ trueWords ++ falseWords,
      (Json.lookup (String.ofList (Text.lower word.toList)) Node.boolWords).isSome = true := by
    decide +kernel
  unfold isBool at looks
  rw [String.ofList_toList] at looks
  have listed : written ∈ trueWords ++ falseWords := by
    rcases Bool.or_eq_true_iff.mp looks with yes | no
    · exact List.mem_append_left _ (List.contains_iff_mem.mp yes)
    · exact List.mem_append_right _ (List.contains_iff_mem.mp no)
  obtain ⟨value,found⟩ := Option.isSome_iff_exists.mp (words written listed)
  refine ⟨.bool value,?_⟩
  unfold Node.boolOf
  simp only [found]

theorem moment_invalid (unbroken : Unbroken written) (looks : Moment.implied written.toList = true)
    (failed : Moment.check (withoutBreak written.toList) = .error trouble) :
    InvalidScalar written trouble := by
  rw [withoutBreak_unbroken unbroken] at failed
  unfold Moment.implied at looks
  split at looks
  · rename_i moment found
    unfold Moment.check at failed
    rw [found] at failed
    dsimp only at failed
    split at failed
    · rename_i what fault
      cases failed
      exact .moment found fault
    · cases failed
  · cases looks

-- A plain text without a tag has a value, unless it is malformed where it stands
-- or one of the texts that look like a number or a moment and are none.
theorem implied_invalid (unbroken : Unbroken written)
    (failed : (Node.scalar (implied written) written).plainValue = .error trouble) :
    trouble = .malformed ∨ InvalidScalar written trouble := by
  have looks := implied_form unbroken
  generalize implied written = tag at looks failed
  cases tag with
  | bool =>
    obtain ⟨value,made⟩ := bool_value looks
    exact nomatch failed.symm.trans made
  | whole => exact .inr (whole_invalid looks (map_failed failed))
  | fraction => exact .inr (fraction_invalid looks (map_failed failed))
  | moment => exact .inr (moment_invalid unbroken looks (map_failed failed))
  | null | text => cases failed
  | bytes =>
    change Node.octetsOf written = .error trouble at failed
    unfold Node.octetsOf at failed
    split at failed
    · cases failed
    · cases failed
      exact .inl rfl
  | _ =>
    cases failed
    exact .inl rfl

theorem plainValue_named (name : String) (node : Node) :
    (Node.named name node).plainValue = node.plainValue := by
  unfold Node.plainValue Node.momentOf
  rw [Node.tag,Node.textOf,Node.bare]

theorem untagged_invalid {root : Node} {text : List Char} (grown : root.Grown text)
    (untagged : '!' ∉ text) (stray : root.Stray trouble) :
    ∃ written, root.Holds (.scalar (implied written) written) ∧ InvalidScalar written trouble := by
  obtain ⟨other,part,holds,failed⟩ := stray
  have here := holds.grown grown
  induction here with
  | scalar kind =>
    rcases kind with marked | rfl | ⟨rfl,unbroken⟩
    · exact absurd marked untagged
    · cases failed
    · exact ⟨_,holds,(implied_invalid unbroken failed).resolve_left other⟩
  | sequence kind _ =>
    cases kind.resolve_left untagged
    cases failed
    exact absurd rfl other
  | mapping kind _ _ =>
    cases kind.resolve_left untagged
    cases failed
    exact absurd rfl other
  | named _ ih => exact ih holds.inner (plainValue_named .. ▸ failed)
  | enclosing =>
    cases failed
    exact absurd rfl other

-- What gives a text no value although it is not malformed: a number in an escape
-- or a version that is beyond its limit, a part with a tag of its own, or a plain
-- text that looks like a number or a moment and is none.
inductive Valueless (text : List Char) : Trouble → Prop where
  | limit (beyond : Beyond text trouble) : Valueless text trouble
  | tagged (marked : '!' ∈ text) (document : Node.ofText text = .ok (some root))
      (stray : root.Stray trouble) : Valueless text trouble
  | plain (document : Node.ofText text = .ok (some root))
      (holds : root.Holds (.scalar (implied written) written))
      (invalid : InvalidScalar written trouble) :
      Valueless text trouble

theorem read_valueless (failed : read text = .error trouble) (other : trouble ≠ .malformed) :
    Valueless text.toList trouble := by
  rcases read_trouble failed other with beyond | ⟨root,document,stray⟩
  · exact .limit beyond
  · by_cases marked : '!' ∈ text.toList
    · exact .tagged marked document stray
    · have grown := ofText_grown text.toList
      rw [document] at grown
      obtain ⟨written,holds,invalid⟩ := untagged_invalid (grown root rfl) marked stray
      exact .plain document holds invalid

theorem valueless_other (valueless : Valueless text trouble) : trouble ≠ .malformed := by
  cases valueless with
  | limit beyond =>
    cases beyond with
    | character => split <;> nofun
    | version => nofun
  | tagged _ _ stray => exact stray.1
  | plain _ _ invalid => cases invalid <;> nofun

end Markup.Yaml
