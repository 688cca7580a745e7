import Markup.Yaml.Layout

namespace Markup.Yaml

-- A number in the text that is beyond its limit: that of a character in an escape,
-- or one in a version with more digits than are converted.
inductive Beyond (text : List Char) : Trouble → Prop where
  | character (inside : '\\' :: 'U' :: rest <:+ text) (digits : Scalar.hexDigits 8 rest = some code)
      (large : 0x110000 ≤ code) :
      Beyond text (if code < 0x80000000 then .characterRange else .characterSize)
  | version (inside : ['Y', 'A', 'M', 'L'] ++ between ++ digits ++ rest <:+ text)
      (decimal : ∀ char ∈ digits, Json.isDigit char = true)
      (many : Number.mostDigits < digits.length) : Beyond text (.manyDigits digits.length)

def Uncut (text : List Char) (trouble : Trouble) : Prop := trouble = .malformed ∨ Beyond text trouble

theorem uncut_bad {text : List Char} : Uncut text .malformed := .inl rfl

def Cursor.Within (text : List Char) (c : Cursor) : Prop := c.rest <:+ text

section cursor

variable {text : List Char} {c : Cursor}

theorem step_rest (c : Cursor) : c.step.rest = c.rest.tail := by
  unfold Cursor.step
  split
  · rename_i ends
    rw [ends]
    rfl
  · rename_i char rest begins
    rw [begins]
    split
    · rfl
    · split <;> rfl

theorem skip_rest (c : Cursor) (n : Nat) : (c.skip n).rest = c.rest.drop n := by
  induction n generalizing c with
  | zero => rfl
  | succ n ih => rw [Cursor.skip,ih,step_rest,List.drop_tail]

theorem take_front (c : Cursor) (p : Char → Bool) : (c.take p).1 ++ (c.take p).2.rest = c.rest := by
  rw [Cursor.take,skip_rest]
  exact List.prefix_iff_eq_append.mp (List.takeWhile_prefix p)

theorem peek_rest (here : c.peek = some char) : c.rest = char :: c.step.rest := by
  obtain ⟨rest,begins⟩ := List.head?_eq_some_iff.mp here
  rw [step_rest,begins]
  rfl

namespace Cursor.Within

theorem step (within : c.Within text) : c.step.Within text := by
  rw [Within,step_rest]
  exact (List.tail_suffix c.rest).trans within

theorem skip (within : c.Within text) (n : Nat) : (c.skip n).Within text := by
  induction n generalizing c with
  | zero => exact within
  | succ n ih => exact ih within.step

theorem take (within : c.Within text) (p : Char → Bool) : (c.take p).2.Within text := within.skip _

theorem skipWhile (within : c.Within text) (p : Char → Bool) : (c.skipWhile p).Within text :=
  within.take p

theorem skipSpaces (within : c.Within text) : c.skipSpaces.Within text := within.skipWhile _

theorem skipLine (within : c.Within text) : c.skipLine.Within text := within.skipWhile _

theorem readBreak (within : c.Within text) : c.readBreak.2.Within text := by
  unfold Cursor.readBreak
  split
  · split
    · exact within.step
    · exact within
  · exact within

theorem comment (within : c.Within text) :
    (if c.peek = some '#' then c.skipLine else c).Within text := by
  split
  · exact within.skipLine
  · exact within

theorem mem (within : c.Within text) (here : c.peek = some char) : char ∈ text :=
  within.subset (List.mem_of_head? here)

end Cursor.Within

end cursor

def Reads (text : List Char) (fits : α → Prop) (found : Found α) : Prop :=
  match found with
  | .ok (value,c) => fits value ∧ c.Within text
  | .error trouble => Uncut text trouble

def Any (_ : α) : Prop := True

section reads

variable {text : List Char}

theorem reads_bad {fits : α → Prop} : Reads text fits bad := uncut_bad

theorem reads_any {value : α} {c : Cursor} (within : c.Within text) :
    Reads text Any (.ok (value,c)) := ⟨trivial,within⟩

theorem reads_map {fits : α → Prop} {wanted : β → Prop} {change : α × Cursor → β × Cursor}
    {found : Found α} (reads : Reads text fits found)
    (changed : ∀ value c, fits value → wanted (change (value,c)).1 ∧ (change (value,c)).2 = c) :
    Reads text wanted (found.map change) := by
  cases found with
  | error trouble => exact reads
  | ok result =>
    obtain ⟨value,c⟩ := result
    obtain ⟨fit,within⟩ := reads
    obtain ⟨right,same⟩ := changed value c fit
    refine ⟨right,?_⟩
    rwa [same]

theorem Reads.uncut {fits : α → Prop} {found : Found α} (reads : Reads text fits found)
    (failed : found = .error trouble) : Uncut text trouble := by
  rwa [failed] at reads

theorem Reads.within {fits : α → Prop} {found : Found α} (reads : Reads text fits found)
    (read : found = .ok (value,c)) : c.Within text := by
  rw [read] at reads
  exact reads.2

end reads

namespace Scalar

section scalars

variable {text : List Char} {c : Cursor}

theorem hexValue_lt {c : Char} (digit : Json.hexValue? c = some value) : value < 16 := by
  have codes : ∀ {low high : Char}, low ≤ c ∧ c ≤ high → c.toNat ≤ high.toNat :=
    fun range => UInt32.le_iff_toNat_le.mp (Char.le_def.mp range.2)
  unfold Json.hexValue? at digit
  split at digit
  · rename_i range
    have below : c.toNat ≤ 57 := codes range
    cases digit
    change c.toNat - 48 < 16
    omega
  · split at digit
    · rename_i range
      have below : c.toNat ≤ 102 := codes range
      cases digit
      change c.toNat - 97 + 10 < 16
      omega
    · split at digit
      · rename_i range
        have below : c.toNat ≤ 70 := codes range
        cases digit
        change c.toNat - 65 + 10 < 16
        omega
      · cases digit

theorem hexDigits_lt (n : Nat) : ∀ {rest : List Char} {code : Nat},
    hexDigits n rest = some code → code < Nat.pow 16 n := by
  induction n with
  | zero =>
    intro rest code found
    cases found
    exact Nat.one_pos
  | succ n ih =>
    intro rest code found
    cases rest with
    | nil => cases found
    | cons char rest =>
      simp only [hexDigits,Option.bind_eq_bind,Option.bind_eq_some_iff,Option.pure_def,
        Option.some.injEq] at found
      obtain ⟨high,first,low,more,rfl⟩ := found
      have below := ih more
      change high * Nat.pow 16 n + low < Nat.pow 16 n * 16
      generalize Nat.pow 16 n = unit at below ⊢
      have front : high * unit ≤ 15 * unit :=
        Nat.mul_le_mul_right _ (Nat.le_of_lt_succ (hexValue_lt first))
      omega

-- The number of a character has up to eight digits; only with eight of them it
-- may be too large.
theorem character_uncut {width : Nat} {char : Char} (wide : codeWidth? char = some width)
    (digits : hexDigits width rest = some code) (inside : '\\' :: char :: rest <:+ text) :
    match character code with
    | .ok _ => True
    | .error trouble => Uncut text trouble := by
  have bound := hexDigits_lt width digits
  unfold character
  by_cases small : code < 0x110000
  · rw [if_pos small]
    trivial
  · rw [if_neg small]
    have large : char = 'U' ∧ width = 8 := by
      unfold codeWidth? at wide
      split at wide <;> cases wide
      · have short : code < 0x100 := bound
        omega
      · have short : code < 0x10000 := bound
        omega
      · exact ⟨rfl,rfl⟩
    obtain ⟨rfl,rfl⟩ := large
    have beyond := Beyond.character inside digits (Nat.le_of_not_lt small)
    by_cases wide : code < 0x80000000
    · rw [if_pos wide] at beyond ⊢
      exact .inr beyond
    · rw [if_neg wide] at beyond ⊢
      exact .inr beyond

theorem quotedBreaks_reads (fuel : Nat) (within : c.Within text) :
    Reads text Any (quotedBreaks fuel c) := by
  induction fuel generalizing c with
  | zero => exact reads_bad
  | succ fuel ih =>
    unfold quotedBreaks
    split
    · exact reads_bad
    · dsimp only
      split
      · exact reads_map (ih (within.skipWhile _).readBreak) fun _ _ _ => ⟨trivial,rfl⟩
      · exact reads_any (within.skipWhile _)

theorem quotedSpaces_reads (fuel : Nat) (within : c.Within text) :
    Reads text Any (quotedSpaces fuel c) := by
  have taken := within.take fun char => char == ' ' || char == '\t'
  unfold quotedSpaces
  dsimp only
  split
  · exact reads_bad
  · split
    · refine reads_map (quotedBreaks_reads fuel taken.readBreak) fun more c _ => ⟨trivial,?_⟩
      dsimp only
      split
      · rfl
      · split <;> rfl
    · exact reads_any taken

theorem quotedText_reads (double : Bool) (fuel : Nat) (within : c.Within text) :
    Reads text Any (quotedText double fuel c) := by
  induction fuel generalizing c with
  | zero => exact reads_bad
  | succ fuel ih =>
    have taken := within.take plainInQuotes
    have following : ∀ (front : List Char) {next : Cursor}, next.Within text →
        Reads text Any ((quotedText double fuel next).map fun found =>
          ((c.take plainInQuotes).1 ++ (front ++ found.1),found.2)) :=
      fun _ _ within => reads_map (ih within) fun _ _ _ => ⟨trivial,rfl⟩
    unfold quotedText
    dsimp only
    split
    · exact reads_bad
    · split
      · exact following _ taken.step
      · split
        · exact following _ (taken.skip 2)
        · exact reads_any taken.step
    · split
      · exact reads_any taken.step
      · exact following _ taken.step
    · rename_i slash
      split
      · exact following _ taken.step
      · split
        · exact reads_bad
        · rename_i char here
          have inside : '\\' :: char :: (c.take plainInQuotes).2.step.step.rest <:+ text := by
            rw [←peek_rest here,←peek_rest slash]
            exact taken
          split
          · exact following _ taken.step.step
          · rename_i width _ wide
            split
            · exact reads_bad
            · rename_i code digits
              have known := character_uncut wide digits inside
              split
              · exact following _ (taken.step.step.skip width)
              · rename_i failed
                rwa [failed] at known
          · split
            · have more := quotedBreaks_reads fuel taken.step.readBreak
              split
              · rename_i read
                exact following _ (more.within read)
              · rename_i failed
                exact more.uncut failed
            · exact reads_bad
    · have spaces := quotedSpaces_reads fuel taken
      split
      · rename_i read
        exact following _ (spaces.within read)
      · rename_i failed
        exact spaces.uncut failed

theorem quoted_reads (double : Bool) (fuel : Nat) (within : c.Within text) :
    Reads text Any (quoted double fuel c) :=
  reads_map (quotedText_reads double fuel within) fun _ _ _ => ⟨trivial,rfl⟩

theorem indicators_reads (within : c.Within text) : Reads text Any (indicators c) := by
  have ending : ∀ (chomping : Chomping) (indent : Option Nat) {next : Cursor}, next.Within text →
      Reads text Any (if indent = some 0 then bad
        else if next.spaceAt 0 then .ok ((chomping,indent),next) else bad) := by
    intro chomping indent next within
    split
    · exact reads_bad
    · split
      · exact reads_any within
      · exact reads_bad
  unfold indicators
  dsimp only
  split
  · split
    · exact ending _ _ within.step.step
    · exact ending _ _ within.step
  · split
    · split
      · exact ending _ _ within.step.step
      · exact ending _ _ within.step
    · exact ending _ _ within

theorem ignoredLine_reads (within : c.Within text) : Reads text Any (ignoredLine c) := by
  have behind := within.skipSpaces.comment
  unfold ignoredLine
  dsimp only
  generalize (if c.skipSpaces.peek = some '#' then c.skipSpaces.skipLine else c.skipSpaces) = next
    at behind ⊢
  split
  · exact reads_any behind.readBreak
  · exact reads_bad

theorem leadingLines_within (fuel widest : Nat) (breaks : List Char) (within : c.Within text) :
    (leadingLines fuel widest breaks c).2.2.Within text := by
  induction fuel generalizing c widest breaks with
  | zero => exact within
  | succ fuel ih =>
    unfold leadingLines
    split
    · exact ih _ _ within.step
    · split
      · exact ih _ _ within.readBreak
      · exact within
    · exact within

theorem innerLines_within (indent fuel : Nat) (breaks : List Char) (within : c.Within text) :
    (innerLines indent fuel breaks c).2.Within text := by
  induction fuel generalizing c breaks with
  | zero => exact within
  | succ fuel ih =>
    have indented : (skipIndent indent c).Within text := within.skip _
    unfold innerLines
    dsimp only
    split
    · exact ih _ indented.readBreak
    · exact indented

theorem blockLines_within (folded : Bool) (indent fuel : Nat) (before : List Char)
    (within : c.Within text) : (blockLines folded indent fuel before c).2.2.2.Within text := by
  induction fuel generalizing c before with
  | zero => exact within
  | succ fuel ih =>
    have inner := innerLines_within indent fuel [] (within.take (!isBreak ·)).readBreak
    unfold blockLines
    split
    · dsimp only
      split
      · exact ih _ inner
      · exact inner
    · exact within

theorem block_reads (folded : Bool) (parent : Int) (fuel : Nat) (within : c.Within text) :
    Reads text Any (block folded parent fuel c) := by
  have header := indicators_reads within
  unfold block
  split
  · rename_i failed
    exact header.uncut failed
  · rename_i increment c read
    have line := ignoredLine_reads (header.within read)
    split
    · rename_i failed
      exact line.uncut failed
    · rename_i read'
      have begun := line.within read'
      cases increment with
      | some increment =>
        exact reads_any (blockLines_within folded _ fuel _ (innerLines_within _ fuel [] begun))
      | none =>
        exact reads_any (blockLines_within folded _ fuel _ (leadingLines_within fuel 0 [] begun))

theorem plainBreaks_within (fuel : Nat) (breaks : List Char) (within : c.Within text) :
    (plainBreaks fuel breaks c).2.Within text := by
  induction fuel generalizing c breaks with
  | zero => exact within
  | succ fuel ih =>
    unfold plainBreaks
    split
    · exact ih _ within.step
    · split
      · dsimp only
        split
        · exact within.readBreak
        · exact ih _ within.readBreak
      · exact within
    · exact within

theorem plainSpaces_within (fuel : Nat) (within : c.Within text) :
    (plainSpaces fuel c).after.Within text := by
  have taken := within.take (· == ' ')
  have behind := plainBreaks_within fuel [] taken.readBreak
  unfold plainSpaces
  dsimp only
  split
  · split
    · exact taken.readBreak
    · split
      · rename_i read
        rwa [read] at behind
      · rename_i read
        rw [read] at behind
        split
        · exact behind
        · split <;> exact behind
  · exact taken

theorem plainText_within (inFlow : Bool) (indent : Int) (fuel : Nat) (spaces : List Char)
    (newLine : Bool) (within : c.Within text) :
    (plainText inFlow indent fuel spaces newLine c).2.2.Within text := by
  induction fuel generalizing c spaces newLine with
  | zero => exact within
  | succ fuel ih =>
    unfold plainText
    dsimp only
    generalize (if c.peek = some '#' then [] else plainRun inFlow c.rest) = run
    have gap := plainSpaces_within fuel (within.skip run.length)
    split
    · exact within
    · split
      · exact gap
      · exact ih _ _ gap

theorem plainRun_unbroken (inFlow : Bool) (rest : List Char) :
    ∀ char ∈ plainRun inFlow rest, isBlankOrBreak char = false := by
  induction rest with
  | nil => simp [plainRun]
  | cons char rest ih =>
    intro other inside
    unfold plainRun at inside
    dsimp only at inside
    split at inside
    · cases inside
    · rename_i goes
      rcases List.mem_cons.mp inside with rfl | later
      · simp only [Bool.or_eq_true,not_or,Bool.not_eq_true] at goes
        exact goes.1.1
      · exact ih other later

theorem plainText_unbroken (inFlow : Bool) (indent : Int) (fuel : Nat) (spaces : List Char)
    (newLine : Bool) (c : Cursor) :
    ∀ char ∈ (plainText inFlow indent fuel spaces newLine c).1.getLast?, char ≠ '\n' := by
  induction fuel generalizing c spaces newLine with
  | zero => simp [plainText]
  | succ fuel ih =>
    unfold plainText
    dsimp only
    have apart : ∀ char ∈ (if c.peek = some '#' then [] else plainRun inFlow c.rest), char ≠ '\n' := by
      split
      · simp
      · intro char inside same
        have other := plainRun_unbroken inFlow c.rest char inside
        rw [same] at other
        cases other
    generalize (if c.peek = some '#' then [] else plainRun inFlow c.rest) = run at apart ⊢
    split
    · simp
    · rename_i filled
      have last : ∀ front : List Char, ∀ char ∈ (front ++ run).getLast?, char ≠ '\n' := by
        intro front char ends
        rw [List.getLast?_append] at ends
        rcases Option.or_eq_some_iff.mp ends with here | ⟨empty,_⟩
        · exact apart char (List.mem_of_getLast? here)
        · exact absurd (List.getLast?_eq_none_iff.mp empty) (by simpa using filled)
      split
      · exact last spaces
      · intro char ends
        rw [←List.append_assoc,List.getLast?_append] at ends
        rcases Option.or_eq_some_iff.mp ends with more | ⟨_,here⟩
        · exact ih _ _ _ char more
        · exact last spaces char here

end scalars

end Scalar

namespace Mark

section marks

variable {text : List Char} {c : Cursor}

theorem octets_within (fuel : Nat) (within : c.Within text) :
    ∀ {bytes next}, octets fuel c = some (bytes,next) → next.Within text := by
  induction fuel generalizing c with
  | zero =>
    intro bytes next read
    cases read
    exact within
  | succ fuel ih =>
    intro bytes next read
    unfold octets at read
    split at read
    · simp only [Option.bind_eq_bind,Option.bind_eq_some_iff,Option.pure_def,Option.some.injEq,
        Prod.mk.injEq,Prod.exists] at read
      obtain ⟨high,_,low,_,more,after,later,_,rfl⟩ := read
      exact ih (within.skip 3) later
    · cases read
      exact within

theorem uri_reads (fuel : Nat) (within : c.Within text) : Reads text Any (uri fuel c) := by
  induction fuel generalizing c with
  | zero => exact reads_bad
  | succ fuel ih =>
    unfold uri
    split
    · split
      · exact reads_bad
      · rename_i read
        split
        · exact reads_bad
        · exact reads_map (ih (octets_within fuel within read)) fun _ _ _ => ⟨trivial,rfl⟩
    · split
      · exact reads_map (ih within.step) fun _ _ _ => ⟨trivial,rfl⟩
      · exact reads_any within
    · exact reads_any within

theorem someUri_reads (fuel : Nat) (within : c.Within text) : Reads text Any (someUri fuel c) := by
  have read := uri_reads fuel within
  unfold someUri
  split
  · exact reads_bad
  · rename_i found
    exact reads_any (read.within found)
  · rename_i failed
    exact read.uncut failed

theorem handle_reads (within : c.Within text) : Reads text Any (handle c) := by
  unfold handle
  split
  · exact reads_bad
  · split
    · exact reads_any within.step
    · dsimp only
      split
      · exact reads_any (within.step.take isWordChar).step
      · exact reads_bad

theorem tag_reads {fits : Lexeme → Prop} (fit : ∀ handle suffix, fits (.tag handle suffix))
    (fuel : Nat) (within : c.Within text) : Reads text fits (tag fuel c) := by
  have ending : ∀ (handle : Option String) (suffix : String) {next : Cursor}, next.Within text →
      Reads text fits (if next.spaceAt 0 then .ok (.tag handle suffix,next) else bad) := by
    intro handle suffix next within
    split
    · exact ⟨fit handle suffix,within⟩
    · exact reads_bad
  unfold tag
  dsimp only
  split
  · have read := someUri_reads fuel (within.skip 2)
    split
    · rename_i found
      split
      · exact ending _ _ (read.within found).step
      · exact reads_bad
    · rename_i failed
      exact read.uncut failed
  · split
    · exact ending _ _ within.step
    · split
      · have named := handle_reads within
        split
        · rename_i c found
          have read := someUri_reads fuel (named.within found)
          split
          · rename_i found
            exact ending _ _ (read.within found)
          · rename_i failed
            exact read.uncut failed
        · rename_i failed
          exact named.uncut failed
      · have read := someUri_reads fuel within.step
        split
        · rename_i found
          exact ending _ _ (read.within found)
        · rename_i failed
          exact read.uncut failed

theorem name_reads (within : c.Within text) : Reads text Any (name c) := by
  unfold name
  dsimp only
  split
  · exact reads_bad
  · split
    · exact reads_any (within.take isWordChar)
    · exact reads_bad

def Versioned (text : List Char) (c : Cursor) : Prop :=
  ∃ between, ['Y', 'A', 'M', 'L'] ++ between ++ c.rest <:+ text

theorem Versioned.within (versioned : Versioned text c) : c.Within text := by
  obtain ⟨between,inside⟩ := versioned
  exact (List.suffix_append _ _).trans inside

theorem Versioned.later (versioned : Versioned text c) (later : c'.Within c.rest) :
    Versioned text c' := by
  obtain ⟨between,inside⟩ := versioned
  obtain ⟨passed,begins⟩ := later
  refine ⟨between ++ passed,?_⟩
  rwa [← List.append_assoc,List.append_assoc _ passed,begins]

theorem number_within (found : number c = .ok (value,c')) : c'.Within c.rest := by
  unfold number at found
  dsimp only at found
  split at found
  · cases found
  · split at found
    · cases found
    · cases found
      exact Cursor.Within.take (List.suffix_refl c.rest) _

theorem number_reads (versioned : Versioned text c) : Reads text Any (number c) := by
  unfold number
  dsimp only
  split
  · exact reads_bad
  · split
    · rename_i many
      obtain ⟨between,inside⟩ := versioned
      rw [← take_front c Json.isDigit,← List.append_assoc] at inside
      exact .inr (.version inside (List.all_eq_true.mp List.all_takeWhile) many)
    · exact reads_any (versioned.within.take _)

theorem version_reads (versioned : Versioned text c) : Reads text Any (version c) := by
  have here : c.Within c.rest := List.suffix_refl c.rest
  have major := number_reads (versioned.later here.skipSpaces)
  unfold version
  split
  · rename_i failed
    exact major.uncut failed
  · rename_i c' found
    have behind := (versioned.later here.skipSpaces).later (number_within found)
    have minor := number_reads (behind.later (Cursor.Within.step (List.suffix_refl c'.rest)))
    split
    · exact reads_bad
    · split
      · rename_i failed
        exact minor.uncut failed
      · rename_i found
        split
        · exact reads_any (minor.within found)
        · exact reads_bad

theorem tagHandle_reads (fuel : Nat) (within : c.Within text) :
    Reads text Any (tagHandle fuel c) := by
  have named := handle_reads within.skipSpaces
  unfold tagHandle
  split
  · rename_i failed
    exact named.uncut failed
  · rename_i found
    have read := someUri_reads fuel (named.within found).skipSpaces
    split
    · exact reads_bad
    · split
      · rename_i failed
        exact read.uncut failed
      · rename_i found
        split
        · exact reads_any (read.within found)
        · exact reads_bad

theorem directiveValue_reads (fuel : Nat) (word : List Char) (inside : word ++ c.rest <:+ text) :
    Reads text Any (directiveValue fuel word c) := by
  have within : c.Within text := (List.suffix_append word c.rest).trans inside
  unfold directiveValue
  split
  · rename_i named
    subst named
    exact version_reads ⟨[],inside⟩
  · split
    · exact tagHandle_reads fuel within
    · exact reads_any within.skipLine

theorem directive_reads {fits : Lexeme → Prop} (fit : ∀ value, fits (.directive value))
    (fuel : Nat) (within : c.Within text) : Reads text fits (directive fuel c) := by
  have inside : (c.take isWordChar).1 ++ (c.take isWordChar).2.rest <:+ text := by
    rw [take_front]
    exact within
  have valued := directiveValue_reads fuel (c.take isWordChar).1 inside
  unfold directive
  dsimp only
  split
  · exact reads_bad
  · split
    · rename_i failed
      exact valued.uncut failed
    · rename_i found
      have line := Scalar.ignoredLine_reads (valued.within found)
      split
      · rename_i failed
        exact line.uncut failed
      · rename_i found
        exact ⟨fit _,(line.within found)⟩

end marks

end Mark

end Markup.Yaml
