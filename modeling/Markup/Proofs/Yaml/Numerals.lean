import Mathlib.Data.List.TakeWhile
import Markup.Yaml.Number

namespace Markup.Yaml.Number

theorem mem_between {low high c : Char} (least : low ≤ c) (most : c ≤ high) :
    c ∈ (List.range' low.toNat (high.toNat + 1 - low.toNat)).map Char.ofNat := by
  have least : low.toNat ≤ c.toNat := UInt32.le_iff_toNat_le.mp (Char.le_def.mp least)
  have most : c.toNat ≤ high.toNat := UInt32.le_iff_toNat_le.mp (Char.le_def.mp most)
  refine List.mem_map.mpr ⟨c.toNat,List.mem_range'_1.mpr ⟨least,by omega⟩,?_⟩
  exact Char.ofNat_toNat c

theorem listed {p : Char → Prop} [DecidablePred p] {s : List Char}
    (each : (s.all fun c => decide (p c)) = true) : ∀ c ∈ s, p c :=
  fun c inside => of_decide_eq_true (List.all_eq_true.mp each c inside)

def decimalChars : List Char := (List.range' 48 10).map Char.ofNat

def digitChars : List Char := "0123456789abcdefABCDEF".toList

theorem hexValue_chars {c : Char} (digit : (Json.hexValue? c).isSome) : c ∈ digitChars := by
  unfold Json.hexValue? at digit
  split at digit
  · rename_i range
    have decimals : ∀ c ∈ decimalChars, c ∈ digitChars := listed (by decide)
    exact decimals c (mem_between range.1 range.2)
  · split at digit
    · rename_i range
      have letters : ∀ c ∈ (List.range' 97 6).map Char.ofNat, c ∈ digitChars := listed (by decide)
      exact letters c (mem_between range.1 range.2)
    · split at digit
      · rename_i range
        have letters : ∀ c ∈ (List.range' 65 6).map Char.ofNat, c ∈ digitChars :=
          listed (by decide)
        exact letters c (mem_between range.1 range.2)
      · cases digit

theorem isDigit_chars {c : Char} (digit : Json.isDigit c = true) : c ∈ decimalChars := by
  obtain ⟨least,most⟩ := Bool.and_eq_true_iff.mp digit
  exact mem_between (of_decide_eq_true least) (of_decide_eq_true most)

def AllDigits (base : Nat) (s : List Char) : Prop := ∀ c ∈ s, (digit? base c).isSome

theorem digit_chars {c : Char} (digit : (digit? base c).isSome) : c ∈ digitChars := by
  obtain ⟨value,found⟩ := Option.isSome_iff_exists.mp digit
  exact hexValue_chars (Option.isSome_iff_exists.mpr ⟨value,(Option.filter_eq_some_iff.mp found).1⟩)

theorem allDigits_ten {s : List Char} (digits : ∀ c ∈ s, Json.isDigit c = true) :
    AllDigits 10 s := by
  have each : ∀ c ∈ decimalChars, (digit? 10 c).isSome := listed (by decide)
  exact fun c inside => each c (isDigit_chars (digits c inside))

def Plain (s : List Char) : Prop := ∀ c ∈ s, c.toNat < 128 ∧ isSpace c = false

theorem trim_plain (plain : Plain s) : trim (plainForm s) = s := by
  have ascii : (s.all fun c => c.toNat < 128) = true :=
    List.all_eq_true.mpr fun c inside => decide_eq_true (plain c inside).1
  have front (s : List Char) (plain : Plain s) : s.dropWhile isSpace = s := by
    cases s with
    | nil => rfl
    | cons c rest =>
      exact List.dropWhile_cons_of_neg (by simp [(plain c List.mem_cons_self).2])
  have behind : Plain s.reverse := fun c inside => plain c (List.mem_reverse.mp inside)
  unfold plainForm trim
  rw [if_pos ascii,front s plain,front s.reverse behind,List.reverse_reverse]

theorem readSign_digit {c : Char} (other : c ≠ '-' ∧ c ≠ '+') (rest : List Char) :
    Json.readSign (c :: rest) = (false,c :: rest) := by
  unfold Json.readSign
  split
  · rename_i same
    cases same
    exact absurd rfl other.1
  · rename_i same
    cases same
    exact absurd rfl other.2
  · rfl

theorem whole_digits (known : base ∈ [2,8,10,16]) (digits : AllDigits base s) :
    whole base s =
      if base = 10 ∧ mostDigits < s.length then .error (.manyDigits s.length)
      else if s.isEmpty then .error (.notWhole base "")
      else .ok (digitsValue base s) := by
  have chars : ∀ c ∈ s, c ∈ digitChars := fun c inside => digit_chars (digits c inside)
  have plain : Plain s := by
    have each : ∀ c ∈ digitChars, c.toNat < 128 ∧ isSpace c = false := listed (by decide)
    exact fun c inside => each c (chars c inside)
  have unsigned : Json.readSign s = (false,s) := by
    have each : ∀ c ∈ digitChars, c ≠ '-' ∧ c ≠ '+' := listed (by decide)
    cases s with
    | nil => rfl
    | cons c rest => exact readSign_digit (each c (chars c List.mem_cons_self)) rest
  have unmarked : skipMark base s = s := by
    have each : ∀ base ∈ [2,8,10,16], (digitChars.all fun c =>
        decide ((digit? base c).isSome → baseMark? base ≠ some c.toLower)) = true := by decide
    unfold skipMark
    split
    · rename_i c rest
      have inside : c ∈ '0' :: c :: rest := List.mem_cons_of_mem _ List.mem_cons_self
      exact if_neg (listed (each base known) c (chars c inside) (digits c inside))
    · rfl
  have taken : s.takeWhile (fun c => (digit? base c).isSome) = s := List.takeWhile_eq_self_iff.mpr digits
  unfold whole
  rw [trim_plain plain,unsigned]
  dsimp only
  rw [unmarked,taken]
  cases s with
  | nil => simp
  | cons c rest => simp

inductive Ending : List Char → Prop where
  | nothing : Ending []
  | exponent (signed : mark = '-' ∨ mark = '+') (some : digits ≠ [])
      (digit : ∀ c ∈ digits, Json.isDigit c = true) : Ending ('e' :: mark :: digits)

inductive Fractional : List Char → Prop where
  | digits (some : front ≠ []) (digit : ∀ c ∈ front, Json.isDigit c = true) : Fractional front
  | point (digit : ∀ c ∈ front, Json.isDigit c = true) (some : front ++ behind ≠ [])
      (decimal : ∀ c ∈ behind, Json.isDigit c = true) (ending : Ending rest) :
      Fractional (front ++ '.' :: (behind ++ rest))

section run

variable {s : List Char} {c : Char}

theorem takeWhile_run (digit : ∀ c ∈ s, Json.isDigit c = true) (ends : Json.isDigit c = false)
    (rest : List Char) : (s ++ c :: rest).takeWhile Json.isDigit = s := by
  rw [List.takeWhile_append_of_pos digit,List.takeWhile_cons_of_neg (by simp [ends]),
    List.append_nil]

theorem dropWhile_run (digit : ∀ c ∈ s, Json.isDigit c = true) (ends : Json.isDigit c = false)
    (rest : List Char) : (s ++ c :: rest).dropWhile Json.isDigit = c :: rest := by
  rw [List.dropWhile_append_of_pos digit,List.dropWhile_cons_of_neg (by simp [ends])]

theorem takeWhile_digits (digit : ∀ c ∈ s, Json.isDigit c = true) :
    s.takeWhile Json.isDigit = s := List.takeWhile_eq_self_iff.mpr digit

theorem dropWhile_digits (digit : ∀ c ∈ s, Json.isDigit c = true) :
    s.dropWhile Json.isDigit = [] := List.dropWhile_eq_nil_iff.mpr digit

end run

theorem Ending.run (ending : Ending rest) (digit : ∀ c ∈ s, Json.isDigit c = true) :
    (s ++ rest).takeWhile Json.isDigit = s ∧ (s ++ rest).dropWhile Json.isDigit = rest := by
  cases ending with
  | nothing =>
    rw [List.append_nil]
    exact ⟨takeWhile_digits digit,dropWhile_digits digit⟩
  | exponent => exact ⟨takeWhile_run digit (by decide) _,dropWhile_run digit (by decide) _⟩

theorem Ending.read (ending : Ending rest) : ∃ exponent, Json.readExponent rest = (exponent,[]) := by
  cases ending with
  | nothing => exact ⟨none,rfl⟩
  | @exponent mark digits signed some digit =>
    have read : ∃ negative, Json.readSign (mark :: digits) = (negative,digits) := by
      rcases signed with rfl | rfl
      · exact ⟨true,rfl⟩
      · exact ⟨false,rfl⟩
    obtain ⟨negative,read⟩ := read
    simp only [Json.readExponent,true_or,if_true,read,takeWhile_digits digit,
      dropWhile_digits digit]
    cases digits with
    | nil => exact absurd rfl some
    | cons c rest => exact ⟨_,rfl⟩

theorem Fractional.decimal (form : Fractional s) (negative : Bool) :
    ∃ value, decimal? negative s = some value := by
  cases form with
  | digits some digit =>
    unfold decimal?
    rw [takeWhile_digits digit,dropWhile_digits digit]
    exact ⟨_,if_neg (by simp [some])⟩
  | point digit some decimal ending =>
    obtain ⟨exponent,read⟩ := ending.read
    unfold decimal?
    rw [takeWhile_run digit (by decide),dropWhile_run digit (by decide)]
    simp only [(ending.run decimal).1,(ending.run decimal).2,read]
    exact ⟨_,if_neg (by simpa using some)⟩

def fractionChars : List Char := "0123456789.e-+".toList

theorem isDigit_fraction {c : Char} (digit : Json.isDigit c = true) : c ∈ fractionChars :=
  listed (by decide) c (isDigit_chars digit)

theorem Fractional.chars (form : Fractional s) : ∀ c ∈ s, c ∈ fractionChars := by
  cases form with
  | digits _ digit => exact fun c inside => isDigit_fraction (digit c inside)
  | point digit _ decimal ending =>
    refine List.forall_mem_append.mpr ⟨fun c inside => isDigit_fraction (digit c inside),?_⟩
    refine List.forall_mem_cons.mpr ⟨by decide,?_⟩
    refine List.forall_mem_append.mpr ⟨fun c inside => isDigit_fraction (decimal c inside),?_⟩
    cases ending with
    | nothing => exact nofun
    | exponent signed _ digit =>
      refine List.forall_mem_cons.mpr ⟨by decide,List.forall_mem_cons.mpr ⟨?_,?_⟩⟩
      · rcases signed with rfl | rfl <;> decide
      · exact fun c inside => isDigit_fraction (digit c inside)

theorem readSign_run {c : Char} (digit : Json.isDigit c = true) (rest : List Char) :
    Json.readSign (c :: rest) = (false,c :: rest) := by
  have each : ∀ c ∈ decimalChars, c ≠ '-' ∧ c ≠ '+' := listed (by decide)
  exact readSign_digit (each c (isDigit_chars digit)) rest

theorem Fractional.unsigned (form : Fractional s) : Json.readSign s = (false,s) := by
  cases form with
  | digits some digit =>
    cases s with
    | nil => exact absurd rfl some
    | cons c rest => exact readSign_run (digit c List.mem_cons_self) rest
  | @point front behind rest digit some decimal ending =>
    cases front with
    | nil => exact readSign_digit (by decide) _
    | cons c more => exact readSign_run (digit c List.mem_cons_self) _

theorem Fractional.value (form : Fractional s) : ∃ value, fraction s = .ok value := by
  have plain : Plain s := by
    have each : ∀ c ∈ fractionChars, c.toNat < 128 ∧ isSpace c = false := listed (by decide)
    exact fun c inside => each c (form.chars c inside)
  obtain ⟨value,found⟩ := form.decimal false
  unfold fraction
  rw [trim_plain plain,form.unsigned]
  dsimp only
  rw [found]
  split
  · exact ⟨_,rfl⟩
  · split <;> exact ⟨_,rfl⟩

theorem split_groups (mark : Char) (first : List Char) (more : List (List Char))
    (unmarked : mark ∉ first) (others : ∀ group ∈ more, mark ∉ group) :
    Text.split mark (first ++ more.flatMap (mark :: ·)) = first :: more := by
  induction more generalizing first with
  | nil =>
    induction first with
    | nil => rfl
    | cons c rest ih =>
      have other := List.ne_and_not_mem_of_not_mem_cons unmarked
      have same : (c == mark) = false := beq_false_of_ne other.1.symm
      simp only [List.flatMap_nil,List.append_nil] at ih ⊢
      simp only [Text.split,same,ih other.2]
  | cons group more deeper =>
    induction first with
    | nil =>
      have behind := deeper group (others group List.mem_cons_self)
        fun group inside => others group (List.mem_cons_of_mem _ inside)
      simp only [List.flatMap_cons,List.nil_append,List.cons_append,Text.split,beq_self_eq_true,
        behind]
    | cons c rest ih =>
      have other := List.ne_and_not_mem_of_not_mem_cons unmarked
      have same : (c == mark) = false := beq_false_of_ne other.1.symm
      simp only [List.cons_append,Text.split,same,ih other.2]

theorem readAll_ok {read : List Char → Except Trouble α} (parts : List (List Char))
    (each : ∀ part ∈ parts, ∃ value, read part = .ok value) :
    ∃ values, readAll read parts = .ok values ∧ values.length = parts.length := by
  induction parts with
  | nil => exact ⟨[],rfl,rfl⟩
  | cons part rest ih =>
    obtain ⟨value,found⟩ := each part List.mem_cons_self
    obtain ⟨values,others,same⟩ := ih fun part inside => each part (List.mem_cons_of_mem _ inside)
    refine ⟨value :: values,?_,by simp [same]⟩
    unfold readAll
    rw [found,others]
    rfl

theorem sixty_finite (below : power < 174) : ∃ negative significand exponent,
    Binary64.ofInt (Nat.pow 60 power) = .finite negative significand exponent := by
  have known : ∀ power < 174, (Binary64.ofInt (Nat.pow 60 power)).toInt?.isSome = true := by
    decide +kernel
  have whole := known power below
  cases made : Binary64.ofInt (Nat.pow 60 power) with
  | finite negative significand exponent => exact ⟨_,_,_,rfl⟩
  | infinite negative =>
    rw [made] at whole
    cases whole
  | undefined =>
    rw [made] at whole
    cases whole

theorem sumGroups_trouble (power : Nat) (groups : List Binary64) (sum : Binary64)
    (failed : sumGroups (Nat.pow 60 power) sum groups = .error trouble) :
    trouble = .groupRange ∧ 174 < power + groups.length := by
  induction groups generalizing power sum with
  | nil => cases failed
  | cons group more ih =>
    unfold sumGroups at failed
    split at failed
    · obtain ⟨same,long⟩ := ih (power + 1) _ failed
      exact ⟨same,by simp only [List.length_cons]; omega⟩
    · rename_i infinite
      cases failed
      refine ⟨rfl,?_⟩
      by_contra short
      simp only [List.length_cons] at short
      have below : power < 174 := by omega
      obtain ⟨negative,significand,exponent,finite⟩ := sixty_finite below
      exact infinite negative significand exponent finite

end Markup.Yaml.Number
