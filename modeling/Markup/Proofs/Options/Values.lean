import Mathlib.Data.String.Basic
import Mathlib.Data.List.Sort
import Markup.Options.Basic
import Markup.Proofs.Schema.Conformance

namespace Markup

namespace Options

def NameSet (words tags : List String) : Prop :=
  tags.Pairwise (· < ·) ∧ ∀ tag, tag ∈ tags ↔ tag ∈ words

def lowered (word : String) : String := String.ofList (word.toList.map lower)

-- The truth value that data stand for: itself, zero and one in either kind of
-- number, or one of the words.
inductive Truth : Json → Bool → Prop where
  | bool : Truth (.bool truth) truth
  | int : Truth (.int truth.toInt) truth
  | float (whole : value.toInt? = some truth.toInt) : Truth (.float value) truth
  | word (known : lowered word ∈ if truth then trueWords else falseWords) :
      Truth (.string word) truth

def textFaults : Json → List Problem
  | .string _ => []
  | _ => [⟨[],.notText⟩]

-- A whole number other than zero and one is no clear truth value; out of range
-- it is not taken for one at all.
def wholeFaults (least whole : Int) : List Problem :=
  if whole = 0 ∨ whole = 1 then []
  else if least ≤ whole ∧ whole < Int.pow 2 63 then [⟨[],.unclearBoolean⟩]
  else [⟨[],.notBoolean⟩]

def truthFaults : Json → List Problem
  | .bool _ => []
  | .int whole => wholeFaults (-Int.pow 2 63) whole
  | .float value =>
    match value.toInt? with
    | some whole => wholeFaults (-Int.pow 2 63 + 1) whole
    | none => [⟨[],.notBoolean⟩]
  | .string word =>
    if lowered word ∈ trueWords ∨ lowered word ∈ falseWords then [] else [⟨[],.unclearBoolean⟩]
  | _ => [⟨[],.notBoolean⟩]

def tagFaults : Json → List Problem
  | .array items =>
    items.zipIdx.flatMap fun (item,place) => (textFaults item).map (Problem.under (.index place))
  | _ => [⟨[],.notSet⟩]

def declarationFaults : Json → List Problem
  | .null => []
  | value => textFaults value

theorem mem_insertName {tag name : String} {names : List String} :
    tag ∈ insertName name names ↔ tag = name ∨ tag ∈ names := by
  induction names with
  | nil => simp [insertName]
  | cons first rest ih =>
    rw [insertName]
    split
    · simp
    · split
      · rename_i same
        simp [same]
      · simp only [List.mem_cons,ih]
        tauto

theorem insertName_ascending {name : String} {names : List String}
    (ascending : names.Pairwise (· < ·)) : (insertName name names).Pairwise (· < ·) := by
  induction names with
  | nil => simp [insertName]
  | cons first rest ih =>
    obtain ⟨least,others⟩ := List.pairwise_cons.mp ascending
    rw [insertName]
    split
    · rename_i below
      refine List.pairwise_cons.mpr ⟨fun tag found => ?_,ascending⟩
      rcases List.mem_cons.mp found with rfl | found
      · exact below
      · exact below.trans (least tag found)
    · split
      · exact ascending
      · rename_i notBelow differ
        have above : first < name := lt_of_le_of_ne (not_lt.mp notBelow) (Ne.symm differ)
        refine List.pairwise_cons.mpr ⟨fun tag found => ?_,ih others⟩
        rcases mem_insertName.mp found with rfl | found
        · exact above
        · exact least tag found

theorem nameSet_holds (words : List String) : NameSet words (nameSet words) := by
  induction words with
  | nil => exact ⟨.nil,fun _ => Iff.rfl⟩
  | cons word rest ih =>
    refine ⟨insertName_ascending ih.1,fun tag => ?_⟩
    rw [nameSet,List.foldr_cons,mem_insertName,List.mem_cons]
    exact or_congr_right (ih.2 tag)

theorem NameSet.unique {words words' tags tags' : List String} (one : NameSet words tags)
    (other : NameSet words' tags') (same : ∀ tag, tag ∈ words' ↔ tag ∈ words) : tags' = tags :=
  List.Pairwise.eq_of_mem_iff other.1 one.1 fun tag =>
    (other.2 tag).trans ((same tag).trans (one.2 tag).symm)

theorem nameSet_iff {words tags : List String} : nameSet words = tags ↔ NameSet words tags :=
  ⟨fun same => same ▸ nameSet_holds words,
    fun holds => holds.unique (nameSet_holds words) fun _ => Iff.rfl⟩

theorem nameSet_congr {words words' : List String} (same : ∀ tag, tag ∈ words' ↔ tag ∈ words) :
    nameSet words' = nameSet words :=
  (nameSet_holds words).unique (nameSet_holds words') same

theorem ofItems_eq (items : List Json) : Setting.ofItems items = items.map Setting.ofJson := by
  induction items with
  | nil => rfl
  | cons item rest ih => simp [Setting.ofItems,ih]

theorem text_ok {value : Json} {word : String} :
    text (Setting.ofJson value) = .ok word ↔ value = .string word := by
  cases value <;> simp [Setting.ofJson,text,Checked.fail]

theorem text_problems (value : Json) :
    (text (Setting.ofJson value)).problems = textFaults value := by
  cases value <;> rfl

theorem textsFrom_ok {items : List Setting} {place : Nat} {words : List String} :
    textsFrom place items = .ok words ↔ items.map text = words.map .ok := by
  induction items generalizing place words with
  | nil => cases words <;> simp [textsFrom]
  | cons item rest ih =>
    cases words with
    | nil =>
      simp only [textsFrom,Checked.map_ok]
      simp
    | cons word more =>
      simp only [textsFrom,Checked.map_ok,Prod.exists,Checked.both_ok,Checked.under_ok,ih,
        List.map_cons,List.cons.injEq]
      constructor
      · rintro ⟨_,_,⟨item,rest⟩,rfl,rfl⟩
        exact ⟨item,rest⟩
      · rintro ⟨item,rest⟩
        exact ⟨_,_,⟨item,rest⟩,rfl,rfl⟩

theorem textsFrom_problems (items : List Json) (place : Nat) :
    (textsFrom place (items.map Setting.ofJson)).problems =
      (items.zipIdx place).flatMap fun (item,place) =>
        (textFaults item).map (Problem.under (.index place)) := by
  induction items generalizing place with
  | nil => rfl
  | cons item rest ih =>
    simp only [List.map_cons,textsFrom,Checked.problems_map,Checked.problems_both,
      Checked.problems_under,text_problems,ih,List.zipIdx_cons,List.flatMap_cons]

theorem textsOf_ok {items : List Json} {words : List String} :
    (items.map Setting.ofJson).map text = words.map .ok ↔ items = words.map .string := by
  induction items generalizing words with
  | nil => cases words <;> simp
  | cons item rest ih =>
    cases words with
    | nil => simp
    | cons word more => simp only [List.map_cons,List.cons.injEq,text_ok,ih]

theorem names_ok {value : Json} {tags : List String} :
    names (Setting.ofJson value) = .ok tags ↔
      ∃ words : List String, value = .array (words.map .string) ∧ NameSet words tags := by
  cases value
  case array items =>
    simp only [Setting.ofJson,names,ofItems_eq,Checked.map_ok,textsFrom_ok,textsOf_ok,nameSet_iff,
      Json.array.injEq]
  all_goals simp [Setting.ofJson,names,Checked.fail]

theorem names_problems (value : Json) :
    (names (Setting.ofJson value)).problems = tagFaults value := by
  cases value
  case array items =>
    simp only [Setting.ofJson,names,ofItems_eq,Checked.problems_map,textsFrom_problems,
      tagFaults]
  all_goals rfl

theorem words_apart {word : String} (found : word ∈ trueWords) : word ∉ falseWords := by
  revert word
  decide

theorem wordValue_eq (word : String) :
    wordValue word =
      if lowered word ∈ falseWords then .ok false
      else if lowered word ∈ trueWords then .ok true
      else .fail .unclearBoolean := rfl

theorem wordValue_ok {word : String} {truth : Bool} :
    wordValue word = .ok truth ↔ lowered word ∈ if truth then trueWords else falseWords := by
  have apart : lowered word ∈ trueWords → lowered word ∉ falseWords := words_apart
  rw [wordValue_eq]
  by_cases no : lowered word ∈ falseWords
  · cases truth <;> simp_all
  · by_cases yes : lowered word ∈ trueWords <;> cases truth <;> simp_all [Checked.fail]

theorem wordValue_problems (word : String) :
    (wordValue word).problems = truthFaults (.string word) := by
  rw [wordValue_eq,truthFaults]
  by_cases no : lowered word ∈ falseWords
  · simp [no,Checked.problems]
  · by_cases yes : lowered word ∈ trueWords <;> simp [no,yes,Checked.problems,Checked.fail]

theorem wholeValue_ok {whole : Int} {truth : Bool} :
    wholeValue whole = .ok truth ↔ whole = truth.toInt := by
  rw [wholeValue]
  split
  · cases truth <;> simp_all
  · split
    · cases truth <;> simp_all
    · cases truth <;> simp_all [Checked.fail]

theorem within_ok {within : Prop} [Decidable within] {whole : Int} {truth : Bool}
    (small : whole = 0 ∨ whole = 1 → within) :
    (if within then wholeValue whole else .fail .notBoolean) = .ok truth ↔
      whole = truth.toInt := by
  split
  · exact wholeValue_ok
  · rename_i outside
    refine ⟨fun wrong => by simp [Checked.fail] at wrong,fun same => absurd (small ?_) outside⟩
    cases truth <;> simp_all

theorem within_problems {within : Prop} [Decidable within] {least whole : Int}
    (small : whole = 0 ∨ whole = 1 → within) (range : within ↔ least ≤ whole ∧ whole < Int.pow 2 63) :
    (if within then wholeValue whole else .fail .notBoolean : Checked Bool).problems =
      wholeFaults least whole := by
  rw [wholeFaults,← if_congr range rfl rfl]
  by_cases zero : whole = 0
  · simp [zero,small (.inl zero),wholeValue,Checked.problems]
  · by_cases one : whole = 1
    · simp [one,small (.inr one),wholeValue,Checked.problems]
    · simp only [zero,one,or_self,if_false,wholeValue]
      split <;> rfl

theorem flag_ok {value : Json} {truth : Bool} :
    flag (Setting.ofJson value) = .ok truth ↔ Truth value truth := by
  have bound : Int.pow 2 63 = 9223372036854775808 := by decide
  cases value with
  | null => exact ⟨nofun,nofun⟩
  | bool value =>
    refine ⟨fun same => ?_,fun | .bool => rfl⟩
    cases same
    exact .bool
  | int whole =>
    rw [Setting.ofJson,flag,within_ok (by rw [bound]; omega)]
    exact ⟨fun same => same ▸ .int,fun | .int => rfl⟩
  | float value =>
    rw [Setting.ofJson,flag]
    cases known : value.toInt? with
    | none =>
      refine ⟨nofun,fun | .float whole => ?_⟩
      rw [known] at whole
      cases whole
    | some whole =>
      rw [within_ok (by rw [bound]; omega)]
      refine ⟨fun same => .float (same ▸ known),fun | .float told => ?_⟩
      exact Option.some.inj (known.symm.trans told)
  | string word =>
    rw [Setting.ofJson,flag,wordValue_ok]
    exact ⟨.word,fun | .word known => known⟩
  | array items => exact ⟨nofun,nofun⟩
  | object fields => exact ⟨nofun,nofun⟩

theorem flag_problems (value : Json) :
    (flag (Setting.ofJson value)).problems = truthFaults value := by
  have bound : Int.pow 2 63 = 9223372036854775808 := by decide
  cases value with
  | int whole =>
    rw [Setting.ofJson,flag,truthFaults]
    exact within_problems (by rw [bound]; omega) Iff.rfl
  | float value =>
    rw [Setting.ofJson,flag,truthFaults]
    cases value.toInt? with
    | none => rfl
    | some whole => exact within_problems (by rw [bound]; omega) (by rw [bound]; omega)
  | string word => exact wordValue_problems word
  | null => rfl
  | bool value => rfl
  | array items => rfl
  | object fields => rfl

theorem optionalText_ok {value : Json} {doctype : Option String} :
    optionalText (Setting.ofJson value) = .ok doctype ↔
      value = .null ∧ doctype = none ∨ ∃ text, value = .string text ∧ doctype = some text := by
  cases value <;>
    simp [Setting.ofJson,optionalText,text,Checked.map,Checked.fail,eq_comm]

theorem optionalText_problems (value : Json) :
    (optionalText (Setting.ofJson value)).problems = declarationFaults value := by
  cases value <;> rfl

theorem map_told {f : α → β} {checked : Checked α} (told : checked ≠ .error []) :
    Checked.map f checked ≠ .error [] := by
  cases checked <;> simp_all [Checked.map]

theorem both_told {one : Checked α} {other : Checked β} (told : one ≠ .error [])
    (told' : other ≠ .error []) : Checked.both one other ≠ .error [] := by
  cases one <;> cases other <;> simp_all [Checked.both]

theorem under_told {step : Segment} {checked : Checked α} (told : checked ≠ .error []) :
    Checked.under step checked ≠ .error [] := by
  cases checked <;> simp_all [Checked.under]

theorem fail_told (cause : Cause) : (.fail cause : Checked α) ≠ .error [] := by
  simp [Checked.fail]

theorem text_told (value : Json) : text (Setting.ofJson value) ≠ .error [] := by
  cases value <;> exact nofun

theorem textsFrom_told (items : List Json) :
    ∀ place, textsFrom place (items.map Setting.ofJson) ≠ .error [] := by
  induction items with
  | nil => exact fun _ => nofun
  | cons item rest ih =>
    exact fun place => map_told (both_told (under_told (text_told item)) (ih (place + 1)))

theorem names_told (value : Json) : names (Setting.ofJson value) ≠ .error [] := by
  cases value
  case array items =>
    rw [Setting.ofJson,names,ofItems_eq]
    exact map_told (textsFrom_told items 0)
  all_goals exact fail_told _

theorem wholeValue_told (whole : Int) : wholeValue whole ≠ .error [] := by
  rw [wholeValue]
  split
  · exact nofun
  · split
    · exact nofun
    · exact fail_told _

theorem flag_told (value : Json) : flag (Setting.ofJson value) ≠ .error [] := by
  cases value with
  | bool value => exact nofun
  | int whole =>
    rw [Setting.ofJson,flag]
    split
    · exact wholeValue_told whole
    · exact fail_told _
  | float value =>
    rw [Setting.ofJson,flag]
    cases value.toInt? with
    | none => exact fail_told _
    | some whole =>
      dsimp only
      split
      · exact wholeValue_told whole
      · exact fail_told _
  | string word =>
    rw [Setting.ofJson,flag,wordValue_eq]
    split
    · exact nofun
    · split
      · exact nofun
      · exact fail_told _
  | null | array | object => exact fail_told _

theorem optionalText_told (value : Json) : optionalText (Setting.ofJson value) ≠ .error [] := by
  cases value <;> exact nofun

end Options

end Markup
