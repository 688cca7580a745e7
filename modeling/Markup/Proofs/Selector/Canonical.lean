import Mathlib.Data.List.DropRight
import Markup.Proofs.Action
import Markup.Proofs.Selector.Merging

namespace Markup

def Selector.Part.text (part : Selector.Part) : List Char :=
  '[' :: (part.name.toList ++ '=' :: (part.value.toList ++ [']']))

def Selector.text (selector : Selector) : String :=
  String.ofList (selector.tag.toList ++ selector.attributes.flatMap Selector.Part.text)

def Selector.Part.Trimmed (part : Selector.Part) : Prop :=
  part.name = "id" → Text.trim part.value.toList = part.value.toList

-- What can be read back from its written form.
structure Selector.Canonical (selector : Selector) : Prop where
  tag : Selector.TagText selector.tag.toList
  distinct : (selector.attributes.map Selector.Part.name).Nodup
  named : ∀ part ∈ selector.attributes, NameText part.name.toList
  valued : ∀ part ∈ selector.attributes, ']' ∉ part.value.toList
  trimmed : ∀ part ∈ selector.attributes, part.Trimmed

end Markup

namespace Markup.Text

theorem trim_trim (s : List Char) : trim (trim s) = trim s := by
  have lead : dropBlank (trim s) = trim s := by
    cases trimmed : trim s with
    | nil => rfl
    | cons c rest =>
      have front : c :: rest <+: s.dropWhile isBlank :=
        trimmed ▸ List.rdropWhile_prefix isBlank (l := s.dropWhile isBlank)
      obtain ⟨more,start⟩ := front
      have visible : isBlank c = false := by
        have stop := List.head_dropWhile_not isBlank (l := s) (by simp [←start])
        simpa [←start] using stop
      exact List.dropWhile_cons_of_neg (by simp [visible])
  calc trim (trim s)
      = (dropBlank (trim s)).rdropWhile isBlank := rfl
    _ = ((s.dropWhile isBlank).rdropWhile isBlank).rdropWhile isBlank := by rw [lead]; rfl
    _ = trim s := List.rdropWhile_idempotent isBlank _

end Markup.Text

namespace Markup.Selector

theorem bracket_text {part : Part} (named : NameText part.name.toList)
    (valued : ']' ∉ part.value.toList) (trimmed : part.Trimmed) : PartText part.text part := by
  have whole : (if String.ofList part.name.toList = "id" then Text.trim part.value.toList
      else part.value.toList) = part.value.toList := by
    split
    · rename_i id
      exact trimmed (by rwa [String.ofList_toList] at id)
    · rfl
  have written := PartText.pair named.1 named.2 valued
  rwa [whole,String.ofList_toList,String.ofList_toList] at written

theorem brackets_text {parts : List Part} (named : ∀ part ∈ parts, NameText part.name.toList)
    (valued : ∀ part ∈ parts, ']' ∉ part.value.toList) (trimmed : ∀ part ∈ parts, part.Trimmed) :
    PartsText (parts.flatMap Part.text) parts := by
  induction parts with
  | nil => exact .nil
  | cons part parts ih =>
    have first := bracket_text (named part List.mem_cons_self) (valued part List.mem_cons_self)
      (trimmed part List.mem_cons_self)
    have more := ih (fun other later => named other (List.mem_cons_of_mem _ later))
      (fun other later => valued other (List.mem_cons_of_mem _ later))
      (fun other later => trimmed other (List.mem_cons_of_mem _ later))
    have none : Blanks [] := by simp [Blanks]
    exact PartsText.cons first none more

theorem Canonical.split {selector : Selector} (canonical : selector.Canonical) :
    Split selector.text.toList selector.tag.toList selector.attributes := by
  have tail := brackets_text canonical.named canonical.valued canonical.trimmed
  have none : Blanks [] := by simp [Blanks]
  rw [text,String.toList_ofList]
  exact .intro none canonical.tag none tail

theorem Canonical.read {selector : Selector} (canonical : selector.Canonical) :
    Selector.read selector.text = .ok selector := by
  rw [read_split canonical.split,merge_distinct canonical.distinct,String.ofList_toList]

theorem part_trimmed {text : List Char} {part : Part} (written : PartText text part) :
    part.Trimmed := by
  intro id
  cases written with
  | id run => simpa using Text.trim_trim _
  | cls run =>
    have other : "class" ≠ "id" := by decide
    exact absurd id other
  | pair some named valued => simp only [if_pos id,String.toList_ofList,Text.trim_trim]

theorem split_trimmed {s name : List Char} {parts : List Part} (cut : Split s name parts) :
    ∀ part ∈ parts, part.Trimmed := by
  cases cut with
  | intro lead tag gap tail => exact parts_each part_trimmed tail

theorem merge_trimmed {parts : List Part} (trimmed : ∀ part ∈ parts, part.Trimmed) :
    ∀ part ∈ merge parts, part.Trimmed := by
  intro part inside id
  have last := ((merge_merges parts).sums part inside).last id
  have reached := List.mem_of_getLast? last
  obtain ⟨other,found,same⟩ := List.mem_map.mp reached
  obtain ⟨written,named⟩ := List.mem_filter.mp found
  have here := trimmed other written ((of_decide_eq_true named).trans id)
  rwa [same] at here

theorem read_canonical {s : String} {selector : Selector} (read : Selector.read s = .ok selector)
    (valued : ∀ part ∈ selector.attributes, ']' ∉ part.value.toList) : selector.Canonical := by
  obtain ⟨name,parts,cut⟩ := accepted_split read
  obtain ⟨tagged,named⟩ := split_texts cut
  cases (read_split cut).symm.trans read
  exact ⟨by simpa using tagged,(merge_merges parts).distinct,merge_names named,valued,
    merge_trimmed (split_trimmed cut)⟩

-- A canonical selector is read back as the element it was written from, and
-- every element that is read can be written this way unless a value of it holds
-- a closing bracket.
theorem canonical_round_trip (κ : Type) :
    (∀ (selector : Selector) (store : Store), selector.Canonical →
      parseElement (κ := κ) selector.text store = .ok selector.element store) ∧
    ∀ (s : String) (found : Node κ) (store after : Store),
      parseElement s store = .ok found after →
      ∃ selector : Selector, found = selector.element ∧
        ((∀ part ∈ selector.attributes, ']' ∉ part.value.toList) →
          selector.Canonical ∧ parseElement selector.text after = .ok found after) := by
  have back : ∀ (selector : Selector) (store : Store), selector.Canonical →
      parseElement (κ := κ) selector.text store = .ok selector.element store := by
    intro selector store canonical
    simp only [parseElement,canonical.read]
    rfl
  refine ⟨back,fun s found store after parsed => ?_⟩
  cases read : Selector.read s with
  | error fault => simp [parseElement,read] at parsed
  | ok selector =>
    simp only [parseElement,read,Action.pure_apply,EStateM.Result.ok.injEq] at parsed
    obtain ⟨rfl,_⟩ := parsed
    refine ⟨selector,rfl,fun valued => ?_⟩
    have canonical := read_canonical read valued
    exact ⟨canonical,back selector after canonical⟩

def thorny : Selector := ⟨"p",[⟨"id","a b"⟩,⟨"title","#.[="⟩]⟩

theorem thorny_back : thorny.text = "p[id=a b][title=#.[=]" ∧ thorny.Canonical ∧
    parseElement (κ := Nat) thorny.text {} = .ok thorny.element {} ∧
    parseElement (κ := Nat) " p #a b [title=#.[=]" {} = .ok thorny.element {} ∧
    ∃ selector : Selector, thorny.element (κ := Nat) = selector.element ∧
      ((∀ part ∈ selector.attributes, ']' ∉ part.value.toList) → selector.Canonical ∧
        parseElement (κ := Nat) selector.text {} = .ok thorny.element {}) := by
  have named : ∀ part ∈ thorny.attributes, NameText part.name.toList :=
    List.forall_mem_cons.mpr ⟨letters_name (by decide) (by decide),
      List.forall_mem_singleton.mpr (letters_name (by decide) (by decide))⟩
  have canonical : thorny.Canonical :=
    ⟨.intro (by decide) (by simp),by decide +kernel,named,by decide +kernel,
      by unfold Part.Trimmed; decide +kernel⟩
  have parsed : parseElement (κ := Nat) " p #a b [title=#.[=]" {} = .ok thorny.element {} := by
    have read : Selector.read " p #a b [title=#.[=]" = .ok thorny := by decide +kernel
    simp only [parseElement,read]
    rfl
  exact ⟨by decide +kernel,canonical,(canonical_round_trip Nat).1 thorny {} canonical,parsed,
    (canonical_round_trip Nat).2 _ _ _ _ parsed⟩

end Markup.Selector
