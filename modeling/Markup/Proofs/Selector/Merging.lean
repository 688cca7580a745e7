import Mathlib.Data.List.Induction
import Markup.Proofs.Selector.Grammar

namespace Markup.Selector

def fused (first part : Part) : Part :=
  ⟨first.name,if part.name = "id" then part.value else first.value ++ " " ++ part.value⟩

def insertAll (merged parts : List Part) : List Part :=
  parts.foldl (fun merged part => insertPart part merged) merged

def valuesOf (name : String) (parts : List Part) : List String :=
  (parts.filter fun part => part.name = name).map Part.value

section inserting

variable {part other : Part} {merged rest : List Part}

theorem insertPart_cons (part first : Part) (rest : List Part) :
    insertPart part (first :: rest) =
      if first.name = part.name then fused first part :: rest
      else first :: insertPart part rest := rfl

theorem insertPart_absent (absent : part.name ∉ merged.map Part.name) :
    insertPart part merged = merged ++ [part] := by
  induction merged with
  | nil => rfl
  | cons first rest ih =>
    simp only [List.map_cons,List.mem_cons,not_or] at absent
    rw [insertPart_cons,if_neg (Ne.symm absent.1),ih absent.2,List.cons_append]

theorem insertPart_present (present : part.name ∈ merged.map Part.name) :
    ∃ front first rest, merged = front ++ first :: rest ∧ first.name = part.name ∧
      insertPart part merged = front ++ fused first part :: rest := by
  induction merged with
  | nil => simp at present
  | cons head tail ih =>
    rw [insertPart_cons]
    by_cases same : head.name = part.name
    · exact ⟨[],head,tail,rfl,same,if_pos same⟩
    · have later : part.name ∈ tail.map Part.name := by
        rcases List.mem_cons.mp present with here | later
        · exact absurd here.symm same
        · exact later
      obtain ⟨front,first,rest,rfl,found,inserted⟩ := ih later
      exact ⟨head :: front,first,rest,rfl,found,by rw [if_neg same,inserted,List.cons_append]⟩

theorem insertPart_names (present : part.name ∈ merged.map Part.name) :
    (insertPart part merged).map Part.name = merged.map Part.name := by
  obtain ⟨front,first,rest,rfl,_,inserted⟩ := insertPart_present present
  simp [inserted,fused]

theorem insertPart_name_mem (part : Part) (merged : List Part) (name : String) :
    name ∈ (insertPart part merged).map Part.name ↔
      name = part.name ∨ name ∈ merged.map Part.name := by
  by_cases present : part.name ∈ merged.map Part.name
  · rw [insertPart_names present]
    exact ⟨.inr,fun reach => reach.elim (fun same => same ▸ present) id⟩
  · simp [insertPart_absent present,or_comm]

theorem insertPart_fused (same : other.name = part.name) (merged : List Part) :
    insertPart part (insertPart other merged) = insertPart (fused other part) merged := by
  induction merged with
  | nil => simp [insertPart,fused,same]
  | cons first rest ih =>
    rw [insertPart_cons other,insertPart_cons (fused other part)]
    by_cases here : first.name = other.name
    · have names : first.name = part.name := here.trans same
      rw [if_pos here,if_pos (by exact here),insertPart_cons,if_pos (by exact names)]
      by_cases id : part.name = "id" <;> simp [fused,same,id,String.append_assoc]
    · have apart : ¬first.name = part.name := fun equal => here (equal.trans same.symm)
      rw [if_neg here,insertPart_cons,if_neg apart,ih,if_neg (by exact here)]

-- Parts of different names do not get in each other's way once there is a place
-- for the one of them.
theorem insertPart_comm (differs : other.name ≠ part.name) :
    ∀ {merged : List Part}, part.name ∈ merged.map Part.name →
      insertPart part (insertPart other merged) = insertPart other (insertPart part merged) := by
  intro merged present
  induction merged with
  | nil => simp at present
  | cons first rest ih =>
    rw [insertPart_cons other,insertPart_cons part first]
    by_cases here : first.name = part.name
    · have apart : ¬first.name = other.name := fun equal => differs (equal.symm.trans here)
      rw [if_pos here,if_neg apart,insertPart_cons,if_pos here,insertPart_cons,
        if_neg (by exact apart)]
    · have later : part.name ∈ rest.map Part.name := by
        simpa [Ne.symm here] using present
      by_cases there : first.name = other.name
      · rw [if_pos there,if_neg here,insertPart_cons,if_neg (by exact here),insertPart_cons,
          if_pos there]
      · rw [if_neg there,if_neg here,insertPart_cons,if_neg here,insertPart_cons,if_neg there,
          ih later]

end inserting

section merging

variable {part other first : Part} {parts merged more : List Part}

theorem merge_append_insertAll (parts more : List Part) :
    merge (parts ++ more) = insertAll (merge parts) more := by
  simp only [merge,insertAll,List.foldl_append]

theorem merge_snoc (parts : List Part) (part : Part) :
    merge (parts ++ [part]) = insertPart part (merge parts) := merge_append_insertAll parts [part]

-- What a part comes to that stands for all those of its name: an id has the last
-- of their values, anything else all of them with a space in between.
structure FusionOf (parts : List Part) (part : Part) : Prop where
  last : part.name = "id" → (valuesOf part.name parts).getLast? = some part.value
  joined : part.name ≠ "id" → part.value = " ".intercalate (valuesOf part.name parts)

-- What merging comes to, said without the list that it works on: one part for
-- each name, at the place where the name comes first.
structure Merges (parts merged : List Part) : Prop where
  names : merged.map Part.name = (parts.map Part.name).eraseDups
  distinct : (merged.map Part.name).Nodup
  sums : ∀ part ∈ merged, FusionOf parts part

theorem valuesOf_same (parts : List Part) (part : Part) :
    valuesOf part.name (parts ++ [part]) = valuesOf part.name parts ++ [part.value] := by
  simp [valuesOf]

theorem valuesOf_other {name : String} (differs : name ≠ part.name) (parts : List Part) :
    valuesOf name (parts ++ [part]) = valuesOf name parts := by
  simp [valuesOf,Ne.symm differs]

theorem valuesOf_ne_nil {name : String} (present : name ∈ parts.map Part.name) :
    valuesOf name parts ≠ [] := by
  obtain ⟨part,inside,rfl⟩ := List.mem_map.mp present
  refine List.ne_nil_of_mem (a := part.value) ?_
  exact List.mem_map_of_mem (List.mem_filter.mpr ⟨inside,by simp⟩)

theorem valuesOf_empty {name : String} (absent : name ∉ parts.map Part.name) :
    valuesOf name parts = [] := by
  simp only [valuesOf,List.map_eq_nil_iff,List.filter_eq_nil_iff]
  intro part inside same
  exact absent (List.mem_map.mpr ⟨part,inside,by simpa using same⟩)

theorem FusionOf.kept (sums : FusionOf parts other) (differs : other.name ≠ part.name) :
    FusionOf (parts ++ [part]) other := by
  have same := valuesOf_other differs parts
  exact ⟨fun id => same ▸ sums.last id,fun more => same ▸ sums.joined more⟩

theorem FusionOf.single (absent : part.name ∉ parts.map Part.name) :
    FusionOf (parts ++ [part]) part := by
  have values : valuesOf part.name (parts ++ [part]) = [part.value] := by
    rw [valuesOf_same,valuesOf_empty absent,List.nil_append]
  exact ⟨fun _ => by rw [values,List.getLast?_singleton],
    fun _ => by rw [values,String.intercalate_singleton]⟩

theorem FusionOf.fused (sums : FusionOf parts first) (present : first.name ∈ parts.map Part.name)
    (same : first.name = part.name) : FusionOf (parts ++ [part]) (fused first part) := by
  have values : valuesOf (Selector.fused first part).name (parts ++ [part]) =
      valuesOf first.name parts ++ [part.value] := by
    rw [show (Selector.fused first part).name = part.name from same,valuesOf_same,same]
  refine ⟨fun id => ?_,fun other => ?_⟩
  · have replaced : part.name = "id" := same.symm.trans id
    rw [values,List.getLast?_concat,Selector.fused,if_pos replaced]
  · have added : part.name ≠ "id" := fun id => other (same.trans id)
    rw [values,String.intercalate_append_of_ne_nil (valuesOf_ne_nil present) (by simp),
      String.intercalate_singleton,←sums.joined other,Selector.fused,if_neg added]

theorem eraseDups_old {names : List String} {name : String} (old : name ∈ names) :
    (names ++ [name]).eraseDups = names.eraseDups := by
  simp [List.eraseDups_append,List.removeAll,old]

theorem eraseDups_fresh {names : List String} {name : String} (fresh : name ∉ names) :
    (names ++ [name]).eraseDups = names.eraseDups ++ [name] := by
  simp [List.eraseDups_append,List.removeAll,fresh,List.eraseDups_cons]

theorem Merges.insert (merges : Merges parts merged) (part : Part) :
    Merges (parts ++ [part]) (insertPart part merged) := by
  have known : ∀ name, name ∈ merged.map Part.name ↔ name ∈ parts.map Part.name := by
    intro name
    rw [merges.names,List.mem_eraseDups]
  have names : (parts ++ [part]).map Part.name = parts.map Part.name ++ [part.name] := by simp
  by_cases present : part.name ∈ merged.map Part.name
  · have kept := insertPart_names present
    obtain ⟨front,first,rest,rfl,same,inserted⟩ := insertPart_present present
    have old : part.name ∈ parts.map Part.name := (known _).mp present
    refine ⟨?_,kept ▸ merges.distinct,?_⟩
    · rw [kept,merges.names,names,eraseDups_old old]
    · have distinct := merges.distinct
      simp only [List.map_append,List.map_cons,List.nodup_append,List.nodup_cons] at distinct
      obtain ⟨_,⟨behind,_⟩,apart⟩ := distinct
      rw [inserted]
      intro other inside
      rcases List.mem_append.mp inside with before | later
      · refine (merges.sums other (List.mem_append_left _ before)).kept ?_
        rw [←same]
        exact apart _ (List.mem_map_of_mem before) _ List.mem_cons_self
      · rcases List.mem_cons.mp later with rfl | after
        · exact (merges.sums first (by simp)).fused (same ▸ old) same
        · refine (merges.sums other (by simp [after])).kept fun equal => behind ?_
          rw [same,←equal]
          exact List.mem_map_of_mem after
  · have fresh : part.name ∉ parts.map Part.name := fun inside => present ((known _).mpr inside)
    rw [insertPart_absent present]
    refine ⟨?_,?_,?_⟩
    · rw [names,eraseDups_fresh fresh,List.map_append,merges.names,List.map_singleton]
    · rw [List.map_append]
      refine List.nodup_append.mpr ⟨merges.distinct,by simp,?_⟩
      rintro name old other new rfl
      exact present (List.mem_singleton.mp new ▸ old)
    · intro other inside
      rcases List.mem_append.mp inside with before | later
      · refine (merges.sums other before).kept fun equal => present ?_
        rw [←equal]
        exact List.mem_map_of_mem before
      · cases List.mem_singleton.mp later
        exact .single fresh

theorem merge_merges (parts : List Part) : Merges parts (merge parts) := by
  induction parts using List.reverseRecOn with
  | nil => exact ⟨rfl,.nil,by simp [merge]⟩
  | append_singleton parts part ih =>
    rw [merge_snoc]
    exact ih.insert part

theorem insertAll_comm (present : part.name ∈ merged.map Part.name)
    (apart : part.name ∉ more.map Part.name) :
    insertAll (insertPart part merged) more = insertPart part (insertAll merged more) := by
  induction more generalizing merged with
  | nil => rfl
  | cons other more ih =>
    simp only [List.map_cons,List.mem_cons,not_or] at apart
    have still := (insertPart_name_mem other merged part.name).mpr (.inr present)
    change insertAll (insertPart other (insertPart part merged)) more =
      insertPart part (insertAll (insertPart other merged) more)
    rw [←insertPart_comm (Ne.symm apart.1) present,ih still apart.2]

theorem insertAll_insertPart (distinct : (more.map Part.name).Nodup) :
    insertAll merged (insertPart part more) = insertPart part (insertAll merged more) := by
  induction more generalizing merged with
  | nil => rfl
  | cons first more ih =>
    obtain ⟨apart,others⟩ := List.nodup_cons.mp distinct
    by_cases same : first.name = part.name
    · have present := (insertPart_name_mem first merged part.name).mpr (.inl same.symm)
      rw [insertPart_cons,if_pos same]
      change insertAll (insertPart (fused first part) merged) more =
        insertPart part (insertAll (insertPart first merged) more)
      rw [←insertPart_fused same,insertAll_comm present (same ▸ apart)]
    · rw [insertPart_cons,if_neg same]
      exact ih others

theorem insertAll_merge (merged more : List Part) :
    insertAll merged (merge more) = insertAll merged more := by
  induction more using List.reverseRecOn with
  | nil => rfl
  | append_singleton more part ih =>
    rw [merge_snoc,insertAll_insertPart (merge_merges more).distinct,ih]
    simp only [insertAll,List.foldl_append,List.foldl_cons,List.foldl_nil]

theorem merge_distinct (distinct : (parts.map Part.name).Nodup) : merge parts = parts := by
  induction parts using List.reverseRecOn with
  | nil => rfl
  | append_singleton parts part ih =>
    rw [List.map_append,List.map_singleton] at distinct
    obtain ⟨before,_,apart⟩ := List.nodup_append.mp distinct
    rw [merge_snoc,ih before]
    exact insertPart_absent fun inside => apart _ inside _ List.mem_cons_self rfl

theorem merge_again (parts : List Part) : merge (merge parts) = merge parts :=
  merge_distinct (merge_merges parts).distinct

theorem merge_halves (parts more : List Part) :
    merge (parts ++ more) = merge (merge parts ++ merge more) := by
  rw [merge_append_insertAll,merge_append_insertAll,merge_again,insertAll_merge]

-- The policy for names that come more than once, over every list of parts, and
-- that it does not matter which of them have been merged before.
theorem collisions_merge (parts : List Part) :
    Merges parts (merge parts) ∧
      (∀ more, merge (parts ++ more) = merge (merge parts ++ merge more)) ∧
      merge (merge parts) = merge parts :=
  ⟨merge_merges parts,merge_halves parts,merge_again parts⟩

example : merge [⟨"class","a"⟩,⟨"id","x"⟩,⟨"class","b"⟩,⟨"id","y"⟩,⟨"class",""⟩] =
    [⟨"class","a b "⟩,⟨"id","y"⟩] := by decide +kernel

end merging

end Markup.Selector

namespace Markup

def NameText (s : List Char) : Prop :=
  s ≠ [] ∧ ∀ c ∈ s, Text.isAlphabetic c = true ∨ Text.isAsciiDigit c = true ∨ c = '-'

theorem letters_name {s : List Char} (some : s ≠ []) (letters : s.all Text.isAsciiLetter = true) :
    NameText s := by
  refine ⟨some,fun c inside => .inl ?_⟩
  simp [Text.isAlphabetic,List.all_eq_true.mp letters c inside]

theorem part_name {text : List Char} {part : Selector.Part}
    (written : Selector.PartText text part) : NameText part.name.toList := by
  cases written with
  | id => exact letters_name (by simp) (by simp; decide)
  | cls => exact letters_name (by simp) (by simp; decide)
  | pair some named => exact ⟨by simpa using some,by simpa using named⟩

theorem parts_each {holds : Selector.Part → Prop}
    (each : ∀ {text part}, Selector.PartText text part → holds part) {text : List Char}
    {parts : List Selector.Part} (written : Selector.PartsText text parts) :
    ∀ part ∈ parts, holds part := by
  induction written with
  | nil => simp
  | cons first gap more ih => exact List.forall_mem_cons.mpr ⟨each first,ih⟩

theorem split_texts {s name : List Char} {parts : List Selector.Part}
    (cut : Selector.Split s name parts) :
    Selector.TagText name ∧ ∀ part ∈ parts, NameText part.name.toList := by
  cases cut with
  | intro lead tag gap tail => exact ⟨tag,parts_each part_name tail⟩

theorem merge_names {parts : List Selector.Part}
    (named : ∀ part ∈ parts, NameText part.name.toList) :
    ∀ part ∈ Selector.merge parts, NameText part.name.toList := by
  intro part inside
  have known : part.name ∈ (Selector.merge parts).map Selector.Part.name :=
    List.mem_map_of_mem inside
  rw [(Selector.merge_merges parts).names,List.mem_eraseDups] at known
  obtain ⟨other,written,same⟩ := List.mem_map.mp known
  exact same ▸ named other written

end Markup
