import Mathlib.Data.String.Basic
import Markup.Json.Printer
import Markup.Proofs.Json.Spelling

namespace Markup

namespace Json

inductive Plain : Json → Prop where
  | null : Plain .null
  | bool : Plain (.bool value)
  | string : Plain (.string value)
  | array (inside : ∀ item ∈ items, Plain item) : Plain (.array items)
  | object (single : (fields.map Prod.fst).Nodup) (inside : ∀ field ∈ fields, Plain field.2) :
      Plain (.object fields)

theorem hex_read : ∀ n < 0x20, (match Text.Quoted.hex 4 n with
    | [p,q,r,s] => hexFour? p q r s
    | _ => none) = some n := by decide

theorem escape_spelt (c : Char) : SpeltChar c (escape c) := by
  unfold escape
  split
  case h_8 noQuote noEscape _ _ _ _ _ =>
    split
    · rename_i control
      have digits := hex_read c.toNat control
      split at digits
      · rename_i four
        rw [four]
        exact .unit digits
      · cases digits
    · exact .plain (by omega) noQuote noEscape
  all_goals exact .short (by simp [shortEscapes])

theorem escapes_spelt (text : List Char) : SpeltText text (text.flatMap escape) := by
  induction text with
  | nil => exact .ended
  | cons c rest ih => exact .char (escape_spelt c) ih

theorem break_gap (layout : Layout) (depth : Nat) : Gap (layout.break depth) := by
  cases layout with
  | line => exact nofun
  | indented step =>
    intro c within
    rcases List.mem_cons.mp within with rfl | within
    · rfl
    · rw [List.eq_of_mem_replicate within]
      rfl

theorem colon_gap (layout : Layout) : ∃ blanks, layout.colon = ':' :: blanks ∧ Gap blanks := by
  cases layout with
  | line => exact ⟨[],rfl,nofun⟩
  | indented step => exact ⟨[' '],rfl,by simp [Gap,isSpace]⟩

variable {layout : Layout} {depth : Nat}

theorem writeItems_spelt {item : Json} {items : List Json} {closing : List Char}
    (each : ∀ value ∈ item :: items, Spelt value (write layout depth value))
    (gap : Gap closing) :
    SpeltItems (item :: items) (layout.break depth ++ write layout depth item ++
      writeItems layout depth items ++ closing) := by
  induction items generalizing item with
  | nil =>
    rw [writeItems,List.append_nil]
    exact .last (break_gap layout depth) (each item List.mem_cons_self) gap
  | cons next rest ih =>
    have others := ih fun value within => each value (List.mem_cons_of_mem _ within)
    have first : Gap [] := nofun
    simpa [writeItems] using
      SpeltItems.more (break_gap layout depth) (each item List.mem_cons_self) first others

theorem writeField_spelt {key : String} {value : Json}
    (inside : Spelt value (write layout depth value)) :
    SpeltField (key,value) (writeString key ++ layout.colon ++ write layout depth value) := by
  obtain ⟨blanks,colon,gap⟩ := colon_gap layout
  have first : Gap [] := nofun
  rw [colon]
  simpa [writeString] using SpeltField.field (escapes_spelt key.toList) first gap inside

theorem writeFields_spelt {key : String} {value : Json} {fields : List (String × Json)}
    {closing : List Char} (single : (((key,value) :: fields).map Prod.fst).Nodup)
    (each : ∀ field ∈ (key,value) :: fields, Spelt field.2 (write layout depth field.2))
    (gap : Gap closing) :
    SpeltFields ((key,value) :: fields) (layout.break depth ++ writeString key ++ layout.colon ++
      write layout depth value ++ writeFields layout depth fields ++ closing) := by
  have here : SpeltField (key,value) _ := writeField_spelt (each _ List.mem_cons_self)
  induction fields generalizing key value with
  | nil => simpa [writeFields] using SpeltFields.last (break_gap layout depth) here gap
  | cons next rest ih =>
    obtain ⟨fresh,single⟩ := List.nodup_cons.mp single
    have inner := fun field within => each field (List.mem_cons_of_mem _ within)
    have others := ih single inner (writeField_spelt (inner _ List.mem_cons_self))
    have between : Gap [] := nofun
    simpa [writeFields] using
      SpeltFields.more (break_gap layout depth) here between others fresh

theorem write_spelt {value : Json} (plain : Plain value) :
    ∀ depth, Spelt value (write layout depth value) := by
  induction plain with
  | null => exact fun _ => .null
  | @bool value => exact fun _ => by cases value <;> [exact .no; exact .yes]
  | string => exact fun _ => .string (escapes_spelt _)
  | @array items inside ih =>
    intro depth
    cases items with
    | nil =>
      have none : Gap [] := nofun
      exact Spelt.noItems none
    | cons item rest =>
      have spelt := writeItems_spelt (fun value within => ih value within (depth + 1))
        (break_gap layout depth)
      simpa [write] using Spelt.array spelt
  | @object fields single inside ih =>
    intro depth
    cases fields with
    | nil =>
      have none : Gap [] := nofun
      exact Spelt.noFields none
    | cons field rest =>
      obtain ⟨key,value⟩ := field
      have spelt := writeFields_spelt single (fun field within => ih field within (depth + 1))
        (break_gap layout depth)
      simpa [write] using Spelt.object spelt

theorem insertField_perm (name : String) (value : Json) (fields : List (String × Json)) :
    (insertField name value fields).Perm ((name,value) :: fields) := by
  induction fields with
  | nil => exact .refl _
  | cons field rest ih =>
    obtain ⟨key,other⟩ := field
    rw [insertField]
    split
    · exact (ih.cons _).trans (.swap _ _ _)
    · exact .refl _

theorem sortedItems_eq (items : List Json) : sortedItems items = items.map sorted := by
  induction items with
  | nil => rfl
  | cons item rest ih => rw [sortedItems,ih,List.map_cons]

theorem sortedFields_perm (fields : List (String × Json)) :
    (sortedFields fields).Perm (fields.map fun field => (field.1,field.2.sorted)) := by
  induction fields with
  | nil => exact .refl _
  | cons field rest ih =>
    exact (insertField_perm _ _ _).trans (ih.cons _)

theorem lookup_insertField (name key : String) (value : Json) (fields : List (String × Json)) :
    lookup key (insertField name value fields) =
      if name = key then some value else lookup key fields := by
  induction fields with
  | nil => rfl
  | cons field rest ih =>
    obtain ⟨first,other⟩ := field
    rw [insertField]
    split
    · rename_i below
      rw [lookup,lookup,ih]
      by_cases same : first = key
      · have apart : name ≠ key := fun equal => absurd (same.trans equal.symm) (ne_of_lt below)
        rw [if_pos same,if_neg apart,if_pos same]
      · rw [if_neg same,if_neg same]
    · rw [lookup]

theorem lookup_sortedFields (key : String) (fields : List (String × Json)) :
    lookup key (sortedFields fields) = (lookup key fields).map sorted := by
  induction fields with
  | nil => rfl
  | cons field rest ih =>
    obtain ⟨name,value⟩ := field
    rw [sortedFields,lookup_insertField,lookup,ih]
    split <;> rfl

theorem plain_sorted {value : Json} (plain : Plain value) : Plain value.sorted := by
  induction plain with
  | null => exact .null
  | bool => exact .bool
  | string => exact .string
  | array inside ih =>
    rw [sorted,sortedItems_eq]
    refine .array fun item within => ?_
    obtain ⟨old,among,rfl⟩ := List.mem_map.mp within
    exact ih old among
  | @object fields single inside ih =>
    have perm := sortedFields_perm fields
    refine .object ?_ fun field within => ?_
    · have names := perm.map Prod.fst
      rw [List.map_map] at names
      exact names.nodup_iff.mpr single
    · obtain ⟨old,among,rfl⟩ := List.mem_map.mp (perm.mem_iff.mp within)
      exact ih old among

-- A printed document spells the data with its fields in order, so these are read
-- from it, and it tells data apart that differ in more than the order of fields.

theorem document_wellFormed {value : Json} (plain : Plain value) :
    WellFormed value.sorted value.document := by
  have spelt : Spelt value.sorted (write (.indented 2) 0 value.sorted) :=
    write_spelt (plain_sorted plain) 0
  refine ⟨[],_,['\n'],?_,nofun,spelt,by simp [Gap,isSpace]⟩
  rw [document,String.toList_ofList,List.nil_append]

theorem document_read {value : Json} (plain : Plain value) :
    read value.document = some value.sorted :=
  wellFormed_read (document_wellFormed plain)

theorem document_inj {value other : Json} (plain : Plain value) (plain' : Plain other) :
    value.document = other.document ↔ value.sorted = other.sorted := by
  constructor
  · intro same
    exact Option.some.inj
      ((document_read plain).symm.trans ((congrArg read same).trans (document_read plain')))
  · intro same
    rw [document,document,same]

end Json

end Markup
