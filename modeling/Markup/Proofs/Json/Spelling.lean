import Markup.Json.Reader

namespace Markup

namespace Json

-- How data without numbers may be spelt. Blanks stand where they like between
-- tokens, and a character of a text is written in one of several ways.

def Gap (blanks : List Char) : Prop := ∀ c ∈ blanks, isSpace c = true

def shortEscapes : List (Char × Char) :=
  [('"','"'),('\\','\\'),('/','/'),('b','\x08'),('f','\x0c'),('n','\n'),('r','\r'),('t','\t')]

inductive SpeltChar : Char → List Char → Prop where
  | plain (shown : 0x20 ≤ c.toNat) (noQuote : c ≠ '"') (noEscape : c ≠ '\\') : SpeltChar c [c]
  | short (known : (letter,c) ∈ shortEscapes) : SpeltChar c ['\\',letter]
  | unit (digits : hexFour? p q r s = some c.toNat) : SpeltChar c ['\\','u',p,q,r,s]
  | pair (high : hexFour? p q r s = some one) (low : hexFour? t v w x = some two)
      (joined : joinUnits? one two = some c) :
      SpeltChar c ['\\','u',p,q,r,s,'\\','u',t,v,w,x]

inductive SpeltText : List Char → List Char → Prop where
  | ended : SpeltText [] []
  | char (first : SpeltChar c front) (more : SpeltText cs back) :
      SpeltText (c :: cs) (front ++ back)

mutual
inductive Spelt : Json → List Char → Prop where
  | null : Spelt .null ['n','u','l','l']
  | yes : Spelt (.bool true) ['t','r','u','e']
  | no : Spelt (.bool false) ['f','a','l','s','e']
  | string (inside : SpeltText value.toList text) : Spelt (.string value) ('"' :: text ++ ['"'])
  | noItems (gap : Gap blanks) : Spelt (.array []) ('[' :: blanks ++ [']'])
  | array (inside : SpeltItems items text) : Spelt (.array items) ('[' :: text ++ [']'])
  | noFields (gap : Gap blanks) : Spelt (.object []) ('{' :: blanks ++ ['}'])
  | object (inside : SpeltFields fields text) : Spelt (.object fields) ('{' :: text ++ ['}'])
inductive SpeltItems : List Json → List Char → Prop where
  | last (before : Gap blanks) (item : Spelt value text) (behind : Gap blanks') :
      SpeltItems [value] (blanks ++ text ++ blanks')
  | more (before : Gap blanks) (item : Spelt value text) (behind : Gap blanks')
      (others : SpeltItems values rest) :
      SpeltItems (value :: values) (blanks ++ text ++ blanks' ++ ',' :: rest)
inductive SpeltField : String × Json → List Char → Prop where
  | field (name : SpeltText key.toList letters) (before : Gap blanks) (behind : Gap blanks')
      (item : Spelt value text) :
      SpeltField (key,value) ('"' :: letters ++ '"' :: blanks ++ ':' :: blanks' ++ text)
inductive SpeltFields : List (String × Json) → List Char → Prop where
  | last (before : Gap blanks) (member : SpeltField field text) (behind : Gap blanks') :
      SpeltFields [field] (blanks ++ text ++ blanks')
  | more (before : Gap blanks) (member : SpeltField field text) (behind : Gap blanks')
      (others : SpeltFields fields rest) (fresh : field.1 ∉ fields.map Prod.fst) :
      SpeltFields (field :: fields) (blanks ++ text ++ blanks' ++ ',' :: rest)
end

def WellFormed (value : Json) (text : String) : Prop :=
  ∃ before spelt behind, text.toList = before ++ spelt ++ behind ∧ Gap before ∧
    Spelt value spelt ∧ Gap behind

theorem skipSpace_gap {blanks : List Char} (gap : Gap blanks) (s : List Char) :
    skipSpace (blanks ++ s) = skipSpace s := by
  induction blanks with
  | nil => rfl
  | cons c rest ih =>
    have here : isSpace c = true := gap c List.mem_cons_self
    rw [List.cons_append,skipSpace,List.dropWhile_cons_of_pos here]
    exact ih fun c within => gap c (List.mem_cons_of_mem _ within)

theorem skipSpace_cons {c : Char} (mark : isSpace c = false) (rest : List Char) :
    skipSpace (c :: rest) = c :: rest := by
  simp [skipSpace,mark]

theorem readValue_gap {blanks : List Char} (gap : Gap blanks) (fuel : Nat) (s : List Char) :
    readValue fuel (blanks ++ s) = readValue fuel s := by
  cases fuel with
  | zero => rfl
  | succ fuel => rw [readValue,readValue,skipSpace_gap gap]

theorem unit_alone (c : Char) (low : Nat) : joinUnits? c.toNat low = none := by
  have valid : c.toNat < 0xd800 ∨ 0xdfff < c.toNat ∧ c.toNat < 0x110000 := c.valid
  exact if_neg (by omega)

theorem readString_unit {c p q r s : Char} (digits : hexFour? p q r s = some c.toNat)
    (rest : List Char) :
    readString ('\\' :: 'u' :: p :: q :: r :: s :: rest) =
      (readString rest).map fun (text,r) => (c :: text,r) := by
  by_cases paired : ∃ t v w x more, rest = '\\' :: 'u' :: t :: v :: w :: x :: more
  · obtain ⟨t,v,w,x,more,rfl⟩ := paired
    rw [readString,digits]
    cases hexFour? t v w x <;> simp [unit_alone,Char.ofNat_toNat]
  · rw [readString]
    · simp [digits,Char.ofNat_toNat]
    · exact fun t v w x more same => paired ⟨t,v,w,x,more,same⟩

theorem readString_char {c : Char} {front : List Char} (spelt : SpeltChar c front)
    (rest : List Char) :
    readString (front ++ rest) = (readString rest).map fun (s,r) => (c :: s,r) := by
  cases spelt with
  | plain shown noQuote noEscape =>
    have mark : ¬(c.toNat < 0x20 ∨ c = '\\') := fun wrong => wrong.elim (by omega) noEscape
    rw [List.singleton_append,readString,if_neg mark]
    -- The patterns in front of the last one begin with a quote or a backslash.
    · exact noQuote
    · exact fun _ _ _ _ _ _ _ _ _ escape _ => noEscape escape
    · exact fun _ _ _ _ _ escape _ => noEscape escape
    · exact fun _ _ escape _ => noEscape escape
  | short known =>
    simp only [shortEscapes,List.mem_cons,Prod.mk.injEq,List.not_mem_nil,or_false] at known
    rcases known with ⟨rfl,rfl⟩ | ⟨rfl,rfl⟩ | ⟨rfl,rfl⟩ | ⟨rfl,rfl⟩ | ⟨rfl,rfl⟩ | ⟨rfl,rfl⟩ |
      ⟨rfl,rfl⟩ | ⟨rfl,rfl⟩ <;> rfl
  | unit digits => exact readString_unit digits rest
  | pair high low joined =>
    simp [readString,high,low,joined]

theorem readString_text {value text : List Char} (spelt : SpeltText value text)
    (rest : List Char) : readString (text ++ '"' :: rest) = some (value,rest) := by
  induction spelt with
  | ended => rfl
  | char first more ih => rw [List.append_assoc,readString_char first,ih]; rfl

theorem spelt_begins {value : Json} {text : List Char} (spelt : Spelt value text) :
    ∃ c rest, text = c :: rest ∧ isSpace c = false ∧ c ≠ ']' := by
  cases spelt <;> exact ⟨_,_,rfl,by decide,by decide⟩

theorem speltItems_begin {items : List Json} {text : List Char} (spelt : SpeltItems items text)
    (rest : List Char) : ∃ c more, skipSpace (text ++ rest) = c :: more ∧ c ≠ ']' := by
  cases spelt with
  | last before item behind =>
    obtain ⟨c,more,rfl,mark,other⟩ := spelt_begins item
    simp only [List.append_assoc,skipSpace_gap before,List.cons_append,skipSpace_cons mark]
    exact ⟨_,_,rfl,other⟩
  | more before item behind others =>
    obtain ⟨c,more,rfl,mark,other⟩ := spelt_begins item
    simp only [List.append_assoc,skipSpace_gap before,List.cons_append,skipSpace_cons mark]
    exact ⟨_,_,rfl,other⟩

theorem speltFields_begin {fields : List (String × Json)} {text : List Char}
    (spelt : SpeltFields fields text) (rest : List Char) :
    ∃ more, skipSpace (text ++ rest) = '"' :: more := by
  cases spelt with
  | last before member behind =>
    cases member
    simp only [List.append_assoc,List.cons_append,skipSpace_gap before]
    exact ⟨_,rfl⟩
  | more before member behind others fresh =>
    cases member
    simp only [List.append_assoc,List.cons_append,skipSpace_gap before]
    exact ⟨_,rfl⟩

theorem setField_fresh {key : String} {value : Json} {fields : List (String × Json)}
    (fresh : key ∉ fields.map Prod.fst) : setField key value fields = fields ++ [(key,value)] := by
  induction fields with
  | nil => rfl
  | cons field rest ih =>
    obtain ⟨name,old⟩ := field
    simp only [List.map_cons,List.mem_cons,not_or] at fresh
    rw [setField,if_neg (Ne.symm fresh.1),ih fresh.2,List.cons_append]

def ReadsValues (fuel : Nat) : Prop :=
  ∀ {value : Json} {text : List Char} (rest : List Char), Spelt value text → text.length ≤ fuel →
    readValue fuel (text ++ rest) = some (value,rest)

def ReadsItems (fuel : Nat) : Prop :=
  ∀ {items : List Json} {text : List Char} (rest : List Char), SpeltItems items text →
    text.length < fuel → readItems fuel (text ++ ']' :: rest) = some (items,rest)

def ReadsFields (fuel : Nat) : Prop :=
  ∀ {fields before : List (String × Json)} {text : List Char} (rest : List Char),
    SpeltFields fields text → text.length < fuel →
      (∀ key ∈ fields.map Prod.fst, key ∉ before.map Prod.fst) →
        readFields fuel before (text ++ '}' :: rest) = some (before ++ fields,rest)

section step

variable {fuel : Nat} {value : Json} {text rest more blanks : List Char} {c : Char}

theorem readValue_string {letters : List Char} (inside : readString text = some (letters,rest)) :
    readValue (fuel + 1) ('"' :: text) = some (.string (String.ofList letters),rest) := by
  simp [readValue,skipSpace_cons,isSpace,inside]

theorem readValue_noItems (closed : skipSpace text = ']' :: rest) :
    readValue (fuel + 1) ('[' :: text) = some (.array [],rest) := by
  simp [readValue,skipSpace_cons,isSpace,closed]

theorem readValue_items (begins : skipSpace text = c :: more) (other : c ≠ ']') :
    readValue (fuel + 1) ('[' :: text) =
      (readItems fuel text).map fun (items,rest) => (.array items,rest) := by
  simp [readValue,skipSpace_cons,isSpace,begins,other]

theorem readValue_noFields (closed : skipSpace text = '}' :: rest) :
    readValue (fuel + 1) ('{' :: text) = some (.object [],rest) := by
  simp [readValue,skipSpace_cons,isSpace,closed]

theorem readValue_fields (begins : skipSpace text = '"' :: more) :
    readValue (fuel + 1) ('{' :: text) =
      (readFields fuel [] text).map fun (fields,rest) => (.object fields,rest) := by
  simp [readValue,skipSpace_cons,isSpace,begins]

theorem readsValues_succ (items : ReadsItems fuel) (fields : ReadsFields fuel) :
    ReadsValues (fuel + 1) := by
  intro value text rest spelt fits
  cases spelt with
  | null => rfl
  | yes => rfl
  | no => rfl
  | string inside =>
    simp only [List.cons_append,List.append_assoc,List.nil_append]
    rw [readValue_string (readString_text inside rest),String.ofList_toList]
  | noItems gap =>
    simp only [List.cons_append,List.append_assoc,List.nil_append]
    exact readValue_noItems (skipSpace_gap gap _)
  | array inside =>
    obtain ⟨c,more,begins,other⟩ := speltItems_begin inside (']' :: rest)
    have inner := items rest inside (by simp at fits; omega)
    simp only [List.cons_append,List.append_assoc,List.nil_append]
    rw [readValue_items begins other,inner,Option.map_some]
  | noFields gap =>
    simp only [List.cons_append,List.append_assoc,List.nil_append]
    exact readValue_noFields (skipSpace_gap gap _)
  | object inside =>
    obtain ⟨more,begins⟩ := speltFields_begin inside ('}' :: rest)
    have inner : readFields fuel [] (_ ++ '}' :: rest) = some ([] ++ _,rest) :=
      fields rest inside (by simp at fits; omega) (by simp)
    simp only [List.cons_append,List.append_assoc,List.nil_append]
    rw [readValue_fields begins,inner,Option.map_some,List.nil_append]

theorem readItems_item (values : ReadsValues fuel) (before : Gap blanks) (item : Spelt value text)
    (fits : text.length ≤ fuel) :
    readItems (fuel + 1) (blanks ++ text ++ rest) =
      match skipSpace rest with
      | ',' :: rest => do
        let (items,rest) ← readItems fuel rest
        pure (value :: items,rest)
      | ']' :: rest => pure ([value],rest)
      | _ => none := by
  have here := values rest item fits
  simp only [List.append_assoc,readItems,readValue_gap before,here]
  rfl

theorem readsItems_succ (values : ReadsValues fuel) (items : ReadsItems fuel) :
    ReadsItems (fuel + 1) := by
  intro members text rest spelt fits
  cases spelt with
  | last before item behind =>
    rw [List.append_assoc,readItems_item values before item (by simp at fits; omega),
      skipSpace_gap behind]
    rfl
  | more before item behind others =>
    have next := items rest others (by simp at fits; omega)
    rw [List.append_assoc,List.append_assoc,
      readItems_item values before item (by simp at fits; omega),skipSpace_gap behind]
    change (readItems fuel (_ ++ _)).bind _ = _
    rw [next]
    rfl

theorem readFields_field {key : String} {before : List (String × Json)}
    (values : ReadsValues fuel) (front : Gap blanks) (member : SpeltField (key,value) text)
    (fits : text.length ≤ fuel) :
    readFields (fuel + 1) before (blanks ++ text ++ rest) =
      match skipSpace rest with
      | ',' :: rest => readFields fuel (setField key value before) rest
      | '}' :: rest => some (setField key value before,rest)
      | _ => none := by
  cases member with
  | field name first second item =>
    have here := values rest item (by simp at fits; omega)
    simp only [List.append_assoc,List.cons_append,readFields,skipSpace_gap front]
    change (readString _).bind _ = _
    rw [readString_text name]
    simp only [Option.bind_some,skipSpace_gap first]
    change (readValue fuel (_ ++ _)).bind _ = _
    rw [readValue_gap second,here,String.ofList_toList]
    rfl

theorem readsFields_succ (values : ReadsValues fuel) (fields : ReadsFields fuel) :
    ReadsFields (fuel + 1) := by
  intro members before text rest spelt fits apart
  cases spelt with
  | last front member behind =>
    rw [List.append_assoc,readFields_field values front member (by simp at fits; omega),
      skipSpace_gap behind,setField_fresh (apart _ (by simp))]
    rfl
  | more front member behind others fresh =>
    rw [List.append_assoc,List.append_assoc,
      readFields_field values front member (by simp at fits; omega),skipSpace_gap behind,
      setField_fresh (apart _ (by simp))]
    change readFields fuel _ (_ ++ _) = _
    rw [fields rest others (by simp at fits; omega) ?_]
    · simp
    · intro key within
      simp only [List.map_append,List.map_cons,List.map_nil,List.mem_append,List.mem_singleton]
      rintro (old | rfl)
      · exact apart key (List.mem_cons_of_mem _ within) old
      · exact fresh within

end step

-- Whatever spells data is read as these data. The counter goes down with the
-- nesting and along the lists.
theorem spelt_reads (fuel : Nat) : ReadsValues fuel ∧ ReadsItems fuel ∧ ReadsFields fuel := by
  induction fuel with
  | zero =>
    refine ⟨fun rest spelt fits => ?_,fun _ _ fits => absurd fits (Nat.not_lt_zero _),
      fun _ _ fits => absurd fits (Nat.not_lt_zero _)⟩
    obtain ⟨c,more,rfl,_⟩ := spelt_begins spelt
    cases fits
  | succ fuel ih =>
    obtain ⟨values,items,fields⟩ := ih
    exact ⟨readsValues_succ items fields,readsItems_succ values items,
      readsFields_succ values fields⟩

theorem wellFormed_read {value : Json} {text : String} (wellFormed : WellFormed value text) :
    read text = some value := by
  obtain ⟨before,spelt,behind,same,front,inside,back⟩ := wellFormed
  have fits : spelt.length ≤ text.toList.length + 1 := by simp [same]; omega
  rw [read,same,List.append_assoc,readValue_gap front,
    (spelt_reads _).1 behind inside (by simp; omega)]
  have ended : skipSpace behind = [] := by simpa [skipSpace] using skipSpace_gap back []
  simp [ended]

end Json

end Markup
