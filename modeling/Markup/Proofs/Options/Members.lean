import Markup.Proofs.Options.Values

namespace Markup

namespace Options

-- The members of the options in the order in which they are read, and the two
-- keys that data may give a member under.

inductive Member where
  | voidTags
  | selfCloseVoid
  | doctype
  deriving DecidableEq, Repr

namespace Member

def order : List Member := [.voidTags,.selfCloseVoid,.doctype]

def aliasKey : Member → String
  | .voidTags => "voidElements"
  | .selfCloseVoid => "selfCloseVoid"
  | .doctype => "doctype"

def nameKey : Member → String
  | .voidTags => "void_elements"
  | .selfCloseVoid => "self_close_void"
  | .doctype => "doctype"

theorem aliasKey_apart {member other : Member} (differ : other ≠ member) :
    other.aliasKey ≠ member.aliasKey ∧ other.aliasKey ≠ member.nameKey := by
  revert differ
  cases member <;> cases other <;> simp [aliasKey,nameKey]

theorem nameKey_apart {member other : Member} (differ : other ≠ member) :
    other.nameKey ≠ member.aliasKey ∧ other.nameKey ≠ member.nameKey := by
  revert differ
  cases member <;> cases other <;> simp [aliasKey,nameKey]

end Member

def effective (member : Member) (fields : List (String × Json)) : Option (String × Json) :=
  match Json.lookup member.aliasKey fields, Json.lookup member.nameKey fields with
  | some value, _ => some (member.aliasKey,value)
  | none, some value => some (member.nameKey,value)
  | none, none => none

def Member.Means : Member → Json → Options → Prop
  | .voidTags, value, options =>
    ∃ words : List String, value = .array (words.map .string) ∧ NameSet words options.voidTags
  | .selfCloseVoid, value, options => Truth value options.selfCloseVoid
  | .doctype, value, options =>
    value = .null ∧ options.doctype = none ∨
      ∃ text, value = .string text ∧ options.doctype = some text

def Member.Unset : Member → Options → Prop
  | .voidTags, options => options.voidTags = htmlVoidTags
  | .selfCloseVoid, options => options.selfCloseVoid = false
  | .doctype, options => options.doctype = none

def Member.Tells (member : Member) (options : Options) : Option (String × Json) → Prop
  | some (_,value) => member.Means value options
  | none => member.Unset options

def Member.faults : Member → Json → List Problem
  | .voidTags => tagFaults
  | .selfCloseVoid => truthFaults
  | .doctype => declarationFaults

def Member.faultsIn (member : Member) : Option (String × Json) → List Problem
  | some (key,value) => (member.faults value).map (Problem.under (.field key))
  | none => []

theorem lookup_settingsOf (key : String) (fields : List (String × Json)) :
    Json.lookup key (settingsOf fields) = (Json.lookup key fields).map Setting.ofJson := by
  induction fields with
  | nil => rfl
  | cons first rest ih =>
    obtain ⟨name,value⟩ := first
    rw [settingsOf,List.map_cons,Json.lookup,Json.lookup,← settingsOf,ih]
    split <;> rfl

theorem either_effective (member : Member) (fields : List (String × Json)) :
    either member.aliasKey member.nameKey (settingsOf fields) =
      (effective member fields).map fun (key,value) => (key,Setting.ofJson value) := by
  rw [either,effective,lookup_settingsOf,lookup_settingsOf]
  cases Json.lookup member.aliasKey fields with
  | some value => rfl
  | none => cases Json.lookup member.nameKey fields <;> rfl

def fieldIn (read : Setting → Checked α) (absent : α) (found : Option (String × Json)) :
    Checked α :=
  field (found.map fun (key,value) => (key,Setting.ofJson value)) read absent

theorem validate_eq (fields : List (String × Json)) :
    validate (.object fields) =
      .map (fun ((voidTags,selfCloseVoid),doctype) => ⟨voidTags,selfCloseVoid,doctype⟩)
        (.both
          (.both (fieldIn names htmlVoidTags (effective .voidTags fields))
            (fieldIn flag false (effective .selfCloseVoid fields)))
          (fieldIn optionalText none (effective .doctype fields))) := by
  simp only [fieldIn,← either_effective]
  rfl

theorem fieldIn_problems {read : Setting → Checked α} {absent : α} (member : Member)
    (reading : ∀ value, (read (Setting.ofJson value)).problems = member.faults value)
    (found : Option (String × Json)) :
    (fieldIn read absent found).problems = member.faultsIn found := by
  rcases found with _ | ⟨key,value⟩
  · rfl
  · exact (Checked.problems_under _ _).trans (congrArg _ (reading value))

theorem fieldIn_told {read : Setting → Checked α} {absent : α}
    (told : ∀ value, read (Setting.ofJson value) ≠ .error []) (found : Option (String × Json)) :
    fieldIn read absent found ≠ .error [] := by
  rcases found with _ | ⟨key,value⟩
  · exact nofun
  · exact under_told (told value)

theorem fieldIn_ok {read : Setting → Checked α} {absent result : α} {member : Member}
    {options : Options}
    (reading : ∀ value, read (Setting.ofJson value) = .ok result ↔ member.Means value options)
    (unset : absent = result ↔ member.Unset options) (found : Option (String × Json)) :
    fieldIn read absent found = .ok result ↔ member.Tells options found := by
  rcases found with _ | ⟨key,value⟩
  · exact Except.ok.injEq absent result ▸ unset
  · exact Checked.under_ok.trans (reading value)

theorem validate_ok {fields : List (String × Json)} {options : Options} :
    validate (.object fields) = .ok options ↔
      ∀ member : Member, member.Tells options (effective member fields) := by
  have voidTags : fieldIn names htmlVoidTags (effective .voidTags fields) = .ok options.voidTags ↔
      Member.voidTags.Tells options (effective .voidTags fields) :=
    fieldIn_ok (fun _ => names_ok) eq_comm _
  have selfCloseVoid : fieldIn flag false (effective .selfCloseVoid fields) =
      .ok options.selfCloseVoid ↔
        Member.selfCloseVoid.Tells options (effective .selfCloseVoid fields) :=
    fieldIn_ok (fun _ => flag_ok) eq_comm _
  have doctype : fieldIn optionalText none (effective .doctype fields) = .ok options.doctype ↔
      Member.doctype.Tells options (effective .doctype fields) :=
    fieldIn_ok (fun _ => optionalText_ok) eq_comm _
  rw [validate_eq,Checked.map_ok]
  constructor
  · rintro ⟨⟨⟨tags,close⟩,declaration⟩,read,rfl⟩
    obtain ⟨read,third⟩ := Checked.both_ok.mp read
    obtain ⟨first,second⟩ := Checked.both_ok.mp read
    intro member
    cases member
    · exact voidTags.mp first
    · exact selfCloseVoid.mp second
    · exact doctype.mp third
  · intro tells
    exact ⟨((options.voidTags,options.selfCloseVoid),options.doctype),
      Checked.both_ok.mpr ⟨Checked.both_ok.mpr ⟨voidTags.mpr (tells .voidTags),
        selfCloseVoid.mpr (tells .selfCloseVoid)⟩,doctype.mpr (tells .doctype)⟩,rfl⟩

theorem validate_problems (fields : List (String × Json)) :
    (validate (.object fields)).problems =
      Member.order.flatMap fun member => member.faultsIn (effective member fields) := by
  rw [validate_eq,Checked.problems_map,Checked.problems_both,Checked.problems_both,
    fieldIn_problems .voidTags names_problems,
    fieldIn_problems .selfCloseVoid flag_problems,
    fieldIn_problems .doctype optionalText_problems]
  simp [Member.order]

theorem validate_told (fields : List (String × Json)) :
    (validate (.object fields)).problems = [] ↔ ∃ options, validate (.object fields) = .ok options := by
  have told : validate (.object fields) ≠ .error [] := by
    rw [validate_eq]
    exact map_told (both_told (both_told (fieldIn_told names_told _) (fieldIn_told flag_told _))
      (fieldIn_told optionalText_told _))
  cases read : validate (.object fields) with
  | ok options => exact ⟨fun _ => ⟨options,rfl⟩,fun _ => rfl⟩
  | error problems =>
    refine ⟨fun none => absurd ?_ told,nofun⟩
    have empty : problems = [] := none
    rw [read,empty]

theorem validate_congr {fields others : List (String × Json)}
    (same : ∀ member, effective member others = effective member fields) :
    validate (.object others) = validate (.object fields) := by
  rw [validate_eq,validate_eq,same,same,same]

theorem tells_apart {fields : List (String × Json)}
    (told : ∀ member : Member, ∃ options, member.Tells options (effective member fields)) :
    ∃ options : Options, ∀ member : Member, member.Tells options (effective member fields) := by
  obtain ⟨one,first⟩ := told .voidTags
  obtain ⟨two,second⟩ := told .selfCloseVoid
  obtain ⟨three,third⟩ := told .doctype
  refine ⟨⟨one.voidTags,two.selfCloseVoid,three.doctype⟩,fun member => ?_⟩
  cases member
  · cases found : effective .voidTags fields <;> rw [found] at first <;> exact first
  · cases found : effective .selfCloseVoid fields <;> rw [found] at second <;> exact second
  · cases found : effective .doctype fields <;> rw [found] at third <;> exact third

def Member.Accepts (member : Member) (value : Json) : Prop := ∃ options, member.Means value options

theorem accepted_iff {fields : List (String × Json)} :
    (∃ options, validate (.object fields) = .ok options) ↔
      ∀ member key value, effective member fields = some (key,value) → member.Accepts value := by
  constructor
  · rintro ⟨options,read⟩ member key value found
    have tells := validate_ok.mp read member
    rw [found] at tells
    exact ⟨options,tells⟩
  · intro accepts
    have each : ∀ member : Member, ∃ options, member.Tells options (effective member fields) := by
      intro member
      cases found : effective member fields with
      | none => exact ⟨default,by cases member <;> rfl⟩
      | some place => exact accepts member place.1 place.2 found
    obtain ⟨options,tells⟩ := tells_apart each
    exact ⟨options,validate_ok.mpr tells⟩

def Unheeded (fields : List (String × Json)) (key : String) : Prop :=
  (∀ member : Member, key ≠ member.aliasKey ∧ key ≠ member.nameKey) ∨
  ∃ member : Member, key = member.nameKey ∧ key ≠ member.aliasKey ∧
    Json.lookup member.aliasKey fields ≠ none

theorem aliasKey_heeded (fields : List (String × Json)) (member : Member) :
    ¬ Unheeded fields member.aliasKey := by
  rintro (foreign | ⟨other,same,differ,_⟩)
  · exact (foreign member).1 rfl
  · by_cases own : member = other
    · exact differ (own ▸ rfl)
    · exact (Member.aliasKey_apart own).2 same

theorem nameKey_heeded {fields : List (String × Json)} {member : Member}
    (alone : Json.lookup member.aliasKey fields = none) : ¬ Unheeded fields member.nameKey := by
  rintro (foreign | ⟨other,same,_,beside⟩)
  · exact (foreign member).2 rfl
  · by_cases own : member = other
    · exact beside (own ▸ alone)
    · exact (Member.nameKey_apart own).2 same

theorem effective_idle {fields others : List (String × Json)}
    (agree : ∀ key, ¬ Unheeded fields key → Json.lookup key others = Json.lookup key fields)
    (member : Member) : effective member others = effective member fields := by
  rw [effective,effective,agree _ (aliasKey_heeded fields member)]
  cases found : Json.lookup member.aliasKey fields with
  | some value => rfl
  | none => rw [agree _ (nameKey_heeded found)]

structure Renames (old new : String) (before after : List (String × Json)) : Prop where
  moved : Json.lookup new after = Json.lookup old before
  fresh : Json.lookup new before = none
  gone : Json.lookup old after = none
  kept : ∀ key, key ≠ old → key ≠ new → Json.lookup key after = Json.lookup key before

def Member.Spells (member : Member) (old new : String) : Prop :=
  old = member.aliasKey ∧ new = member.nameKey ∨ old = member.nameKey ∧ new = member.aliasKey

def renamed (old new key : String) : String := if key = old then new else key

def relabel (old new : String) : Problem → Problem
  | ⟨.field key :: rest,cause⟩ => ⟨.field (renamed old new key) :: rest,cause⟩
  | problem => problem

def relabelled (old new : String) : Checked α → Checked α
  | .ok value => .ok value
  | .error problems => .error (problems.map (relabel old new))

theorem relabelled_map (old new : String) (f : α → β) (checked : Checked α) :
    relabelled old new (.map f checked) = .map f (relabelled old new checked) := by
  cases checked <;> rfl

theorem relabelled_both (old new : String) (one : Checked α) (other : Checked β) :
    relabelled old new (.both one other) =
      .both (relabelled old new one) (relabelled old new other) := by
  cases one <;> cases other <;> simp [relabelled,Checked.both]

theorem relabelled_under (old new key : String) (checked : Checked α) :
    relabelled old new (.under (.field key) checked) =
      .under (.field (renamed old new key)) checked := by
  cases checked with
  | ok value => rfl
  | error problems =>
    simp only [Checked.under,relabelled,List.map_map]
    rfl

theorem relabelled_fieldIn (old new : String) (read : Setting → Checked α) (absent : α)
    (found : Option (String × Json)) :
    relabelled old new (fieldIn read absent found) =
      fieldIn read absent (found.map fun (key,value) => (renamed old new key,value)) := by
  rcases found with _ | ⟨key,value⟩
  · rfl
  · exact relabelled_under old new key _

theorem Member.Spells.apart {old new : String} {member other : Member}
    (spells : member.Spells old new) (differ : other ≠ member) :
    (other.aliasKey ≠ old ∧ other.aliasKey ≠ new) ∧ other.nameKey ≠ old ∧ other.nameKey ≠ new := by
  have first := Member.aliasKey_apart differ
  have second := Member.nameKey_apart differ
  rcases spells with ⟨rfl,rfl⟩ | ⟨rfl,rfl⟩
  · exact ⟨first,second⟩
  · exact ⟨first.symm,second.symm⟩

theorem effective_renamed {before after : List (String × Json)} {old new : String}
    {member : Member} (spells : member.Spells old new) (renames : Renames old new before after)
    (other : Member) :
    effective other after =
      (effective other before).map fun (key,value) => (renamed old new key,value) := by
  obtain ⟨moved,fresh,gone,kept⟩ := renames
  by_cases own : other = member
  · subst own
    rcases spells with ⟨rfl,rfl⟩ | ⟨rfl,rfl⟩
    · rw [effective,effective,moved,fresh,gone]
      cases Json.lookup other.aliasKey before <;> simp [renamed]
    · rw [effective,effective,moved,fresh,gone]
      cases Json.lookup other.nameKey before <;> simp [renamed]
  · obtain ⟨first,second⟩ := spells.apart own
    rw [effective,effective,kept _ first.1 first.2,kept _ second.1 second.2]
    cases Json.lookup other.aliasKey before <;> cases Json.lookup other.nameKey before <;>
      simp [renamed,first,second]

theorem validate_renamed {before after : List (String × Json)} {old new : String}
    {member : Member} (spells : member.Spells old new) (renames : Renames old new before after) :
    validate (.object after) = relabelled old new (validate (.object before)) := by
  have moved := effective_renamed spells renames
  rw [validate_eq,validate_eq,relabelled_map,relabelled_both,relabelled_both,relabelled_fieldIn,
    relabelled_fieldIn,relabelled_fieldIn,moved,moved,moved]

theorem effective_some {fields : List (String × Json)} {member : Member} {key : String}
    {value : Json} (found : effective member fields = some (key,value)) :
    key = member.aliasKey ∨ key = member.nameKey ∧ key ≠ member.aliasKey ∧
      Json.lookup member.aliasKey fields = none := by
  rw [effective] at found
  split at found
  · cases found
    exact .inl rfl
  · rename_i absent present
    cases found
    refine .inr ⟨rfl,fun same => ?_,absent⟩
    rw [same,absent] at present
    cases present
  · cases found

theorem effective_set {fields : List (String × Json)} {member : Member} {key : String}
    {old : Json} (found : effective member fields = some (key,old)) (value : Json) :
    effective member (Json.setField key value fields) = some (key,value) := by
  rcases effective_some found with rfl | ⟨rfl,differ,absent⟩
  · rw [effective,Json.lookup_setField_self]
  · rw [effective,Json.lookup_setField_self,Json.lookup_setField_other value fields differ,absent]

theorem effective_set_other {fields : List (String × Json)} {member other : Member} {key : String}
    {old : Json} (found : effective member fields = some (key,old)) (value : Json)
    (differ : other ≠ member) :
    effective other (Json.setField key value fields) = effective other fields := by
  have first := Member.aliasKey_apart differ
  have second := Member.nameKey_apart differ
  rcases effective_some found with rfl | ⟨rfl,_,_⟩
  · rw [effective,effective,Json.lookup_setField_other value fields first.1.symm,
      Json.lookup_setField_other value fields second.1.symm]
  · rw [effective,effective,Json.lookup_setField_other value fields first.2.symm,
      Json.lookup_setField_other value fields second.2.symm]

theorem names_words (words : List String) :
    names (Setting.ofJson (.array (words.map .string))) = .ok (nameSet words) :=
  names_ok.mpr ⟨words,rfl,nameSet_holds words⟩

theorem validate_words {fields : List (String × Json)} {key : String} {words words' : List String}
    (found : effective .voidTags fields = some (key,.array (words.map .string)))
    (same : ∀ tag, tag ∈ words' ↔ tag ∈ words) :
    validate (.object (Json.setField key (.array (words'.map .string)) fields)) =
      validate (.object fields) := by
  rw [validate_eq,validate_eq,effective_set found,effective_set_other found _ (by decide),
    effective_set_other found _ (by decide),found]
  simp only [fieldIn,field,Option.map_some,names_words,nameSet_congr same]

def held (words : List String) (options : Options) : Settings :=
  [("void_elements",.set (words.map .text)),("self_close_void",.bool options.selfCloseVoid),
   ("doctype",match options.doctype with
      | some doctype => .text doctype
      | none => .null)]

theorem validate_ascending {data : Json} {options : Options} (read : validate data = .ok options) :
    options.voidTags.Pairwise (· < ·) := by
  cases data
  case object fields =>
    have tells := validate_ok.mp read .voidTags
    cases found : effective .voidTags fields with
    | none =>
      rw [found] at tells
      have unset : options.voidTags = htmlVoidTags := tells
      rw [unset]
      decide
    | some place =>
      rw [found] at tells
      obtain ⟨words,_,holds⟩ := tells
      exact holds.1
  all_goals cases read

theorem dump_read {options : Options} (ascending : options.voidTags.Pairwise (· < ·)) :
    validate options.dump = .ok options := by
  refine validate_ok.mpr fun member => ?_
  cases member with
  | voidTags => exact ⟨options.voidTags,rfl,ascending,fun _ => Iff.rfl⟩
  | selfCloseVoid => exact Truth.bool
  | doctype =>
    cases found : options.doctype with
    | none => exact .inl ⟨rfl,found⟩
    | some doctype => exact .inr ⟨doctype,rfl,found⟩

theorem held_read {options : Options} {words : List String}
    (ascending : options.voidTags.Pairwise (· < ·))
    (same : ∀ tag, tag ∈ words ↔ tag ∈ options.voidTags) :
    ofSettings (options.held words) = .ok options := by
  have tags : names (.set (words.map .text)) = .ok options.voidTags :=
    Checked.map_ok.mpr ⟨words,textsFrom_ok.mpr (by simp [text]),
      nameSet_iff.mpr ⟨ascending,fun tag => (same tag).symm⟩⟩
  have declared : field (either "doctype" "doctype" (options.held words)) optionalText none =
      .ok options.doctype := by
    cases found : options.doctype <;> simp only [held,found] <;> rfl
  change Checked.map _ (.both (.both (.under _ (names (.set (words.map .text))))
    (.ok options.selfCloseVoid)) (field (either "doctype" "doctype" (options.held words)) _ _)) = _
  rw [tags,declared]
  rfl

-- Options are read member by member, through either key. They are what the values
-- that count say, and what is wrong with these values is told in the order of the
-- members under the keys that are used. So a key may be renamed, idle keys may
-- stand beside the others, names may be listed in any order and more than once, and
-- options that were read are read again from what they are written out as.
theorem validation_memberwise (fields : List (String × Json)) :
    (∀ options, validate (.object fields) = .ok options ↔
      ∀ member : Member, member.Tells options (effective member fields)) ∧
    ((∃ options, validate (.object fields) = .ok options) ↔
      ∀ member key value, effective member fields = some (key,value) → member.Accepts value) ∧
    ((validate (.object fields)).problems = [] ↔
      ∃ options, validate (.object fields) = .ok options) ∧
    (validate (.object fields)).problems =
      Member.order.flatMap (fun member => member.faultsIn (effective member fields)) ∧
    (∀ {member : Member} {old new : String} {others : List (String × Json)},
      member.Spells old new → Renames old new fields others →
        validate (.object others) = relabelled old new (validate (.object fields))) ∧
    (∀ {others : List (String × Json)},
      (∀ key, ¬ Unheeded fields key → Json.lookup key others = Json.lookup key fields) →
        validate (.object others) = validate (.object fields)) ∧
    (∀ {key : String} {words words' : List String},
      effective .voidTags fields = some (key,.array (words.map .string)) →
      (∀ tag, tag ∈ words' ↔ tag ∈ words) →
        validate (.object (Json.setField key (.array (words'.map .string)) fields)) =
          validate (.object fields)) ∧
    ∀ {options : Options}, validate (.object fields) = .ok options →
      validate options.dump = .ok options ∧
      ∀ {words : List String}, (∀ tag, tag ∈ words ↔ tag ∈ options.voidTags) →
        ofSettings (options.held words) = .ok options := by
  refine ⟨fun _ => validate_ok,accepted_iff,validate_told fields,validate_problems fields,
    validate_renamed,fun agree => validate_congr (effective_idle agree),validate_words,
    fun read => ?_⟩
  have ascending := validate_ascending read
  exact ⟨dump_read ascending,held_read ascending⟩

def mixedFields : List (String × Json) :=
  [("self_close_void",.string "Yes"),
   ("voidElements",.array [.string "br",.string "a",.string "br"]),("void_elements",.int 1),
   ("theme",.null)]

theorem mixedFields_memberwise :
    validate (.object mixedFields) = .ok ⟨["a","br"],true,none⟩ ∧
    validate (.object (("selfCloseVoid",.string "Yes") :: mixedFields.tail)) =
      .ok ⟨["a","br"],true,none⟩ ∧
    validate (.object (mixedFields.take 2)) = .ok ⟨["a","br"],true,none⟩ ∧
    validate (.object (Json.setField "voidElements" (.array [.string "a",.string "br"])
      mixedFields)) = .ok ⟨["a","br"],true,none⟩ ∧
    ofSettings (held ["br","a"] ⟨["a","br"],true,none⟩) = .ok ⟨["a","br"],true,none⟩ := by
  obtain ⟨_,_,_,_,respelled,adding,listing,again⟩ := validation_memberwise mixedFields
  have read : validate (.object mixedFields) = .ok ⟨["a","br"],true,none⟩ := by decide +kernel
  have skip : ∀ {key other : String} {value : Json} {rest : List (String × Json)}, key ≠ other →
      Json.lookup key ((other,value) :: rest) = Json.lookup key rest :=
    fun differ => if_neg (Ne.symm differ)
  refine ⟨read,?_,?_,?_,?_⟩
  · have spells : Member.selfCloseVoid.Spells "self_close_void" "selfCloseVoid" := .inr ⟨rfl,rfl⟩
    have renames : Renames "self_close_void" "selfCloseVoid" mixedFields
        (("selfCloseVoid",.string "Yes") :: mixedFields.tail) :=
      ⟨rfl,rfl,rfl,fun key old new => (skip new).trans (skip old).symm⟩
    rw [respelled spells renames,read]
    rfl
  · refine (adding fun key heeded => ?_).trans read
    have beside : key ≠ "void_elements" := fun same =>
      heeded (.inr ⟨.voidTags,same,same ▸ by decide,nofun⟩)
    have foreign : key ≠ "theme" := fun same =>
      heeded (.inl fun member => by subst same; cases member <;> decide)
    by_cases first : key = "self_close_void"
    · subst first
      rfl
    · by_cases second : key = "voidElements"
      · subst second
        rfl
      · change Json.lookup key [_,_] = Json.lookup key [_,_,_,_]
        rw [skip first,skip second,skip first,skip second,skip beside,skip foreign]
  · have told : effective .voidTags mixedFields =
        some ("voidElements",.array (["br","a","br"].map .string)) := rfl
    have same : ∀ tag, tag ∈ ["a","br"] ↔ tag ∈ ["br","a","br"] := by simp
    exact (listing told same).trans read
  · refine (again read).2 fun tag => ?_
    simp only [List.mem_cons,List.not_mem_nil,or_false]
    exact or_comm

example :
    (validate (.object [("doctype",.int 5),("selfCloseVoid",.string "maybe"),
      ("void_elements",.array [.string "br",.null,.string "a",.int 1])])).problems =
      [⟨[.field "void_elements",.index 1],.notText⟩,⟨[.field "void_elements",.index 3],.notText⟩,
       ⟨[.field "selfCloseVoid"],.unclearBoolean⟩,⟨[.field "doctype"],.notText⟩] := by
  decide +kernel

end Options

end Markup
