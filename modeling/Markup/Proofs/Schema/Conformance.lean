import Markup.Node.Dump
import Markup.Schema.Data

namespace Markup

variable {κ : Type}

def Attr.isStatic : Attr κ → Bool
  | .fixed .. => true
  | .driven .. | .named .. => false

mutual
def Node.isStatic : Node κ → Bool
  | .element _ attributes children => attributes.all Attr.isStatic && Node.allStatic children
  | .text _ | .raw _ | .comment _ => true
  | .fragment children => Node.allStatic children
  | .deferred _ | .sequence _ | .foreign _ => false
def Node.allStatic : List (Node κ) → Bool
  | [] => true
  | node :: rest => node.isStatic && Node.allStatic rest
end

theorem allStatic_iff {nodes : List (Node κ)} :
    Node.allStatic nodes = true ↔ ∀ node ∈ nodes, node.isStatic = true := by
  induction nodes with
  | nil => simp [Node.allStatic]
  | cons node rest ih => simp [Node.allStatic,ih]

namespace Checked

theorem map_ok {f : α → β} {checked : Checked α} {b : β} :
    map f checked = .ok b ↔ ∃ a, checked = .ok a ∧ f a = b := by
  cases checked <;> simp [map]

theorem both_ok {one : Checked α} {other : Checked β} {a : α} {b : β} :
    both one other = .ok (a,b) ↔ one = .ok a ∧ other = .ok b := by
  cases one <;> cases other <;> simp [both]

theorem under_ok {step : Segment} {checked : Checked α} {a : α} :
    under step checked = .ok a ↔ checked = .ok a := by
  cases checked <;> simp [under]

theorem all_ok {items : List (Checked α)} {values : List α} :
    all items = .ok values ↔ items = values.map .ok := by
  induction items generalizing values with
  | nil => cases values <;> simp [all]
  | cons first rest ih =>
    cases values with
    | nil =>
      simp only [all,map_ok]
      simp
    | cons value more =>
      simp only [all,map_ok,Prod.exists,both_ok,ih,List.map_cons,List.cons.injEq]
      constructor
      · rintro ⟨_,_,⟨rfl,rfl⟩,rfl,rfl⟩
        exact ⟨rfl,rfl⟩
      · rintro ⟨rfl,rfl⟩
        exact ⟨_,_,⟨rfl,rfl⟩,rfl,rfl⟩

end Checked

namespace Schema

inductive ListedUnder (name : String) (fields : Fields) : List Json → Prop where
  | given (found : Json.lookup name fields = some (.array items)) : ListedUnder name fields items
  | absent (missing : Json.lookup name fields = none) : ListedUnder name fields []

def fieldNames (kind : String) : List String :=
  if kind = "element" then ["kind","tag","attributes","children"]
  else if kind = "fragment" then ["kind","children"]
  else if kind = "attribute" then ["kind","name","value"]
  else if kind ∈ ["text","raw","comment"] then ["kind","value"]
  else []

def listNames : List String := ["attributes","children"]

def namesIn (fields : Fields) : List String :=
  match Json.lookup "kind" fields with
  | some (.string kind) => fieldNames kind
  | _ => []

mutual
-- Data without the fields that its kind has not, and with an empty list for each
-- list that it leaves out, at every level.
def trimmed : Json → Json
  | .object fields => .object (trimmedFields (namesIn fields) fields)
  | .array items => .array (trimmedItems items)
  | .null => .null
  | .bool value => .bool value
  | .int value => .int value
  | .float value => .float value
  | .string value => .string value
def trimmedItems : List Json → List Json
  | [] => []
  | item :: rest => trimmed item :: trimmedItems rest
def trimmedFields : List String → Fields → Fields
  | wanted, [] => (wanted.filter (· ∈ listNames)).map fun name => (name,.array [])
  | wanted, (key,value) :: rest =>
    if key ∈ wanted then (key,trimmed value) :: trimmedFields (wanted.erase key) rest
    else trimmedFields wanted rest
end

def listIn (name : String) (read : Json → Checked α) (fields : Fields) : Checked (List α) :=
  match Json.lookup name fields with
  | none => .ok []
  | some data => .under (.field name) (listOf read data)

def leafMakers : List (String × (String → Node κ)) :=
  [("text",.text),("raw",.raw),("comment",.comment)]

inductive ReadsOneLevel (fields : Fields) : Node κ → Prop where
  | leaf (known : (kind,make) ∈ leafMakers)
      (chosen : Json.lookup "kind" fields = some (.string kind))
      (value : Json.lookup "value" fields = some (.string text)) : ReadsOneLevel fields (make text)
  | element (chosen : Json.lookup "kind" fields = some (.string "element"))
      (tag : Json.lookup "tag" fields = some (.string name))
      (pairs : listIn "attributes" attrOf fields = .ok attributes)
      (inside : listIn "children" nodeOf fields = .ok children) :
      ReadsOneLevel fields (.element name attributes children)
  | fragment (chosen : Json.lookup "kind" fields = some (.string "fragment"))
      (inside : listIn "children" nodeOf fields = .ok children) :
      ReadsOneLevel fields (.fragment children)

variable {fields : Fields} {name text : String} {items : List Json}

theorem textOf_ok {data : Json} : textOf data = .ok text ↔ data = .string text := by
  cases data <;> simp [textOf,Checked.fail]

theorem required_ok {read : Json → Checked α} {a : α} :
    required name read fields = .ok a ↔
      ∃ data, Json.lookup name fields = some data ∧ read data = .ok a := by
  unfold required
  rw [Checked.under_ok]
  cases Json.lookup name fields <;> simp [Checked.fail]

theorem textField_ok :
    required name textOf fields = .ok text ↔ Json.lookup name fields = some (.string text) := by
  simp [required_ok,textOf_ok]

theorem unit_field {read : Json → Checked α} (never : ∀ data a, read data ≠ .ok a) (a : α) :
    required name read fields ≠ .ok a := by
  rw [Ne,required_ok]
  rintro ⟨data,_,done⟩
  exact never data a done

theorem kindIs_ok {kind : String} {data : Json} (found : Json.lookup "kind" fields = some data) :
    kindIs kind fields = .ok () ↔ data = .string kind := by
  unfold kindIs
  rw [found]
  cases data with
  | string given => by_cases same : given = kind <;> simp [same,Checked.under,Checked.fail]
  | null | bool | int | float | array | object => simp [Checked.under,Checked.fail]

theorem indexed_map (read : Json → Checked α) (values : List α) (items : List Json) :
    ∀ place, indexed read place items = values.map .ok ↔ items.map read = values.map .ok := by
  induction items generalizing values with
  | nil => simp [indexed]
  | cons item rest ih =>
    intro place
    cases values with
    | nil => simp [indexed]
    | cons value more =>
      simp only [indexed,List.map_cons,List.cons.injEq,ih more (place + 1)]
      exact and_congr_left fun _ => Checked.under_ok

theorem listOf_ok {read : Json → Checked α} {data : Json} {values : List α} :
    listOf read data = .ok values ↔ ∃ items, data = .array items ∧ items.map read = values.map .ok := by
  cases data with
  | array items =>
    rw [listOf,Checked.all_ok,indexed_map]
    simp
  | null | bool | int | float | string | object => simp [listOf,Checked.fail]

theorem listIn_ok {read : Json → Checked α} {values : List α} :
    listIn name read fields = .ok values ↔
      ∃ items, ListedUnder name fields items ∧ items.map read = values.map .ok := by
  unfold listIn
  cases found : Json.lookup name fields with
  | none =>
    constructor
    · rintro ⟨⟩
      exact ⟨[],.absent found,rfl⟩
    · rintro ⟨items,listed,same⟩
      cases listed with
      | given other => simp [found] at other
      | absent _ =>
        cases values with
        | nil => rfl
        | cons => simp at same
  | some data =>
    simp only [Checked.under_ok,listOf_ok]
    constructor
    · rintro ⟨items,rfl,same⟩
      exact ⟨items,.given found,same⟩
    · rintro ⟨items,listed,same⟩
      cases listed with
      | given other => exact ⟨items,Option.some.inj (found.symm.trans other),same⟩
      | absent missing => simp [found] at missing

theorem attrsOf_eq (fields : Fields) : attrsOf (κ := κ) fields = listIn "attributes" attrOf fields := rfl

theorem nodesFrom_eq (items : List Json) :
    ∀ place, nodesFrom (κ := κ) place items = .all (indexed nodeOf place items) := by
  induction items with
  | nil => exact fun _ => rfl
  | cons item rest ih => exact fun place => by rw [nodesFrom,indexed,Checked.all,ih]

theorem childrenIn_eq (fields : Fields) :
    childrenIn (κ := κ) fields = listIn "children" nodeOf fields := by
  induction fields with
  | nil => rfl
  | cons field rest ih =>
    obtain ⟨key,data⟩ := field
    have list : childrenOf (κ := κ) data = listOf nodeOf data := by
      cases data <;> first | rfl | exact nodesFrom_eq _ 0
    by_cases same : key = "children"
    · simp [childrenIn,listIn,Json.lookup,same,list]
    · simpa [childrenIn,listIn,Json.lookup,same] using ih

variable {data : Json} {kind : String} {attr : Attr κ} {node : Node κ}

theorem fixedOf_ok (found : Json.lookup "kind" fields = some data) :
    chosen "attribute" fixedOf fields = .ok attr ↔ data = .string "attribute" ∧
      ∃ key value, Json.lookup "name" fields = some (.string key) ∧
        Json.lookup "value" fields = some (.string value) ∧ attr = .fixed key value := by
  simp only [chosen,Checked.under_ok,fixedOf,pairOf,Checked.map_ok,Prod.exists,Checked.both_ok,
    textField_ok,kindIs_ok found]
  constructor
  · rintro ⟨key,value,_,⟨⟨name,text⟩,rfl⟩,rfl⟩
    exact ⟨rfl,key,value,name,text,rfl⟩
  · rintro ⟨rfl,key,value,name,text,rfl⟩
    exact ⟨key,value,(),⟨⟨name,text⟩,rfl⟩,rfl⟩

theorem leafOf_ok {make : String → Node κ} (found : Json.lookup "kind" fields = some data) :
    chosen kind (leafOf kind make) fields = .ok node ↔ data = .string kind ∧
      ∃ text, Json.lookup "value" fields = some (.string text) ∧ node = make text := by
  simp only [chosen,Checked.under_ok,leafOf,Checked.map_ok,Prod.exists,Checked.both_ok,
    textField_ok,kindIs_ok found]
  constructor
  · rintro ⟨_,text,⟨rfl,value⟩,rfl⟩
    exact ⟨rfl,text,value,rfl⟩
  · rintro ⟨rfl,text,value,rfl⟩
    exact ⟨(),text,⟨rfl,value⟩,rfl⟩

theorem elementOf_ok (found : Json.lookup "kind" fields = some data) :
    chosen "element" (elementOf (childrenIn fields)) fields = .ok node ↔ data = .string "element" ∧
      ∃ tag attributes children, Json.lookup "tag" fields = some (.string tag) ∧
        listIn "attributes" attrOf fields = .ok attributes ∧
          listIn "children" nodeOf fields = .ok children ∧
            node = .element tag attributes children := by
  simp only [chosen,Checked.under_ok,elementOf,Checked.map_ok,Prod.exists,Checked.both_ok,
    textField_ok,kindIs_ok found,attrsOf_eq,childrenIn_eq]
  constructor
  · rintro ⟨_,tag,attributes,children,⟨⟨⟨rfl,name⟩,attrs⟩,inside⟩,rfl⟩
    exact ⟨rfl,tag,attributes,children,name,attrs,inside,rfl⟩
  · rintro ⟨rfl,tag,attributes,children,name,attrs,inside,rfl⟩
    exact ⟨(),tag,attributes,children,⟨⟨⟨rfl,name⟩,attrs⟩,inside⟩,rfl⟩

theorem fragmentOf_ok (found : Json.lookup "kind" fields = some data) :
    chosen "fragment" (fragmentOf (childrenIn fields)) fields = .ok node ↔
      data = .string "fragment" ∧
        ∃ children, listIn "children" nodeOf fields = .ok children ∧ node = .fragment children := by
  simp only [chosen,Checked.under_ok,fragmentOf,Checked.map_ok,Prod.exists,Checked.both_ok,
    kindIs_ok found,childrenIn_eq]
  constructor
  · rintro ⟨_,children,⟨rfl,inside⟩,rfl⟩
    exact ⟨rfl,children,inside,rfl⟩
  · rintro ⟨rfl,children,inside,rfl⟩
    exact ⟨(),children,⟨rfl,inside⟩,rfl⟩

theorem deferred_refused (fields : Fields) (attr : Attr κ) (node : Node κ) :
    chosen "async_attribute" deferredAttrOf fields ≠ .ok attr ∧
      chosen "async_node" deferredOf fields ≠ .ok node ∧
        chosen "async_seq" sequenceOf fields ≠ .ok node := by
  simp only [chosen,Ne,Checked.under_ok,deferredAttrOf,deferredOf,sequenceOf,callableIn,
    Checked.map_ok,Prod.exists,Checked.both_ok]
  refine ⟨?_,?_,?_⟩ <;>
    · rintro ⟨_,_,⟨_,driven⟩,_⟩
      exact unit_field (by simp [Checked.fail]) _ driven

theorem attrOf_ok : attrOf (.object fields) = .ok attr ↔
    Json.lookup "kind" fields = some (.string "attribute") ∧
      ∃ key value, Json.lookup "name" fields = some (.string key) ∧
        Json.lookup "value" fields = some (.string value) ∧ attr = .fixed key value := by
  rw [attrOf]
  cases found : Json.lookup "kind" fields with
  | none => simp [Checked.fail]
  | some kind =>
    dsimp only
    split
    · rw [fixedOf_ok found,Option.some.injEq]
    · rename_i apart
      have other : kind ≠ .string "attribute" := by
        rintro rfl
        exact apart rfl
      simp only [Option.some.injEq,other,false_and,iff_false]
      split
      · exact (deferred_refused fields attr (.text "")).1
      · simp [Checked.fail]

theorem nodeOf_reads (done : nodeOf (.object fields) = .ok node) : ReadsOneLevel fields node := by
  rw [nodeOf] at done
  cases found : Json.lookup "kind" fields with
  | none => simp [found,Checked.fail] at done
  | some data =>
    have leaf : ∀ {kind : String} {make : String → Node κ}, (kind,make) ∈ leafMakers →
        chosen kind (leafOf kind make) fields = .ok node → ReadsOneLevel fields node := by
      intro kind make known done
      obtain ⟨rfl,text,value,rfl⟩ := (leafOf_ok found).mp done
      exact .leaf known found value
    obtain ⟨_,noNode,noFeed⟩ := deferred_refused fields (.fixed "" "") node
    rw [found] at done
    dsimp only at done
    split at done
    · obtain ⟨rfl,tag,attributes,children,name,pairs,inside,rfl⟩ := (elementOf_ok found).mp done
      exact .element found name pairs inside
    split at done
    · exact leaf (by simp [leafMakers]) done
    split at done
    · exact leaf (by simp [leafMakers]) done
    split at done
    · exact leaf (by simp [leafMakers]) done
    split at done
    · obtain ⟨rfl,children,inside,rfl⟩ := (fragmentOf_ok found).mp done
      exact .fragment found inside
    split at done
    · exact absurd done noNode
    split at done
    · exact absurd done noFeed
    · simp [Checked.fail] at done

theorem reads_nodeOf (reads : ReadsOneLevel fields node) : nodeOf (.object fields) = .ok node := by
  rw [nodeOf]
  cases reads with
  | @leaf kind make text known found value =>
    have done : chosen kind (leafOf kind make) fields = .ok (make text) :=
      (leafOf_ok found).mpr ⟨rfl,text,value,rfl⟩
    rw [found]
    simp only [leafMakers,List.mem_cons,Prod.mk.injEq,List.not_mem_nil,or_false] at known
    rcases known with ⟨rfl,rfl⟩ | ⟨rfl,rfl⟩ | ⟨rfl,rfl⟩ <;> exact done
  | element found tag pairs inside =>
    rw [found]
    exact (elementOf_ok found).mpr ⟨rfl,_,_,_,tag,pairs,inside,rfl⟩
  | fragment found inside =>
    rw [found]
    exact (fragmentOf_ok found).mpr ⟨rfl,_,inside,rfl⟩

theorem nodeOf_object {d : Json} (done : nodeOf d = .ok node) :
    ∃ fields, d = .object fields ∧ ReadsOneLevel fields node := by
  cases d with
  | object fields => exact ⟨fields,rfl,nodeOf_reads done⟩
  | null | bool | int | float | string | array => simp [nodeOf,Checked.fail] at done

theorem attrOf_object {d : Json} (done : attrOf d = .ok attr) :
    ∃ fields, d = .object fields ∧ attrOf (.object fields) = .ok attr := by
  cases d with
  | object fields => exact ⟨fields,rfl,done⟩
  | null | bool | int | float | string | array => simp [attrOf,Checked.fail] at done

theorem lookup_smaller (found : Json.lookup name fields = some data) :
    sizeOf data < sizeOf (Json.object fields) := by
  have inside : sizeOf data < sizeOf fields := by
    induction fields with
    | nil => simp [Json.lookup] at found
    | cons field rest ih =>
      obtain ⟨key,first⟩ := field
      by_cases same : key = name
      · obtain rfl : first = data := by simpa [Json.lookup,same] using found
        simp
        omega
      · have later := ih (by simpa [Json.lookup,same] using found)
        simp
        omega
  simp
  omega

theorem listed_smaller {item : Json} (listed : ListedUnder name fields items)
    (inside : item ∈ items) :
    sizeOf item < sizeOf (Json.object fields) := by
  cases listed with
  | given found =>
    have list := lookup_smaller found
    have one := List.sizeOf_lt_of_mem inside
    simp at list ⊢
    omega
  | absent _ => simp at inside

-- Induction over data through the lists in their fields.
theorem along_lists {motive : Json → Prop}
    (step : ∀ d, (∀ {fields name items item}, d = .object fields → ListedUnder name fields items →
      item ∈ items → motive item) → motive d) (d : Json) : motive d :=
  step d fun same listed inside =>
    have := same ▸ listed_smaller listed inside
    along_lists step _
termination_by sizeOf d

theorem reads_all {read : Json → Checked α} :
    (∃ values : List α, items.map read = values.map .ok) ↔ ∀ item ∈ items, ∃ value, read item = .ok value := by
  induction items with
  | nil => exact ⟨by simp,fun _ => ⟨[],rfl⟩⟩
  | cons item rest ih =>
    simp only [List.mem_cons,forall_eq_or_imp,←ih]
    constructor
    · rintro ⟨values,same⟩
      cases values with
      | nil => simp at same
      | cons value more =>
        simp only [List.map_cons,List.cons.injEq] at same
        exact ⟨⟨value,same.1⟩,more,same.2⟩
    · rintro ⟨⟨value,here⟩,more,same⟩
      exact ⟨value :: more,by simp [here,same]⟩

theorem mem_read {read : Json → Checked α} {values : List α} {value : α}
    (same : items.map read = values.map .ok) (inside : value ∈ values) :
    ∃ item ∈ items, read item = .ok value := by
  have mapped : Except.ok value ∈ items.map read := by
    rw [same]
    exact List.mem_map.mpr ⟨value,inside,rfl⟩
  exact List.mem_map.mp mapped

theorem attr_dumped (static : attr.isStatic = true) : attrOf attr.dump = .ok attr := by
  cases attr with
  | fixed name value => rfl
  | driven | named => cases static

theorem attrs_dumped {attributes : List (Attr κ)} (static : attributes.all Attr.isStatic = true) :
    (attributes.map Attr.dump).map attrOf = attributes.map .ok := by
  rw [List.map_map,List.map_inj_left]
  exact fun attr inside => attr_dumped (List.all_eq_true.mp static attr inside)

mutual
theorem node_dumped : ∀ {node : Node κ}, node.isStatic = true → nodeOf node.dump = .ok node
  | .text _,_ | .raw _,_ | .comment _,_ => reads_nodeOf (.leaf (by simp [leafMakers]) rfl rfl)
  | .fragment children,static =>
    reads_nodeOf (.fragment rfl (listIn_ok.mpr ⟨_,.given rfl,nodes_dumped static⟩))
  | .element tag attributes children,static => by
    obtain ⟨pairs,inside⟩ : attributes.all Attr.isStatic = true ∧ Node.allStatic children = true := by
      simpa [Node.isStatic] using static
    exact reads_nodeOf (.element rfl rfl (listIn_ok.mpr ⟨_,.given rfl,attrs_dumped pairs⟩)
      (listIn_ok.mpr ⟨_,.given rfl,nodes_dumped inside⟩))
  | .deferred _,static | .sequence _,static | .foreign _,static => by cases static
theorem nodes_dumped : ∀ {nodes : List (Node κ)}, Node.allStatic nodes = true →
    (Node.dumpAll nodes).map nodeOf = nodes.map .ok
  | [],_ => rfl
  | node :: rest,static => by
    obtain ⟨here,more⟩ : node.isStatic = true ∧ Node.allStatic rest = true := by
      simpa [Node.allStatic] using static
    rw [Node.dumpAll,List.map_cons,List.map_cons,node_dumped here,nodes_dumped more]
end

theorem trimmedItems_eq (items : List Json) : trimmedItems items = items.map trimmed := by
  induction items with
  | nil => rfl
  | cons item rest ih => rw [trimmedItems,List.map_cons,ih]

theorem lookup_filled {names : List String} (within : name ∈ names) :
    Json.lookup name (names.map fun name => (name,Json.array [])) = some (.array []) := by
  induction names with
  | nil => cases within
  | cons first rest ih =>
    by_cases same : first = name
    · simp [Json.lookup,same]
    · have later : name ∈ rest := (List.mem_cons.mp within).resolve_left (Ne.symm same)
      simpa [Json.lookup,same] using ih later

theorem lookup_trimmed {wanted : List String} (single : wanted.Nodup) (within : name ∈ wanted) :
    (∀ data, Json.lookup name fields = some data →
      Json.lookup name (trimmedFields wanted fields) = some (trimmed data)) ∧
      (Json.lookup name fields = none → name ∈ listNames →
        Json.lookup name (trimmedFields wanted fields) = some (.array [])) := by
  induction fields generalizing wanted with
  | nil =>
    refine ⟨by simp [Json.lookup],fun _ list => ?_⟩
    exact lookup_filled (List.mem_filter.mpr ⟨within,by simpa using list⟩)
  | cons field rest ih =>
    obtain ⟨key,first⟩ := field
    by_cases same : key = name
    · subst same
      simp [trimmedFields,Json.lookup,within]
    · have further : Json.lookup name (trimmedFields wanted ((key,first) :: rest)) =
          Json.lookup name (trimmedFields (wanted.erase key) rest) := by
        by_cases kept : key ∈ wanted
        · simp [trimmedFields,kept,Json.lookup,same]
        · simp [trimmedFields,kept,List.erase_of_not_mem]
      have later := ih (single.erase key) ((List.mem_erase_of_ne (Ne.symm same)).mpr within)
      rw [further]
      simpa [Json.lookup,same] using later

theorem length_trimmed {wanted : List String} (single : wanted.Nodup)
    (complete : ∀ name ∈ wanted, Json.lookup name fields = none → name ∈ listNames) :
    (trimmedFields wanted fields).length = wanted.length := by
  induction fields generalizing wanted with
  | nil =>
    have all : wanted.filter (· ∈ listNames) = wanted :=
      List.filter_eq_self.mpr fun name within => by simpa using complete name within rfl
    simp [trimmedFields,all]
  | cons field rest ih =>
    obtain ⟨key,first⟩ := field
    have later : ∀ name ∈ wanted.erase key, Json.lookup name rest = none → name ∈ listNames := by
      intro name within missing
      obtain ⟨apart,within⟩ := (single.mem_erase_iff).mp within
      exact complete name within (by simpa [Json.lookup,Ne.symm apart] using missing)
    have shorter := ih (single.erase key) later
    by_cases kept : key ∈ wanted
    · have some := List.length_pos_of_mem kept
      rw [List.length_erase_of_mem kept] at shorter
      simp [trimmedFields,kept,shorter]
      omega
    · rw [List.erase_of_not_mem kept] at shorter
      simp [trimmedFields,kept,shorter]

theorem same_object {one other : Fields} (length : one.length = other.length)
    (each : ∀ field ∈ one, ∃ data, Json.lookup field.1 other = some data ∧
      Json.same field.2 data = true) : Json.same (.object one) (.object other) = true := by
  have all : Json.sameFields one other = true := by
    clear length
    induction one with
    | nil => rfl
    | cons field rest ih =>
      obtain ⟨key,value⟩ := field
      obtain ⟨data,found,same⟩ := each _ List.mem_cons_self
      have later := ih fun field inside => each field (List.mem_cons_of_mem _ inside)
      simp only [Json.sameFields,found,same,later,Bool.and_self]
  simp [Json.same,length,all]

theorem same_items {read : Json → Checked α} {dump : α → Json} {values : List α}
    (read_all : items.map read = values.map .ok)
    (each : ∀ item ∈ items, ∀ value, read item = .ok value →
      Json.same (dump value) (trimmed item) = true) :
    Json.sameItems (values.map dump) (items.map trimmed) = true := by
  induction items generalizing values with
  | nil =>
    cases values with
    | nil => rfl
    | cons => simp at read_all
  | cons item rest ih =>
    cases values with
    | nil => simp at read_all
    | cons value more =>
      simp only [List.map_cons,List.cons.injEq] at read_all
      have here := each item List.mem_cons_self value read_all.1
      have later := ih read_all.2 fun item inside => each item (List.mem_cons_of_mem _ inside)
      simp [Json.sameItems,here,later]

section trimming

variable {wanted : List String}

theorem text_kept (single : wanted.Nodup) (within : name ∈ wanted)
    (found : Json.lookup name fields = some (.string text)) :
    ∃ data, Json.lookup name (trimmedFields wanted fields) = some data ∧
      Json.same (.string text) data = true :=
  ⟨.string text,(lookup_trimmed single within).1 _ found,by simp [Json.same]⟩

theorem list_kept {read : Json → Checked α} {dump : α → Json} {values : List α}
    (single : wanted.Nodup) (within : name ∈ wanted) (list : name ∈ listNames)
    (done : listIn name read fields = .ok values)
    (each : ∀ items, ListedUnder name fields items → ∀ item ∈ items, ∀ value,
      read item = .ok value →
      Json.same (dump value) (trimmed item) = true) :
    ∃ data, Json.lookup name (trimmedFields wanted fields) = some data ∧
      Json.same (.array (values.map dump)) data = true := by
  obtain ⟨items,listed,same⟩ := listIn_ok.mp done
  have kept : Json.lookup name (trimmedFields wanted fields) = some (.array (items.map trimmed)) := by
    cases listed with
    | given found => rw [(lookup_trimmed single within).1 _ found,trimmed,trimmedItems_eq]
    | absent missing => exact (lookup_trimmed single within).2 missing list
  exact ⟨_,kept,by simpa [Json.same] using same_items same (each items listed)⟩

theorem attr_trimmed {d : Json} (done : attrOf d = .ok attr) :
    attr.isStatic = true ∧ Json.same attr.dump (trimmed d) = true := by
  obtain ⟨fields,rfl,done⟩ := attrOf_object done
  obtain ⟨kind,key,value,name,text,rfl⟩ := attrOf_ok.mp done
  have single : ["kind","name","value"].Nodup := by decide
  have length : (trimmedFields ["kind","name","value"] fields).length = 3 :=
    length_trimmed single (by simp [kind,name,text])
  have wanted : namesIn fields = ["kind","name","value"] := by
    rw [namesIn,kind]
    rfl
  refine ⟨rfl,?_⟩
  rw [trimmed,wanted,Attr.dump,Json.kinded]
  refine same_object length.symm ?_
  simp only [List.forall_mem_cons]
  exact ⟨text_kept single (by simp) kind,text_kept single (by simp) name,
    text_kept single (by simp) text,nofun⟩

theorem node_trimmed (d : Json) : ∀ node : Node κ, nodeOf d = .ok node →
    node.isStatic = true ∧ Json.same node.dump (trimmed d) = true := by
  induction d using along_lists with
  | step d ih =>
    intro node done
    obtain ⟨fields,rfl,reads⟩ := nodeOf_object done
    have static : ∀ {children : List (Node κ)}, listIn "children" nodeOf fields = .ok children →
        Node.allStatic children = true := by
      intro children inside
      obtain ⟨items,listed,same⟩ := listIn_ok.mp inside
      rw [allStatic_iff]
      intro child within
      obtain ⟨item,inside,done⟩ := mem_read same within
      exact (ih rfl listed inside child done).1
    have lists : ∀ {wanted : List String} {children : List (Node κ)}, wanted.Nodup →
        "children" ∈ wanted → listIn "children" nodeOf fields = .ok children →
          ∃ data, Json.lookup "children" (trimmedFields wanted fields) = some data ∧
            Json.same (.array (children.map Node.dump)) data = true := by
      intro wanted children single within inside
      exact list_kept single within (by simp [listNames]) inside fun items listed item inside
        child done => (ih rfl listed inside child done).2
    cases reads with
    | @leaf kind make text known found value =>
      have single : ["kind","value"].Nodup := by decide
      have length : (trimmedFields ["kind","value"] fields).length = 2 :=
        length_trimmed single (by simp [found,value])
      have whole : Json.same (.kinded kind [("value",.string text)])
          (.object (trimmedFields ["kind","value"] fields)) = true := by
        refine same_object length.symm ?_
        simp only [List.forall_mem_cons]
        exact ⟨text_kept single (by simp) found,text_kept single (by simp) value,nofun⟩
      rw [trimmed,namesIn,found]
      simp only [leafMakers,List.mem_cons,Prod.mk.injEq,List.not_mem_nil,or_false] at known
      rcases known with ⟨rfl,rfl⟩ | ⟨rfl,rfl⟩ | ⟨rfl,rfl⟩ <;> exact ⟨rfl,whole⟩
    | @element tag attributes children found name pairs inside =>
      have single : ["kind","tag","attributes","children"].Nodup := by decide
      have length : (trimmedFields ["kind","tag","attributes","children"] fields).length = 4 :=
        length_trimmed single (by simp [found,name,listNames])
      obtain ⟨attrs,listed,same⟩ := listIn_ok.mp pairs
      refine ⟨?_,?_⟩
      · rw [Node.isStatic,static inside,Bool.and_true,List.all_eq_true]
        intro attr within
        obtain ⟨item,_,done⟩ := mem_read same within
        exact (attr_trimmed done).1
      · have whole : Json.same (.kinded "element" [("tag",.string tag),
            ("attributes",.array (attributes.map Attr.dump)),
            ("children",.array (children.map Node.dump))])
            (.object (trimmedFields ["kind","tag","attributes","children"] fields)) = true := by
          refine same_object length.symm ?_
          simp only [List.forall_mem_cons]
          exact ⟨text_kept single (by simp) found,text_kept single (by simp) name,
            list_kept single (by simp) (by simp [listNames]) pairs
              fun _ _ _ _ _ done => (attr_trimmed done).2,
            lists single (by simp) inside,nofun⟩
        rw [trimmed,namesIn,found,Node.dump,Node.dumpAll_eq_map]
        exact whole
    | @fragment children found inside =>
      have single : ["kind","children"].Nodup := by decide
      have length : (trimmedFields ["kind","children"] fields).length = 2 :=
        length_trimmed single (by simp [found,listNames])
      refine ⟨by rw [Node.isStatic,static inside],?_⟩
      have whole : Json.same (.kinded "fragment" [("children",.array (children.map Node.dump))])
          (.object (trimmedFields ["kind","children"] fields)) = true := by
        refine same_object length.symm ?_
        simp only [List.forall_mem_cons]
        exact ⟨text_kept single (by simp) found,lists single (by simp) inside,nofun⟩
      rw [trimmed,namesIn,found,Node.dump,Node.dumpAll_eq_map]
      exact whole

end trimming

end Schema

end Markup
