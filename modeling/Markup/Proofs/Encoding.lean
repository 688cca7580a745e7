import Markup.Node.Equal
import Markup.Proofs.CommandLine
import Markup.Proofs.Json.Printing
import Markup.Proofs.Schema.Conformance

namespace Markup

variable {κ : Type}

theorem element_static {tag : String} {attributes : List (Attr κ)} {children : List (Node κ)} :
    (Node.element tag attributes children).isStatic = true ↔
      attributes.all Attr.isStatic = true ∧ Node.allStatic children = true := by
  rw [Node.isStatic,Bool.and_eq_true]

theorem nodes_static {node : Node κ} {rest : List (Node κ)} :
    Node.allStatic (node :: rest) = true ↔ node.isStatic = true ∧ Node.allStatic rest = true := by
  rw [Node.allStatic,Bool.and_eq_true]

theorem attr_same {attr other : Attr κ} (static : attr.isStatic = true) :
    attr.same other = true ↔ attr = other := by
  cases attr with
  | fixed name value => cases other <;> simp [Attr.same]
  | driven | named => cases static

theorem attrs_same {attributes : List (Attr κ)} (static : attributes.all Attr.isStatic = true) :
    ∀ {others : List (Attr κ)}, Attr.sameAll attributes others = true ↔ attributes = others := by
  induction attributes with
  | nil => intro others; cases others <;> simp [Attr.sameAll]
  | cons attr rest ih =>
    simp only [List.all_cons,Bool.and_eq_true] at static
    intro others
    cases others with
    | nil => simp [Attr.sameAll]
    | cons other more => simp [Attr.sameAll,attr_same static.1,ih static.2]

mutual
theorem node_same : ∀ {node : Node κ}, node.isStatic = true → ∀ {other : Node κ},
    node.same other = true ↔ node = other
  | .text _,_,other | .raw _,_,other | .comment _,_,other => by cases other <;> simp [Node.same]
  | .fragment children,static,other => by
    cases other with
    | fragment others => simp [Node.same,nodes_same static]
    | element | text | raw | comment | deferred | sequence | foreign => simp [Node.same]
  | .element tag attributes children,static,other => by
    obtain ⟨pairs,inside⟩ := element_static.mp static
    cases other with
    | element tag' attributes' others =>
      simp [Node.same,attrs_same pairs,nodes_same inside,and_assoc]
    | fragment | text | raw | comment | deferred | sequence | foreign => simp [Node.same]
  | .deferred _,static,_ | .sequence _,static,_ | .foreign _,static,_ => by cases static
theorem nodes_same : ∀ {nodes : List (Node κ)}, Node.allStatic nodes = true →
    ∀ {others : List (Node κ)}, Node.sameAll nodes others = true ↔ nodes = others
  | [],_,others => by cases others <;> simp [Node.sameAll]
  | node :: rest,static,others => by
    obtain ⟨here,more⟩ := nodes_static.mp static
    cases others with
    | nil => simp [Node.sameAll]
    | cons other others =>
      simp [Node.sameAll,node_same here,nodes_same more]
end

theorem kinded_plain {kind : String} {fields : List (String × Json)}
    (single : ("kind" :: fields.map Prod.fst).Nodup)
    (inside : ∀ field ∈ fields, Json.Plain field.2) : (Json.kinded kind fields).Plain := by
  refine .object single fun field within => ?_
  rcases List.mem_cons.mp within with rfl | within
  · exact .string
  · exact inside field within

theorem attr_plain {attr : Attr κ} (static : attr.isStatic = true) : attr.dump.Plain := by
  cases attr with
  | fixed name value => exact kinded_plain (by simp) (by simp [Json.Plain.string])
  | driven | named => cases static

mutual
theorem node_plain : ∀ {node : Node κ}, node.isStatic = true → node.dump.Plain
  | .text _,_ | .raw _,_ | .comment _,_ => kinded_plain (by simp) (by simp [Json.Plain.string])
  | .fragment children,static =>
    kinded_plain (by simp) (by simpa using Json.Plain.array (nodes_plain static))
  | .element tag attributes children,static => by
    obtain ⟨pairs,inside⟩ := element_static.mp static
    have attrs : (Json.array (attributes.map Attr.dump)).Plain := by
      refine .array fun item within => ?_
      obtain ⟨attr,among,rfl⟩ := List.mem_map.mp within
      exact attr_plain (List.all_eq_true.mp pairs attr among)
    exact kinded_plain (by simp)
      (by simpa [Json.Plain.string] using ⟨attrs,Json.Plain.array (nodes_plain inside)⟩)
  | .deferred _,static | .sequence _,static | .foreign _,static => by cases static
theorem nodes_plain : ∀ {nodes : List (Node κ)}, Node.allStatic nodes = true →
    ∀ item ∈ Node.dumpAll nodes, item.Plain
  | [],_ => nofun
  | node :: rest,static => by
    obtain ⟨here,more⟩ := nodes_static.mp static
    intro item within
    rcases List.mem_cons.mp within with rfl | within
    · exact node_plain here
    · exact nodes_plain more item within
end

namespace Schema

variable {fields : Fields} {name : String} {items : List Json}

theorem listed_sorted (listed : ListedUnder name fields items) :
    ListedUnder name (Json.sortedFields fields) (items.map Json.sorted) := by
  cases listed with
  | given found =>
    refine .given ?_
    rw [Json.lookup_sortedFields,found,Option.map_some,Json.sorted,Json.sortedItems_eq]
  | absent missing =>
    refine .absent ?_
    rw [Json.lookup_sortedFields,missing,Option.map_none]

theorem string_sorted {value : String} (found : Json.lookup name fields = some (.string value)) :
    Json.lookup name (Json.sortedFields fields) = some (.string value) := by
  rw [Json.lookup_sortedFields,found]
  rfl

theorem list_sorted {read : Json → Checked α} {values : List α}
    (done : listIn name read fields = .ok values)
    (each : ∀ items, ListedUnder name fields items → ∀ item ∈ items, ∀ value,
      read item = .ok value →
      read item.sorted = .ok value) :
    listIn name read (Json.sortedFields fields) = .ok values := by
  obtain ⟨items,listed,same⟩ := listIn_ok.mp done
  refine listIn_ok.mpr ⟨_,listed_sorted listed,?_⟩
  rw [← same,List.map_map,List.map_inj_left]
  intro item within
  obtain ⟨value,read⟩ := reads_all.mp ⟨values,same⟩ item within
  exact (each items listed item within value read).trans read.symm

theorem attr_sorted {d : Json} {attr : Attr κ} (done : attrOf d = .ok attr) :
    attrOf d.sorted = .ok attr := by
  obtain ⟨fields,rfl,done⟩ := attrOf_object done
  obtain ⟨kind,key,value,name,text,rfl⟩ := attrOf_ok.mp done
  rw [Json.sorted]
  exact attrOf_ok.mpr ⟨string_sorted kind,key,value,string_sorted name,string_sorted text,rfl⟩

theorem node_sorted (d : Json) : ∀ node : Node κ, nodeOf d = .ok node →
    nodeOf d.sorted = .ok node := by
  induction d using along_lists with
  | step d ih =>
    intro node done
    obtain ⟨fields,rfl,reads⟩ := nodeOf_object done
    rw [Json.sorted]
    refine reads_nodeOf ?_
    cases reads with
    | leaf known found value => exact .leaf known (string_sorted found) (string_sorted value)
    | element found tag pairs inside =>
      exact .element (string_sorted found) (string_sorted tag)
        (list_sorted pairs fun _ _ _ _ _ done => attr_sorted done)
        (list_sorted inside fun _ listed item within child done => ih rfl listed within child done)
    | fragment found inside =>
      exact .fragment (string_sorted found)
        (list_sorted inside fun _ listed item within child done => ih rfl listed within child done)

theorem element_validated {d : Json} {tag : String} {attributes : List (Attr κ)}
    {children : List (Node κ)} (done : nodeOf d = .ok (.element tag attributes children)) :
    validate .element d = .ok (.element tag attributes children) := by
  obtain ⟨fields,rfl,reads⟩ := nodeOf_object done
  generalize made : Node.element tag attributes children = node at reads
  cases reads with
  | element found name pairs inside =>
    cases made
    exact Checked.under_ok.mp ((elementOf_ok found).mpr ⟨rfl,_,_,_,name,pairs,inside,rfl⟩)
  | leaf known found value =>
    simp only [leafMakers,List.mem_cons,Prod.mk.injEq,List.not_mem_nil,or_false] at known
    rcases known with ⟨_,rfl⟩ | ⟨_,rfl⟩ | ⟨_,rfl⟩ <;> cases made
  | fragment found inside => cases made

end Schema

theorem document_node {node : Node κ} (static : node.isStatic = true) :
    ∃ data, Json.WellFormed data node.dump.document ∧ Schema.nodeOf data = .ok node :=
  ⟨_,Json.document_wellFormed (node_plain static),
    Schema.node_sorted _ node (Schema.node_dumped static)⟩

theorem document_same {node other : Node κ} (static : node.isStatic = true)
    (static' : other.isStatic = true) :
    node.dump.document = other.dump.document ↔ node.same other = true := by
  rw [node_same static]
  constructor
  · intro same
    have sorted := (Json.document_inj (node_plain static) (node_plain static')).mp same
    have read := Schema.node_sorted _ node (Schema.node_dumped static)
    rw [sorted,Schema.node_sorted _ other (Schema.node_dumped static')] at read
    exact (Except.ok.inj read).symm
  · rintro rfl
    rfl

namespace Cli

structure AsksData (args : List String) (request : Request) : Prop where
  accepted : Command.ofArguments args = .ok (.run request)
  asked : request.json = true
  right : ∃ found, Selector.read request.selector = .ok found

def Prints (args : List String) (request : Request) (output : String) : Prop :=
  ∀ files, (plan args).run files = .outcome ⟨0,output,[],request.verbose,none⟩

def DescribesElement (request : Request) (node : Node Empty) : Prop :=
  build host request.selector (request.texts.map Node.string) {} = .ok node {}

variable {args args' : List String} {request request' : Request}

theorem elementOf_static (found : Selector) (texts : List String) :
    (elementOf found texts).isStatic = true := by
  refine element_static.mpr ⟨by simp [Attr.isStatic],allStatic_iff.mpr fun node within => ?_⟩
  obtain ⟨text,_,rfl⟩ := List.mem_map.mp within
  rfl

theorem asksData_prints (asks : AsksData args request)
    (right : Selector.read request.selector = .ok found) :
    Prints args request (elementOf found request.texts).dump.document := by
  intro files
  rw [plan,asks.accepted]
  dsimp only
  rw [plan_data right asks.asked]
  rfl

theorem Prints.unique {output output' : String} (one : Prints args request output)
    (other : Prints args request output') : output = output' := by
  have same := (one fun _ => .missing).symm.trans (other fun _ => .missing)
  cases same
  rfl

-- Where the data are asked for, a document is printed that the very element is
-- read from which the selector and the texts build, and two such documents are
-- equal exactly if the elements are.
theorem data_faithful (asks : AsksData args request) :
    ∃ output node data, Prints args request output ∧ DescribesElement request node ∧
      Json.WellFormed data output ∧ Json.read output = some data ∧
      Schema.validate .element data = .ok node ∧
      ∀ {args' : List String} {request' : Request} {output' : String} {node' : Node Empty},
        AsksData args' request' → Prints args' request' output' → DescribesElement request' node' →
          (output = output' ↔ node.same node' = true) := by
  obtain ⟨found,right⟩ := asks.right
  have static := elementOf_static found request.texts
  obtain ⟨data,wellFormed,read⟩ := document_node static
  refine ⟨_,_,data,asksData_prints asks right,element_read right {},wellFormed,
    Json.wellFormed_read wellFormed,Schema.element_validated read,?_⟩
  intro args' request' output' node' asks' prints' denotes'
  obtain ⟨found',right'⟩ := asks'.right
  rw [prints'.unique (asksData_prints asks' right')]
  have built := denotes'.symm.trans (element_read right' {})
  cases built
  exact document_same static (elementOf_static found' request'.texts)

def quotedRequest (verbose : Bool) : Request :=
  ⟨"p",["\"\x01\u00e9"],none,false,none,true,verbose⟩

def quotedOutput : String :=
  "\x7b\n  \"attributes\": [],\n  \"children\": [\n    \x7b\n      \"kind\": \"text\",\n" ++
  "      \"value\": \"\\\"\\u0001\u00e9\"\n    \x7d\n  ],\n  \"kind\": \"element\",\n" ++
  "  \"tag\": \"p\"\n\x7d\n"

theorem quotedOutput_faithful :
    AsksData ["--json","p","\"\x01\u00e9"] (quotedRequest false) ∧
    Prints ["--json","p","\"\x01\u00e9"] (quotedRequest false) quotedOutput ∧
    Prints ["p","\"\x01\u00e9","--json","--verbose"] (quotedRequest true) quotedOutput ∧
    ∃ node data, DescribesElement (quotedRequest false) node ∧ Json.read quotedOutput = some data ∧
      Schema.validate .element data = .ok node := by
  have read : Selector.read "p" = .ok ⟨"p",[]⟩ := by decide +kernel
  have asks : AsksData ["--json","p","\"\x01\u00e9"] (quotedRequest false) :=
    ⟨by rfl,rfl,_,read⟩
  have asks' : AsksData ["p","\"\x01\u00e9","--json","--verbose"] (quotedRequest true) :=
    ⟨by rfl,rfl,_,read⟩
  have written : (elementOf ⟨"p",[]⟩ ["\"\x01\u00e9"]).dump.document = quotedOutput := by
    decide +kernel
  have prints : Prints ["--json","p","\"\x01\u00e9"] (quotedRequest false) quotedOutput :=
    written ▸ asksData_prints asks read
  obtain ⟨output,node,data,printed,denotes,_,decoded,validated,faithful⟩ := data_faithful asks
  obtain rfl := printed.unique prints
  have built : DescribesElement (quotedRequest true) (elementOf ⟨"p",[]⟩ ["\"\x01\u00e9"]) :=
    element_read read {}
  have same : node.same (elementOf ⟨"p",[]⟩ ["\"\x01\u00e9"]) = true := by
    cases denotes.symm.trans built
    exact (node_same (elementOf_static _ _)).mpr rfl
  obtain ⟨output',node',_,printed',denotes',_⟩ := data_faithful asks'
  have agree : quotedOutput = output' := by
    refine (faithful asks' printed' denotes').mpr ?_
    cases built.symm.trans denotes'
    exact same
  exact ⟨asks,prints,agree ▸ printed',node,data,denotes,decoded,validated⟩

end Cli

end Markup
