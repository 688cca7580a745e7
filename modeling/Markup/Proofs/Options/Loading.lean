import Markup.Proofs.CommandLine
import Markup.Proofs.Yaml.Untagged

namespace Markup

namespace Yaml

open Options (Setting Settings)

def nameOf (key : Node) : Option String :=
  match Content.plain key with
  | .text name => some name
  | _ => none

def lastNamed (name : String) (entries : List (Node × Node)) : Option Setting :=
  (entries.reverse.find? fun entry => nameOf entry.1 == some name).map fun entry =>
    Content.ofNode entry.2

-- The settings that a text denotes: it holds a mapping with entries, and a name
-- has the value of its last entry, merged ones counting as earlier.
inductive Denotes (text : List Char) (values : Settings) : Prop where
  | intro (document : Node.ofText text = .ok (some root)) (mapping : root.tag = .mapping)
      (written : root.bare = .mapping kind members)
      (merged : Node.flatEntries members = .ok entries)
      (some : entries ≠ [])
      (last : ∀ name, Json.lookup name values = lastNamed name entries)

inductive Falsy (text : List Char) : Prop where
  | blank (document : Node.ofText text = .ok none)
  | mapping (document : Node.ofText text = .ok (some root)) (mapping : root.tag = .mapping)
      (written : root.bare = .mapping kind members) (merged : Node.flatEntries members = .ok [])
  | value (document : Node.ofText text = .ok (some root)) (other : root.tag ≠ .mapping)
      (nothing : Content.isNothing (Content.ofNode root) = true)

inductive Shapeless (text : List Char) : Prop where
  | intro (document : Node.ofText text = .ok (some root)) (other : root.tag ≠ .mapping)
      (value : Content.isNothing (Content.ofNode root) = false)

variable {root : Node} {text : String}

theorem lookup_addSetting (name : String) (values : Settings) (entry : Node × Node) :
    Json.lookup name (Content.addSetting values entry) =
      if nameOf entry.1 == some name then some (Content.ofNode entry.2)
      else Json.lookup name values := by
  obtain ⟨key,value⟩ := entry
  unfold Content.addSetting nameOf
  cases made : Content.plain key with
  | text other =>
    by_cases same : other = name
    · subst same
      simp [made,Json.lookup_setField_self]
    · simp [made,same,Json.lookup_setField_other _ _ same]
  | _ => simp [made]

-- The induction is on the entries. Whatever stands behind an entry goes first.
theorem lookup_addSettings (name : String) (entries : List (Node × Node)) (values : Settings) :
    Json.lookup name (entries.foldl Content.addSetting values) =
      (lastNamed name entries).or (Json.lookup name values) := by
  induction entries generalizing values with
  | nil => rfl
  | cons entry rest ih =>
    rw [List.foldl_cons,ih,lookup_addSetting]
    unfold lastNamed
    rw [List.reverse_cons,List.find?_append]
    cases rest.reverse.find? fun entry => nameOf entry.1 == some name with
    | some found => rfl
    | none =>
      by_cases same : (nameOf entry.1 == some name) = true
      · simp [same]
      · simp [same]

theorem read_document (done : read text = .ok found) :
    (Node.ofText text.toList = .ok none ∧ found = .nothing) ∨
      ∃ root later seen, Node.ofText text.toList = .ok (some root) ∧ found = .ofRoot root ∧
        Duty.perform [.convert root] [] [] = .ok (later,seen) ∧
          Duty.levels (text.toList.length + 2) later seen = .ok () := by
  unfold read at done
  dsimp only at done
  split at done
  · cases done
  · split at done
    · cases done
    · rename_i document
      cases done
      exact .inl ⟨document,rfl⟩
    · rename_i root document
      split at done
      · cases done
      · rename_i later seen first
        split at done
        · cases done
        · rename_i deeper
          cases done
          exact .inr ⟨root,later,seen,document,rfl,first,deeper⟩

theorem perform_mapping (mapping : root.tag = .mapping) :
    ∃ inner seen, Duty.perform [.convert root] [] [] = .ok ([inner],seen) ∧
      Duty.ofCollection inner = Duty.ofCollection root := by
  cases root with
  | enclosing => cases mapping
  | named name inner =>
    have collection : inner.isCollection = true := by
      unfold Node.isCollection
      rw [show inner.tag = .mapping from mapping]
    refine ⟨inner,[name],?_,?_⟩
    · simp [Duty.perform,collection]
    · unfold Duty.ofCollection
      rw [Node.tag,Node.bare]
  | _ =>
    cases mapping
    exact ⟨_,[],rfl,rfl⟩

theorem mapping_merged (first : Duty.perform [.convert root] [] [] = .ok (later,seen))
    (deeper : Duty.levels (fuel + 1) later seen = .ok ()) (mapping : root.tag = .mapping) :
    ∃ kind members entries, root.bare = .mapping kind members ∧
      Node.flatEntries members = .ok entries := by
  obtain ⟨inner,seen',made,same⟩ := perform_mapping mapping
  rw [made] at first
  cases first
  have whole : Duty.ofCollection root ≠ [.fail] := by
    intro failed
    unfold Duty.levels at deeper
    simp [same,failed,Duty.perform] at deeper
  unfold Duty.ofCollection at whole
  rw [mapping] at whole
  split at whole
  · contradiction
  · contradiction
  · rename_i written
    split at whole
    · rename_i merged
      exact ⟨_,_,_,written,merged⟩
    · exact absurd rfl whole
  · contradiction
  · exact absurd rfl whole

theorem ofRoot_mapping (mapping : root.tag = .mapping) (written : root.bare = .mapping kind members)
    (merged : Node.flatEntries members = .ok entries) :
    Content.ofRoot root =
      if entries = [] then .nothing else .settings (entries.foldl Content.addSetting []) := by
  unfold Content.ofRoot
  rw [mapping,written]
  dsimp only
  rw [merged]
  cases entries with
  | nil => rfl
  | cons entry rest => rfl

theorem ofRoot_other (other : root.tag ≠ .mapping) :
    Content.ofRoot root =
      if Content.isNothing (Content.ofNode root) then .nothing else .other := by
  unfold Content.ofRoot
  split
  · contradiction
  · rfl

def SaidBy (text : List Char) : Content → Prop
  | .nothing => Falsy text
  | .settings values => Denotes text values
  | .other => Shapeless text

theorem read_tells (done : read text = .ok found) : SaidBy text.toList found := by
  rcases read_document done with ⟨document,rfl⟩ | ⟨root,later,seen,document,rfl,first,deeper⟩
  · exact .blank document
  · by_cases mapping : root.tag = .mapping
    · obtain ⟨kind,members,entries,written,merged⟩ := mapping_merged first deeper mapping
      rw [ofRoot_mapping mapping written merged]
      split
      · rename_i empty
        exact .mapping document mapping written (empty ▸ merged)
      · rename_i some
        refine .intro document mapping written merged some fun name => ?_
        rw [lookup_addSettings]
        exact Option.or_none
    · rw [ofRoot_other mapping]
      split
      · rename_i nothing
        exact .value document mapping nothing
      · rename_i value
        exact .intro document mapping (Bool.not_eq_true _ ▸ value)

end Yaml

namespace Options

def octets (source : String) : List UInt8 := source.toList.flatMap String.utf8EncodeChar

theorem decodeText_octets : decodeText content = some source ↔ content = octets source := by
  have encoded : source.toByteArray = (octets source).toByteArray := String.utf8Encode_toList.symm
  have whole : ByteArray.mk content.toArray = content.toByteArray :=
    ByteArray.ext List.data_toByteArray.symm
  unfold decodeText String.fromUTF8?
  rw [whole]
  constructor
  · intro decoded
    split at decoded
    · cases decoded
      have same := congrArg ByteArray.data encoded
      rw [List.data_toByteArray] at same
      exact congrArg Array.toList (List.data_toByteArray.symm.trans same)
    · cases decoded
  · rintro rfl
    rw [← encoded,dif_pos source.isValidUTF8]
    rfl

-- Why the content of a file is neither options nor reported: it is no text, or
-- the text holds something that has no value.
inductive Leaks (content : List UInt8) : FileFault → Prop where
  | undecodable (other : ∀ source, content ≠ octets source) : Leaks content .notUnicode
  | valueless (decoded : content = octets source)
      (valueless : Yaml.Valueless (unifyBreaks source.toList) trouble) :
      Leaks content (.noValue trouble)

def Reports (path : String) (fault : FileFault) : Prop :=
  fault.kind = "ConfigError" ∧
    ∃ message, fault.message? = some message ∧ path.toList <:+: message.toList

inductive Loads (path : String) (content : List UInt8) : Except FileFault Options → Prop where
  | defaults (decoded : content = octets source) (falsy : Yaml.Falsy (unifyBreaks source.toList)) :
      Loads path content (.ok default)
  | options (decoded : content = octets source)
      (denotes : Yaml.Denotes (unifyBreaks source.toList) values)
      (valid : ofSettings values = .ok options) : Loads path content (.ok options)
  | invalid (decoded : content = octets source)
      (denotes : Yaml.Denotes (unifyBreaks source.toList) values)
      (wrong : ofSettings values = .error problems) :
      Loads path content (.error (.invalid path problems))
  | notSettings (decoded : content = octets source)
      (shapeless : Yaml.Shapeless (unifyBreaks source.toList)) :
      Loads path content (.error (.notSettings path))
  | malformed (decoded : content = octets source)
      (wrong : Yaml.read (String.ofList (unifyBreaks source.toList)) = .error .malformed) :
      Loads path content (.error (.malformed path))
  | leak (leaks : Leaks content fault) : Loads path content (.error fault)

theorem leaks_kind (leaks : Leaks content fault) : fault.kind ≠ "ConfigError" := by
  cases leaks with
  | undecodable => decide
  | @valueless source trouble decoded valueless =>
    have other := Yaml.valueless_other valueless
    cases trouble with
    | malformed => exact absurd rfl other
    | _ => simp [FileFault.kind,Yaml.Trouble.kind?]

theorem ofText_loads (decoded : content = octets source) :
    Loads path content (ofText path source) := by
  unfold ofText
  split
  · rename_i wrong
    exact .malformed decoded wrong
  · rename_i trouble other wrong
    have valueless := Yaml.read_valueless wrong other
    rw [String.toList_ofList] at valueless
    exact .leak (.valueless decoded valueless)
  · rename_i done
    have told := Yaml.read_tells done
    rw [String.toList_ofList] at told
    exact .defaults decoded told
  · rename_i done
    have told := Yaml.read_tells done
    rw [String.toList_ofList] at told
    exact .notSettings decoded told
  · rename_i done
    have told := Yaml.read_tells done
    rw [String.toList_ofList] at told
    split
    · rename_i valid
      exact .options decoded told valid
    · rename_i wrong
      exact .invalid decoded told wrong

theorem load_loads (named : '\x00' ∉ path.toList) (content : List UInt8) :
    Loads path content (load path (.bytes content)) := by
  unfold load
  rw [if_neg (by simpa using named)]
  dsimp only
  split
  · rename_i undecodable
    refine .leak (.undecodable fun source decoded => ?_)
    rw [decodeText_octets.mpr decoded] at undecodable
    cases undecodable
  · rename_i decoded
    exact ofText_loads (decodeText_octets.mp decoded)

theorem report_named (path : String) :
    Reports path (.malformed path) ∧ Reports path (.notSettings path) ∧
      ∀ problems, Reports path (.invalid path problems) := by
  have inside (front behind : String) :
      path.toList <:+: (front ++ path ++ behind).toList := by
    rw [String.toList_append,String.toList_append]
    exact ⟨_,_,rfl⟩
  refine ⟨⟨rfl,_,rfl,?_⟩,⟨rfl,_,rfl,?_⟩,fun problems => ⟨rfl,_,rfl,?_⟩⟩
  · simpa using inside "Invalid YAML in " ""
  · simpa using inside "" " must contain a mapping of render options."
  · simpa [String.append_assoc] using inside "Invalid render options in "
      (": " ++ FileFault.countText problems ++ " for RenderOptions")

theorem loads_reports (loads : Loads path content (.error fault)) :
    Reports path fault ∨ Leaks content fault := by
  cases loads with
  | invalid => exact .inl ((report_named path).2.2 _)
  | notSettings => exact .inl (report_named path).2.1
  | malformed => exact .inl (report_named path).1
  | leak leaks => exact .inr leaks

end Options

namespace Cli

open Options

-- The command line reads a file as the library does, and ends without an outcome
-- only where the content leaks.
theorem broken_leaks {args : List String} {request : Request} {given : String}
    {files : String → File} {content : List UInt8} {fault : FileFault}
    (accepted : Command.ofArguments args = .ok (.run request))
    (config : request.config = some given) (there : files (tidyPath given) = .bytes content)
    (named : '\x00' ∉ (tidyPath given).toList)
    (broken : (plan args).run files = .broken fault) : Leaks content fault := by
  have answers := run_answers files request
  rw [show request.plan = plan args by rw [plan,accepted],broken] at answers
  cases answers with
  | broken _ _ refused other =>
    simp only [loaded,config,there] at refused
    have loads := refused ▸ load_loads named content
    refine (loads_reports loads).resolve_left fun reports => ?_
    rw [FileFault.isContent,reports.1] at other
    cases other

end Cli

namespace Options

-- A file that can be read gives options, the usual ones where it says nothing and
-- else those of its mapping, or a report that names it; only content that is no
-- text or that strays leaks another fault, here and from the command line.
theorem content_reported {path : String} (named : '\x00' ∉ path.toList) (content : List UInt8) :
    Loads path content (load path (.bytes content)) ∧
      (∀ fault, load path (.bytes content) = .error fault →
        (Reports path fault ↔ ¬Leaks content fault)) ∧
      ∀ {args request given files fault}, Cli.Command.ofArguments args = .ok (.run request) →
        request.config = some given → tidyPath given = path → files path = .bytes content →
          (Cli.plan args).run files = .broken fault → Leaks content fault := by
  refine ⟨load_loads named content,fun fault refused => ?_,?_⟩
  · have loads := refused ▸ load_loads named content
    refine ⟨fun reports leaks => leaks_kind leaks reports.1,fun kept => ?_⟩
    exact (loads_reports loads).resolve_right kept
  · rintro args request given files fault accepted config rfl there broken
    exact Cli.broken_leaks accepted config there named broken

theorem lone_octet_leaks :
    load "render.yaml" (.bytes [0xff]) = .error .notUnicode ∧
      ¬Reports "render.yaml" .notUnicode ∧
      (Cli.plan ["--config","render.yaml","br"]).run (fun _ => .bytes [0xff]) =
        .broken .notUnicode ∧
      Leaks [0xff] .notUnicode := by
  have refused : load "render.yaml" (.bytes [0xff]) = .error .notUnicode := by decide +kernel
  have accepted : Cli.Command.ofArguments ["--config","render.yaml","br"] =
      .ok (.run ⟨"br",[],some "render.yaml",false,none,false,false⟩) := by rfl
  have broken : (Cli.plan ["--config","render.yaml","br"]).run (fun _ => .bytes [0xff]) =
      .broken .notUnicode := by decide +kernel
  have named : '\x00' ∉ "render.yaml".toList := by decide
  obtain ⟨-,reported,fromArguments⟩ := content_reported named [0xff]
  have leaks := fromArguments accepted rfl (by decide) rfl broken
  exact ⟨refused,fun reports => (reported _ refused).mp reports leaks,broken,leaks⟩

theorem impossible_day_unreported :
    ¬∀ (path : String) (content : List UInt8) (fault : FileFault), '\x00' ∉ path.toList →
      load path (.bytes content) = .error fault → Reports path fault := by
  intro reported
  have day : load "render.yaml" (.bytes (octets "doctype: 2001-02-30\n")) =
      .error (.noValue (.momentRange "day is out of range for month")) := by decide +kernel
  have kind := (reported _ _ _ (by decide) day).1
  revert kind
  decide

end Options

end Markup
