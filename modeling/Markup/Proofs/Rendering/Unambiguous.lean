import Mathlib.Data.List.Infix
import Markup.Proofs.Rendering.Settled
import Markup.Proofs.Selector.Merging

namespace Markup

variable {κ : Type}

-- Static trees of elements, texts, comments and fragments, with names as they
-- can be written in a selector.

def remarkEnd : List Char := ['-','-','>']

def Attr.Plain : Attr κ → Prop
  | .fixed name _ => NameText name.toList
  | _ => False

mutual
def Node.Plain (options : Options) : Node κ → Prop
  | .element tag attributes children =>
    Selector.TagText tag.toList ∧ (∀ attr ∈ attributes, attr.Plain) ∧
      (options.isVoid tag = true → children = []) ∧ Node.AllPlain options children
  | .text _ => True
  | .comment value => ¬remarkEnd <:+: value.toList
  | .fragment children => Node.AllPlain options children
  | _ => False
def Node.AllPlain (options : Options) : List (Node κ) → Prop
  | [] => True
  | node :: rest => node.Plain options ∧ Node.AllPlain options rest
end

-- The normal form: a fragment gives its children, an empty text nothing, and a
-- text joins the text behind it. A node is put before content that is in normal
-- form already.

def Node.joinText (value : String) : List (Node κ) → List (Node κ)
  | .text next :: rest => .text (value ++ next) :: rest
  | content => if value = "" then content else .text value :: content

mutual
def Node.before : Node κ → List (Node κ) → List (Node κ)
  | .element tag attributes children,content =>
    .element tag attributes (Node.allBefore children []) :: content
  | .text value,content => Node.joinText value content
  | .fragment children,content => Node.allBefore children content
  | node,content => node :: content
def Node.allBefore : List (Node κ) → List (Node κ) → List (Node κ)
  | [],content => content
  | node :: rest,content => node.before (Node.allBefore rest content)
end

def Node.normal (node : Node κ) : List (Node κ) := node.before []

def Attr.letters : Attr κ → List Char
  | .fixed name value =>
    ' ' :: (name.toList ++ '=' :: '"' :: (Text.Escaped.encode value.toList ++ ['"']))
  | _ => []

def voidEnd (options : Options) : List Char := if options.selfCloseVoid then ['/','>'] else ['>']

def elementEnd (options : Options) (tag : String) (inside : List Char) : List Char :=
  if options.isVoid tag then voidEnd options
  else '>' :: (inside ++ '<' :: '/' :: (tag.toList ++ ['>']))

mutual
def Node.letters (options : Options) : Node κ → List Char
  | .element tag attributes children =>
    '<' :: (tag.toList ++ (attributes.flatMap Attr.letters ++
      elementEnd options tag (Node.allLetters options children)))
  | .text value => Text.Escaped.encode value.toList
  | .comment value => '<' :: '!' :: '-' :: '-' :: (value.toList ++ remarkEnd)
  | .fragment children => Node.allLetters options children
  | _ => []
def Node.allLetters (options : Options) : List (Node κ) → List Char
  | [] => []
  | node :: rest => node.letters options ++ Node.allLetters options rest
end

def Attr.pair : Attr κ → String × String
  | .fixed name value => (name,value)
  | _ => ("","")

mutual
def Node.tree : Node κ → Tree
  | .element tag attributes children => .element tag (attributes.map Attr.pair) (Node.trees children)
  | .comment value => .comment value
  | .fragment children => .fragment (Node.trees children)
  | node => .text node.payload
def Node.trees : List (Node κ) → List Tree
  | [] => []
  | node :: rest => node.tree :: Node.trees rest
end

variable {options : Options}

theorem plain_pairs {attributes : List (Attr κ)} (plain : ∀ attr ∈ attributes, attr.Plain) :
    (attributes.map Attr.pair).map (fun (name,value) => .fixed name value) = attributes := by
  induction attributes with
  | nil => rfl
  | cons attr rest ih =>
    have here := plain attr List.mem_cons_self
    have more := ih fun other inside => plain other (List.mem_cons_of_mem _ inside)
    cases attr with
    | fixed name value => simp [Attr.pair,more]
    | driven | named => cases here

mutual
theorem plain_tree : ∀ {node : Node κ}, node.Plain options → node.tree.toNode κ = node
  | .element tag attributes children,plain => by
    obtain ⟨_,named,_,inside⟩ := plain
    simp only [Node.tree,Tree.toNode,plain_pairs named,plain_trees inside]
  | .text value,_ => rfl
  | .comment value,_ => rfl
  | .fragment children,plain => by
    simp only [Node.tree,Tree.toNode,plain_trees plain]
  | .raw _,plain | .deferred _,plain | .sequence _,plain | .foreign _,plain => plain.elim
theorem plain_trees : ∀ {nodes : List (Node κ)}, Node.AllPlain options nodes →
    Tree.toNodes κ (Node.trees nodes) = nodes
  | [],_ => rfl
  | node :: rest,⟨here,more⟩ => by
    simp only [Node.trees,Tree.toNodes,plain_tree here,plain_trees more]
end

theorem plain_attributes {attributes : List (Attr κ)} (plain : ∀ attr ∈ attributes, attr.Plain) :
    (Stream.attributesText (attributes.map Attr.pair)).toList = attributes.flatMap Attr.letters := by
  have each : ∀ attr : Attr κ, attr.Plain →
      ' ' :: (Stream.attributeText attr.pair).toList = attr.letters := by
    intro attr named
    cases attr with
    | fixed name value =>
      simp [Attr.pair,Attr.letters,Stream.attributeText,Text.escaped]
    | driven | named => cases named
  induction attributes with
  | nil => rfl
  | cons attr rest ih =>
    have here := each attr (plain attr List.mem_cons_self)
    have more := ih fun other inside => plain other (List.mem_cons_of_mem _ inside)
    cases rest with
    | nil => simpa [Stream.attributesText] using here
    | cons next others =>
      simp only [Stream.attributesText,List.map_cons,List.isEmpty_cons,Bool.false_eq_true,if_false,
        String.toList_append] at more ⊢
      rw [String.intercalate_cons_cons,List.flatMap_cons,←here,←more]
      simp

mutual
theorem plain_letters : ∀ {node : Node κ}, node.Plain options →
    (node.tree.chunks options).flatMap String.toList = node.letters options
  | .element tag attributes children,plain => by
    obtain ⟨_,named,void,inside⟩ := plain
    have names := plain_attributes named
    have kids := plain_allLetters inside
    have empty : (Node.trees children).isEmpty = children.isEmpty := by cases children <;> rfl
    unfold Node.tree Tree.chunks Node.letters elementEnd
    by_cases closed : options.isVoid tag = true
    · obtain rfl := void closed
      simp only [Node.trees,closed,List.isEmpty_nil,and_self,if_true]
      unfold Stream.voidTag voidEnd
      split <;> simp [names,Stream.openTag]
    · simp [closed,names,kids,Stream.openTag,Stream.closeTag]
  | .text value,_ => by simp [Node.tree,Node.payload,Tree.chunks,Node.letters,Text.escaped]
  | .comment value,_ => by simp [Node.tree,Tree.chunks,Node.letters,remarkEnd]
  | .fragment children,plain => by
    simpa only [Node.tree,Tree.chunks,Node.letters] using plain_allLetters plain
  | .raw _,plain | .deferred _,plain | .sequence _,plain | .foreign _,plain => plain.elim
theorem plain_allLetters : ∀ {nodes : List (Node κ)}, Node.AllPlain options nodes →
    (Tree.chunksAll options (Node.trees nodes)).flatMap String.toList = Node.allLetters options nodes
  | [],_ => rfl
  | node :: rest,⟨here,more⟩ => by
    simp only [Node.trees,Tree.chunksAll,List.flatMap_append,plain_letters here,
      plain_allLetters more,Node.allLetters]
end

theorem joinText_letters (value : String) (content : List (Node κ)) :
    Node.allLetters options (Node.joinText value content) =
      Text.Escaped.encode value.toList ++ Node.allLetters options content := by
  unfold Node.joinText
  split
  · simp [Node.allLetters,Node.letters,Text.Escaped.encode_append]
  · split
    · rename_i empty
      simp [empty,Text.Escaped.encode_nil]
    · rfl

mutual
theorem before_letters : ∀ {node : Node κ} (content : List (Node κ)), node.Plain options →
    Node.allLetters options (node.before content) =
      node.letters options ++ Node.allLetters options content
  | .element tag attributes children,content,plain => by
    have inside := allBefore_letters [] plain.2.2.2
    simp only [Node.allLetters,List.append_nil] at inside
    simp only [Node.before,Node.allLetters,Node.letters,inside]
  | .text value,content,_ => joinText_letters value content
  | .comment value,content,_ => rfl
  | .fragment children,content,plain => by
    simpa only [Node.before,Node.letters] using allBefore_letters content plain
  | .raw _,_,plain | .deferred _,_,plain | .sequence _,_,plain | .foreign _,_,plain => plain.elim
theorem allBefore_letters : ∀ {nodes : List (Node κ)} (content : List (Node κ)),
    Node.AllPlain options nodes →
      Node.allLetters options (Node.allBefore nodes content) =
        Node.allLetters options nodes ++ Node.allLetters options content
  | [],_,_ => rfl
  | node :: rest,content,⟨here,more⟩ => by
    simp only [Node.allBefore,before_letters _ here,allBefore_letters _ more,Node.allLetters,
      List.append_assoc]
end

theorem joinText_plain {value : String} {content : List (Node κ)}
    (plain : Node.AllPlain options content) :
    Node.AllPlain options (Node.joinText value content) := by
  unfold Node.joinText
  split
  · exact plain
  · split
    · exact plain
    · exact ⟨trivial,plain⟩

mutual
theorem before_plain : ∀ {node : Node κ} {content : List (Node κ)}, node.Plain options →
    Node.AllPlain options content → Node.AllPlain options (node.before content)
  | .element ..,_,plain,further => by
    obtain ⟨tagged,named,void,inside⟩ := plain
    refine ⟨⟨tagged,named,?_,allBefore_plain inside trivial⟩,further⟩
    intro closed
    rw [void closed]
    rfl
  | .text _,_,_,further => joinText_plain further
  | .comment _,_,plain,further => ⟨plain,further⟩
  | .fragment _,_,plain,further => allBefore_plain plain further
  | .raw _,_,plain,_ | .deferred _,_,plain,_ | .sequence _,_,plain,_ | .foreign _,_,plain,_ =>
    plain.elim
theorem allBefore_plain : ∀ {nodes content : List (Node κ)}, Node.AllPlain options nodes →
    Node.AllPlain options content → Node.AllPlain options (Node.allBefore nodes content)
  | [],_,_,further => further
  | _ :: _,_,⟨here,more⟩,further => before_plain here (allBefore_plain more further)
end

def Node.isText : Node κ → Bool
  | .text _ => true
  | _ => false

def startsText : List (Node κ) → Bool
  | node :: _ => node.isText
  | [] => false

mutual
def Node.Joined : Node κ → Prop
  | .element _ _ children => Node.AllJoined children
  | .text value => value ≠ ""
  | .fragment _ => False
  | _ => True
def Node.AllJoined : List (Node κ) → Prop
  | [] => True
  | node :: rest =>
    node.Joined ∧ (node.isText = true → startsText rest = false) ∧ Node.AllJoined rest
end

theorem joinText_joined {value : String} {content : List (Node κ)}
    (joined : Node.AllJoined content) : Node.AllJoined (Node.joinText value content) := by
  unfold Node.joinText
  split
  · rename_i next rest
    obtain ⟨some,apart,more⟩ := joined
    refine ⟨?_,apart,more⟩
    intro empty
    exact some (String.append_eq_empty_iff.mp empty).2
  · rename_i other
    split
    · exact joined
    · rename_i some
      refine ⟨some,fun _ => ?_,joined⟩
      cases content with
      | nil => rfl
      | cons node rest =>
        cases node with
        | text next => exact absurd rfl (other next rest)
        | _ => rfl

mutual
theorem before_joined : ∀ {node : Node κ} {content : List (Node κ)}, node.Plain options →
    Node.AllJoined content → Node.AllJoined (node.before content)
  | .element ..,_,plain,further => ⟨allBefore_joined plain.2.2.2 trivial,nofun,further⟩
  | .text _,_,_,further => joinText_joined further
  | .comment _,_,_,further => ⟨trivial,nofun,further⟩
  | .fragment _,_,plain,further => allBefore_joined plain further
  | .raw _,_,plain,_ | .deferred _,_,plain,_ | .sequence _,_,plain,_ | .foreign _,_,plain,_ =>
    plain.elim
theorem allBefore_joined : ∀ {nodes content : List (Node κ)}, Node.AllPlain options nodes →
    Node.AllJoined content → Node.AllJoined (Node.allBefore nodes content)
  | [],_,_,further => further
  | _ :: _,_,⟨here,more⟩,further => before_joined here (allBefore_joined more further)
end

theorem escape_inj {c d : Char} {s t : List Char}
    (same : Text.Escaped.escape c ++ s = Text.Escaped.escape d ++ t) : c = d ∧ s = t := by
  unfold Text.Escaped.escape at same
  split at same <;> split at same <;>
    (simp only [List.cons_append,List.nil_append,List.cons.injEq] at same; grind)

theorem escape_clean (c : Char) : ∀ d ∈ Text.Escaped.escape c, d ≠ '<' ∧ d ≠ '"' := by
  unfold Text.Escaped.escape
  split <;> simp_all

theorem escape_cons (c : Char) : ∃ d more, Text.Escaped.escape c = d :: more := by
  unfold Text.Escaped.escape
  split <;> exact ⟨_,_,rfl⟩

theorem encode_inj {s t : List Char} (same : Text.Escaped.encode s = Text.Escaped.encode t) :
    s = t := by
  unfold Text.Escaped.encode at same
  induction s generalizing t with
  | nil =>
    cases t with
    | nil => rfl
    | cons d t =>
      obtain ⟨e,more,start⟩ := escape_cons d
      simp [start] at same
  | cons c s ih =>
    cases t with
    | nil =>
      obtain ⟨e,more,start⟩ := escape_cons c
      simp [start] at same
    | cons d t =>
      rw [List.flatMap_cons,List.flatMap_cons] at same
      obtain ⟨rfl,rest⟩ := escape_inj same
      rw [ih rest]

theorem encode_clean {s : List Char} : ∀ d ∈ Text.Escaped.encode s, d ≠ '<' ∧ d ≠ '"' := by
  intro d inside
  obtain ⟨c,_,known⟩ := List.mem_flatMap.mp inside
  exact escape_clean c d known

theorem runs_cut {p : Char → Bool} {s t r u : List Char} (run : ∀ c ∈ s, p c = true)
    (run' : ∀ c ∈ t, p c = true) (stops : Selector.Stops p r) (stops' : Selector.Stops p u)
    (same : s ++ r = t ++ u) : s = t ∧ r = u := by
  have first := congrArg (List.takeWhile p) same
  have second := congrArg (List.dropWhile p) same
  rw [Selector.takeWhile_run run stops,Selector.takeWhile_run run' stops'] at first
  rw [Selector.dropWhile_run run stops,Selector.dropWhile_run run' stops'] at second
  exact ⟨first,second⟩

theorem stops_cons {p : Char → Bool} {c : Char} (outside : p c = false) (rest : List Char) :
    Selector.Stops p (c :: rest) := by
  intro d more start
  cases start
  exact outside

theorem remark_start {more r s : List Char}
    (same : remarkEnd ++ r = more ++ (remarkEnd ++ s)) : more = [] ∨ remarkEnd <+: more := by
  unfold remarkEnd at same ⊢
  rcases more with _ | ⟨a,_ | ⟨b,_ | ⟨c,rest⟩⟩⟩
  · exact .inl rfl
  · simp at same
  · simp at same
  · simp only [List.cons_append,List.cons.injEq] at same
    obtain ⟨rfl,rfl,rfl,_⟩ := same
    exact .inr ⟨rest,rfl⟩

theorem remark_read {v w r s : List Char} (clear : ¬remarkEnd <:+: v) (clear' : ¬remarkEnd <:+: w)
    (same : v ++ (remarkEnd ++ r) = w ++ (remarkEnd ++ s)) : v = w ∧ r = s := by
  rcases List.append_eq_append_iff.mp same with ⟨more,rfl,rest⟩ | ⟨more,rfl,rest⟩
  · rcases remark_start rest with rfl | early
    · simpa using rest
    · exact absurd (early.isInfix.trans (List.suffix_append v more).isInfix) clear'
  · rcases remark_start rest with rfl | early
    · simpa using rest.symm
    · exact absurd (early.isInfix.trans (List.suffix_append w more).isInfix) clear

theorem name_stops (rest : List Char) : Selector.Stops Selector.inName ('=' :: rest) :=
  stops_cons (by decide +kernel) rest

theorem value_read {value value' : String} {r s : List Char}
    (same : Text.Escaped.encode value.toList ++ '"' :: r =
      Text.Escaped.encode value'.toList ++ '"' :: s) : value = value' ∧ r = s := by
  have clean : ∀ text : String, ∀ c ∈ Text.Escaped.encode text.toList, (c != '"') = true := by
    intro text c inside
    simpa using (encode_clean c inside).2
  obtain ⟨first,rest⟩ := runs_cut (clean value) (clean value') (stops_cons (by simp) r)
    (stops_cons (by simp) s) same
  exact ⟨String.toList_inj.mp (encode_inj first),by simpa using rest⟩

theorem attr_read {one other : Attr κ} {r s : List Char} (plain : one.Plain) (plain' : other.Plain)
    (same : one.letters ++ r = other.letters ++ s) : one = other ∧ r = s := by
  cases one with
  | driven | named => cases plain
  | fixed name value =>
    cases other with
    | driven | named => cases plain'
    | fixed name' value' =>
      simp only [Attr.letters,List.cons_append,List.append_assoc,List.cons.injEq,true_and,
        List.nil_append] at same
      have run := fun c inside => Selector.inName_iff.mpr (plain.2 c inside)
      have run' := fun c inside => Selector.inName_iff.mpr (plain'.2 c inside)
      obtain ⟨named,rest⟩ := runs_cut run run' (name_stops _) (name_stops _) same
      simp only [List.cons.injEq,true_and] at rest
      obtain ⟨rfl,behind⟩ := value_read rest
      obtain rfl := String.toList_inj.mp named
      exact ⟨rfl,behind⟩

theorem attributes_read {one other : List (Attr κ)} {r s : List Char}
    (plain : ∀ attr ∈ one, attr.Plain) (plain' : ∀ attr ∈ other, attr.Plain)
    (ends : ∀ rest, r ≠ ' ' :: rest) (ends' : ∀ rest, s ≠ ' ' :: rest)
    (same : one.flatMap Attr.letters ++ r = other.flatMap Attr.letters ++ s) :
    one = other ∧ r = s := by
  have blank : ∀ attr : Attr κ, attr.Plain → ∃ more, attr.letters = ' ' :: more := by
    intro attr named
    cases attr with
    | fixed => exact ⟨_,rfl⟩
    | driven | named => cases named
  induction one generalizing other with
  | nil =>
    cases other with
    | nil => exact ⟨rfl,same⟩
    | cons attr more =>
      obtain ⟨text,start⟩ := blank attr (plain' attr List.mem_cons_self)
      exact absurd (by simpa [start] using same) (ends _)
  | cons attr more ih =>
    cases other with
    | nil =>
      obtain ⟨text,start⟩ := blank attr (plain attr List.mem_cons_self)
      exact absurd (by simpa [start] using same.symm) (ends' _)
    | cons attr' more' =>
      rw [List.flatMap_cons,List.flatMap_cons,List.append_assoc,List.append_assoc] at same
      obtain ⟨rfl,rest⟩ :=
        attr_read (plain attr List.mem_cons_self) (plain' attr' List.mem_cons_self) same
      obtain ⟨rfl,behind⟩ := ih (fun other inside => plain other (List.mem_cons_of_mem _ inside))
        (fun other inside => plain' other (List.mem_cons_of_mem _ inside)) rest
      exact ⟨rfl,behind⟩

inductive Sign where
  | done
  | closing
  | remark
  | tag
  | text
  deriving DecidableEq

def sign : List Char → Sign
  | [] => .done
  | '<' :: '/' :: _ => .closing
  | '<' :: '!' :: _ => .remark
  | '<' :: _ => .tag
  | _ :: _ => .text

def Node.sign : Node κ → Sign
  | .element .. => .tag
  | .comment _ => .remark
  | _ => .text

theorem sign_text {c : Char} (other : c ≠ '<') (rest : List Char) : sign (c :: rest) = .text := by
  unfold sign
  split <;> simp_all

theorem sign_tag {c : Char} (letter : Text.isAsciiLetter c = true) (rest : List Char) :
    sign ('<' :: c :: rest) = .tag := by
  have notClosing : c ≠ '/' := by
    rintro rfl
    exact absurd letter (by decide)
  have notRemark : c ≠ '!' := by
    rintro rfl
    exact absurd letter (by decide)
  unfold sign
  split <;> grind

theorem letters_sign {node : Node κ} (plain : node.Plain options) (joined : node.Joined)
    (rest : List Char) : sign (node.letters options ++ rest) = node.sign := by
  cases node with
  | element tag attributes children =>
    obtain ⟨tagged,_⟩ := plain
    unfold Node.letters
    generalize tag.toList = name at tagged
    cases tagged with
    | intro head tail => exact sign_tag head _
  | text value =>
    unfold Node.letters
    cases start : value.toList with
    | nil => exact absurd (String.toList_eq_nil_iff.mp start) joined
    | cons c more =>
      obtain ⟨d,others,opened⟩ := escape_cons c
      have clean : d ≠ '<' := (escape_clean c d (by simp [opened])).1
      rw [Text.Escaped.encode,List.flatMap_cons,opened]
      exact sign_text clean _
  | comment value => rfl
  | fragment => exact joined.elim
  | raw | deferred | sequence | foreign => exact plain.elim

theorem sign_stops {rest : List Char} (other : sign rest ≠ .text) :
    Selector.Stops (fun c => c != '<') rest := by
  intro c more start
  by_cases opens : c = '<'
  · simp [opens]
  · exact absurd (start ▸ sign_text opens more) other

theorem tag_stops {attributes : List (Attr κ)} {c : Char} (plain : ∀ attr ∈ attributes, attr.Plain)
    (outside : Selector.inTag c = false) (rest : List Char) :
    Selector.Stops Selector.inTag (attributes.flatMap Attr.letters ++ c :: rest) := by
  cases attributes with
  | nil => exact stops_cons outside rest
  | cons attr more =>
    have named := plain attr List.mem_cons_self
    cases attr with
    | fixed => exact stops_cons (by decide) _
    | driven | named => cases named

theorem elementEnd_start (options : Options) (tag : String) (inside : List Char) :
    ∃ c more, elementEnd options tag inside = c :: more ∧ Selector.inTag c = false ∧ c ≠ ' ' := by
  unfold elementEnd voidEnd
  split
  · split
    · exact ⟨_,_,rfl,by decide,by decide⟩
    · exact ⟨_,_,rfl,by decide,by decide⟩
  · exact ⟨_,_,rfl,by decide,by decide⟩

theorem tagText_run {s : List Char} (tagged : Selector.TagText s) :
    ∀ c ∈ s, Selector.inTag c = true := by
  cases tagged with
  | @intro c rest head tail =>
    intro d inside
    rcases List.mem_cons.mp inside with rfl | later
    · exact Selector.inTag_iff.mpr (.inl head)
    · exact Selector.inTag_iff.mpr (tail d later)

theorem element_read {tag tag' : String} {attributes attributes' : List (Attr κ)}
    {children children' : List (Node κ)} {r s : List Char}
    (plain : (Node.element tag attributes children).Plain options)
    (plain' : (Node.element tag' attributes' children').Plain options)
    (same : (Node.element tag attributes children).letters options ++ r =
      (Node.element tag' attributes' children').letters options ++ s) :
    tag = tag' ∧ attributes = attributes' ∧
      elementEnd options tag (Node.allLetters options children) ++ r =
        elementEnd options tag' (Node.allLetters options children') ++ s := by
  obtain ⟨tagged,named,_⟩ := plain
  obtain ⟨tagged',named',_⟩ := plain'
  obtain ⟨c,more,inner,outside,solid⟩ :=
    elementEnd_start options tag (Node.allLetters options children)
  obtain ⟨c',more',inner',outside',solid'⟩ :=
    elementEnd_start options tag' (Node.allLetters options children')
  simp only [Node.letters,inner,inner',List.cons_append,List.append_assoc,List.cons.injEq,
    true_and] at same
  obtain ⟨name,rest⟩ := runs_cut (tagText_run tagged) (tagText_run tagged')
    (tag_stops named outside _) (tag_stops named' outside' _) same
  obtain ⟨rfl,behind⟩ := attributes_read named named' (fun _ start => solid (List.cons.inj start).1)
    (fun _ start => solid' (List.cons.inj start).1) rest
  exact ⟨String.toList_inj.mp name,rfl,by simpa [inner,inner'] using behind⟩

theorem text_read {value value' : String} {r s : List Char} (ends : sign r ≠ .text)
    (ends' : sign s ≠ .text)
    (same : Text.Escaped.encode value.toList ++ r = Text.Escaped.encode value'.toList ++ s) :
    value = value' ∧ r = s := by
  have clean : ∀ text : String, ∀ c ∈ Text.Escaped.encode text.toList, (c != '<') = true := by
    intro text c inside
    simpa using (encode_clean c inside).1
  obtain ⟨first,rest⟩ := runs_cut (clean value) (clean value') (sign_stops ends) (sign_stops ends')
    same
  exact ⟨String.toList_inj.mp (encode_inj first),rest⟩

def Ends (rest : List Char) : Prop := sign rest = .done ∨ sign rest = .closing

theorem behind_sign {node : Node κ} {nodes : List (Node κ)} {rest : List Char} (ends : Ends rest)
    (plain : Node.AllPlain options nodes) (joined : Node.AllJoined nodes)
    (apart : node.isText = true → startsText nodes = false) (text : node.isText = true) :
    sign (Node.allLetters options nodes ++ rest) ≠ .text := by
  cases nodes with
  | nil => rcases ends with none | closes <;> simp_all [Node.allLetters]
  | cons next more =>
    have other := apart text
    rw [Node.allLetters,List.append_assoc,letters_sign plain.1 joined.1]
    cases next with
    | text => cases other
    | element | comment => exact nofun
    | fragment => exact joined.1.elim
    | raw | deferred | sequence | foreign => exact plain.1.elim

theorem ends_not_sign {node : Node κ} {rest : List Char} (ends : Ends rest)
    (same : sign rest = node.sign) : False := by
  rcases ends with none | closes <;> cases node <;> simp_all [Node.sign]

-- Markup is read in one way. The induction is on the content that one side is
-- written from; what follows it on either side is left over unread.
mutual
theorem node_read : ∀ {one other : Node κ} {r s : List Char}, one.Plain options →
    other.Plain options → one.Joined → other.Joined → (one.isText = true → sign r ≠ .text) →
      (other.isText = true → sign s ≠ .text) →
        one.letters options ++ r = other.letters options ++ s → one = other ∧ r = s
  | .element tag attributes children,other,r,s,plain,plain',joined,joined',_,_,same => by
    have kind := congrArg sign same
    rw [letters_sign plain joined,letters_sign plain' joined'] at kind
    cases other with
    | element tag' attributes' children' =>
      obtain ⟨rfl,rfl,inner⟩ := element_read plain plain' same
      unfold elementEnd at inner
      by_cases closed : options.isVoid tag = true
      · obtain rfl := plain.2.2.1 closed
        obtain rfl := plain'.2.2.1 closed
        exact ⟨rfl,List.append_cancel_left inner⟩
      · simp only [closed,Bool.false_eq_true,if_false,List.cons_append,List.append_assoc,
          List.cons.injEq,true_and] at inner
        obtain ⟨rfl,rest⟩ := nodes_read plain.2.2.2 plain'.2.2.2 joined joined' (.inr rfl) (.inr rfl)
          inner
        simp only [List.cons.injEq,true_and] at rest
        exact ⟨rfl,by simpa using List.append_cancel_left rest⟩
    | text | comment => cases kind
    | fragment => exact joined'.elim
    | raw | deferred | sequence | foreign => exact plain'.elim
  | .text value,other,r,s,plain,plain',joined,joined',ends,ends',same => by
    have kind := congrArg sign same
    rw [letters_sign plain joined,letters_sign plain' joined'] at kind
    cases other with
    | text value' =>
      obtain ⟨rfl,rest⟩ := text_read (ends rfl) (ends' rfl) same
      exact ⟨rfl,rest⟩
    | element | comment => cases kind
    | fragment => exact joined'.elim
    | raw | deferred | sequence | foreign => exact plain'.elim
  | .comment value,other,r,s,plain,plain',joined,joined',_,_,same => by
    have kind := congrArg sign same
    rw [letters_sign plain joined,letters_sign plain' joined'] at kind
    cases other with
    | comment value' =>
      simp only [Node.letters,List.cons_append,List.append_assoc,List.cons.injEq,true_and] at same
      obtain ⟨value_,rest⟩ := remark_read plain plain' same
      obtain rfl := String.toList_inj.mp value_
      exact ⟨rfl,rest⟩
    | element | text => cases kind
    | fragment => exact joined'.elim
    | raw | deferred | sequence | foreign => exact plain'.elim
  | .fragment _,_,_,_,_,_,joined,_,_,_,_ => joined.elim
  | .raw _,_,_,_,plain,_,_,_,_,_,_ | .deferred _,_,_,_,plain,_,_,_,_,_,_
  | .sequence _,_,_,_,plain,_,_,_,_,_,_ | .foreign _,_,_,_,plain,_,_,_,_,_,_ => plain.elim
theorem nodes_read : ∀ {one other : List (Node κ)} {r s : List Char}, Node.AllPlain options one →
    Node.AllPlain options other → Node.AllJoined one → Node.AllJoined other → Ends r → Ends s →
      Node.allLetters options one ++ r = Node.allLetters options other ++ s → one = other ∧ r = s
  | [],[],_,_,_,_,_,_,_,_,same => ⟨rfl,same⟩
  | [],node :: rest,r,s,_,plain,_,joined,ends,_,same => by
    have kind := congrArg sign same
    simp only [Node.allLetters,List.nil_append,List.append_assoc] at kind
    rw [letters_sign plain.1 joined.1] at kind
    exact (ends_not_sign ends kind).elim
  | node :: rest,[],r,s,plain,_,joined,_,_,ends,same => by
    have kind := congrArg sign same
    simp only [Node.allLetters,List.nil_append,List.append_assoc] at kind
    rw [letters_sign plain.1 joined.1] at kind
    exact (ends_not_sign ends kind.symm).elim
  | node :: rest,node' :: rest',r,s,plain,plain',joined,joined',ends,ends',same => by
    simp only [Node.allLetters,List.append_assoc] at same
    obtain ⟨rfl,behind⟩ := node_read plain.1 plain'.1 joined.1 joined'.1
      (fun text => behind_sign ends plain.2 joined.2.2 joined.2.1 text)
      (fun text => behind_sign ends' plain'.2 joined'.2.2 joined'.2.1 text) same
    obtain ⟨rfl,left⟩ := nodes_read plain.2 plain'.2 joined.2.2 joined'.2.2 ends ends' behind
    exact ⟨rfl,left⟩
end

theorem letters_normal {one other : Node κ} (plain : one.Plain options)
    (plain' : other.Plain options) :
    one.letters options = other.letters options ↔ one.normal = other.normal := by
  have written : ∀ node : Node κ, node.Plain options →
      Node.allLetters options node.normal = node.letters options := by
    intro node plain
    have whole := before_letters [] plain
    simpa [Node.normal,Node.allLetters] using whole
  constructor
  · intro same
    rw [←written one plain,←written other plain'] at same
    have ends : Ends [] := .inl rfl
    have none : Node.AllPlain options ([] : List (Node κ)) := trivial
    have none' : Node.AllJoined ([] : List (Node κ)) := trivial
    exact (nodes_read (before_plain plain none) (before_plain plain' none)
      (before_joined plain none') (before_joined plain' none') ends ends
      (congrArg (· ++ []) same)).1
  · intro same
    rw [←written one plain,←written other plain',same]

theorem parsed_plain {selector : String} {found : Node κ} {store after : Store}
    (parsed : parseElement selector store = .ok found after) : found.Plain options := by
  unfold parseElement at parsed
  cases read : Selector.read selector with
  | error fault => simp [read] at parsed
  | ok accepted =>
    obtain ⟨name,parts,cut⟩ := Selector.accepted_split read
    obtain ⟨tagged,named⟩ := split_texts cut
    rw [Selector.read_split cut] at read
    cases read
    simp only [Selector.read_split cut,Action.pure_apply,EStateM.Result.ok.injEq] at parsed
    obtain ⟨rfl,_⟩ := parsed
    refine ⟨by simpa using tagged,?_,fun _ => rfl,trivial⟩
    intro attr inside
    obtain ⟨part,known,rfl⟩ := List.mem_map.mp inside
    exact merge_names named part known

theorem plain_renders (host : Host κ) {node : Node κ} (plain : node.Plain options)
    (given : Option Token) (store : Store) (found : Except Fault String) :
    Rendering.Renders host node given options store found ↔
      found = .ok (node.tree.markup options) := by
  have renders := Rendering.static_renders host node.tree given options store
  rw [plain_tree plain] at renders
  constructor
  · exact fun other => Rendering.renders_unique other renders
  · rintro rfl
    exact renders

theorem plain_markup {node : Node κ} (plain : node.Plain options) :
    (node.tree.markup options).toList =
      (Tree.heading options).flatMap String.toList ++ node.letters options := by
  rw [Tree.markup,String.toList_join,List.flatMap_append,plain_letters plain]

-- Markup tells the tree that it was written from, up to the normal form: two
-- plain trees are written alike under the same options exactly if they have the
-- same normal form. What is read from a selector is plain.
theorem markup_unambiguous (host : Host κ) {one other : Node κ} (plain : one.Plain options)
    (plain' : other.Plain options) (given given' : Option Token) (store store' : Store) :
    (∃ text text',
      (∀ found, Rendering.Renders host one given options store found ↔ found = .ok text) ∧
      (∀ found, Rendering.Renders host other given' options store' found ↔ found = .ok text') ∧
        (text = text' ↔ one.normal = other.normal)) ∧
      ∀ selector start found after, parseElement (κ := κ) selector start = .ok found after →
        found.Plain options := by
  refine ⟨⟨one.tree.markup options,other.tree.markup options,plain_renders host plain given store,
    plain_renders host plain' given' store',?_⟩,fun _ _ _ _ parsed => parsed_plain parsed⟩
  rw [←letters_normal plain plain',←String.toList_inj,plain_markup plain,plain_markup plain',
    List.append_right_inj]

def loosePage : Node Nat :=
  .fragment [.text "1 <",.text "",.fragment [.text " 2",.element "p" [.fixed "title" "\"x\""]
    [.comment "-",.text "&",.text "lt;"]],.element "br" [] []]

def wholePage : Node Nat :=
  .fragment [.text "1 < 2",.element "p" [.fixed "title" "\"x\""] [.comment "-",.text "&lt;"],
    .element "br" [] []]

theorem loosePage_wholePage :
    loosePage.Plain .default ∧ wholePage.Plain .default ∧ loosePage.normal = wholePage.normal ∧
      ((∃ text text',
        (∀ found, Rendering.Renders Rendering.lateHost loosePage none .default {} found ↔
          found = .ok text) ∧
        (∀ found, Rendering.Renders Rendering.lateHost wholePage none .default {} found ↔
          found = .ok text') ∧ (text = text' ↔ loosePage.normal = wholePage.normal)) ∧
        ∀ selector start found after, parseElement (κ := Nat) selector start = .ok found after →
          found.Plain .default) := by
  have para : Selector.TagText "p".toList := .intro (by decide) (by simp)
  have line : Selector.TagText "br".toList := .intro (by decide) (by simp; decide)
  have title : NameText "title".toList := letters_name (by simp) (by simp; decide)
  have open_p : Options.default.isVoid "p" = false := by decide
  have shown : ¬remarkEnd <:+: "-".toList := by decide
  have plain : loosePage.Plain .default := by
    simp [loosePage,Node.Plain,Node.AllPlain,Attr.Plain,open_p]
    exact ⟨⟨para,title,shown⟩,line⟩
  have plain' : wholePage.Plain .default := by
    simp [wholePage,Node.Plain,Node.AllPlain,Attr.Plain,open_p]
    exact ⟨⟨para,title,shown⟩,line⟩
  exact ⟨plain,plain',rfl,markup_unambiguous Rendering.lateHost plain plain' none none {} {}⟩

end Markup
