import Markup.Cli.Outcome
import Markup.Proofs.Rendering.Session
import Markup.Proofs.Selector.Grammar
import Markup.Proofs.Tree

namespace Markup

namespace Rendering

variable {κ : Type}

-- A stream that hands over some texts, each within a number of steps, and is at
-- its end then. The store stays as it is.
inductive Writes (host : Host κ) (fuel : Nat) (store : Store) :
    Stream κ → List String → Prop where
  | ended (last : stream.next host fuel store = .ok none store) :
      Writes host fuel store stream []
  | text (given : stream.next host fuel store = .ok (some (text,next)) store)
      (more : Writes host fuel store next texts) :
      Writes host fuel store stream (text :: texts)

variable {host : Host κ} {fuel count : Nat} {store : Store} {stream : Stream κ}
  {texts : List String} {token : Token} {options : Options} {rest : List (Task κ)}

theorem writes_read (writes : Writes host fuel store stream texts) :
    ∀ {count : Nat} {chunks : List String}, texts.length < count →
      stream.read host fuel count chunks store =
        .ok (chunks.reverse ++ texts,.finished) store := by
  induction writes with
  | ended last =>
    intro count chunks enough
    obtain ⟨count,rfl⟩ := Nat.exists_eq_add_of_lt enough
    simp [Stream.read,last]
  | text given more ih =>
    intro count chunks enough
    obtain ⟨count,rfl⟩ := Nat.exists_eq_add_of_le' (Nat.lt_of_le_of_lt (Nat.zero_le _) enough)
    simp only [Stream.read,Action.bind_apply,Action.tryCatch_apply,given,Action.pure_apply]
    rw [ih (Nat.lt_of_succ_lt_succ enough)]
    simp

theorem writes_end (positive : 0 < fuel) : Writes host fuel store ⟨token,options,[]⟩ [] := by
  obtain ⟨fuel,rfl⟩ := Nat.exists_eq_add_of_le' positive
  exact .ended (next_halts .finished fuel)

theorem writes_chunks (positive : 0 < fuel) (front : List String)
    (more : Writes host fuel store ⟨token,options,rest⟩ texts) :
    Writes host fuel store ⟨token,options,front.map .chunk ++ rest⟩ (front ++ texts) := by
  obtain ⟨fuel,rfl⟩ := Nat.exists_eq_add_of_le' positive
  induction front with
  | nil => exact more
  | cons text front ih => exact .text (next_chunk .chunk rfl fuel) ih

theorem writes_texts (positive : 0 < fuel) (values : List String)
    (more : Writes host fuel store ⟨token,options,rest⟩ texts) :
    Writes host fuel store ⟨token,options,values.map (.show ∘ .text) ++ rest⟩
      (values.map Text.escaped ++ texts) := by
  obtain ⟨fuel,rfl⟩ := Nat.exists_eq_add_of_le' positive
  induction values with
  | nil => exact more
  | cons value values ih => exact .text (next_chunk (.leaf rfl) rfl fuel) ih

theorem tag_next (name : String) (pairs : List (String × String)) (children : List (Node κ)) :
    ∀ {fuel : Nat} (shown : List (String × String)), pairs.length < fuel →
      Stream.next host fuel ⟨token,options,.tag name shown
        (pairs.map fun pair => .fixed pair.1 pair.2) children :: rest⟩ store =
        .ok (some ((Stream.opening options name (shown ++ pairs) children).1,
          ⟨token,options,(Stream.opening options name (shown ++ pairs) children).2 ++ rest⟩))
          store := by
  induction pairs with
  | nil =>
    intro fuel shown enough
    obtain ⟨fuel,rfl⟩ := Nat.exists_eq_add_of_le' enough
    rw [List.append_nil]
    exact next_chunk .opening rfl fuel
  | cons pair pairs ih =>
    intro fuel shown enough
    obtain ⟨fuel,rfl⟩ := Nat.exists_eq_add_of_le' (Nat.lt_of_le_of_lt (Nat.zero_le _) enough)
    rw [List.map_cons,next_quiet .fixed rfl,ih _ (Nat.lt_of_succ_lt_succ enough)]
    simp

theorem element_next (name : String) (pairs : List (String × String)) (children : List (Node κ))
    (enough : pairs.length + 1 < fuel) :
    Stream.next host fuel ⟨token,options,.show (.element name
      (pairs.map fun pair => .fixed pair.1 pair.2) children) :: rest⟩ store =
      .ok (some ((Stream.opening options name pairs children).1,
        ⟨token,options,(Stream.opening options name pairs children).2 ++ rest⟩)) store := by
  obtain ⟨fuel,rfl⟩ := Nat.exists_eq_add_of_le' (Nat.lt_of_le_of_lt (Nat.zero_le _) enough)
  rw [next_quiet .element rfl,tag_next name pairs children [] (by omega),List.nil_append]

end Rendering

namespace Cli

open Rendering

def attributeMarkup (part : Selector.Part) : String :=
  " " ++ part.name ++ "=\"" ++ Text.escaped part.value ++ "\""

def tagMarkup (found : Selector) : String :=
  "<" ++ found.tag ++ String.join (found.attributes.map attributeMarkup)

def elementMarkup (voidTags : List String) (selfClose : Bool) (found : Selector)
    (texts : List String) : String :=
  if found.tag ∈ voidTags ∧ texts = [] then tagMarkup found ++ if selfClose then "/>" else ">"
  else
    tagMarkup found ++ ">" ++ String.join (texts.map Text.escaped) ++ "</" ++ found.tag ++ ">"

def doctypeMarkup (flag config : Option String) : String :=
  let name := (if flag.getD "" = "" then config else flag).getD ""
  if name = "" then "" else "<!DOCTYPE " ++ name ++ ">"

def page (request : Request) (found : Selector) (options : Options) : String :=
  doctypeMarkup request.doctype options.doctype ++
    elementMarkup options.voidTags (request.selfCloseVoid || options.selfCloseVoid) found
      request.texts

def elementOf (found : Selector) (texts : List String) : Node Empty :=
  .element found.tag (found.attributes.map fun part => .fixed part.name part.value)
    (texts.map .text)

def loaded (files : String → File) (request : Request) : Except FileFault Options :=
  match request.config with
  | none => .ok Options.default
  | some path => Options.load (Options.tidyPath path) (files (Options.tidyPath path))

-- How a request ends. The rules exclude each other, and only the last three of
-- them look at a file.
inductive Answers (files : String → File) (request : Request) : Ending → Prop where
  | unread (wrong : Selector.read request.selector = .error fault) :
      Answers files request (.outcome ⟨1,"",
        if request.verbose then [(Event.rejected fault).line] else [],request.verbose,
        some fault.message⟩)
  | data (right : Selector.read request.selector = .ok found) (asked : request.json = true) :
      Answers files request (.outcome
        ⟨0,(elementOf found request.texts).dump.document,[],request.verbose,none⟩)
  | unusable (right : Selector.read request.selector = .ok found) (asked : request.json = false)
      (refused : loaded files request = .error fault) (content : fault.isContent = true)
      (said : fault.message? = some message) :
      Answers files request (.outcome ⟨1,"",[],request.verbose,some message⟩)
  | broken (right : Selector.read request.selector = .ok found) (asked : request.json = false)
      (refused : loaded files request = .error fault) (other : fault.isContent = false) :
      Answers files request (.broken fault)
  | page (right : Selector.read request.selector = .ok found) (asked : request.json = false)
      (given : loaded files request = .ok options) :
      Answers files request (.outcome
        ⟨0,page request found options ++ "\n",[],request.verbose,none⟩)

variable {files : String → File} {request : Request} {ending : Ending}

theorem attributesText_eq (parts : List Selector.Part) :
    Stream.attributesText (parts.map fun part => (part.name,part.value)) =
      String.join (parts.map attributeMarkup) := by
  cases parts with
  | nil => rfl
  | cons part parts =>
    have apart : ∀ part, " " ++ " ".intercalate (((part :: parts).map fun part =>
        (part.name,part.value)).map Stream.attributeText) =
          String.join ((part :: parts).map attributeMarkup) := by
      induction parts with
      | nil => simp [attributeMarkup,Stream.attributeText,String.append_assoc]
      | cons next parts ih =>
        intro part
        simp only [List.map_cons,String.intercalate_cons_cons,String.join_cons] at ih ⊢
        rw [←ih next]
        simp only [attributeMarkup,Stream.attributeText,String.append_assoc]
    exact apart part

theorem adjust_eq (request : Request) (options : Options) :
    adjust request options = ⟨options.voidTags,request.selfCloseVoid || options.selfCloseVoid,
      if request.doctype.getD "" = "" then options.doctype else request.doctype⟩ := by
  unfold adjust
  cases request.selfCloseVoid <;> cases request.doctype <;>
    simp only [Option.getD_none,Option.getD_some] <;> split <;> simp_all

theorem heading_eq (options : Options) :
    String.join (Tree.heading options) = doctypeMarkup none options.doctype := by
  unfold Tree.heading doctypeMarkup
  cases options.doctype with
  | none => rfl
  | some doctype =>
    simp only [Option.getD_none,Option.getD_some,if_true]
    split <;> simp

theorem add_texts (tag : String) (attributes : List (Attr Empty)) (store : Store) :
    ∀ (values : List String) (children : List (Node Empty)),
      (values.map Node.string).foldlM (Node.add host) (.element tag attributes children) store =
        .ok (.element tag attributes (children ++ values.map .text)) store := by
  intro values
  induction values with
  | nil => intro children; simp
  | cons value values ih =>
    intro children
    have here : Node.add host (.element tag attributes children) (Node.string value) store =
        .ok (.element tag attributes (children ++ [.text value])) store := rfl
    rw [List.map_cons,List.foldlM_cons,Action.bind_apply,here]
    dsimp only
    rw [ih,List.append_assoc]
    rfl

theorem element_read {request : Request} (right : Selector.read request.selector = .ok found)
    (store : Store) : element request store = .ok (elementOf found request.texts) store := by
  unfold element build parseElement
  rw [right]
  exact add_texts found.tag _ store request.texts []

theorem element_unread {request : Request}
    (wrong : Selector.read request.selector = .error fault) (store : Store) :
    element request store = .error (.selector fault) (store.noted (.rejected fault)) := by
  unfold element build parseElement
  rw [wrong]
  rfl

theorem opening_texts (options : Options) (tag : String) (shown : List (String × String))
    (texts : List String) :
    Stream.opening options tag shown (texts.map (Node.text (κ := Empty))) =
      if tag ∈ options.voidTags ∧ texts = [] then
        (Stream.voidTag options tag (Stream.attributesText shown),[])
      else (Stream.openTag tag (Stream.attributesText shown),
        texts.map (.show ∘ .text) ++ [.chunk (Stream.closeTag tag)]) := by
  simp [Stream.opening,Options.isVoid]

def elementTexts (options : Options) (found : Selector) (texts : List String) : List String :=
  (Stream.opening options found.tag (found.attributes.map fun part => (part.name,part.value))
    (texts.map (Node.text (κ := Empty)))).1 ::
      if found.tag ∈ options.voidTags ∧ texts = [] then []
      else texts.map Text.escaped ++ [Stream.closeTag found.tag]

theorem elementTexts_join (options : Options) (found : Selector) (texts : List String) :
    String.join (elementTexts options found texts) =
      elementMarkup options.voidTags options.selfCloseVoid found texts := by
  unfold elementTexts elementMarkup tagMarkup
  rw [opening_texts,attributesText_eq]
  split
  · cases closed : options.selfCloseVoid <;>
      simp [Stream.voidTag,Stream.openTag,closed,String.append_assoc]
  · simp [Stream.openTag,Stream.closeTag,String.join_append,String.append_assoc]

theorem element_writes (options : Options) (found : Selector) (texts : List String)
    (token : Token) (store : Store) (enough : found.attributes.length + 1 < fuel) :
    Writes host fuel store (Stream.start token options (elementOf found texts))
      (Tree.heading options ++ elementTexts options found texts) := by
  have positive : 0 < fuel := Nat.lt_of_le_of_lt (Nat.zero_le _) enough
  have pairs : elementOf found texts = .element found.tag
      ((found.attributes.map fun part => (part.name,part.value)).map fun pair =>
        .fixed pair.1 pair.2) (texts.map .text) := by simp [elementOf]
  rw [Stream.start,Tree.declaration_eq,pairs]
  refine writes_chunks positive _ (.text (element_next _ _ _ (by simpa using enough)) ?_)
  rw [opening_texts]
  split
  · exact writes_end positive
  · have closes : Writes host fuel store ⟨token,options,[.chunk (Stream.closeTag found.tag)]⟩
        [Stream.closeTag found.tag] :=
      writes_chunks positive [Stream.closeTag found.tag] (writes_end positive)
    simpa using writes_texts positive texts closes

theorem write_eq (request : Request) (found : Selector) (store : Store) (options : Options) :
    write request (elementOf found request.texts) store options =
      succeeded request store.issued (page request found options ++ "\n") := by
  have enough : found.attributes.length + 1 < room (elementOf found request.texts) := by
    simp [room,elementOf]
    omega
  have writes := element_writes (adjust request options) found request.texts
    (.fresh store.supply) store.issued enough
  have short : (Tree.heading (adjust request options)).length +
      (elementTexts (adjust request options) found request.texts).length <
        room (elementOf found request.texts) := by
    have one : (Tree.heading (adjust request options)).length ≤ 1 := by
      unfold Tree.heading
      cases (adjust request options).doctype with
      | none => simp
      | some doctype => dsimp only; split <;> simp
    unfold elementTexts
    split <;> simp [room,elementOf] <;> omega
  have text : String.join (Tree.heading (adjust request options) ++
      elementTexts (adjust request options) found request.texts) = page request found options := by
    rw [String.join_append,heading_eq,elementTexts_join,adjust_eq]
    simp [page,doctypeMarkup]
  unfold write markup renderText
  rw [Action.bind_apply,Action.tokenOr_none]
  dsimp only
  rw [Action.bind_apply,writes_read writes (by rwa [List.length_append])]
  simp [text]

theorem content_said {fault : FileFault} (content : fault.isContent = true) :
    ∃ message, fault.message? = some message := by
  cases fault with
  | missing | directory | notUnicode =>
    simp [FileFault.isContent,FileFault.kind] at content
  | _ => exact ⟨_,rfl⟩

theorem plan_unread {request : Request}
    (wrong : Selector.read request.selector = .error fault) :
    request.plan = .done ⟨1,"",
      if request.verbose then [(Event.rejected fault).line] else [],request.verbose,
      some fault.message⟩ := by
  unfold Request.plan
  rw [element_unread wrong]
  rfl

theorem plan_data {request : Request} (right : Selector.read request.selector = .ok found)
    (asked : request.json = true) :
    request.plan = .done
      ⟨0,(elementOf found request.texts).dump.document,[],request.verbose,none⟩ := by
  unfold Request.plan
  rw [element_read right]
  simp [asked,succeeded,shown]

theorem plan_markup {request : Request} (right : Selector.read request.selector = .ok found)
    (asked : request.json = false) (files : String → File) :
    request.plan.run files =
      match loaded files request with
      | .ok options =>
        .outcome ⟨0,page request found options ++ "\n",[],request.verbose,none⟩
      | .error fault =>
        if fault.isContent then
          .outcome ⟨1,"",[],request.verbose,some (fault.message?.getD "")⟩
        else .broken fault := by
  unfold Request.plan loaded
  rw [element_read right]
  cases request.config with
  | none => simp [asked,Plan.run,write_eq,succeeded,shown,Store.issued]
  | some path =>
    simp only [asked,Bool.false_eq_true,if_false,Plan.run,writeWith]
    cases Options.load (Options.tidyPath path) (files (Options.tidyPath path)) with
    | ok options => simp [write_eq,succeeded,shown,Store.issued]
    | error fault => simp [refused,shown]

theorem run_answers (files : String → File) (request : Request) :
    Answers files request (request.plan.run files) := by
  cases answer : Selector.read request.selector with
  | error fault =>
    rw [plan_unread answer]
    exact .unread answer
  | ok found =>
    cases asked : request.json with
    | true =>
      rw [plan_data answer asked]
      exact .data answer asked
    | false =>
      rw [plan_markup answer asked]
      cases given : loaded files request with
      | ok options => exact .page answer asked given
      | error fault =>
        dsimp only
        split
        · rename_i content
          obtain ⟨message,said⟩ := content_said content
          rw [said]
          exact .unusable answer asked given content said
        · rename_i other
          exact .broken answer asked given (Bool.eq_false_iff.mpr other)

theorem answers_unique (one : Answers files request ending) :
    ∀ {other}, Answers files request other → ending = other := by
  intro other answers
  cases one <;> cases answers <;> simp_all

theorem escaped_join (texts : List String) :
    String.join (texts.map Text.escaped) = Text.escaped (String.join texts) := by
  induction texts with
  | nil => rfl
  | cons text texts ih =>
    rw [List.map_cons,String.join_cons,String.join_cons,ih]
    simp [Text.escaped,Text.Escaped.encode_append]

theorem page_joined {request : Request} {texts : List String} (found : Selector)
    (options : Options) (filled : request.texts ≠ []) (others : texts ≠ [])
    (same : String.join texts = String.join request.texts) :
    page {request with texts} found options = page request found options := by
  simp [page,elementMarkup,filled,others,escaped_join,same]

theorem answers_joined {texts : List String} (answers : Answers files request ending)
    (asked : request.json = false) (filled : request.texts ≠ []) (others : texts ≠ [])
    (same : String.join texts = String.join request.texts) :
    Answers files {request with texts} ending := by
  -- Only the page is made of the texts, the other rules read off the rest.
  cases answers with
  | unread wrong => exact .unread wrong
  | data right data => simp [asked] at data
  | unusable right asked refused content said => exact .unusable right asked refused content said
  | broken right asked refused other => exact .broken right asked refused other
  | @page found options right asked given =>
    rw [←page_joined found options filled others same]
    exact .page right asked given

-- A command line that asks for an element ends by the rules and in no other
-- way, and asks for no file where the selector or the data settle it.
theorem ending_answers (accepted : Command.ofArguments args = .ok (.run request)) :
    (∀ files ending, (plan args).run files = ending ↔ Answers files request ending) ∧
    ((∃ fault, Selector.read request.selector = .error fault) ∨ request.json = true →
      ∃ outcome, plan args = .done outcome) ∧
    ∀ args' texts, Command.ofArguments args' = .ok (.run {request with texts}) →
      request.json = false → request.texts ≠ [] → texts ≠ [] →
      String.join texts = String.join request.texts →
      ∀ files, (plan args').run files = (plan args).run files := by
  have planned : ∀ {args request}, Command.ofArguments args = .ok (.run request) →
      plan args = request.plan := by
    intro args request accepted
    unfold plan
    rw [accepted]
  rw [planned accepted]
  refine ⟨?_,?_,?_⟩
  · intro files ending
    constructor
    · rintro rfl
      exact run_answers files request
    · exact answers_unique (run_answers files request)
  · intro settled
    cases answer : Selector.read request.selector with
    | error fault => exact ⟨_,plan_unread answer⟩
    | ok found =>
      rcases settled with ⟨fault,wrong⟩ | asked
      · simp [answer] at wrong
      · exact ⟨_,plan_data answer asked⟩
  · intro args' texts accepted' asked filled others same files
    rw [planned accepted']
    exact answers_unique (run_answers files _)
      (answers_joined (run_answers files request) asked filled others same)

theorem notice_answers :
    Command.ofArguments ["--doctype","html","p.a.b[title=\"]","1 <2"] =
      .ok (.run ⟨"p.a.b[title=\"]",["1 <2"],none,false,some "html",false,false⟩) ∧
    (plan ["--doctype","html","p.a.b[title=\"]","1 <2"]).run (fun _ => .missing) =
      .outcome ⟨0,"<!DOCTYPE html><p class=\"a b\" title=\"&quot;\">1 &lt;2</p>\n",[],false,none⟩ ∧
    ∀ files, (plan ["--doctype","html","p.a.b[title=\"]","1 ","<2"]).run files =
      (plan ["--doctype","html","p.a.b[title=\"]","1 <2"]).run files := by
  have accepted : Command.ofArguments ["--doctype","html","p.a.b[title=\"]","1 <2"] =
      .ok (.run ⟨"p.a.b[title=\"]",["1 <2"],none,false,some "html",false,false⟩) := by rfl
  have read : Selector.read "p.a.b[title=\"]" =
      .ok ⟨"p",[⟨"class","a b"⟩,⟨"title","\""⟩]⟩ := by decide +kernel
  have written : page ⟨"p.a.b[title=\"]",["1 <2"],none,false,some "html",false,false⟩
      ⟨"p",[⟨"class","a b"⟩,⟨"title","\""⟩]⟩ Options.default ++ "\n" =
        "<!DOCTYPE html><p class=\"a b\" title=\"&quot;\">1 &lt;2</p>\n" := by decide +kernel
  obtain ⟨answers,-,joined⟩ := ending_answers accepted
  refine ⟨accepted,(answers _ _).mpr ?_,?_⟩
  · rw [←written]
    exact .page read rfl rfl
  · exact joined _ ["1 ","<2"] rfl rfl (by decide) (by decide) (by decide)

end Cli

end Markup
