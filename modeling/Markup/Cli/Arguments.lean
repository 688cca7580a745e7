import Markup.Text.Basic

namespace Markup.Cli

inductive Flag where
  | help
  | version
  | config
  | selfCloseVoid
  | doctype
  | json
  | verbose
  deriving DecidableEq, Repr

namespace Flag

def names : List (String × Flag) :=
  [("-h",help), ("--help",help), ("--version",version), ("--config",config),
   ("--self-close-void",selfCloseVoid), ("--doctype",doctype), ("--json",json),
   ("--verbose",verbose)]

def ofName? (name : String) : Option Flag :=
  match names.find? fun (known,_) => known == name with
  | some (_,flag) => some flag
  | none => none

def allNames (flag : Flag) : List String :=
  (names.filter fun (_,known) => known == flag).map (·.1)

def takesValue : Flag → Bool
  | config | doctype => true
  | _ => false

end Flag

inductive UsageError where
  | ambiguous (given : String) (names : List String)
  | noValue (flag : Flag)
  | extraValue (flag : Flag) (value : String)
  | noSelector
  | unrecognized (given : List String)
  deriving DecidableEq, Repr

namespace UsageError

def about (flag : Flag) (what : String) : String :=
  "argument " ++ "/".intercalate flag.allNames ++ ": " ++ what

def message : UsageError → String
  | .ambiguous given names =>
    "ambiguous option: " ++ given ++ " could match " ++ ", ".intercalate names
  | .noValue flag => about flag "expected one argument"
  | .extraValue flag value => about flag ("ignored explicit argument " ++ Text.quote value)
  | .noSelector => "the following arguments are required: selector, text"
  | .unrecognized given => "unrecognized arguments: " ++ " ".intercalate given

end UsageError

inductive Attached where
  | none
  | equals (value : String)
  | letters (value : String)
  deriving DecidableEq, Repr

-- What an argument is taken for before any is acted on.
inductive Word where
  | option (flag : Flag) (attached : Attached)
  | unknown
  | separator
  | plain
  deriving DecidableEq, Repr

namespace Word

def isDigit (c : Char) : Bool := (Text.digit? c).isSome

def isNumeral (s : List Char) : Bool :=
  let digits := s.takeWhile isDigit
  match s.dropWhile isDigit with
  | [] | ['\n'] => !digits.isEmpty
  | '.' :: rest =>
    match rest.takeWhile isDigit, rest.dropWhile isDigit with
    | _ :: _, [] | _ :: _, ['\n'] => true
    | _, _ => false
  | _ => false

def cut (s : List Char) : String × Attached :=
  let name := String.ofList (s.takeWhile (· != '='))
  match s.dropWhile (· != '=') with
  | _ :: value => (name,.equals (String.ofList value))
  | [] => (name,.none)

-- All that an argument with a dash in front may stand for: a long option by
-- any beginning of its name, the short one with letters behind it.
def meanings (s : List Char) : List (String × Word) :=
  match s with
  | '-' :: '-' :: _ =>
    let (name,attached) := cut s
    (Flag.names.filter fun (known,_) => name.toList.isPrefixOf known.toList).map
      fun (known,flag) => (known,option flag attached)
  | '-' :: 'h' :: letters => [("-h",option .help (.letters (String.ofList letters)))]
  | _ => []

-- A dash makes an option, except in front of nothing or of a number, and
-- except where a space shows that a text is meant.
def dashed (arg : String) (s : List Char) : Except UsageError Word :=
  let (name,attached) := cut s
  match Flag.ofName? arg, Flag.ofName? name with
  | some flag, _ => .ok (option flag .none)
  | none, some flag => .ok (option flag attached)
  | none, none =>
    if s.length = 1 then .ok plain
    else
      match meanings s with
      | [(_,word)] => .ok word
      | [] =>
        if isNumeral s.tail ∨ s.contains ' ' then .ok plain else .ok unknown
      | several => .error (.ambiguous arg (several.map (·.1)))

def ofArgument (arg : String) : Except UsageError Word :=
  match arg.toList with
  | '-' :: rest => dashed arg ('-' :: rest)
  | _ => .ok plain

def ofArguments : List String → Except UsageError (List (String × Word))
  | [] => .ok []
  | arg :: rest =>
    if arg = "--" then .ok ((arg,separator) :: rest.map fun text => (text,plain))
    else
      match ofArgument arg with
      | .error fault => .error fault
      | .ok word => (ofArguments rest).map ((arg,word) :: ·)

def isText (word : Word) : Bool := word == plain || word == separator

end Word

structure Request where
  selector : String
  texts : List String
  config : Option String
  selfCloseVoid : Bool
  doctype : Option String
  json : Bool
  verbose : Bool
  deriving DecidableEq, Repr

inductive Command where
  | help
  | version
  | run (request : Request)
  deriving DecidableEq, Repr

structure Reading where
  texts : Option (String × List String) := none
  config : Option String := none
  selfCloseVoid : Bool := false
  doctype : Option String := none
  json : Bool := false
  verbose : Bool := false
  leftOver : List String := []

namespace Reading

def set (flag : Flag) (value : String) (r : Reading) : Reading :=
  match flag with
  | .config => { r with config := some value }
  | .doctype => { r with doctype := some value }
  | .selfCloseVoid => { r with selfCloseVoid := true }
  | .json => { r with json := true }
  | .verbose => { r with verbose := true }
  | .help | .version => r

def letters : List Char → Except UsageError Unit
  | 'h' :: rest =>
    match rest with
    | [] => .ok ()
    | '=' :: value => .error (.extraValue .help (String.ofList value))
    | _ => letters rest
  | [] => .error (.extraValue .help "")
  | '-' :: rest => .error (.extraValue .help (String.ofList ('-' :: rest)))
  | _ => .ok ()

-- The text that becomes the selector may have separators on both sides; one
-- more is dropped among the texts behind it.
def splitTexts (run : List (String × Word)) : Option (String × List String) :=
  match run.dropWhile fun (_,word) => word == .separator with
  | [] => none
  | (selector,_) :: rest =>
    let rest := rest.dropWhile fun (_,word) => word == .separator
    some (selector,(rest.map (·.1)).erase "--")

def addTexts (run : List (String × Word)) (r : Reading) : Reading :=
  match r.texts, splitTexts run with
  | none, some texts => { r with texts := some texts }
  | _, _ => { r with leftOver := r.leftOver ++ run.map (·.1) }

def finish (r : Reading) : Except UsageError Command :=
  match r.texts with
  | none => .error .noSelector
  | some (selector,texts) =>
    if r.leftOver.isEmpty then
      .ok (.run ⟨selector,texts,r.config,r.selfCloseVoid,r.doctype,r.json,r.verbose⟩)
    else .error (.unrecognized r.leftOver)

-- Help and version are answered as soon as they are met. The counter is the
-- number of words.
def words : Nat → Reading → List (String × Word) → Except UsageError Command
  | _, r, [] => r.finish
  | 0, r, _ => r.finish
  | fuel + 1, r, (arg,word) :: rest =>
    match word with
    | .unknown => words fuel { r with leftOver := r.leftOver ++ [arg] } rest
    | .plain | .separator =>
      let all := (arg,word) :: rest
      words fuel (r.addTexts (all.takeWhile (·.2.isText))) (all.dropWhile (·.2.isText))
    | .option flag attached =>
      if flag.takesValue then
        match attached, rest with
        | .equals value, _ | .letters value, _ => words fuel (r.set flag value) rest
        | .none, (value,.plain) :: rest => words fuel (r.set flag value) rest
        | .none, _ => .error (.noValue flag)
      else
        match attached with
        | .equals value => .error (.extraValue flag value)
        | .letters value =>
          match letters value.toList with
          | .error fault => .error fault
          | .ok () => .ok .help
        | .none =>
          match flag with
          | .help => .ok .help
          | .version => .ok .version
          | _ => words fuel (r.set flag "") rest

end Reading

def Command.ofArguments (args : List String) : Except UsageError Command :=
  match Word.ofArguments args with
  | .error fault => .error fault
  | .ok words => Reading.words words.length {} words

end Markup.Cli
