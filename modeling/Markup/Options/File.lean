import Markup.Options.Basic
import Markup.Text.Basic
import Markup.Yaml.Value

namespace Markup

inductive File where
  | missing
  | directory
  | blocked
  | bytes (content : List UInt8)
  deriving DecidableEq, Repr

inductive FileFault where
  | missing
  | directory
  | blocked (path : String)
  | noPath
  | notUnicode
  | malformed (path : String)
  | noValue (trouble : Yaml.Trouble)
  | notSettings (path : String)
  | invalid (path : String) (problems : List Problem)
  deriving DecidableEq, Repr

namespace FileFault

def kind : FileFault → String
  | .missing => "FileNotFoundError"
  | .directory => "IsADirectoryError"
  | .blocked _ => "NotADirectoryError"
  | .noPath => "ValueError"
  | .notUnicode => "UnicodeDecodeError"
  | .noValue trouble => trouble.kind?.getD "ConfigError"
  | .malformed _ | .notSettings _ | .invalid .. => "ConfigError"

def countText (problems : List Problem) : String :=
  problems.length.repr ++ " validation error" ++ if problems.length = 1 then "" else "s"

def message? : FileFault → Option String
  | .missing | .directory | .notUnicode => none
  | .blocked path => some ("[Errno 20] Not a directory: " ++ Text.quote path)
  | .noPath => some "embedded null byte"
  | .noValue trouble => some trouble.message
  | .malformed path => some ("Invalid YAML in " ++ path)
  | .notSettings path => some (path ++ " must contain a mapping of render options.")
  | .invalid path problems =>
    some ("Invalid render options in " ++ path ++ ": " ++ countText problems ++
      " for RenderOptions")

def isContent (fault : FileFault) : Bool := fault.kind == "ConfigError"

end FileFault

namespace Options

def pathRoot (path : List Char) : String :=
  match path.takeWhile (· == '/') with
  | [] => ""
  | ['/', '/'] => "//"
  | _ => "/"

def tidyPath (path : String) : String :=
  let parts := (Text.split '/' path.toList).map String.ofList
  let kept := parts.filter fun part => part ≠ "" ∧ part ≠ "."
  let text := pathRoot path.toList ++ "/".intercalate kept
  if text = "" then "." else text

def unifyBreaks : List Char → List Char
  | '\r' :: '\n' :: rest => '\n' :: unifyBreaks rest
  | '\r' :: rest => '\n' :: unifyBreaks rest
  | c :: rest => c :: unifyBreaks rest
  | [] => []

def ofText (path text : String) : Except FileFault Options :=
  match Yaml.read (String.ofList (unifyBreaks text.toList)) with
  | .error .malformed => .error (.malformed path)
  | .error trouble => .error (.noValue trouble)
  | .ok .nothing => .ok Options.default
  | .ok .other => .error (.notSettings path)
  | .ok (.settings values) =>
    match Options.ofSettings values with
    | .ok options => .ok options
    | .error problems => .error (.invalid path problems)

def load (path : String) (file : File) : Except FileFault Options :=
  if path.toList.contains '\x00' then .error .noPath
  else
    match file with
    | .missing => .error .missing
    | .directory => .error .directory
    | .blocked => .error (.blocked path)
    | .bytes content =>
      match decodeText content with
      | none => .error .notUnicode
      | some text => ofText path text

end Options

end Markup
