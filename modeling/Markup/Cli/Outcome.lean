import Markup.Build
import Markup.Cli.Arguments
import Markup.Options.File
import Markup.Json.Printer
import Markup.Node.Dump
import Markup.Stream

namespace Markup.Cli

structure Outcome where
  status : Nat
  output : String
  errors : List String
  verbose : Bool
  message : Option String
  deriving DecidableEq, Repr

inductive Ending where
  | outcome (result : Outcome)
  | broken (fault : FileFault)
  deriving DecidableEq, Repr

inductive Plan where
  | done (result : Outcome)
  | needs (path : String) (go : File → Ending)

def versionText : String := "hox 0.1.0\n"

def usageText : String :=
  "usage: hox [-h] [--version] [--config CONFIG] [--self-close-void]\n" ++
  "           [--doctype DOCTYPE] [--json] [--verbose]\n" ++
  "           selector [text ...]\n"

def helpText : String :=
  usageText ++ "\n" ++
  "Build an element from a selector and print its markup.\n\n" ++
  "positional arguments:\n" ++
  "  selector           Element selector, e.g. 'div#main.card[role=note]'.\n" ++
  "  text               Text children appended in order.\n\n" ++
  "options:\n" ++
  "  -h, --help         show this help message and exit\n" ++
  "  --version          Show the hox version and exit.\n" ++
  "  --config CONFIG    YAML file with render options (voidElements,\n" ++
  "                     selfCloseVoid, doctype).\n" ++
  "  --self-close-void  Write void elements as <br/>.\n" ++
  "  --doctype DOCTYPE  Doctype to emit before the element.\n" ++
  "  --json             Print the parsed element as JSON instead of markup.\n" ++
  "  --verbose          Enable debug logging.\n"

def host : Host Empty := ⟨fun code _ => (nomatch code),0⟩

def element (request : Request) : Action (Node Empty) :=
  build host request.selector (request.texts.map Node.string)

-- Steps enough for an element with texts in it: one for each attribute, one for
-- each text and a few for the rest.
def room : Node Empty → Nat
  | .element _ attributes children => attributes.length + children.length + 8
  | _ => 8

def markup (options : Options) (node : Node Empty) : Action String :=
  renderText host (room node) node none options

def adjust (request : Request) (options : Options) : Options :=
  let options := if request.selfCloseVoid then { options with selfCloseVoid := true } else options
  match request.doctype with
  | some doctype => if doctype = "" then options else { options with doctype := some doctype }
  | none => options

def shown (request : Request) (store : Store) : List String :=
  if request.verbose then (store.journal.reverse.map Event.line) else []

def succeeded (request : Request) (store : Store) (output : String) : Outcome :=
  ⟨0,output,shown request store,request.verbose,none⟩

def refused (request : Request) (store : Store) (message : String) : Outcome :=
  ⟨1,"",shown request store,request.verbose,some message⟩

def write (request : Request) (node : Node Empty) (store : Store) (options : Options) :
    Outcome :=
  match markup (adjust request options) node store with
  | .ok text store => succeeded request store (text ++ "\n")
  | .error fault store => refused request store fault.message

def writeWith (request : Request) (node : Node Empty) (store : Store) (path : String)
    (file : File) : Ending :=
  match Options.load path file with
  | .ok options => .outcome (write request node store options)
  | .error fault =>
    if fault.isContent then .outcome (refused request store (fault.message?.getD ""))
    else .broken fault

-- A selector that does not parse wins over everything a file might hold, and
-- data are written without a look at it.
def Request.plan (request : Request) : Plan :=
  match element request {} with
  | .error fault store => .done (refused request store fault.message)
  | .ok node store =>
    if request.json then .done (succeeded request store node.dump.document)
    else
      match request.config with
      | none => .done (write request node store Options.default)
      | some path =>
        let path := Options.tidyPath path
        .needs path (writeWith request node store path)

def plan (args : List String) : Plan :=
  match Command.ofArguments args with
  | .error fault => .done ⟨2,"",["hox: error: " ++ fault.message],false,none⟩
  | .ok .help => .done ⟨0,helpText,[],false,none⟩
  | .ok .version => .done ⟨0,versionText,[],false,none⟩
  | .ok (.run request) => request.plan

def Plan.run (files : String → File) : Plan → Ending
  | .done result => .outcome result
  | .needs path go => go (files path)

end Markup.Cli
