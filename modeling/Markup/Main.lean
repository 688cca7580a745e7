import Markup.Cli.Outcome

namespace Markup.Cli

-- Error codes of a path with a file in the place of a directory, and of a
-- directory that is opened as a file.
def notDirectory : UInt32 := 20
def isDirectory : UInt32 := 21

def stands (expected code : UInt32) : Bool := code == expected || code == 0 - expected

def readFile (path : String) : IO File := do
  try
    return .bytes (← IO.FS.readBinFile path).toList
  catch
    | .noFileOrDirectory .. => return .missing
    | .inappropriateType _ code details =>
      if stands notDirectory code then return .blocked
      if stands isDirectory code then return .directory
      throw (.inappropriateType none code details)
    | fault => throw fault

def report (result : Outcome) : IO UInt32 := do
  IO.print result.output
  if result.status = 2 then IO.eprint usageText
  for line in result.errors do IO.eprintln line
  if let some message := result.message then IO.eprintln message
  return result.status.toUInt32

def finishWith : Ending → IO UInt32
  | .outcome result => report result
  | .broken fault => do
    IO.eprintln (fault.kind ++ (fault.message?.map (": " ++ ·)).getD "")
    return 1

end Markup.Cli

def main (args : List String) : IO UInt32 := do
  match Markup.Cli.plan args with
  | .done result => Markup.Cli.report result
  | .needs path go => Markup.Cli.finishWith (go (← Markup.Cli.readFile path))
