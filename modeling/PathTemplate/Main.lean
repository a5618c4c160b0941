import PathTemplate.Command.Run

/-!
The command line program.
-/
open PathTemplate PathTemplate.Command

/-- A file that cannot be read as text is told apart from one that does not exist. -/
def fileContent (path : String) : IO FileContent := do
  try
    return .content (← IO.FS.readFile path).toList
  catch e =>
    match e with
    | .noFileOrDirectory .. => return .missing
    | _ => return .unreadable

def main (args : List String) : IO UInt32 := do
  let arguments := args.map String.toList
  let program := ((← IO.appPath).fileStem.getD "pathtemplate").toList
  let config := match Invocation.read arguments with
    | some i => i.settings.config.getD (defaultConfig program)
    | none => []
  let content ← fileContent (String.ofList config)
  let result := run program (fun _ => content) arguments
  IO.print (String.ofList result.stdout)
  match result.message with
  | some m => IO.eprintln ("Error: " ++ String.ofList m)
  | none => if result.exit != 0 then IO.eprintln "wrong usage"
  return UInt32.ofNat result.exit
