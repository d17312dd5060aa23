import ContractAbi.CommandLine.Run

/-!
# The program

The outer layer: it fetches the environment, the file or the standard input that the command line
names, and prints what the run leaves behind.
-/

namespace ContractAbi.Main

/-- A text as it is printed; what is no character is printed as a question mark. -/
def shown (t : Text) : String := String.ofList (t.map fun c => c.toChar?.getD '?')

/-- The octets of a stream to its end. -/
partial def readAll (input : IO.FS.Stream) (before : ByteArray) : IO ByteArray := do
  let chunk ← input.read 65536
  if chunk.isEmpty then return before else readAll input (before ++ chunk)

/-- The text on the standard input; octets that are no text are left out. -/
def readInput : IO Text := do
  let bytes ← readAll (← IO.getStdin) ByteArray.empty
  match Encoding.decodeUtf8 false 0 bytes.toList with
  | .ok t => return Lines.normalize t
  | .error _ => return []

/-- The octets of a file; one that cannot be read is as good as none. -/
def readFile (path : String) : IO (Except PathFault (List UInt8)) := do
  try
    let bytes ← IO.FS.readBinFile path
    return .ok bytes.toList
  catch _ => return .error .missing

/-- What the run finds around itself: what its command line names is read beforehand. -/
def surroundings (arguments : List Text) : IO Surroundings := do
  let none (_ : Text) : Except PathFault (List UInt8) := .error .missing
  match Options.ofArguments arguments with
  | .ok ⟨_, .value path, _, _, _, _, _, _⟩ =>
    if path = ("-" : Text) then return ⟨← readInput, none, libraryVersion⟩
    else
      let octets ← readFile (shown path)
      return ⟨[], fun _ => octets, libraryVersion⟩
  | _ => return ⟨[], none, libraryVersion⟩

/-- What is said of a fault. -/
def faultText (f : RunFault) : Text :=
  match f with
  | .failure e =>
    match e.report? with
    | some r => r.kind.label ++ (": " : Text) ++ r.text
    | none => e.message
  | f => f.message

/-- Prints what a run leaves behind, and gives its exit code. -/
def finish (run : Run) : IO UInt32 := do
  for r in run.shown do
    IO.eprintln (shown (r.kind.label ++ (": " : Text) ++ r.text))
  for line in run.complaint do
    IO.eprintln (shown line)
  for line in run.printed do
    IO.println (shown line)
  match run.ending with
  | .exit code => return UInt32.ofNat code
  | .fault f =>
    IO.eprintln (shown (faultText f))
    return 1

/-- The defaults that the environment settles. -/
def defaults : IO (Except (Text × Integer.Fault) Defaults) := do
  let names : List String :=
    ["ABIPARSE_MAX_NESTING_DEPTH", "ABIPARSE_STRICT_COMPONENTS", "ABIPARSE_TRACEBACK_LIMIT"]
  let env : List (Text × Option Text) ← names.mapM fun name => do
    let value ← IO.getEnv name
    return (Text.ofString name, value.map Text.ofString)
  return Defaults.ofEnvironment fun name => (env.lookup name).join

end ContractAbi.Main

open ContractAbi in
/-- Runs the program. -/
def main (args : List String) : IO UInt32 := do
  match ← Main.defaults with
  | .error (t, f) =>
    IO.eprintln (Main.shown (f.message t))
    return 1
  | .ok defaults =>
    let arguments := args.map Text.ofString
    let around ← Main.surroundings arguments
    Main.finish (Run.ofArguments (Session.start defaults) around arguments).1
