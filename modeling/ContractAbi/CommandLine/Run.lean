import ContractAbi.CommandLine.Options
import ContractAbi.Encoding
import ContractAbi.Session
import ContractAbi.Text.Lines

/-!
# A run of the program

A run reads its options, then the JSON text that they name, and prints the listing of all that.  It
prints nothing unless everything could be parsed.  The settings and the filter of the run hold for
the listing alone, and only the rule that everything is shown, which a run puts in front of the
rules of its caller, outlasts it.
-/

namespace ContractAbi

/-- The version of this library. -/
def libraryVersion : Text := "0.1.0"

/-- Why there is no file under a path. -/
inductive PathFault where
  /-- There is nothing. -/
  | missing
  /-- The path leads through a file. -/
  | throughFile
  /-- There is a directory. -/
  | directory
deriving DecidableEq

/-- What a run finds around itself. -/
structure Surroundings where
  /-- The text on the standard input. -/
  input : Text
  /-- The octets of a file, by its path. -/
  file : Text → Except PathFault (List UInt8)
  /-- The version that is shown. -/
  version : Text

/-- Why a run fails, its command line being well-formed. -/
inductive RunFault where
  /-- The ceiling is blank. -/
  | blankCeiling
  /-- The path of the JSON text is blank. -/
  | blankPath
  /-- The control of notices is blank. -/
  | blankControl
  /-- A path holds the code point zero. -/
  | zeroInPath
  /-- There is no file under a path. -/
  | noFile (f : PathFault) (path : Text)
  /-- A file is no text. -/
  | encoding (f : EncodingFault)
  /-- Something cannot be parsed. -/
  | failure (f : Failure)

namespace PathFault

/-- The number and the words by which a fault is known. -/
def phrase : PathFault → Text
  | .missing => "[Errno 2] No such file or directory: "
  | .throughFile => "[Errno 20] Not a directory: "
  | .directory => "[Errno 21] Is a directory: "

end PathFault

/-- The message of a fault. -/
def RunFault.message : RunFault → Text
  | .blankCeiling => "'<' not supported between instances of 'list' and 'int'"
  | .blankPath => "expected str, bytes or os.PathLike object, not list"
  | .blankControl => []
  | .zeroInPath => "embedded null byte"
  | .noFile f path => f.phrase ++ Quoted.text path
  | .encoding f => f.message
  | .failure f => f.message

/-- How a run ends. -/
inductive Ending where
  | exit (code : Nat)
  | fault (f : RunFault)

/-- What a run leaves behind. -/
structure Run where
  /-- The lines that are printed. -/
  printed : List Text
  /-- The lines on the standard error output. -/
  complaint : List Text
  ending : Ending
  /-- How much is to be shown of where a failure arose, once that is settled. -/
  tracebackLimit : Given Int
  /-- The notices that are shown. -/
  shown : List Report

namespace Run

/-! ## 1. The JSON text -/

/-- The parts of a path. -/
def pathParts : Text → List Text
  | [] => [[]]
  | c :: t =>
    if c = CodePoint.ofChar '/' then [] :: pathParts t
    else match pathParts t with
      | [] => [[c]]
      | p :: ps => (c :: p) :: ps

/-- A path without empty parts and without parts that lead nowhere. -/
def normalPath (t : Text) : Text :=
  let slashes := (t.takeWhile (· = CodePoint.ofChar '/')).length
  let root : Text := if slashes = 0 then [] else if slashes = 2 then "//" else "/"
  let path := root ++
    Text.join "/" ((pathParts t).filter fun p => !p.isEmpty && p ≠ (Text.ofString "."))
  if path = [] then "." else path

/-- The text of a file. -/
def readFile (w : Surroundings) (path : Text) : Except RunFault Text :=
  if path.contains (CodePoint.ofChar '\x00') then .error .zeroInPath
  else match w.file path with
    | .error f => .error (.noFile f path)
    | .ok bs =>
      match Encoding.decodeUtf8 false 0 bs with
      | .ok t => .ok (Lines.normalize t)
      | .error f => .error (.encoding f)

/-- The JSON text under a path; a hyphen stands for the standard input. -/
def readJson (w : Surroundings) (path : Text) : Except RunFault Text :=
  if path = ("-" : Text) then .ok w.input else readFile w (normalPath path)

/-- The JSON text that the options name, if they name one. -/
def jsonText (w : Surroundings) (o : Options) : Except RunFault (Option Text) :=
  match o.json with
  | .absent => .ok none
  | .blank => .error .blankPath
  | .value path => (readJson w path).map some

/-! ## 2. Runs -/

/-- The settings of a run. -/
def settings (o : Options) : Settings where
  maxNestingDepth :=
    match o.maxDepth with
    | .value n => .limit n
    | .absent | .blank => .unlimited
  strictComponents := if o.strict then .set true else .unset

/-- The limit that a run settles. -/
def limit (d : Defaults) (o : Options) : Given Int :=
  match o.tracebackLimit with
  | .absent => .value (d.tracebackLimit.getD 0)
  | given => given

/-- The control that the options give; without one, notices are treated as they are by default. -/
def controlOf (o : Options) : Except RunFault NoticeControl :=
  match o.control with
  | .absent => .ok .default
  | .blank => .error .blankControl
  | .value c => .ok c

/-- The listing that the options ask for, under a control. -/
def list (s : Session) (o : Options) (c : NoticeControl) (json : Option Text) : Run × Session :=
  let inner := (s.enter.control c).anchored (s.registry.install (settings o))
  let p := Listing.run inner.rules ⟨o.types, json, o.asEvent, o.format⟩
  let (shown, inner) := inner.settle p.notices
  let after := inner.release.leave
  let lim := limit s.defaults o
  match p.outcome with
  | .ok lines => (⟨lines, [], .exit 0, lim, shown⟩, after)
  | .error f => (⟨[], [], .fault (.failure f), lim, shown⟩, after)

/-- A run that got its options.  The JSON text is fetched before the control is looked at. -/
def ofOptions (s : Session) (w : Surroundings) (o : Options) : Run × Session :=
  match jsonText w o, controlOf o with
  | .ok json, .ok c => list s o c json
  | .error f, _ | .ok _, .error f => (⟨[], [], .fault f, limit s.defaults o, []⟩, s)

/-- What is said of a fault in the options. -/
def usageComplaint (f : UsageFault) : List Text :=
  Switch.usageLines ++ [Switch.programName ++ (": error: " : Text) ++ f.message]

/-- A run of the program. -/
def ofArguments (s : Session) (w : Surroundings) (arguments : List Text) : Run × Session :=
  let s := s.showAll
  match Options.ofArguments arguments with
  | .error .help => (⟨Switch.helpLines, [], .exit 0, .absent, []⟩, s)
  | .error .version => (⟨[w.version], [], .exit 0, .absent, []⟩, s)
  | .error (.usage f) => (⟨[], usageComplaint f, .exit 2, .absent, []⟩, s)
  | .error .blankCeiling => (⟨[], [], .fault .blankCeiling, .absent, []⟩, s)
  | .ok o => ofOptions s w o

end Run

end ContractAbi
