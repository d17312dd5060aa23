import ContractAbi.CommandLine.Words
import ContractAbi.Text.Integer

/-!
# Reading the options of a command line

The words are read from left to right.  Operands belong together: those of the first run are the
type names, and any further run is not recognised.  A switch takes its value from what is attached
to it or from the next word, which must be an operand.  Short switches without value may be run
together behind one hyphen.

The word `--` is never a value.  It can only be attached to a switch, and the option is then given
but blank (`Given.blank`): whoever needs its value has to do without.

Reading stops early where help or the version is asked for, and at the first fault; only when all
words have been read are the unrecognised ones reported.
-/

namespace ContractAbi

/-! ## 1. Options -/

/-- What a command line gives for an option. -/
inductive Given (α : Type) where
  /-- The option is not mentioned. -/
  | absent
  /-- The option is mentioned without a value that counts. -/
  | blank
  /-- The option has a value. -/
  | value (a : α)
deriving DecidableEq

/-- What a command line asks for. -/
structure Options where
  types : List Text
  /-- Where the JSON text is. -/
  json : Given Text
  asEvent : Bool
  format : Format
  strict : Bool
  maxDepth : Given Int
  control : Given NoticeControl
  tracebackLimit : Given Int
deriving DecidableEq

/-- What is wrong with the value of a switch. -/
inductive SwitchFault where
  /-- There is none. -/
  | noValue
  /-- There is one, but the switch takes none. -/
  | ignoredValue (v : Text)
  /-- It is no integer. -/
  | notInteger (v : Text)
  /-- It is none of the choices. -/
  | notChoice (v : Text) (choices : List Text)
  /-- Another switch excludes this one. -/
  | excluded (other : Switch)
deriving DecidableEq

/-- What is wrong with a command line. -/
inductive UsageFault where
  | ambiguous (a : Ambiguity)
  | switch (s : Switch) (f : SwitchFault)
  | unrecognized (words : List Text)
  | nothingToParse
  | depthTooSmall
deriving DecidableEq

/-- Why a command line leads to no options. -/
inductive Stop where
  | help
  | version
  | usage (f : UsageFault)
  /-- The ceiling is blank, and so can be no lower bound to anything. -/
  | blankCeiling
deriving DecidableEq

namespace UsageFault

/-- A choice of texts in a message. -/
def listed (choices : List Text) : Text := Text.join ", " (choices.map Quoted.text)

/-- The message of a fault of a switch. -/
def switchMessage : SwitchFault → Text
  | .noValue => "expected one argument"
  | .ignoredValue v => ("ignored explicit argument " : Text) ++ Quoted.text v
  | .notInteger v => ("invalid int value: " : Text) ++ Quoted.text v
  | .notChoice v choices =>
    ("invalid choice: " : Text) ++ Quoted.text v ++ (" (choose from " : Text) ++ listed choices ++
      (")" : Text)
  | .excluded other => ("not allowed with argument " : Text) ++ other.label

/-- The message of a fault. -/
def message : UsageFault → Text
  | .ambiguous a =>
    ("ambiguous option: " : Text) ++ a.word ++ (" could match " : Text) ++
      Text.join ", " a.spellings
  | .switch s f => ("argument " : Text) ++ s.label ++ (": " : Text) ++ switchMessage f
  | .unrecognized words => ("unrecognized arguments: " : Text) ++ Text.join " " words
  | .nothingToParse => "nothing to parse: give type names or --json"
  | .depthTooSmall => "--max-depth must be at least 1"

end UsageFault

namespace Options

/-- What an empty command line asks for. -/
def initial : Options := ⟨[], .absent, true, .full, false, .absent, .absent, .absent⟩

/-! ## 2. One switch -/

/-- The switches that a word stands for, each with its value, and the words that follow. -/
structure Taken where
  switches : List (Switch × Text)
  rest : List Word

/-- One switch in front. -/
def Taken.push (s : Switch) (t : Taken) : Taken := { t with switches := (s, []) :: t.switches }

/-- A switch to which nothing is attached. -/
def takeBare (s : Switch) (rest : List Word) : Except UsageFault Taken :=
  if s.takesValue then
    match rest with
    | .operand v :: rest => .ok ⟨[(s, v)], rest⟩
    | _ => .error (.switch s .noValue)
  else .ok ⟨[(s, [])], rest⟩

/-- A switch to which a text is attached that can only be its value. -/
def takeAttached (s : Switch) (v : Text) (rest : List Word) : Except UsageFault Taken :=
  if s.takesValue then .ok ⟨[(s, v)], rest⟩ else .error (.switch s (.ignoredValue v))

/-- A short switch and the text that is attached to it: its value, or further short switches, the
last of which may have a value in its turn. -/
def takeCluster (s : Switch) (rest : List Word) : Text → Except UsageFault Taken
  | [] => takeAttached s [] rest
  | c :: t =>
    if s.takesValue then takeAttached s (c :: t) rest
    else match Switch.table.lookup [Word.hyphen, c], t with
      | none, t => .error (.switch s (.ignoredValue (c :: t)))
      | some s', [] => (takeBare s' rest).map (Taken.push s)
      | some s', d :: t => (takeCluster s' rest (d :: t)).map (Taken.push s)

/-- Whether a spelling has one hyphen only. -/
def isShort (spelling : Text) : Bool := (spelling.drop 1).head? ≠ some Word.hyphen

/-- A switch under one of its spellings, with what is attached to it. -/
def take (s : Switch) (spelling : Text) (attached : Option Text) (rest : List Word) :
    Except UsageFault Taken :=
  match attached with
  | none => takeBare s rest
  | some v => if isShort spelling then takeCluster s rest v else takeAttached s v rest

/-! ## 3. What a switch does -/

/-- What a value gives for an option: the word `--` leaves it blank. -/
def given {α : Type} (v : Text) (read : Text → Except Stop α) : Except Stop (Given α) :=
  if v = ("--" : Text) then .ok .blank else (read v).map .value

/-- An integer from the value of a switch. -/
def integer (s : Switch) (v : Text) : Except Stop (Given Int) :=
  given v fun v => (Integer.read v).mapError fun _ => .usage (.switch s (.notInteger v))

/-- A choice by the value of a switch. -/
def choose {α : Type} (s : Switch) (choices : List (Text × α)) (v : Text) :
    Except Stop (Given α) :=
  given v fun v =>
    match choices.lookup v with
    | some a => .ok a
    | none => .error (.usage (.switch s (.notChoice v (choices.map (·.1)))))

/-- The controls that can be chosen. -/
def controls : List (Text × NoticeControl) := [("error", .error), ("none", .none)]

/-- The format that is given.  A blank one is as good as a name that no format has. -/
def formatOf : Given Format → Format
  | .absent => .full
  | .blank => .brief
  | .value f => f

/-- What a switch does with its value. -/
def perform (o : Options) (s : Switch) (v : Text) : Except Stop Options :=
  match s with
  | .help => .error .help
  | .version => .error .version
  | .json => do
    let path ← given v .ok
    pure { o with json := path }
  | .event => .ok { o with asEvent := true }
  | .tuple => .ok { o with asEvent := false }
  | .format => do
    let f ← choose s (Format.choices.map fun f => (f.label, f)) v
    pure { o with format := formatOf f }
  | .strictComponents => .ok { o with strict := true }
  | .maxDepth => do
    let n ← integer s v
    pure { o with maxDepth := n }
  | .warnings => do
    let c ← choose s controls v
    pure { o with control := c }
  | .tracebackLimit => do
    let n ← integer s v
    pure { o with tracebackLimit := n }

/-! ## 4. All words -/

/-- How far a command line has been read. -/
structure Progress where
  options : Options
  /-- The switches that were seen. -/
  seen : List Switch
  /-- Whether the type names have been read. -/
  hasTypes : Bool
  unrecognized : List Text

/-- Nothing was read yet. -/
def Progress.initial : Progress := ⟨Options.initial, [], false, []⟩

/-- Does what one switch asks for. -/
def Progress.perform (p : Progress) (s : Switch) (v : Text) : Except Stop Progress :=
  match s.excludedBy? with
  | some other =>
    if p.seen.contains other then .error (.usage (.switch s (.excluded other)))
    else (p.options.perform s v).map fun o => { p with options := o, seen := s :: p.seen }
  | none => (p.options.perform s v).map fun o => { p with options := o }

/-- Does what several switches ask for. -/
def Progress.performAll (p : Progress) : List (Switch × Text) → Except Stop Progress
  | [] => .ok p
  | (s, v) :: rest => do
    let p ← p.perform s v
    p.performAll rest

/-- The text of a word that is no switch. -/
def operandText : Word → Text
  | .operand t | .unknown t | .switch _ t _ => t
  | .terminator => "--"

/-- Reads a run of operands, perhaps with the end of the switches among them. -/
def Progress.operands (p : Progress) (run : List Word) : Progress :=
  if p.hasTypes then { p with unrecognized := p.unrecognized ++ run.map operandText }
  else
    let types := (run.filter (· ≠ .terminator)).map operandText
    { p with hasTypes := true, options := { p.options with types } }

/-- What is left when some words have been taken is no longer than the words. -/
theorem length_takeBare {s : Switch} {rest : List Word} {t : Taken} (h : takeBare s rest = .ok t) :
    t.rest.length ≤ rest.length := by
  unfold takeBare at h
  split at h
  · split at h
    · cases h; simp
    · cases h
  · cases h; simp

theorem length_takeAttached {s : Switch} {v : Text} {rest : List Word} {t : Taken}
    (h : takeAttached s v rest = .ok t) : t.rest.length ≤ rest.length := by
  unfold takeAttached at h
  split at h
  · cases h; simp
  · cases h

/-- A switch in front takes no further words. -/
theorem rest_of_map_push {s : Switch} {e : Except UsageFault Taken} {t : Taken}
    (h : e.map (Taken.push s) = .ok t) : ∃ u, e = .ok u ∧ t.rest = u.rest := by
  cases e with
  | error f => cases h
  | ok u => cases h; exact ⟨u, rfl, rfl⟩

theorem length_takeCluster {s : Switch} {v : Text} {rest : List Word} {t : Taken}
    (h : takeCluster s rest v = .ok t) : t.rest.length ≤ rest.length := by
  fun_induction takeCluster s rest v generalizing t with
  | case1 => exact length_takeAttached h
  | case2 => exact length_takeAttached h
  | case3 => cases h
  | case4 =>
    obtain ⟨u, hu, hr⟩ := rest_of_map_push h
    exact hr ▸ length_takeBare hu
  | case5 =>
    rename_i ih
    obtain ⟨u, hu, hr⟩ := rest_of_map_push h
    exact hr ▸ ih hu

theorem length_take {s : Switch} {spelling : Text} {a : Option Text} {rest : List Word} {t : Taken}
    (h : take s spelling a rest = .ok t) : t.rest.length ≤ rest.length := by
  unfold take at h
  split at h
  · exact length_takeBare h
  · split at h
    · exact length_takeCluster h
    · exact length_takeAttached h

/-- Reads words.  `run` holds the operands that were passed since the last switch, last first. -/
def Progress.read (p : Progress) (run : List Word) : List Word → Except Stop Progress
  | [] => .ok (p.operands run.reverse)
  | .operand t :: ws => p.read (.operand t :: run) ws
  | .terminator :: ws => p.read (.terminator :: run) ws
  | .unknown t :: ws =>
    let p := if run = [] then p else p.operands run.reverse
    { p with unrecognized := p.unrecognized ++ [t] }.read [] ws
  | .switch s spelling attached :: ws =>
    let p := if run = [] then p else p.operands run.reverse
    match _h : take s spelling attached ws with
    | .error f => .error (.usage f)
    | .ok t =>
      match p.performAll t.switches with
      | .error stop => .error stop
      | .ok p => p.read [] t.rest
termination_by ws => ws.length
decreasing_by
  all_goals simp only [List.length_cons]
  all_goals first
    | exact Nat.lt_succ_of_le (length_take _h)
    | omega

/-- What must hold of the options as a whole. -/
def check (o : Options) : Except Stop Options :=
  if o.types = [] ∧ o.json = .absent then .error (.usage .nothingToParse)
  else match o.maxDepth with
    | .absent => .ok o
    | .blank => .error .blankCeiling
    | .value n => if n < 1 then .error (.usage .depthTooSmall) else .ok o

/-- The options of a command line. -/
def ofArguments (arguments : List Text) : Except Stop Options := do
  let words ← (Word.ofTexts arguments).mapError fun a => .usage (.ambiguous a)
  let p ← Progress.initial.read [] words
  if p.unrecognized ≠ [] then .error (.usage (.unrecognized p.unrecognized))
  check p.options

end Options

end ContractAbi
