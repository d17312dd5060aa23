import ContractAbi.CommandLine.Switch
import ContractAbi.Text.Digit

/-!
# The words of a command line

Before anything is done every word of the command line is classified on its own: it is a switch,
perhaps with a value attached, or an operand.  A word that begins with a hyphen is an operand all
the same if it is a lone hyphen, looks like a negative number or holds a space.  The word `--` is
the last one that can be a switch.
-/

namespace ContractAbi

/-- What a word of the command line is.  A text may be attached to a switch: behind an equals sign,
or directly behind a short spelling. -/
inductive Word where
  /-- An operand. -/
  | operand (t : Text)
  /-- The word that ends the switches. -/
  | terminator
  /-- A switch under one of its spellings. -/
  | switch (s : Switch) (spelling : Text) (attached : Option Text)
  /-- A word that begins like a switch and is none. -/
  | unknown (t : Text)
deriving DecidableEq

/-- A word that may be several switches. -/
structure Ambiguity where
  word : Text
  spellings : List Text
deriving DecidableEq

namespace Word

/-- The hyphen. -/
def hyphen : CodePoint := CodePoint.ofChar '-'

/-- Whether a word can be a switch. -/
def isSwitch : Word → Bool
  | .switch .. | .unknown _ => true
  | .operand _ | .terminator => false

/-- A text up to its first equals sign, and what follows that. -/
def atEquals : Text → Option (Text × Text)
  | [] => none
  | c :: t =>
    if c = CodePoint.ofChar '=' then some ([], t)
    else (atEquals t).map fun (before, after) => (c :: before, after)

/-- Digits of any script, one at least. -/
def isDigits (t : Text) : Bool := !t.isEmpty && t.all (·.decimalValue?.isSome)

/-- Whether a word looks like a negative number; a line feed may follow. -/
def isNegativeNumber : Text → Bool
  | [] => false
  | c :: rest =>
    let t := if rest.getLast? = some (CodePoint.ofChar '\n') then rest.dropLast else rest
    let isDigit (c : CodePoint) : Bool := c.decimalValue?.isSome
    c = hyphen && (isDigits t ||
      (match t.dropWhile isDigit with
      | [] => false
      | d :: fraction => d = CodePoint.ofChar '.' && isDigits fraction))

/-- The switches that a word with one hyphen can stand for: a short spelling and what follows. -/
def shortMatches (t : Text) : List (Text × Switch × Option Text) :=
  Switch.table.filterMap fun (spelling, s) =>
    if spelling = t.take 2 then some (spelling, s, some (t.drop 2)) else none

/-- The switches that a word with two hyphens can stand for: long spellings that begin like it, up
to its equals sign. -/
def longMatches (t : Text) : List (Text × Switch × Option Text) :=
  let (beginning, attached) : Text × Option Text :=
    match atEquals t with
    | some (before, after) => (before, some after)
    | none => (t, none)
  Switch.table.filterMap fun (spelling, s) =>
    if beginning.isPrefixOf spelling then some (spelling, s, attached) else none

/-- The switches that a word of two code points or more can stand for. -/
def candidates (t : Text) : List (Text × Switch × Option Text) :=
  if (t.drop 1).head? = some hyphen then longMatches t else shortMatches t

/-- The switch that is spelled out before an equals sign. -/
def exactMatch? (t : Text) : Option Word :=
  match Switch.table.lookup t with
  | some s => some (.switch s t none)
  | none =>
    match atEquals t with
    | none => none
    | some (before, after) =>
      (Switch.table.lookup before).map fun s => .switch s before (some after)

/-- What a word is that begins with a hyphen and is longer than that. -/
def ofHyphenated (t : Text) : Except Ambiguity Word :=
  match exactMatch? t with
  | some w => .ok w
  | none =>
    match candidates t with
    | [(spelling, s, attached)] => .ok (.switch s spelling attached)
    | [] =>
      if isNegativeNumber t || t.contains (CodePoint.ofChar ' ') then .ok (.operand t)
      else .ok (.unknown t)
    | several => .error ⟨t, several.map (·.1)⟩

/-- What a word before the end of the switches is. -/
def ofText (t : Text) : Except Ambiguity Word :=
  match t with
  | c :: _ :: _ => if c = hyphen then ofHyphenated t else .ok (.operand t)
  | _ => .ok (.operand t)

/-- The words of a command line. -/
def ofTexts : List Text → Except Ambiguity (List Word)
  | [] => .ok []
  | t :: ts =>
    if t = ("--" : Text) then .ok (.terminator :: ts.map .operand)
    else do
      let w ← ofText t
      let ws ← ofTexts ts
      pure (w :: ws)

end Word

end ContractAbi
