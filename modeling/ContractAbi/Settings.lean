import ContractAbi.Arguments
import ContractAbi.Json.Write
import ContractAbi.Text.Integer
import ContractAbi.TypeName

/-!
# Settings

Two options govern every parse: a ceiling for nesting, and whether components without effect are
refused.  An option that a settings object leaves open is taken from the environment, never from
other settings (`Settings.ceiling`, `Settings.isStrict`).

A caller checks the options it makes settings from (`Settings.ofArguments`).  Settings live on as
objects after that: they can be made global, be replaced, be made global again, and be changed in
between.  Such a change is not checked (`Settings.assign`), so an option can come to hold any value.
A `Registry` keeps every settings object under a handle and knows which one is global.
-/

namespace ContractAbi

/-! ## 1. Options -/

/-- What the environment settles for every option that is left open. -/
structure Defaults where
  maxNestingDepth : Option Int
  strictComponents : Bool
  /-- How much is shown of where a failure arose. -/
  tracebackLimit : Option Int
deriving DecidableEq

/-- A flag that may be left open. -/
inductive Flag where
  | unset
  | set (b : Bool)
  /-- What stands in the place of a flag without having been checked. -/
  | unchecked (v : Value)

namespace Flag

/-- The flag that a value stands for. -/
def ofValue : Value → Flag
  | .null => .unset
  | .bool b => .set b
  | v => .unchecked v

/-- A flag as a value. -/
def toValue : Flag → Value
  | .unset => .null
  | .set b => .bool b
  | .unchecked v => v

/-- A flag, or a truth value in its place if it is left open. -/
def orElse (f : Flag) (b : Bool) : Flag :=
  match f with
  | .unset => .set b
  | f => f

/-- Whether a flag is up. -/
def isUp (f : Flag) : Bool := f.toValue.isPresent

end Flag

/-- Options, each of which may be left open; then there is no ceiling here. -/
structure Settings where
  maxNestingDepth : Ceiling
  strictComponents : Flag

namespace Settings

/-- The settings that leave every option open. -/
def blank : Settings := ⟨.unlimited, .unset⟩

/-- The ceiling under some defaults. -/
def ceiling (d : Defaults) (s : Settings) : Ceiling :=
  s.maxNestingDepth.orElse (.ofOption d.maxNestingDepth)

/-- The flag of strictness under some defaults. -/
def strictness (d : Defaults) (s : Settings) : Flag := s.strictComponents.orElse d.strictComponents

/-- Whether components without effect are refused, under some defaults. -/
def isStrict (d : Defaults) (s : Settings) : Bool := (s.strictness d).isUp

/-- The names of the options. -/
def signature : Signature := ⟨"Settings", [], ["max_nesting_depth", "strict_components"], []⟩

/-! ## 2. Settings from arguments -/

/-- Why settings are refused. -/
inductive Fault where
  /-- The arguments do not fit. -/
  | argument (f : ArgumentFault)
  /-- An option has no value of its kind, or there are no settings at all. -/
  | value

/-- The value of an argument; one that is absent is as good as nothing. -/
def argument (args : List (Text × Value)) (name : Text) : Value := (args.lookup name).getD .null

/-- A ceiling from an argument: it is positive. -/
def ceilingOf : Value → Except Fault Ceiling
  | .null => .ok .unlimited
  | .int i => if 1 ≤ i then .ok (.limit i) else .error .value
  | _ => .error .value

/-- A flag from an argument. -/
def flagOf : Value → Except Fault Flag
  | .null => .ok .unset
  | .bool b => .ok (.set b)
  | _ => .error .value

/-- Settings from named arguments. -/
def ofArguments (args : List (Text × Value)) : Except Fault Settings := do
  (signature.names 0 (args.map (·.1))).mapError .argument
  let depth ← ceilingOf (argument args "max_nesting_depth")
  let strict ← flagOf (argument args "strict_components")
  pure ⟨depth, strict⟩

/-- The options that are not left open, in order. -/
def toFields (s : Settings) : List (Text × Value) :=
  let options : List (Text × Value) := [
    ("max_nesting_depth", s.maxNestingDepth.toValue),
    ("strict_components", s.strictComponents.toValue)]
  options.filter fun p =>
    match p.2 with
    | .null => false
    | _ => true

/-- Puts a value in the place of an option, unchecked.  Other names are no options. -/
def assign (name : Text) (v : Value) (s : Settings) : Settings :=
  if name = ("max_nesting_depth" : Text) then { s with maxNestingDepth := .ofValue v }
  else if name = ("strict_components" : Text) then { s with strictComponents := .ofValue v }
  else s

end Settings

/-- What a caller hands over as settings. -/
inductive SettingsSource where
  /-- No settings. -/
  | nothing
  /-- Settings that are yet to be made. -/
  | arguments (args : List (Text × Value))
  /-- Settings that are there already, by their handle. -/
  | existing (handle : Nat)
  /-- Something that is no settings. -/
  | other

/-! ## 3. The environment -/

namespace Defaults

/-- An integer from a variable, of which nothing is settled if it is unset or empty. -/
def integer : Option Text → Except (Text × Integer.Fault) (Option Int)
  | none | some [] => .ok none
  | some t =>
    match Integer.read t with
    | .ok i => .ok (some i)
    | .error f => .error (t, f)

/-- The defaults that an environment settles.  Strictness is asked for by the text `1` alone. -/
def ofEnvironment (env : Text → Option Text) : Except (Text × Integer.Fault) Defaults := do
  let depth ← integer (env "ABIPARSE_MAX_NESTING_DEPTH")
  let limit ← integer (env "ABIPARSE_TRACEBACK_LIMIT")
  pure ⟨depth, env "ABIPARSE_STRICT_COMPONENTS" = some ("1" : Text), limit⟩

end Defaults

/-! ## 4. The global settings -/

/-- All settings objects, by handle, and the handle of the one that is global. -/
structure Registry where
  objects : List Settings
  global : Option Nat

namespace Registry

/-- No settings. -/
def empty : Registry := ⟨[], none⟩

/-- The settings that are global, if any are. -/
def global? (r : Registry) : Option Settings := r.global.bind (r.objects[·]?)

/-- The settings in force: where none are global, every option is left open. -/
def active (r : Registry) : Settings := r.global?.getD Settings.blank

/-- The handle that the next settings object gets. -/
def next (r : Registry) : Nat := r.objects.length

/-- Keeps one settings object more. -/
def add (r : Registry) (s : Settings) : Registry := { r with objects := r.objects ++ [s] }

/-- Makes the settings under a handle global, or none. -/
def select (r : Registry) (h : Option Nat) : Registry := { r with global := h }

/-- Makes new settings global. -/
def install (r : Registry) (s : Settings) : Registry := (r.add s).select (some r.next)

/-- Changes the settings that are global; where none are, nothing is changed. -/
def change (r : Registry) (f : Settings → Settings) : Registry :=
  match r.global with
  | none => r
  | some h => { r with objects := r.objects.modify h f }

end Registry

end ContractAbi
