import ContractAbi.Text.Decimal
import ContractAbi.Text.Quoted

/-!
# Argument lists

A record is put together from positional arguments, the last of which may be left out, or from named
ones.  This file says when an argument list does not fit a record, and how that is reported.  The
record itself counts as the first positional argument in a report, and has a name like the others.

Named arguments are looked at first and in order (`Signature.name?`), then the number of positional
ones, then what is missing.
-/

namespace ContractAbi

/-- The arguments from which a record is put together. -/
structure Signature where
  owner : Text
  required : List Text
  optional : List Text
  /-- The arguments that may be left out, and can be given by name only. -/
  named : List Text
deriving DecidableEq

/-- Why an argument list does not fit. -/
inductive ArgumentFault where
  /-- Required arguments are missing. -/
  | missing (owner : Text) (names : List Text)
  /-- There are more positional arguments than the record takes; `named` counts those beside them
  that can be given by name only. -/
  | tooMany (owner : Text) (least most given named : Nat)
  /-- A named argument belongs to no field. -/
  | unexpected (owner name : Text)
  /-- An argument is given twice, by position and by name. -/
  | twice (owner name : Text)
deriving DecidableEq

namespace Signature

/-- The name under which the record itself is an argument. -/
def recordName : Text := "self"

/-- The positional arguments in order. -/
def positional (s : Signature) : List Text := s.required ++ s.optional

/-- Whether an argument of some name can be given beside a number of positional ones. -/
def name? (s : Signature) (given : Nat) (name : Text) : Option ArgumentFault :=
  if (recordName :: s.positional.take given).contains name then some (.twice s.owner name)
  else if (s.positional ++ s.named).contains name then none
  else some (.unexpected s.owner name)

/-- Whether named arguments can all be given; the first that cannot is reported. -/
def names (s : Signature) (given : Nat) (ns : List Text) : Except ArgumentFault Unit :=
  match ns.findSome? (s.name? given) with
  | some f => .error f
  | none => .ok ()

/-- The report of too many positional arguments. -/
def tooMany (s : Signature) (given named : Nat) : ArgumentFault :=
  .tooMany s.owner (s.required.length + 1) (s.positional.length + 1) (given + 1) named

/-- The arguments by name: those given by position go to the positional names in order, and what is
then still required must have been given by name. -/
def bind {α : Type} (s : Signature) (args : List α) (named : List (Text × α)) :
    Except ArgumentFault (List (Text × α)) := do
  s.names args.length (named.map (·.1))
  let bound := s.positional.zip args ++ named
  let missing := s.required.filter fun n => (bound.lookup n).isNone
  if s.positional.length < args.length then
    .error (s.tooMany args.length (named.countP fun p => s.named.contains p.1))
  else if missing ≠ [] then .error (.missing s.owner missing)
  else .ok bound

/-- Whether positional arguments alone fit. -/
def fits {α : Type} (s : Signature) (args : List α) : Except ArgumentFault Unit :=
  (s.bind args []).map fun _ => ()

end Signature

namespace ArgumentFault

/-- An enumeration in words. -/
def enumerate : List Text → Text
  | [] => []
  | [a] => a
  | [a, b] => a ++ (" and " : Text) ++ b
  | names =>
    Text.join ", " names.dropLast ++ (", and " : Text) ++ (names.getLast?.getD [])

/-- The end of a noun that stands for a number of things. -/
def plural (n : Nat) : Text := if n = 1 then "" else "s"

/-- How many arguments there are beside the positional ones. -/
def besides (given named : Nat) : Text :=
  if named = 0 then []
  else
    (" positional argument" : Text) ++ plural given ++ (" (and " : Text) ++ Decimal.render named ++
      (" keyword-only argument" : Text) ++ plural named ++ (")" : Text)

/-- A name that a caller gave, between single quotes and otherwise unchanged. -/
def shownName (name : Text) : Text := ("'" : Text) ++ name ++ ("'" : Text)

/-- The report of a fault. -/
def message : ArgumentFault → Text
  | .missing owner names =>
    owner ++ (".__init__() missing " : Text) ++ Decimal.render names.length ++
      (" required positional argument" : Text) ++ plural names.length ++ (": " : Text) ++
      enumerate (names.map Quoted.text)
  | .tooMany owner least most given named =>
    owner ++ (".__init__() takes " : Text) ++
      (if least = most then Decimal.render most
       else ("from " : Text) ++ Decimal.render least ++ (" to " : Text) ++ Decimal.render most) ++
      (" positional argument" : Text) ++ (if least = most then plural most else ("s" : Text)) ++
      (" but " : Text) ++ Decimal.render given ++ besides given named ++
      ((if given = 1 ∧ named = 0 then " was given" else " were given") : Text)
  | .unexpected owner name =>
    owner ++ (".__init__() got an unexpected keyword argument " : Text) ++ shownName name
  | .twice owner name =>
    owner ++ (".__init__() got multiple values for argument " : Text) ++ shownName name

end ArgumentFault

end ContractAbi
