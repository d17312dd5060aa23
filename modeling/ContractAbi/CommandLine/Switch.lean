import ContractAbi.NoticeFilter
import ContractAbi.Listing

/-!
# Switches

The switches of the command line: how each is spelled, whether it takes a value, and what the usage
and the help say of them.  A long spelling may be cut short as long as it stays unambiguous.
-/

namespace ContractAbi

/-- The switches of the command line. -/
inductive Switch where
  | help
  | version
  /-- Where parameters are read from. -/
  | json
  /-- The parameters are those of an event. -/
  | event
  /-- The parameters are those of a tuple. -/
  | tuple
  | format
  | strictComponents
  | maxDepth
  | warnings
  | tracebackLimit
deriving DecidableEq

namespace Switch

/-! ## 1. Spellings -/

/-- All switches, in the order of the help. -/
def all : List Switch :=
  [.help, .version, .json, .event, .tuple, .format, .strictComponents, .maxDepth, .warnings,
    .tracebackLimit]

/-- The spellings of a switch. -/
def spellings : Switch → List Text
  | .help => ["-h", "--help"]
  | .version => ["--version"]
  | .json => ["--json"]
  | .event => ["--event"]
  | .tuple => ["--tuple"]
  | .format => ["-f", "--format"]
  | .strictComponents => ["--strict-components"]
  | .maxDepth => ["--max-depth"]
  | .warnings => ["--warnings"]
  | .tracebackLimit => ["--traceback-limit"]

/-- How a switch is called in messages. -/
def label (s : Switch) : Text := Text.join "/" s.spellings

/-- Every spelling with its switch. -/
def table : List (Text × Switch) := all.flatMap fun s => s.spellings.map (·, s)

/-- Whether a switch takes a value. -/
def takesValue : Switch → Bool
  | .json | .format | .maxDepth | .warnings | .tracebackLimit => true
  | .help | .version | .event | .tuple | .strictComponents => false

/-- The switch that excludes a switch. -/
def excludedBy? : Switch → Option Switch
  | .event => some .tuple
  | .tuple => some .event
  | _ => none

/-! ## 2. What is printed about them -/

/-- The name of the program. -/
def programName : Text := "abiparse"

/-- The lines of the usage. -/
def usageLines : List Text := [
  "usage: abiparse [-h] [--version] [--json JSON_PATH] [--event | --tuple]",
  "                [-f \x7brepr,selector,canonical,json\x7d] [--strict-components]",
  "                [--max-depth MAX_DEPTH] [--warnings \x7berror,none\x7d]",
  "                [--traceback-limit TRACEBACK_LIMIT]",
  "                [type_strings ...]"]

/-- The lines of the help below the usage. -/
def helpBody : List Text := [
  "",
  "Parse Ethereum ABI type names and JSON ABI parameters",
  "",
  "positional arguments:",
  "  type_strings          ABI type names to parse",
  "",
  "options:",
  "  -h, --help            show this help message and exit",
  "  --version             show program's version number and exit",
  "  --json JSON_PATH      Read a JSON ABI parameter (or a list of them) from a file, `-` for stdin",
  "  --event               Parse JSON input as event parameters (default)",
  "  --tuple               Parse JSON input as tuple parameters",
  "  -f \x7brepr,selector,canonical,json\x7d, --format \x7brepr,selector,canonical,json\x7d",
  "                        Format to print, one of:",
  "                        repr (default) - Python representation of the parsed type or parameter",
  "                        selector       - Canonical name used for function and event selectors",
  "                        canonical      - Type name in the canonical string syntax, e.g. [address,bool][]",
  "                        json           - JSON ABI type object",
  "  --strict-components   Reject `components` on parameters whose type is not a tuple",
  "  --max-depth MAX_DEPTH",
  "                        Maximum nesting depth of a type",
  "  --warnings \x7berror,none\x7d",
  "                        Turn warnings into errors, or silence them",
  "  --traceback-limit TRACEBACK_LIMIT",
  "                        Set the traceback limit for error messages reported by abiparse"]

/-- The lines of the help. -/
def helpLines : List Text := usageLines ++ helpBody

end Switch

end ContractAbi
