import ContractAbi.NoticeFilter
import ContractAbi.Parameter.Parse
import ContractAbi.Settings

/-!
# Sessions

A session is what lasts from one call to the next: the defaults of the environment, the global
settings and the filter for notices.  Both the settings and the filter can be put in place for a
while: an *anchor* makes settings global until it is released, a *context* holds a filter until it
is left, and either brings back what it found when it was entered, whatever happened in between.

The settings in force and the filter together make the rules of a parse (`Session.rules`), and a
parse leaves nothing behind but what was shown (`Session.settle`).
-/

namespace ContractAbi

/-- What lasts from call to call. -/
structure Session where
  defaults : Defaults
  registry : Registry
  /-- What was global when each anchor was entered, the innermost anchor first. -/
  anchors : List (Option Nat)
  filter : NoticeFilter
  /-- The rules that were in force when each context was entered, the innermost context first. -/
  contexts : List (List NoticeRule)

namespace Session

/-- The session before the first call. -/
def start (defaults : Defaults) : Session := ⟨defaults, .empty, [], .base, []⟩

/-! ## 1. Settings -/

/-- The registry in which what a caller hands over is global, if that can be. -/
def settled (s : Session) (source : SettingsSource) : Except Settings.Fault Registry :=
  match source with
  | .nothing => .ok (s.registry.select none)
  | .arguments args => (Settings.ofArguments args).map s.registry.install
  | .existing h =>
    if h < s.registry.next then .ok (s.registry.select (some h)) else .error .value
  | .other => .error .value

/-- Makes settings global, or none. -/
def setGlobal (s : Session) (source : SettingsSource) : Except Settings.Fault Session :=
  (s.settled source).map fun r => { s with registry := r }

/-- Enters an anchor for a registry, in which the settings of the anchor are global. -/
def anchored (s : Session) (r : Registry) : Session :=
  { s with registry := r, anchors := s.registry.global :: s.anchors }

/-- Enters an anchor, which needs settings. -/
def anchor (s : Session) (source : SettingsSource) : Except Settings.Fault Session :=
  match source with
  | .nothing => .error .value
  | source => (s.settled source).map s.anchored

/-- Leaves the innermost anchor. -/
def release (s : Session) : Session :=
  match s.anchors with
  | [] => s
  | h :: hs => { s with registry := s.registry.select h, anchors := hs }

/-- Changes the settings that are global. -/
def change (s : Session) (f : Settings → Settings) : Session :=
  { s with registry := s.registry.change f }

/-! ## 2. The filter -/

/-- Puts the filter under a control. -/
def control (s : Session) (c : NoticeControl) : Session := { s with filter := s.filter.apply c }

/-- Enters a context, in which the rules stay as they are. -/
def enter (s : Session) : Session :=
  { s with filter := .ofRules s.filter.rules, contexts := s.filter.rules :: s.contexts }

/-- Leaves the innermost context. -/
def leave (s : Session) : Session :=
  match s.contexts with
  | [] => s
  | rules :: rest => { s with filter := .ofRules rules, contexts := rest }

/-- Lets everything be shown, whatever the rules so far say. -/
def showAll (s : Session) : Session := { s with filter := s.filter.prepend NoticeFilter.showRule }

/-! ## 3. Parses -/

/-- The ceiling in force. -/
def ceiling (s : Session) : Ceiling := s.registry.active.ceiling s.defaults

/-- The flag of strictness in force. -/
def strictness (s : Session) : Flag := s.registry.active.strictness s.defaults

/-- Whether components without effect are refused. -/
def isStrict (s : Session) : Bool := s.strictness.isUp

/-- The rules of a parse. -/
def rules (s : Session) : Rules :=
  ⟨s.ceiling, s.isStrict, fun n => s.filter.raises .parser n.report⟩

/-- The notices of the parser that are shown, and the session after them. -/
def settle (s : Session) (notices : List Notice) : List Report × Session :=
  let (shown, f) := s.filter.hearAll .parser (notices.map Notice.report)
  (shown, { s with filter := f })

end Session

end ContractAbi
