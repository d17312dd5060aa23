import ContractAbi.Session

/-!
# Steps of a session

A caller drives a session by steps.  A step that fails says why, and the session goes on; what it
leaves behind is in `Session.perform`.  A call may also bring settings and a control of its own,
which hold for that call alone (`Session.under`).
-/

namespace ContractAbi

/-- What a caller does to a session. -/
inductive Step where
  /-- Makes settings global. -/
  | set (source : SettingsSource)
  /-- Enters an anchor. -/
  | anchor (source : SettingsSource)
  /-- Leaves the innermost anchor, perhaps because of a failure of the caller's own. -/
  | release (failure : Option Text)
  /-- Changes the settings that are global, unchecked. -/
  | change (f : Settings → Settings)
  /-- Puts the filter under the control that a value names. -/
  | control (v : Value)
  /-- Enters a context under the control that a value names. -/
  | enter (v : Value)
  /-- Leaves the innermost context. -/
  | leave
  /-- Gives a notice. -/
  | warn (r : Report)

/-- Why a step fails. -/
inductive StepFault where
  /-- The settings are refused. -/
  | settings (f : Settings.Fault)
  /-- A value names no control. -/
  | control
  /-- A notice is raised. -/
  | raised (r : Report)
  /-- The caller failed. -/
  | failed (t : Text)

/-- How a step ends: its fault, if it has one, the notices that are shown, and what lasts. -/
structure Stepped where
  fault : Option StepFault
  shown : List Report
  after : Session

namespace Session

/-- A step that succeeds silently. -/
def done (s : Session) : Stepped := ⟨none, [], s⟩

/-- A step that fails. -/
def fails (s : Session) (f : StepFault) : Stepped := ⟨some f, [], s⟩

/-- The session after a step that may refuse settings; a refusal leaves it as it was. -/
def settingStep (s : Session) (r : Except Settings.Fault Session) : Stepped :=
  match r with
  | .ok s' => s'.done
  | .error f => s.fails (.settings f)

/-- A notice that a caller gives.  A report of a kind that is no warning is none of this library's
notices, and is passed over. -/
def warn (s : Session) (r : Report) : Stepped :=
  if !r.kind.isA .warning then s.done
  else if s.filter.raises .caller r then s.fails (.raised r)
  else
    let (shown, f) := s.filter.hearAll .caller [r]
    ⟨none, shown, { s with filter := f }⟩

/-- One step. -/
def perform (s : Session) : Step → Stepped
  | .set source => s.settingStep (s.setGlobal source)
  | .anchor source => s.settingStep (s.anchor source)
  | .release none => s.release.done
  | .release (some t) => s.release.fails (.failed t)
  | .change f => (s.change f).done
  | .control v =>
    match NoticeControl.ofValue? v with
    | some c => (s.control c).done
    | none => s.fails .control
  | .enter v =>
    match NoticeControl.ofValue? v with
    | some c => (s.enter.control c).done
    | none => s.enter.leave.fails .control
  | .leave => s.leave.done
  | .warn r => s.warn r

/-- A call under a control of its own, if it has one. -/
def underControl {α : Type} (s : Session) (v : Option Value) (call : Session → α × Session) :
    Except StepFault α × Session :=
  match v with
  | none =>
    let (a, s') := call s
    (.ok a, s')
  | some v =>
    match NoticeControl.ofValue? v with
    | none => (.error .control, s.enter.leave)
    | some c =>
      let (a, s') := call (s.enter.control c)
      (.ok a, s'.leave)

/-- A call under settings and a control of its own, if it has them. -/
def under {α : Type} (s : Session) (source : Option SettingsSource) (v : Option Value)
    (call : Session → α × Session) : Except StepFault α × Session :=
  match source with
  | none => s.underControl v call
  | some source =>
    match s.anchor source with
    | .error f => (.error (.settings f), s)
    | .ok s' =>
      let (a, s'') := s'.underControl v call
      (a, s''.release)

end Session

end ContractAbi
