import ContractAbi.Parse

/-!
# Filtering notices

Whether a notice is shown, shown once, raised or dropped is decided by a list of rules, of which the
first that covers it counts; a notice that no rule covers is shown once.  What a rule covers is up
to the rule, which sees all that is given with a notice (`NoticeSubject`).  A *control* puts a rule
for the notices of this library in front (`NoticeFilter.apply`).  Raising and dropping clear all
other rules first, so that nothing further down is left over.

What was shown once is remembered by its text, its kind and the place that gave it, and forgotten
whenever the rules are touched.
-/

namespace ContractAbi

/-! ## 1. Rules -/

/-- Where a notice that is shown once is not shown again. -/
inductive NoticeSpan where
  /-- At the same line. -/
  | line
  /-- In the same file. -/
  | file
  /-- Wherever it says the same. -/
  | text
deriving DecidableEq

/-- What becomes of a notice. -/
inductive NoticeAction where
  | always
  | once (within : NoticeSpan)
  | raise
  | drop
deriving DecidableEq

/-- What a notice is: a report of this library, or something of another one. -/
inductive NoticeCategory where
  | report (k : ReportKind)
  | foreign (name : Text)
deriving DecidableEq

/-- Where a notice is given: by the parser, or by a caller of its own accord.  Either is one line of
a file that gives no others. -/
inductive NoticePlace where
  | parser | caller
deriving DecidableEq

/-- What a rule sees of a notice. -/
structure NoticeSubject where
  category : NoticeCategory
  text : Text
  place : NoticePlace
deriving DecidableEq

/-- A rule: the notices that it covers, and what becomes of them. -/
structure NoticeRule where
  covers : NoticeSubject → Bool
  action : NoticeAction

/-- A report as a rule sees it. -/
def Report.subject (r : Report) (place : NoticePlace) : NoticeSubject :=
  ⟨.report r.kind, r.text, place⟩

/-- Whether something is a notice of this library. -/
def NoticeSubject.isOwn (s : NoticeSubject) : Bool :=
  match s.category with
  | .report k => k.isA .warning
  | .foreign _ => false

/-- How a caller controls the notices of this library. -/
inductive NoticeControl where
  | default | error | none
deriving DecidableEq

namespace NoticeControl

/-- The control that a value names. -/
def ofValue? (v : Value) : Option NoticeControl :=
  match v with
  | .null => some .default
  | .text t =>
    if t = ("error" : Text) then some .error
    else if t = ("none" : Text) then some .none
    else Option.none
  | _ => Option.none

/-- What a control does with notices. -/
def action : NoticeControl → NoticeAction
  | .default => .once .line
  | .error => .raise
  | .none => .drop

/-- Whether a control clears all other rules. -/
def clears : NoticeControl → Bool
  | .default => false
  | .error | .none => true

/-- The rule that a control stands for. -/
def rule (c : NoticeControl) : NoticeRule := ⟨NoticeSubject.isOwn, c.action⟩

end NoticeControl

/-! ## 2. Filters -/

/-- Rules, the first of which counts first, and what was shown under them. -/
structure NoticeFilter where
  rules : List NoticeRule
  shown : List (Text × ReportKind × NoticePlace)

namespace NoticeFilter

/-- Some rules, under which nothing was shown yet. -/
def ofRules (rules : List NoticeRule) : NoticeFilter := ⟨rules, []⟩

/-- The rule that shows everything. -/
def showRule : NoticeRule := ⟨fun _ => true, .always⟩

/-- The filter that shows everything. -/
def base : NoticeFilter := ofRules [showRule]

/-- A rule in front of all others. -/
def prepend (f : NoticeFilter) (r : NoticeRule) : NoticeFilter := ofRules (r :: f.rules)

/-- The filter under a control. -/
def apply (f : NoticeFilter) (c : NoticeControl) : NoticeFilter :=
  (if c.clears then ofRules [] else f).prepend c.rule

/-- What the rules do with a notice. -/
def actionFor (f : NoticeFilter) (s : NoticeSubject) : NoticeAction :=
  ((f.rules.find? (·.covers s)).map (·.action)).getD (.once .line)

/-- The first rule counts. -/
theorem actionFor_prepend_of_covers {f : NoticeFilter} {r : NoticeRule} {s : NoticeSubject}
    (h : r.covers s = true) : (f.prepend r).actionFor s = r.action := by
  simp [actionFor, prepend, ofRules, h]

/-- A rule that does not cover a notice does not count for it. -/
theorem actionFor_prepend_of_not_covers {f : NoticeFilter} {r : NoticeRule} {s : NoticeSubject}
    (h : r.covers s = false) : (f.prepend r).actionFor s = f.actionFor s := by
  simp [actionFor, prepend, ofRules, h]

/-! ## 3. Notices under a filter -/

/-- Whether a notice was shown once and is remembered. -/
def remembers (f : NoticeFilter) (place : NoticePlace) (r : Report) : Bool :=
  f.shown.contains (r.text, r.kind, place)

/-- Whether a notice is raised. -/
def raises (f : NoticeFilter) (place : NoticePlace) (r : Report) : Bool :=
  f.actionFor (r.subject place) = .raise

/-- What becomes of one notice: `true` if it is shown, and the filter after it.  A notice that is to
be raised counts as not shown; raising it is up to whoever gives it.  Since it is for
each file that what was shown is remembered, and a place is all of its file, all spans come to the
same. -/
def hear (f : NoticeFilter) (place : NoticePlace) (r : Report) : Bool × NoticeFilter :=
  if f.remembers place r then (false, f)
  else match f.actionFor (r.subject place) with
    | .always => (true, f)
    | .once _ => (true, { f with shown := (r.text, r.kind, place) :: f.shown })
    | .raise | .drop => (false, f)

/-- The notices that are shown of several, and the filter after them. -/
def hearAll (f : NoticeFilter) (place : NoticePlace) : List Report → List Report × NoticeFilter
  | [] => ([], f)
  | r :: rs =>
    let (isShown, f') := f.hear place r
    let (shown, f'') := f'.hearAll place rs
    (if isShown then r :: shown else shown, f'')

end NoticeFilter

end ContractAbi
