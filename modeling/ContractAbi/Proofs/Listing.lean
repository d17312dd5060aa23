import ContractAbi.CommandLine.Run
import ContractAbi.Proofs.Outcome
import ContractAbi.Proofs.Parse
import Mathlib.Data.List.Forall2

/-!
# Listings are all or nothing

A listing either has one line for every type name and every parameter, each made from that item
alone (`Lists`), or it fails by the first of its steps that does (`FailsBy`), and has no line.  The
two are exclusive and between them they cover every request, since a run comes to the one or the
other exactly (`run_eq_ok_iff`, `run_eq_error_iff`).

The program makes its own rules for the listing (`Run.rulesOf`), and they do not depend on what was
in force around it (`rules_inside`).  It prints what the listing has, and nothing if it fails
(`listing_complete`).
-/

namespace ContractAbi

/-! ## 1. What is listed -/

namespace Listing

variable {rules : Rules} {request : ListingRequest}

/-- The line of a type name: how the type is written that the name is read as. -/
def TypeLine (rules : Rules) (request : ListingRequest) (name line : Text) : Prop :=
  ∃ t, TypeName.read rules.ceiling name = .ok t ∧ request.format.typeLine callRoom t = .ok line

/-- A type name fails to be read, or its line to be written. -/
def TypeFails (rules : Rules) (request : ListingRequest) (name : Text) (e : Failure) : Prop :=
  TypeName.read rules.ceiling name = .error e ∨ ∃ t o, TypeName.read rules.ceiling name = .ok t ∧
    request.format.typeLine callRoom t = .error o ∧ e = .unwritten o

/-- The line of an object: how the parameter is written that the object is parsed as. -/
def ParamLine (rules : Rules) (request : ListingRequest) (o : Value) (line : Text) : Prop :=
  if request.asEvent then
    ∃ p, (EventParam.parse rules o).outcome = .ok p ∧
      request.format.eventParamLine callRoom p = .ok line
  else
    ∃ p, (TupleParam.parse rules o).outcome = .ok p ∧
      request.format.tupleParamLine callRoom p = .ok line

/-- An object fails to be parsed as a parameter, or the line of that to be written. -/
def ParamFails (rules : Rules) (request : ListingRequest) (o : Value) (e : Failure) : Prop :=
  if request.asEvent then
    (EventParam.parse rules o).outcome = .error e ∨
      ∃ p obstacle, (EventParam.parse rules o).outcome = .ok p ∧
        request.format.eventParamLine callRoom p = .error obstacle ∧ e = .unwritten obstacle
  else
    (TupleParam.parse rules o).outcome = .error e ∨
      ∃ p obstacle, (TupleParam.parse rules o).outcome = .ok p ∧
        request.format.tupleParamLine callRoom p = .error obstacle ∧ e = .unwritten obstacle

/-- `Holds json objects`: a JSON text, if there is one, decodes to a list of these objects, or to
the only one of them. -/
inductive Holds : Option Text → List Value → Prop
  | nothing : Holds none []
  | object {t : Text} {ps : List (Value × Value)} (h : Json.decode t = .ok (.record ps)) :
    Holds (some t) [.record ps]
  | array {t : Text} {vs : List Value} (h : Json.decode t = .ok (.list vs)) : Holds (some t) vs

/-- `Lists rules request lines`: there is a line for every type name and behind these one for every
object, in their order. -/
def Lists (rules : Rules) (request : ListingRequest) (lines : List Text) : Prop :=
  ∃ objects typeLines paramLines, Holds request.json objects ∧
    List.Forall₂ (TypeLine rules request) request.types typeLines ∧
    List.Forall₂ (ParamLine rules request) objects paramLines ∧ lines = typeLines ++ paramLines

/-- `FailsBy rules request e`: the first step of the listing that fails does so by `e`.  First come
the type names, then the decoding of the JSON text, then its shape, then the objects. -/
inductive FailsBy (rules : Rules) (request : ListingRequest) : Failure → Prop
  | type {before after : List Text} {name : Text} {e : Failure}
    (htypes : request.types = before ++ name :: after)
    (hbefore : ∀ n ∈ before, ∃ line, TypeLine rules request n line)
    (h : TypeFails rules request name e) : FailsBy rules request e
  | decoding {t : Text} {f : Json.DecodeFault}
    (htypes : ∀ n ∈ request.types, ∃ line, TypeLine rules request n line)
    (hjson : request.json = some t) (h : Json.decode t = .error f) :
    FailsBy rules request (.ofDecodeFault f)
  | shape {t : Text} {v : Value}
    (htypes : ∀ n ∈ request.types, ∃ line, TypeLine rules request n line)
    (hjson : request.json = some t) (h : Json.decode t = .ok v)
    (hrecord : ∀ ps, v ≠ .record ps) (hlist : ∀ vs, v ≠ .list vs) :
    FailsBy rules request (.refused .notInput)
  | param {before after : List Value} {o : Value} {e : Failure}
    (htypes : ∀ n ∈ request.types, ∃ line, TypeLine rules request n line)
    (hholds : Holds request.json (before ++ o :: after))
    (hbefore : ∀ x ∈ before, ∃ line, ParamLine rules request x line)
    (h : ParamFails rules request o e) : FailsBy rules request e

/-! ## 2. Steps -/

/-- All steps succeed: each member of the list has its own result. -/
theorem mapM_eq_ok_iff_forall₂ {ε α β : Type} {f : α → Except ε β} {l : List α} {bs : List β} :
    l.mapM f = .ok bs ↔ List.Forall₂ (fun a b => f a = .ok b) l bs := by
  rw [Outcome.mapM_eq_ok_iff, ← List.forall₂_eq_eq_eq, List.forall₂_map_left_iff,
    List.forall₂_map_right_iff]

section

variable {α : Type} {r : Except Failure α} {line : α → Except Obstacle Text}

/-- What becomes of a line that is written of a result. -/
theorem written_eq_ok_iff {text : Text} :
    (r >>= fun a => written (line a)) = .ok text ↔ ∃ a, r = .ok a ∧ line a = .ok text := by
  simp only [written, Outcome.bind_eq_ok_iff, Outcome.mapError_eq_ok_iff]

theorem written_eq_error_iff {e : Failure} :
    (r >>= fun a => written (line a)) = .error e ↔
      r = .error e ∨ ∃ a o, r = .ok a ∧ line a = .error o ∧ e = .unwritten o := by
  simp only [written, Outcome.bind_eq_error_iff, Outcome.mapError_eq_error_iff]
  refine or_congr_right (exists_congr fun a => ?_)
  constructor
  · rintro ⟨ha, o, ho, rfl⟩
    exact ⟨o, ha, ho, rfl⟩
  · rintro ⟨o, ha, ho, rfl⟩
    exact ⟨ha, o, ho, rfl⟩

end

theorem ofName_eq_ok_iff {name line : Text} :
    ofName rules request.format name = .ok line ↔ TypeLine rules request name line :=
  written_eq_ok_iff

theorem ofName_eq_error_iff {name : Text} {e : Failure} :
    ofName rules request.format name = .error e ↔ TypeFails rules request name e :=
  written_eq_error_iff

theorem paramLine_iff {o : Value} {line : Text} :
    (ofObject rules request.asEvent request.format o).outcome = .ok line ↔
      ParamLine rules request o line := by
  unfold ofObject ParamLine
  cases request.asEvent with
  | true =>
    rw [if_pos rfl, if_pos rfl, Parse.outcome_bind]
    exact written_eq_ok_iff
  | false =>
    rw [if_neg Bool.false_ne_true, if_neg Bool.false_ne_true, Parse.outcome_bind]
    exact written_eq_ok_iff

theorem paramFails_iff {o : Value} {e : Failure} :
    (ofObject rules request.asEvent request.format o).outcome = .error e ↔
      ParamFails rules request o e := by
  unfold ofObject ParamFails
  cases request.asEvent with
  | true =>
    rw [if_pos rfl, if_pos rfl, Parse.outcome_bind]
    exact written_eq_error_iff
  | false =>
    rw [if_neg Bool.false_ne_true, if_neg Bool.false_ne_true, Parse.outcome_bind]
    exact written_eq_error_iff

theorem typeLines_eq_ok_iff {lines : List Text} :
    typeLines rules request.format request.types = .ok lines ↔
      List.Forall₂ (TypeLine rules request) request.types lines := by
  unfold typeLines
  simp only [mapM_eq_ok_iff_forall₂, ofName_eq_ok_iff]

/-- The type names have lines exactly if each of them has one. -/
theorem exists_typeLines_iff :
    (∃ lines, typeLines rules request.format request.types = .ok lines) ↔
      ∀ n ∈ request.types, ∃ line, TypeLine rules request n line := by
  simp only [typeLines_eq_ok_iff]
  induction request.types with
  | nil => simp
  | cons name names ih =>
    rw [List.forall_mem_cons, ← ih]
    constructor
    · rintro ⟨_, h⟩
      cases h with
      | cons hname hnames => exact ⟨⟨_, hname⟩, _, hnames⟩
    · rintro ⟨⟨line, hname⟩, lines, hnames⟩
      exact ⟨line :: lines, .cons hname hnames⟩

theorem typeLines_eq_error_iff {e : Failure} :
    typeLines rules request.format request.types = .error e ↔
      ∃ before name after, request.types = before ++ name :: after ∧
        (∀ n ∈ before, ∃ line, TypeLine rules request n line) ∧ TypeFails rules request name e := by
  unfold typeLines
  simp only [Outcome.mapM_eq_error_iff, ofName_eq_ok_iff, ofName_eq_error_iff]

/-! ## 3. The JSON text -/

/-- The objects of the JSON text, of which there are none if there is no text. -/
def objectsOf : Option Text → Except Failure (List Value)
  | none => .ok []
  | some t => ofJson t

theorem objectsOf_eq_ok_iff {json : Option Text} {objs : List Value} :
    objectsOf json = .ok objs ↔ Holds json objs := by
  cases json with
  | none =>
    constructor
    · intro h
      cases h
      exact .nothing
    · intro h
      cases h
      rfl
  | some t =>
    rw [show objectsOf (some t) = ofJson t from rfl, ofJson]
    constructor
    · intro h
      split at h
      · next v hv =>
        unfold objects at h
        split at h
        · cases h
          exact .object hv
        · cases h
          exact .array hv
        · cases h
      · cases h
    · intro h
      cases h with
      | object hv => rw [hv]; rfl
      | array hv => rw [hv]; rfl

theorem objectsOf_eq_error_iff {json : Option Text} {e : Failure} :
    objectsOf json = .error e ↔ ∃ t, json = some t ∧
      ((∃ f, Json.decode t = .error f ∧ e = .ofDecodeFault f) ∨
        ∃ v, Json.decode t = .ok v ∧ (∀ ps, v ≠ .record ps) ∧ (∀ vs, v ≠ .list vs) ∧
          e = .refused .notInput) := by
  cases json with
  | none => simp [objectsOf]
  | some t =>
    rw [show objectsOf (some t) = ofJson t from rfl, ofJson]
    constructor
    · intro h
      refine ⟨t, rfl, ?_⟩
      split at h
      · next v hv =>
        unfold objects at h
        split at h
        · cases h
        · cases h
        · next hrecord hlist =>
          cases h
          exact Or.inr ⟨v, hv, hrecord, hlist, rfl⟩
      · next f hf =>
        cases h
        exact Or.inl ⟨f, hf, rfl⟩
    · rintro ⟨_, ht, ⟨f, hf, rfl⟩ | ⟨v, hv, hrecord, hlist, rfl⟩⟩
      · cases ht
        rw [hf]
      · cases ht
        rw [hv]
        cases v with
        | record ps => exact absurd rfl (hrecord ps)
        | list vs => exact absurd rfl (hlist vs)
        | _ => rfl

/-! ## 4. Runs -/

/-- What a listing comes to, step by step. -/
theorem outcome_run (rules : Rules) (request : ListingRequest) :
    (run rules request).outcome = (do
      let types ← typeLines rules request.format request.types
      let objs ← objectsOf request.json
      let params ← objs.mapM fun o =>
        (ofObject rules request.asEvent request.format o).outcome
      .ok (types ++ params)) := by
  rw [run, Parse.outcome_bind, Parse.outcome_quiet]
  refine bind_congr fun types => ?_
  cases request.json with
  | none => exact congrArg Except.ok (List.append_nil types).symm
  | some t =>
    simp only [Parse.outcome_bind, Parse.outcome_quiet, Parse.outcome_mapM]
    rfl

/-- **A listing has exactly the lines that its items have.** -/
theorem run_eq_ok_iff {lines : List Text} :
    (run rules request).outcome = .ok lines ↔ Lists rules request lines := by
  rw [outcome_run, Outcome.bind_eq_ok_iff]
  constructor
  · rintro ⟨types, htypes, h⟩
    obtain ⟨objs, hobjs, h⟩ := Outcome.bind_eq_ok_iff.mp h
    obtain ⟨params, hparams, h⟩ := Outcome.bind_eq_ok_iff.mp h
    cases h
    refine ⟨objs, types, params, objectsOf_eq_ok_iff.mp hobjs, typeLines_eq_ok_iff.mp htypes, ?_,
      rfl⟩
    simpa only [paramLine_iff] using mapM_eq_ok_iff_forall₂.mp hparams
  · rintro ⟨objs, types, params, hobjs, htypes, hparams, rfl⟩
    refine ⟨types, typeLines_eq_ok_iff.mpr htypes, ?_⟩
    refine Outcome.bind_eq_ok_iff.mpr ⟨objs, objectsOf_eq_ok_iff.mpr hobjs, ?_⟩
    refine Outcome.bind_eq_ok_iff.mpr ⟨params, mapM_eq_ok_iff_forall₂.mpr ?_, rfl⟩
    simpa only [paramLine_iff] using hparams

/-- **A listing fails by its first step that fails.** -/
theorem run_eq_error_iff {e : Failure} :
    (run rules request).outcome = .error e ↔ FailsBy rules request e := by
  rw [outcome_run, Outcome.bind_eq_error_iff]
  constructor
  · rintro (h | ⟨types, htypes, h⟩)
    · obtain ⟨before, name, after, hlist, hbefore, h⟩ := typeLines_eq_error_iff.mp h
      exact .type hlist hbefore h
    · have hall : ∀ n ∈ request.types, ∃ line, TypeLine rules request n line :=
        exists_typeLines_iff.mp ⟨types, htypes⟩
      rcases Outcome.bind_eq_error_iff.mp h with h | ⟨objs, hobjs, h⟩
      · obtain ⟨t, ht, ⟨f, hf, rfl⟩ | ⟨v, hv, hrecord, hlist, rfl⟩⟩ := objectsOf_eq_error_iff.mp h
        · exact .decoding hall ht hf
        · exact .shape hall ht hv hrecord hlist
      · rcases Outcome.bind_eq_error_iff.mp h with h | ⟨params, -, h⟩
        · obtain ⟨before, o, after, rfl, hbefore, h⟩ := Outcome.mapM_eq_error_iff.mp h
          refine .param hall (objectsOf_eq_ok_iff.mp hobjs) ?_ (paramFails_iff.mp h)
          simpa only [paramLine_iff] using hbefore
        · cases h
  · intro h
    cases h with
    | type hlist hbefore h => exact Or.inl (typeLines_eq_error_iff.mpr ⟨_, _, _, hlist, hbefore, h⟩)
    | decoding hall ht hf =>
      obtain ⟨types, htypes⟩ := exists_typeLines_iff.mpr hall
      refine Or.inr ⟨types, htypes, Outcome.bind_eq_error_iff.mpr (Or.inl ?_)⟩
      exact objectsOf_eq_error_iff.mpr ⟨_, ht, Or.inl ⟨_, hf, rfl⟩⟩
    | shape hall ht hv hrecord hlist =>
      obtain ⟨types, htypes⟩ := exists_typeLines_iff.mpr hall
      refine Or.inr ⟨types, htypes, Outcome.bind_eq_error_iff.mpr (Or.inl ?_)⟩
      exact objectsOf_eq_error_iff.mpr ⟨_, ht, Or.inr ⟨_, hv, hrecord, hlist, rfl⟩⟩
    | param hall hholds hbefore h =>
      obtain ⟨types, htypes⟩ := exists_typeLines_iff.mpr hall
      refine Or.inr ⟨types, htypes, Outcome.bind_eq_error_iff.mpr (Or.inr ?_)⟩
      refine ⟨_, objectsOf_eq_ok_iff.mpr hholds, Outcome.bind_eq_error_iff.mpr (Or.inl ?_)⟩
      refine Outcome.mapM_eq_error_iff.mpr ⟨_, _, _, rfl, ?_, paramFails_iff.mpr h⟩
      simpa only [paramLine_iff] using hbefore

end Listing

/-! ## 5. The program -/

namespace Run

/-- The rules that the program makes for its listing. -/
def rulesOf (d : Defaults) (o : Options) (c : NoticeControl) : Rules :=
  ⟨(settings o).ceiling d, (settings o).isStrict d, decide (c = .error)⟩

/-- The listing that the options ask for. -/
def requestOf (o : Options) (json : Option Text) : ListingRequest :=
  ⟨o.types, json, o.asEvent, o.format⟩

end Run

/-- Settings that are made global are in force. -/
theorem active_install (r : Registry) (x : Settings) : (r.install x).active = x := by
  simp [Registry.active, Registry.global?, Registry.install, Registry.select, Registry.add,
    Registry.next]

/-- Under a control the notices of this library are raised exactly if it says so, whatever the rules
were before and wherever the notice is given. -/
theorem raises_apply (f : NoticeFilter) (c : NoticeControl) {place : NoticePlace} {r : Report}
    (h : r.kind.isA .warning = true) : (f.apply c).raises place r = decide (c = .error) := by
  have hcovers : c.rule.covers (r.subject place) = true := h
  rw [NoticeFilter.raises, NoticeFilter.apply, NoticeFilter.actionFor_prepend_of_covers hcovers]
  cases c <;> rfl

/-- **Inside the program's own settings and control the rules are its own**, whatever session it is
called in. -/
theorem rules_inside (s : Session) (o : Options) (c : NoticeControl) :
    ((s.enter.control c).anchored (s.registry.install (Run.settings o))).rules =
      Run.rulesOf s.defaults o c := by
  have hactive := active_install s.registry (Run.settings o)
  have hraises : ∀ n : Notice, (s.enter.filter.apply c).raises .parser n.report =
      decide (c = .error) := by
    rintro ⟨name⟩
    exact raises_apply s.enter.filter c rfl
  unfold Session.rules Session.ceiling Session.isStrict Session.strictness Run.rulesOf
  simp only [Session.anchored, Session.control, Session.enter] at hraises ⊢
  simp only [hactive, hraises]
  rfl

namespace Run

variable {s : Session} {w : Surroundings} {arguments : List Text} {o : Options}
  {json : Option Text} {c : NoticeControl}

/-- A run that got as far as its listing prints what the listing has, or nothing. -/
theorem ofArguments_eq_list (hargs : Options.ofArguments arguments = .ok o)
    (hjson : jsonText w o = .ok json) (hcontrol : controlOf o = .ok c) :
    (ofArguments s w arguments).1 = (list s.showAll o c json).1 := by
  unfold ofArguments
  rw [hargs]
  dsimp only
  unfold ofOptions
  rw [hjson, hcontrol]

theorem list_of_ok {lines : List Text}
    (h : (Listing.run (rulesOf s.defaults o c) (requestOf o json)).outcome = .ok lines) :
    (list s o c json).1.printed = lines ∧ (list s o c json).1.ending = .exit 0 := by
  rw [requestOf] at h
  unfold list
  dsimp only
  rw [rules_inside, h]
  exact ⟨rfl, rfl⟩

theorem list_of_error {e : Failure}
    (h : (Listing.run (rulesOf s.defaults o c) (requestOf o json)).outcome = .error e) :
    (list s o c json).1.printed = [] ∧ (list s o c json).1.ending = .fault (.failure e) := by
  rw [requestOf] at h
  unfold list
  dsimp only
  rw [rules_inside, h]
  exact ⟨rfl, rfl⟩

/-- A run that does not get as far as its listing prints nothing, unless it is asked for help or for
its version. -/
theorem printed_eq_nil (hhelp : Options.ofArguments arguments ≠ .error .help)
    (hversion : Options.ofArguments arguments ≠ .error .version)
    (hlist : ∀ o json c, Options.ofArguments arguments = .ok o → jsonText w o = .ok json →
      controlOf o ≠ .ok c) :
    (ofArguments s w arguments).1.printed = [] := by
  unfold ofArguments
  dsimp only
  split
  · next h => exact absurd h hhelp
  · next h => exact absurd h hversion
  · rfl
  · rfl
  · next o hargs =>
    unfold ofOptions
    split
    · next json c hjson hcontrol => exact absurd hcontrol (hlist o json c hargs hjson)
    · rfl
    · rfl

end Run

/-- The notice that an end raises, if it raises one. -/
def Listing.raised? {α : Type} : Except Failure α → Option Notice
  | .error (.raised n) => some n
  | _ => none

theorem Listing.raised?_eq_some_iff {α : Type} {r : Except Failure α} {n : Notice} :
    raised? r = some n ↔ r = .error (.raised n) := by
  cases r with
  | ok a => simp [raised?]
  | error e => cases e <;> simp [raised?]

end ContractAbi
