import ContractAbi.Proofs.Lines
import ContractAbi.Proofs.Listing
import ContractAbi.Proofs.Text.OneLine

/-!
# Lines on the output

A listing has an entry for each type name and each parameter, and the program prints every entry
with a line feed behind it.  So whoever reads line by line finds the entries again, provided that no
entry has a line feed of its own.

The entry of a type has none, and neither has the entry of a parameter as JSON or as it was put
together: there its name is quoted.  In the other formats the name stands bare behind the type
(`Format.writesBareNames`).  It is any text that a JSON document can hold, and the line feeds in it
are those of the entry (`Listing.feeds_of_run`).  Hence entries are lines exactly if no name that is
written bare has a line feed (`entries_oneLine_iff`), and a name may well have one
(`not_oneLine_bareName`).
-/

namespace ContractAbi

open Text (OneLine)

/-! ## 1. Line feeds in entries -/

/-- The number of line feeds in a text. -/
def Text.feeds (t : Text) : Nat := t.count Lines.feed

theorem Text.feeds_append (s t : Text) : feeds (s ++ t) = feeds s + feeds t := List.count_append

theorem Text.feeds_eq_zero_iff {t : Text} : feeds t = 0 ↔ OneLine t := List.count_eq_zero

/-- The line feeds of texts in a row are counted text by text. -/
theorem Text.feeds_flatten_congr {ss ts : List Text} (h : ss.map feeds = ts.map feeds) :
    feeds ss.flatten = feeds ts.flatten := by
  have hcount : ss.map (List.count Lines.feed) = ts.map (List.count Lines.feed) := h
  rw [feeds, feeds, List.count_flatten, List.count_flatten, hcount]

namespace Format

/-- Whether a format writes the name of a parameter as it is. -/
def writesBareNames : Format → Bool
  | .selector | .canonical | .brief => true
  | .full | .json => false

/-- What of a name stands bare in the entry of its parameter: all of it or nothing. -/
def bareName (f : Format) (name : Text) : Text := if f.writesBareNames then name else []

theorem oneLine_ofType (f : Format) (t : AbiType) : OneLine (f.ofType t) := by
  cases f with
  | selector => exact t.oneLine_selector
  | canonical => exact t.oneLine_canonical
  | json => exact Json.oneLine_write _
  | full | brief => exact Draft.oneLine_text _

/-- Behind a type the line feeds are those of the name. -/
theorem feeds_named {kind : Text} (h : OneLine kind) (indexed : Bool) (name : Text) :
    (named kind indexed name).feeds = name.feeds := by
  have hflag : OneLine (if indexed then " indexed" else []) := by cases indexed <;> decide
  rw [named, Text.feeds_append, Text.feeds_append, Text.feeds_eq_zero_iff.mpr h,
    Text.feeds_eq_zero_iff.mpr hflag]
  by_cases hname : name = []
  · rw [if_pos hname, hname]
    rfl
  · have hspace : Text.feeds " " = 0 := by decide
    rw [if_neg hname, Text.feeds_append, hspace]
    omega

theorem oneLine_quote_eventParam (p : EventParam) : OneLine p.toValue.quote := by
  have hflag : OneLine (Value.boolText p.indexed) := by cases p.indexed <;> decide
  simp only [EventParam.toValue, Value.quote, Value.eventParamText, Text.oneLine_append]
  exact ⟨⟨⟨⟨⟨⟨by decide, Quoted.oneLine_text _⟩, by decide⟩, Draft.oneLine_text _⟩, by decide⟩,
    hflag⟩, by decide⟩

theorem oneLine_quote_tupleParam (p : TupleParam) : OneLine p.toValue.quote := by
  have hname : OneLine (Value.quote (p.name.elim .null .text)) := by
    cases p.name with
    | none => exact (by decide : OneLine "None")
    | some name => exact Quoted.oneLine_text name
  simp only [TupleParam.toValue, Value.quote, Value.tupleParamText, Text.oneLine_append]
  exact ⟨⟨⟨⟨by decide, hname⟩, by decide⟩, Draft.oneLine_text _⟩, by decide⟩

/-- **The line feeds in the entry of an event parameter** are those of its name, where that stands
bare. -/
theorem feeds_ofEventParam (f : Format) (p : EventParam) :
    (f.ofEventParam p).feeds = (f.bareName p.name).feeds := by
  cases f with
  | json => exact Text.feeds_eq_zero_iff.mpr (Json.oneLine_write _)
  | full => exact Text.feeds_eq_zero_iff.mpr (oneLine_quote_eventParam p)
  | selector | canonical | brief => exact feeds_named (oneLine_ofType _ _) _ _

/-- The same for a tuple parameter, of which the name may be missing. -/
theorem feeds_ofTupleParam (f : Format) (p : TupleParam) :
    (f.ofTupleParam p).feeds = (f.bareName (p.name.getD [])).feeds := by
  cases f with
  | json => exact Text.feeds_eq_zero_iff.mpr (Json.oneLine_write _)
  | full => exact Text.feeds_eq_zero_iff.mpr (oneLine_quote_tupleParam p)
  | selector | canonical | brief => exact feeds_named (oneLine_ofType _ _) _ _

end Format

/-! ## 2. Listings -/

namespace Listing

variable {rules : Rules} {request : ListingRequest}

/-- The name of the parameter that an object is parsed as.  One that is missing counts as empty. -/
def ParamName (rules : Rules) (request : ListingRequest) (o : Value) (name : Text) : Prop :=
  if request.asEvent then ∃ p, (EventParam.parse rules o).outcome = .ok p ∧ name = p.name
  else ∃ p, (TupleParam.parse rules o).outcome = .ok p ∧ name = p.name.getD []

/-- The names of the parameters of a request, one for each object of its JSON text. -/
def Names (rules : Rules) (request : ListingRequest) (names : List Text) : Prop :=
  ∃ objects, Holds request.json objects ∧ List.Forall₂ (ParamName rules request) objects names

theorem feeds_of_typeLine {name line : Text} (h : TypeLine rules request name line) :
    line.feeds = 0 := by
  obtain ⟨t, -, hline⟩ := h
  rw [Format.eq_of_typeLine hline]
  exact Text.feeds_eq_zero_iff.mpr (request.format.oneLine_ofType t)

theorem feeds_of_typeLines {types lines : List Text}
    (h : List.Forall₂ (TypeLine rules request) types lines) :
    lines.map Text.feeds = (List.replicate types.length []).map Text.feeds := by
  induction h with
  | nil => rfl
  | cons hline _ ih =>
    rw [List.map_cons, feeds_of_typeLine hline, ih, List.length_cons, List.replicate_succ,
      List.map_cons]
    rfl

theorem exists_name_of_paramLine {o : Value} {line : Text} (h : ParamLine rules request o line) :
    ∃ name, ParamName rules request o name ∧
      line.feeds = (request.format.bareName name).feeds := by
  unfold ParamLine at h
  unfold ParamName
  split at h
  · next hevent =>
    obtain ⟨p, hp, hline⟩ := h
    simp only [if_pos hevent, Format.eq_of_eventParamLine hline]
    exact ⟨p.name, ⟨p, hp, rfl⟩, Format.feeds_ofEventParam _ p⟩
  · next hevent =>
    obtain ⟨p, hp, hline⟩ := h
    simp only [if_neg hevent, Format.eq_of_tupleParamLine hline]
    exact ⟨p.name.getD [], ⟨p, hp, rfl⟩, Format.feeds_ofTupleParam _ p⟩

theorem exists_names_of_paramLines {objects : List Value} {lines : List Text}
    (h : List.Forall₂ (ParamLine rules request) objects lines) :
    ∃ names, List.Forall₂ (ParamName rules request) objects names ∧
      lines.map Text.feeds = (names.map request.format.bareName).map Text.feeds := by
  induction h with
  | nil => exact ⟨[], .nil, rfl⟩
  | cons hline _ ih =>
    obtain ⟨name, hname, hfeeds⟩ := exists_name_of_paramLine hline
    obtain ⟨names, hnames, hrest⟩ := ih
    refine ⟨name :: names, .cons hname hnames, ?_⟩
    rw [List.map_cons, hfeeds, hrest, List.map_cons, List.map_cons]

/-- **What line feeds the entries of a listing have**: those of types have none, and those of
parameters the ones of their names that stand bare. -/
theorem feeds_of_run {lines : List Text} (h : (run rules request).outcome = .ok lines) :
    ∃ names, Names rules request names ∧
      lines.map Text.feeds =
        (List.replicate request.types.length [] ++ names.map request.format.bareName).map
          Text.feeds := by
  obtain ⟨objects, typeLines, paramLines, hholds, htypes, hparams, rfl⟩ := run_eq_ok_iff.mp h
  obtain ⟨names, hnames, hfeeds⟩ := exists_names_of_paramLines hparams
  refine ⟨names, ⟨objects, hholds, hnames⟩, ?_⟩
  rw [List.map_append, feeds_of_typeLines htypes, hfeeds, List.map_append]

section

variable {f : Format} {lines names : List Text} {n : Nat}
  (h : lines.map Text.feeds = (List.replicate n [] ++ names.map f.bareName).map Text.feeds)
include h

/-- There is an entry for each type name and each name of a parameter. -/
theorem length_of_feeds : lines.length = n + names.length := by
  have hlength := congrArg List.length h
  rwa [List.length_map, List.length_map, List.length_append, List.length_replicate,
    List.length_map] at hlength

/-- The entries are on one line each exactly if the names that are written bare are. -/
theorem oneLine_iff_of_feeds :
    (∀ line ∈ lines, OneLine line) ↔
      (f.writesBareNames = true → ∀ name ∈ names, OneLine name) := by
  have hfeeds (texts : List Text) :
      (∀ t ∈ texts, OneLine t) ↔ ∀ k ∈ texts.map Text.feeds, k = 0 := by
    rw [List.forall_mem_map]
    exact forall₂_congr fun _ _ => Text.feeds_eq_zero_iff.symm
  have hbare : (∀ t ∈ names.map f.bareName, OneLine t) ↔
      (f.writesBareNames = true → ∀ name ∈ names, OneLine name) := by
    rw [List.forall_mem_map]
    unfold Format.bareName
    cases f.writesBareNames with
    | false => exact iff_of_true (fun _ _ => List.not_mem_nil) nofun
    | true => exact ⟨fun h _ => h, fun h => h rfl⟩
  rw [hfeeds, h, ← hfeeds, List.forall_mem_append, hbare]
  exact and_iff_right fun t ht => List.eq_of_mem_replicate ht ▸ List.not_mem_nil

/-- All line feeds in the entries come from names. -/
theorem feeds_flatten_of_feeds :
    Text.feeds lines.flatten = Text.feeds (names.flatMap f.bareName) := by
  rw [Text.feeds_flatten_congr h, List.flatten_append, List.flatten_replicate_nil,
    List.nil_append, List.flatMap_def]

end

end Listing

/-! ## 3. The output -/

namespace Run

/-- What a run prints: every line with a line feed behind it. -/
def output (r : Run) : Text := r.printed.flatMap (· ++ [Lines.feed])

/-- There are as many line feeds on the output as lines are printed, and those that they hold. -/
theorem feeds_output (r : Run) :
    r.output.feeds = r.printed.length + Text.feeds r.printed.flatten := by
  unfold output
  induction r.printed with
  | nil => rfl
  | cons line lines ih =>
    have hfeed : Text.feeds [Lines.feed] = 1 := by decide
    rw [List.flatMap_cons, Text.feeds_append, Text.feeds_append, hfeed, ih, List.length_cons,
      List.flatten_cons, Text.feeds_append]
    omega

end Run

/-- **When one entry is one line.**  The entries of a listing have no line feed exactly if the
format quotes names or no name has one.  A run of the program for that listing prints a line for
each type name, one for each parameter and one more for each line feed in a name that is written
bare. -/
theorem entries_oneLine_iff (rules : Rules) (request : ListingRequest) {lines : List Text}
    (h : (Listing.run rules request).outcome = .ok lines) :
    ∃ names, Listing.Names rules request names ∧
      lines.length = request.types.length + names.length ∧
      ((∀ line ∈ lines, OneLine line) ↔
        (request.format.writesBareNames = true → ∀ name ∈ names, OneLine name)) ∧
      ∀ (s : Session) w arguments o json c, Options.ofArguments arguments = .ok o →
        Run.jsonText w o = .ok json → Run.controlOf o = .ok c →
        Run.rulesOf s.defaults o c = rules → Run.requestOf o json = request →
        (Run.ofArguments s w arguments).1.output.feeds =
          request.types.length + names.length +
            Text.feeds (names.flatMap request.format.bareName) := by
  obtain ⟨names, hnames, hfeeds⟩ := Listing.feeds_of_run h
  have hlength := Listing.length_of_feeds hfeeds
  refine ⟨names, hnames, hlength, Listing.oneLine_iff_of_feeds hfeeds, ?_⟩
  intro s w arguments o json c hargs hjson hcontrol hrules hrequest
  subst hrules hrequest
  obtain ⟨hprinted, -⟩ := Run.list_of_ok (s := s.showAll) h
  rw [Run.ofArguments_eq_list hargs hjson hcontrol, Run.feeds_output, hprinted, hlength,
    Listing.feeds_flatten_of_feeds hfeeds]

/-- One name with a line feed: there are two entries, and the program prints three lines. -/
theorem entries_oneLine_iff_break :
    let s := Session.start ⟨none, false, none⟩
    let single : Text := "\x7b\"name\":\"a\\nb\",\"type\":\"bool\"\x7d"
    let w : Surroundings := ⟨single, fun _ => .error .missing, libraryVersion⟩
    let given : List Text := ["uint", "--json", "-", "-f", "selector"]
    let o : Options :=
      ⟨["uint"], .value "-", true, .selector, false, .absent, .absent, .absent⟩
    let rules := Run.rulesOf s.defaults o .default
    let request := Run.requestOf o (some single)
    let lines : List Text := ["uint256", "bool a\nb"]
    (Listing.run rules request).outcome = .ok lines ∧ Options.ofArguments given = .ok o ∧
      Run.jsonText w o = .ok (some single) ∧ Run.controlOf o = .ok .default ∧
      (Run.ofArguments s w given).1.output.feeds = 3 ∧
      ∃ names, Listing.Names rules request names ∧ lines.length = 1 + names.length ∧
        (¬ ∀ name ∈ names, OneLine name) ∧
        (Run.ofArguments s w given).1.output.feeds =
          1 + names.length + Text.feeds (names.flatMap (Format.bareName .selector)) := by
  intro s single w given o rules request lines
  have hlines : (Listing.run rules request).outcome = .ok lines :=
    Outcome.toOption_eq_some_iff.mp (by decide +kernel)
  have hgiven : Options.ofArguments given = .ok o :=
    Outcome.toOption_eq_some_iff.mp (by decide +kernel)
  have hprinted : (Run.ofArguments s w given).1.printed = lines := by
    rw [Run.ofArguments_eq_list hgiven rfl rfl]
    exact (Run.list_of_ok (s := s.showAll) hlines).1
  have hthree : (Run.ofArguments s w given).1.output.feeds = 3 := by
    rw [Run.output, hprinted]
    decide
  have hbreak : ¬ ∀ line ∈ lines, OneLine line := by decide
  obtain ⟨names, hnames, hlength, hiff, hfeeds⟩ := entries_oneLine_iff rules request hlines
  refine ⟨hlines, hgiven, rfl, rfl, hthree, names, hnames, hlength, ?_, ?_⟩
  · exact fun hnames => hbreak (hiff.mpr fun _ => hnames)
  · exact hfeeds s w given o _ _ hgiven rfl rfl rfl rfl

/-- Behind the selector name of its type a name with a line feed is written as it is. -/
theorem not_oneLine_bareName :
    let single : Text := "\x7b\"name\":\"a\\nb\",\"type\":\"bool\"\x7d"
    let line : Text := "bool a\nb"
    (Listing.run ⟨.unlimited, false, false⟩ ⟨[], some single, true, .selector⟩).outcome =
        .ok [line] ∧ ¬ OneLine line :=
  ⟨Outcome.toOption_eq_some_iff.mp (by decide +kernel), by decide⟩

end ContractAbi
