import ContractAbi.Proofs.Listing
import ContractAbi.Proofs.Parameter.Tour
import ContractAbi.Proofs.Session.Controls

/-!
# The notices that a run shows

A lenient run gives a notice for each object whose components have no effect, in the order of the
tour.  What it shows of them is another matter.  The rule that shows everything, which the program
puts in front at its start, does not count inside the listing: there the default control stands
before it, and what was shown is remembered by its text (`hearAll_of_once`).  The text names the
type and not the object, and all notices of the parser come from one place.

So of several such objects with the same name of a type only the first is reported, and each has a
report of its own exactly if the names differ (`idle_shown_once`).
-/

namespace ContractAbi

/-! ## 1. First occurrences -/

/-- All members of a list are first occurrences exactly if none is repeated. -/
theorem eraseDups_eq_self_iff {α : Type} [BEq α] [LawfulBEq α] {l : List α} :
    l.eraseDups = l ↔ l.Nodup := by
  induction l with
  | nil => simp
  | cons a l ih =>
    have hkeep : a ∉ l → l.filter (fun b => !b == a) = l := fun ha =>
      List.filter_eq_self.mpr fun b hb => by simpa using ne_of_mem_of_not_mem hb ha
    rw [List.eraseDups_cons, List.nodup_cons, List.cons_inj_right]
    constructor
    · intro h
      have ha : a ∉ l := by
        intro hmem
        rw [← h, List.mem_eraseDups] at hmem
        simp at hmem
      rw [hkeep ha] at h
      exact ⟨ha, ih.mp h⟩
    · rintro ⟨ha, hl⟩
      rw [hkeep ha, ih.mpr hl]

/-! ## 2. Notices that are shown once -/

/-- What is reported of components without effect beside a type with this name. -/
def idleReport (name : Text) : Report := (Notice.ignoredComponents name).report

/-- The text of the report tells the names of types apart. -/
theorem idleReport_text_inj {m n : Text} : (idleReport m).text = (idleReport n).text ↔ m = n := by
  have htext : ∀ name, (idleReport name).text =
      ("ignoring `components` of non-tuple type `" : Text) ++ name ++ ("`" : Text) := fun _ => rfl
  rw [htext, htext, List.append_cancel_right_eq, List.append_cancel_left_eq]

theorem idleReport_map_inj {ms ns : List Text} :
    ms.map idleReport = ns.map idleReport ↔ ms = ns :=
  List.map_inj_right fun _ _ h => idleReport_text_inj.mp (congrArg Report.text h)

theorem ignoredComponents_map_inj {ms ns : List Text} :
    ms.map Notice.ignoredComponents = ns.map .ignoredComponents ↔ ms = ns :=
  List.map_inj_right fun _ _ => Notice.ignoredComponents.inj

namespace NoticeFilter

variable {f : NoticeFilter} {place : NoticePlace}

/-- The filter that has shown a report as well. -/
def showing (f : NoticeFilter) (place : NoticePlace) (r : Report) : NoticeFilter :=
  { f with shown := (r.text, r.kind, place) :: f.shown }

theorem remembers_showing (m n : Text) :
    (f.showing place (idleReport n)).remembers place (idleReport m) =
      (m == n || f.remembers place (idleReport m)) := by
  rw [remembers, remembers, showing, List.contains_cons]
  congr 1
  rw [Bool.eq_iff_iff, beq_iff_eq, beq_iff_eq, Prod.mk.injEq, idleReport_text_inj]
  exact and_iff_left rfl

/-- **Of reports that are shown once the first with each name is shown**, unless it was shown
before. -/
theorem hearAll_of_once {span : NoticeSpan}
    (h : ∀ name, f.actionFor ((idleReport name).subject place) = .once span) (names : List Text) :
    (f.hearAll place (names.map idleReport)).1 =
      (names.filter fun n => !f.remembers place (idleReport n)).eraseDups.map idleReport := by
  induction names generalizing f with
  | nil => rfl
  | cons n names ih =>
    rw [List.map_cons, hearAll]
    cases hseen : f.remembers place (idleReport n) with
    | true =>
      have hhear : f.hear place (idleReport n) = (false, f) := by rw [hear, hseen, if_pos rfl]
      rw [hhear, List.filter_cons_of_neg (by simp [hseen])]
      exact ih h
    | false =>
      have hhear : f.hear place (idleReport n) = (true, f.showing place (idleReport n)) := by
        rw [hear, hseen, if_neg Bool.false_ne_true, h]
        rfl
      have hfilter : (names.filter fun m =>
            !(f.showing place (idleReport n)).remembers place (idleReport m)) =
          (names.filter fun m => !f.remembers place (idleReport m)).filter fun m => !m == n := by
        rw [List.filter_filter]
        refine List.filter_congr fun m _ => ?_
        rw [remembers_showing, Bool.not_or]
      rw [hhear, List.filter_cons_of_pos (by simp [hseen]), List.eraseDups_cons, List.map_cons,
        ← hfilter]
      exact congrArg (idleReport n :: ·) (ih h)

/-- Under the default control, where nothing was shown yet, only repetitions are missing. -/
theorem hearAll_apply_default (f : NoticeFilter) (names : List Text) :
    ((f.apply .default).hearAll place (names.map idleReport)).1 =
      names.eraseDups.map idleReport := by
  have hnew : ∀ n ∈ names, (!(f.apply .default).remembers place (idleReport n)) = true :=
    fun _ _ => rfl
  have honce : ∀ name, (f.apply .default).actionFor ((idleReport name).subject place) =
      .once .line := fun _ => actionFor_of_head (head?_rules_apply f .default) rfl
  rw [hearAll_of_once honce, List.filter_eq_self.mpr hnew]

end NoticeFilter

/-! ## 3. Listings -/

namespace Listing

/-- The fields of the objects that are listed. -/
def known (asEvent : Bool) : List Field := if asEvent then Field.ofEvent else Field.ofTuple

theorem tells_ofObject (c : Ceiling) (asEvent : Bool) (format : Format) :
    Tells (known asEvent) (ofObject ⟨c, false, false⟩ asEvent format) := by
  cases asEvent with
  | true => exact (tells_eventParam c).bind_quiet _
  | false => exact (tells_tupleParam c componentsLimit).bind_quiet _

/-- **A listing gives the notices of the tour of its objects.** -/
theorem tourGives_run {c : Ceiling} {request : ListingRequest} {lines : List Text}
    (h : (run ⟨c, false, false⟩ request).outcome = .ok lines) :
    ∃ objects fields, Holds request.json objects ∧
      objects.mapM (Fields.ofObject (known request.asEvent)) = .ok fields ∧
        TourGives fields (run ⟨c, false, false⟩ request).notices := by
  unfold run at h ⊢
  obtain ⟨types, htypes, h⟩ := Parse.of_bind_eq_ok h
  rw [Parse.outcome_quiet] at htypes
  rw [htypes, Parse.quiet_ok, pure_bind]
  cases hjson : request.json with
  | none => exact ⟨[], [], .nothing, rfl, tourGives_nil⟩
  | some t =>
    rw [hjson] at h
    obtain ⟨objects, hobjects, h⟩ := Parse.of_bind_eq_ok h
    obtain ⟨params, hparams, -⟩ := Parse.of_bind_eq_ok h
    rw [Parse.outcome_quiet] at hobjects
    obtain ⟨fields, hfields, hgives⟩ := tourGives_mapM (tells_ofObject _ _ _) hparams
    refine ⟨objects, fields, objectsOf_eq_ok_iff.mp hobjects, hfields, ?_⟩
    dsimp only
    rw [hobjects, Parse.quiet_ok, pure_bind, Parse.notices_bind_of_ok hparams, Parse.pure_def,
      List.append_nil]
    exact hgives

end Listing

/-! ## 4. Runs -/

namespace Run

/-- No option asks for another treatment of components without effect, and neither do the defaults
of the environment: they are not refused, and notices of them are under the default control. -/
def IsLenient (d : Defaults) (arguments : List Text) : Prop :=
  ∀ o, Options.ofArguments arguments = .ok o →
    o.control = .absent ∧ (settings o).isStrict d = false

theorem isLenient_of_ofArguments {d : Defaults} {arguments : List Text} {o : Options}
    (hargs : Options.ofArguments arguments = .ok o) (hcontrol : o.control = .absent)
    (hstrict : (settings o).isStrict d = false) : IsLenient d arguments := by
  intro o' ho'
  cases hargs.symm.trans ho'
  exact ⟨hcontrol, hstrict⟩

/-- `Tours w arguments visited`: these are the objects that a run visits. -/
inductive Tours (w : Surroundings) (arguments : List Text) : (visited : List Fields) → Prop
  /-- A run that is asked for help or for its version visits none. -/
  | nothing (h : Options.ofArguments arguments = .error .help ∨
      Options.ofArguments arguments = .error .version) : Tours w arguments []
  | listed {o : Options} {json : Option Text} {objects : List Value} {fields visited : List Fields}
    (hargs : Options.ofArguments arguments = .ok o) (hjson : jsonText w o = .ok json)
    (hholds : Listing.Holds json objects)
    (hfields : objects.mapM (Fields.ofObject (Listing.known o.asEvent)) = .ok fields)
    (htour : Tour fields visited) : Tours w arguments visited

variable {s : Session} {w : Surroundings} {arguments : List Text} {o : Options}
  {json : Option Text} {c : NoticeControl}

theorem tours_unique {vs ws : List Fields} (h : Tours w arguments vs) (h' : Tours w arguments ws) :
    vs = ws := by
  cases h with
  | nothing h =>
    cases h' with
    | nothing => rfl
    | listed hargs =>
      rw [hargs] at h
      rcases h with h | h <;> cases h
  | listed hargs hjson hholds hfields htour =>
    cases h' with
    | nothing h =>
      rw [hargs] at h
      rcases h with h | h <;> cases h
    | listed hargs' hjson' hholds' hfields' htour' =>
      cases hargs.symm.trans hargs'
      cases hjson.symm.trans hjson'
      cases (Listing.objectsOf_eq_ok_iff.mpr hholds).symm.trans
        (Listing.objectsOf_eq_ok_iff.mpr hholds')
      cases hfields.symm.trans hfields'
      exact tour_unique htour htour'

theorem ending_of_listing {lines : List Text} (hargs : Options.ofArguments arguments = .ok o)
    (hjson : jsonText w o = .ok json) (hcontrol : controlOf o = .ok c)
    (hrun : (Listing.run (rulesOf s.defaults o c) (requestOf o json)).outcome = .ok lines) :
    (ofArguments s w arguments).1.ending = .exit 0 := by
  rw [ofArguments_eq_list hargs hjson hcontrol]
  exact (list_of_ok (s := s.showAll) hrun).2

/-- A run that has a listing visits objects, and its listing gives the notices of their tour. -/
theorem exists_tours {ceiling : Ceiling} {lines : List Text}
    (hargs : Options.ofArguments arguments = .ok o) (hjson : jsonText w o = .ok json)
    (hrun : (Listing.run ⟨ceiling, false, false⟩ (requestOf o json)).outcome = .ok lines) :
    ∃ visited, Tours w arguments visited ∧
      (Listing.run ⟨ceiling, false, false⟩ (requestOf o json)).notices =
        (idleNames visited).map .ignoredComponents := by
  obtain ⟨objects, fields, hholds, hfields, visited, htour, hnotices⟩ :=
    Listing.tourGives_run hrun
  exact ⟨visited, .listed hargs hjson hholds hfields htour, hnotices⟩

/-- A listing hears its notices under its own control, with nothing shown before. -/
theorem shown_list :
    (list s o c json).1.shown =
      ((s.enter.filter.apply c).hearAll .parser
        ((Listing.run (rulesOf s.defaults o c) (requestOf o json)).notices.map
          Notice.report)).1 := by
  unfold list
  dsimp only
  rw [rules_inside, ← requestOf]
  cases (Listing.run (rulesOf s.defaults o c) (requestOf o json)).outcome <;> rfl

/-- The rules that the program makes where no option and no default asks for others. -/
theorem rulesOf_lenient (hstrict : (settings o).isStrict s.defaults = false) :
    rulesOf s.defaults o .default = ⟨(settings o).ceiling s.defaults, false, false⟩ := by
  rw [rulesOf, hstrict]
  rfl

/-- **Of the components without effect that a lenient listing comes to, the first with each name is
reported.** -/
theorem exists_tours_shown {lines : List Text} (hargs : Options.ofArguments arguments = .ok o)
    (hjson : jsonText w o = .ok json) (hcontrol : controlOf o = .ok .default)
    (hstrict : (settings o).isStrict s.defaults = false)
    (hrun : (Listing.run (rulesOf s.defaults o .default) (requestOf o json)).outcome =
      .ok lines) :
    ∃ visited, Tours w arguments visited ∧
      (ofArguments s w arguments).1.shown = (idleNames visited).eraseDups.map idleReport := by
  have hdefaults : s.showAll.defaults = s.defaults := rfl
  rw [rulesOf_lenient hstrict] at hrun
  obtain ⟨visited, htours, hnotices⟩ := exists_tours hargs hjson hrun
  refine ⟨visited, htours, ?_⟩
  rw [ofArguments_eq_list hargs hjson hcontrol, shown_list, hdefaults, rulesOf_lenient hstrict,
    hnotices, List.map_map]
  exact NoticeFilter.hearAll_apply_default ..

/-- A lenient run that has a listing ends well, and visits the objects of which the listing gives
notices. -/
theorem visits_of_lenient {lines names : List Text} (hargs : Options.ofArguments arguments = .ok o)
    (hcontrol : o.control = .absent) (hstrict : (settings o).isStrict s.defaults = false)
    (hjson : jsonText w o = .ok json)
    (hrun : (Listing.run ⟨(settings o).ceiling s.defaults, false, false⟩
      (requestOf o json)).outcome = .ok lines)
    (hnotices : (Listing.run ⟨(settings o).ceiling s.defaults, false, false⟩
      (requestOf o json)).notices = names.map .ignoredComponents) :
    IsLenient s.defaults arguments ∧ (ofArguments s w arguments).1.ending = .exit 0 ∧
      ∃ visited, Tours w arguments visited ∧ idleNames visited = names := by
  have hdefault : controlOf o = .ok .default := by rw [controlOf, hcontrol]
  obtain ⟨visited, htours, hgives⟩ := exists_tours hargs hjson hrun
  refine ⟨isLenient_of_ofArguments hargs hcontrol hstrict, ?_, visited, htours, ?_⟩
  · rw [← rulesOf_lenient hstrict] at hrun
    exact ending_of_listing hargs hjson hdefault hrun
  · exact ignoredComponents_map_inj.mp (hgives.symm.trans hnotices)

/-- A run that ends well has a listing, or was asked for something else and shows nothing. -/
theorem of_ending_eq_exit (h : (ofArguments s w arguments).1.ending = .exit 0) :
    ((Options.ofArguments arguments = .error .help ∨
          Options.ofArguments arguments = .error .version) ∧
        (ofArguments s w arguments).1.shown = []) ∨
      ∃ o json c lines, Options.ofArguments arguments = .ok o ∧ jsonText w o = .ok json ∧
        controlOf o = .ok c ∧
          (Listing.run (rulesOf s.defaults o c) (requestOf o json)).outcome = .ok lines := by
  unfold ofArguments at h ⊢
  cases hargs : Options.ofArguments arguments with
  | error stop =>
    rw [hargs] at h
    cases stop with
    | help => exact Or.inl ⟨Or.inl rfl, rfl⟩
    | version => exact Or.inl ⟨Or.inr rfl, rfl⟩
    | usage f => cases h
    | blankCeiling => cases h
  | ok o =>
    rw [hargs] at h
    dsimp only at h
    unfold ofOptions at h
    split at h
    · next json c hjson hcontrol =>
      refine Or.inr ⟨o, json, c, ?_⟩
      cases hrun : (Listing.run (rulesOf s.defaults o c) (requestOf o json)).outcome with
      | ok lines => exact ⟨lines, rfl, hjson, hcontrol, rfl⟩
      | error e =>
        rw [(list_of_error (s := s.showAll) hrun).2] at h
        cases h
    · cases h
    · cases h

end Run

/-- **Components without effect are reported once for each name of a type.**  A lenient run that
ends well visits its objects in one order only.  The reports that it shows are those of the objects
whose components have no effect, in that order, but only the first for each name of a type.  So
every such object has a report of its own exactly if no two of them have the same. -/
theorem idle_shown_once (s : Session) (w : Surroundings) (arguments : List Text)
    (hlenient : Run.IsLenient s.defaults arguments)
    (hexit : (Run.ofArguments s w arguments).1.ending = .exit 0) :
    ∃ visited, (∀ other, Run.Tours w arguments other ↔ other = visited) ∧
      (Run.ofArguments s w arguments).1.shown = (idleNames visited).eraseDups.map idleReport ∧
      ((Run.ofArguments s w arguments).1.shown = (idleNames visited).map idleReport ↔
        (idleNames visited).Nodup) := by
  obtain ⟨visited, htours, hshown⟩ : ∃ visited, Run.Tours w arguments visited ∧
      (Run.ofArguments s w arguments).1.shown = (idleNames visited).eraseDups.map idleReport := by
    rcases Run.of_ending_eq_exit hexit with
      ⟨hstop, hshown⟩ | ⟨o, json, c, lines, hargs, hjson, hcontrol, hrun⟩
    · exact ⟨[], .nothing hstop, hshown⟩
    · obtain ⟨habsent, hstrict⟩ := hlenient o hargs
      obtain rfl : c = .default := by
        rw [Run.controlOf, habsent] at hcontrol
        exact (Except.ok.inj hcontrol).symm
      exact Run.exists_tours_shown hargs hjson hcontrol hstrict hrun
  refine ⟨visited, fun other => ⟨fun h => Run.tours_unique h htours, ?_⟩, hshown, ?_⟩
  · rintro rfl
    exact htours
  · rw [hshown, idleReport_map_inj, eraseDups_eq_self_iff]

/-- Three objects have components without effect, the last two of them inside an array of tuples.
Two have the same type, so there are two reports. -/
theorem idle_shown_once_nested :
    let s := Session.start ⟨none, false, none⟩
    let outer : Text := "\x7b\"name\":\"a\",\"type\":\"bool\",\"components\":[]\x7d"
    let inner : Text := "\x7b\"type\":\"uint8\",\"components\":null\x7d," ++
      "\x7b\"type\":\"bool\",\"components\":[]\x7d"
    let before : Text := ",\x7b\"name\":\"b\",\"type\":\"tuple[]\",\"components\":["
    let input : Text := ("[" : Text) ++ outer ++ before ++ inner ++ ("]\x7d]" : Text)
    let w : Surroundings := ⟨input, fun _ => .error .missing, libraryVersion⟩
    let given : List Text := ["--json", "-", "-f", "selector"]
    Run.IsLenient s.defaults given ∧ (Run.ofArguments s w given).1.ending = .exit 0 ∧
      ∃ visited, Run.Tours w given visited ∧ idleNames visited = ["bool", "uint8", "bool"] ∧
        (Run.ofArguments s w given).1.shown = ["bool", "uint8"].map idleReport := by
  intro s outer inner before input w given
  let o : Options := ⟨[], .value "-", true, .selector, false, .absent, .absent, .absent⟩
  let rules : Rules := ⟨.unlimited, false, false⟩
  have hgiven : Options.ofArguments given = .ok o :=
    Outcome.toOption_eq_some_iff.mp (by decide +kernel)
  have hlines : (Listing.run rules (Run.requestOf o (some input))).outcome =
      .ok ["bool a", "(uint8,bool)[] b"] := Outcome.toOption_eq_some_iff.mp (by decide +kernel)
  have hnotices : (Listing.run rules (Run.requestOf o (some input))).notices =
      List.map .ignoredComponents [("bool" : Text), "uint8", "bool"] := by decide +kernel
  obtain ⟨hlenient, hexit, visited, htours, hnames⟩ :=
    Run.visits_of_lenient (s := s) (w := w) hgiven rfl rfl rfl hlines hnotices
  obtain ⟨visited', honly, hshown, -⟩ := idle_shown_once s w given hlenient hexit
  cases (honly visited).mp htours
  refine ⟨hlenient, hexit, visited, htours, hnames, ?_⟩
  rw [hshown, hnames]
  rfl

/-- Two objects of one type have components without effect, and the second has no report. -/
theorem not_all_shown_alike :
    let s := Session.start ⟨none, false, none⟩
    let input : Text := "[\x7b\"name\":\"a\",\"type\":\"bool\",\"components\":[]\x7d," ++
      "\x7b\"name\":\"b\",\"type\":\"bool\",\"components\":[]\x7d]"
    let w : Surroundings := ⟨input, fun _ => .error .missing, libraryVersion⟩
    let given : List Text := ["--json", "-"]
    Run.IsLenient s.defaults given ∧ (Run.ofArguments s w given).1.ending = .exit 0 ∧
      ∃ visited, Run.Tours w given visited ∧ idleNames visited = ["bool", "bool"] ∧
        (Run.ofArguments s w given).1.shown ≠ (idleNames visited).map idleReport := by
  intro s input w given
  let o : Options := ⟨[], .value "-", true, .full, false, .absent, .absent, .absent⟩
  let rules : Rules := ⟨.unlimited, false, false⟩
  have hgiven : Options.ofArguments given = .ok o :=
    Outcome.toOption_eq_some_iff.mp (by decide +kernel)
  have hlines : (Listing.run rules (Run.requestOf o (some input))).outcome =
      .ok ["EventParam(name='a', kind=ABI_Bool(), indexed=False)",
        "EventParam(name='b', kind=ABI_Bool(), indexed=False)"] :=
    Outcome.toOption_eq_some_iff.mp (by decide +kernel)
  have hnotices : (Listing.run rules (Run.requestOf o (some input))).notices =
      List.map .ignoredComponents [("bool" : Text), "bool"] := by decide +kernel
  obtain ⟨hlenient, hexit, visited, htours, hnames⟩ :=
    Run.visits_of_lenient (s := s) (w := w) hgiven rfl rfl rfl hlines hnotices
  refine ⟨hlenient, hexit, visited, htours, hnames, fun hall => ?_⟩
  have hone : (Run.ofArguments s w given).1.shown.length = 1 := by decide +kernel
  rw [hall, hnames] at hone
  cases hone

end ContractAbi
