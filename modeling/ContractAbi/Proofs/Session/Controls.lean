import ContractAbi.Proofs.Session.Activity

/-!
# The last control counts

Controls work on one list of rules, of which the first that covers a notice counts.  A control that
raises or drops clears the list, the default one does not, and every control puts its own rule in
front.  So an older rule never counts for the notices of this library as long as nothing else is put
in front of it (`Obeys`), whatever the list was.

A context brings back the list that it found.  That holds for all that can be done inside, since
every activity leaves the contexts open that it found open (`nests_run`), and then leaving the
context takes the right list off the stack.  The induction carries one thing more: an activity that
calls no control outside of contexts of its own leaves the rules as they are (`Activity.Steady`).
Both together are `last_control_counts`.
-/

namespace ContractAbi

/-! ## 1. Controls as values -/

namespace NoticeControl

/-- The value that names a control. -/
def toValue : NoticeControl → Value
  | .default => .null
  | .error => .text "error"
  | .none => .text "none"

/-- **No other value names it.** -/
theorem ofValue?_eq_some_iff {v : Value} {c : NoticeControl} :
    ofValue? v = some c ↔ v = c.toValue := by
  constructor
  · intro h
    unfold ofValue? at h
    split at h
    · cases h
      rfl
    · split at h
      · next t ht =>
        cases h
        rw [ht]
        rfl
      · split at h
        · next t _ ht =>
          cases h
          rw [ht]
          rfl
        · cases h
    · cases h
  · rintro rfl
    cases c <;> rfl

theorem ofValue?_eq_none_iff {v : Value} :
    ofValue? v = Option.none ↔ ∀ c : NoticeControl, v ≠ c.toValue := by
  rw [Option.eq_none_iff_forall_ne_some]
  exact forall_congr' fun c => not_congr ofValue?_eq_some_iff

end NoticeControl

/-! ## 2. Notices under a control -/

namespace NoticeFilter

/-- Only the rules count for what becomes of a notice. -/
theorem actionFor_congr {f g : NoticeFilter} (h : f.rules = g.rules) (subject : NoticeSubject) :
    f.actionFor subject = g.actionFor subject := by
  rw [actionFor, actionFor, h]

/-- Hearing a notice changes no rule. -/
@[simp] theorem rules_hear (f : NoticeFilter) (place : NoticePlace) (r : Report) :
    (f.hear place r).2.rules = f.rules := by
  unfold hear
  split
  · rfl
  · split <;> rfl

@[simp] theorem rules_hearAll (f : NoticeFilter) (place : NoticePlace) (rs : List Report) :
    (f.hearAll place rs).2.rules = f.rules := by
  induction rs generalizing f with
  | nil => rfl
  | cons r rs ih => exact (ih _).trans (rules_hear f place r)

/-- The rule of a control covers every notice of this library, so where it stands first no other
rule counts for them. -/
theorem actionFor_of_head {f : NoticeFilter} {c : NoticeControl} {subject : NoticeSubject}
    (hfirst : f.rules.head? = some c.rule) (h : subject.isOwn = true) :
    f.actionFor subject = c.action := by
  obtain ⟨rest, hrules⟩ := List.head?_eq_some_iff.mp hfirst
  have hcovers : c.rule.covers subject = true := h
  rw [actionFor, hrules, List.find?_cons]
  simp only [hcovers]
  rfl

/-- A control puts its rule there, whatever the rules were. -/
theorem head?_rules_apply (f : NoticeFilter) (c : NoticeControl) :
    (f.apply c).rules.head? = some c.rule := rfl

end NoticeFilter

namespace Session

variable {s t u : Session} {c : NoticeControl}

/-- `s.Obeys c`: every notice of this library is treated as the control says. -/
structure Obeys (s : Session) (c : NoticeControl) : Prop where
  /-- The rule of the control is the first. -/
  first : s.filter.rules.head? = some c.rule
  /-- The rules raise it, drop it, or show it by default. -/
  action : ∀ subject : NoticeSubject, subject.isOwn = true →
    s.filter.actionFor subject = c.action
  /-- The step of a caller that gives it fails by it if it is to be raised, and else succeeds. -/
  fault : ∀ r : Report, r.kind.isA .warning = true →
    (s.perform (.warn r)).fault = if c = .error then some (.raised r) else none
  /-- It is shown by default only, and then if it was not shown before. -/
  shown : ∀ r : Report, r.kind.isA .warning = true →
    (s.perform (.warn r)).shown =
      if c = .default ∧ s.filter.remembers .caller r = false then [r] else []
  /-- The parser ends by a notice of its own if it is to be raised. -/
  raises : ∀ n : Notice, s.rules.raiseNotices n = decide (c = .error)

/-- The first rule decides all the rest. -/
theorem obeys_of_first (hfirst : s.filter.rules.head? = some c.rule) : s.Obeys c := by
  have h : ∀ subject : NoticeSubject, subject.isOwn = true →
      s.filter.actionFor subject = c.action := fun _ => NoticeFilter.actionFor_of_head hfirst
  have hraises : ∀ (place : NoticePlace) (r : Report), r.kind.isA .warning = true →
      s.filter.raises place r = decide (c = .error) := by
    intro place r hr
    rw [NoticeFilter.raises, h (r.subject place) hr]
    cases c <;> rfl
  have hwarn : ∀ r : Report, r.kind.isA .warning = true → s.perform (.warn r) =
      if c = .error then s.fails (.raised r)
      else ⟨none, if c = .default ∧ s.filter.remembers .caller r = false then [r] else [],
        { s with filter := (s.filter.hear .caller r).2 }⟩ := by
    intro r hr
    rw [perform, warn, hr, hraises .caller r hr]
    cases c with
    | error => rfl
    | default | none =>
      cases hseen : s.filter.remembers .caller r <;>
        simp [NoticeFilter.hearAll, NoticeFilter.hear, hseen, h (r.subject .caller) hr,
          NoticeControl.action]
  refine ⟨hfirst, h, fun r hr => ?_, fun r hr => ?_, fun n => hraises .parser n.report ?_⟩
  · rw [hwarn r hr]
    split <;> rfl
  · rw [hwarn r hr]
    cases c <;> rfl
  · cases n
    rfl

/-- **A control that was just called is obeyed.** -/
theorem obeys_control (s : Session) (c : NoticeControl) : (s.control c).Obeys c :=
  obeys_of_first (NoticeFilter.head?_rules_apply s.filter c)

/-- A control is obeyed as long as the rules stay. -/
theorem Obeys.congr (h : s.Obeys c) (hrules : t.filter.rules = s.filter.rules) : t.Obeys c :=
  obeys_of_first (hrules ▸ h.first)

/-! ## 3. What a caller finds afterwards -/

/-- `s.Nests steady t`: from `s` to `t` the open contexts have stayed, with the rules that they
bring back, and if `steady` is true the rules have stayed, too. -/
structure Nests (s : Session) (steady : Prop) (t : Session) : Prop where
  contexts : t.contexts = s.contexts
  rules : steady → t.filter.rules = s.filter.rules

variable {p q : Prop}

theorem nests_refl (s : Session) (p : Prop) : s.Nests p s := ⟨rfl, fun _ => rfl⟩

theorem Nests.trans (h : s.Nests p t) (h' : t.Nests q u) : s.Nests (p ∧ q) u :=
  ⟨h'.contexts.trans h.contexts, fun hpq => (h'.rules hpq.2).trans (h.rules hpq.1)⟩

theorem Nests.mono (h : s.Nests p t) (hpq : q → p) : s.Nests q t :=
  ⟨h.contexts, fun hq => h.rules (hpq hq)⟩

/-- **A context brings back the rules that it found**, whatever became of them inside. -/
theorem Nests.context (h : s.enter.Nests p t) : s.Nests True t.leave := by
  have hcontexts : t.contexts = s.filter.rules :: s.contexts := h.contexts
  rw [leave, hcontexts]
  exact ⟨rfl, fun _ => rfl⟩

theorem nests_control (s : Session) (c : NoticeControl) : s.Nests False (s.control c) :=
  ⟨rfl, False.elim⟩

theorem nests_settle (s : Session) (notices : List Notice) : s.Nests True (s.settle notices).2 :=
  ⟨rfl, fun _ => NoticeFilter.rules_hearAll ..⟩

theorem nests_warn (s : Session) (r : Report) : s.Nests True (s.perform (.warn r)).after := by
  rw [perform, warn]
  split
  · exact nests_refl ..
  · split
    · exact nests_refl ..
    · exact ⟨rfl, fun _ => NoticeFilter.rules_hearAll ..⟩

/-! ### Settings -/

theorem nests_settingStep {r : Except Settings.Fault Session}
    (h : ∀ t, r = .ok t → s.Nests True t) :
    s.Nests True (s.settingStep r).after := by
  rcases settingStep_cases s r with ⟨t, ht, hstep⟩ | ⟨f, -, hstep⟩
  · rw [hstep]
    exact h t ht
  · rw [hstep]
    exact nests_refl ..

theorem nests_set (s : Session) (source : SettingsSource) :
    s.Nests True (s.perform (.set source)).after := by
  refine nests_settingStep fun t ht => ?_
  obtain ⟨r, -, rfl⟩ := Outcome.map_eq_ok_iff.mp ht
  exact ⟨rfl, fun _ => rfl⟩

theorem nests_release (s : Session) : s.Nests True s.release := by
  unfold release
  split <;> exact ⟨rfl, fun _ => rfl⟩

/-- An anchor does not count for the rules inside. -/
theorem Nests.anchored {r : Registry} (h : (s.anchored r).Nests p t) : s.Nests p t.release :=
  ((Nests.mk rfl fun _ => rfl : s.Nests True (s.anchored r)).trans
    (h.trans (nests_release t))).mono fun hp => ⟨trivial, hp, trivial⟩

/-! ### Calls -/

section

variable {α : Type} {call : Session → α × Session}

theorem nests_underControl (hcall : ∀ t : Session, t.Nests True (call t).2) (s : Session)
    (v : Option Value) : s.Nests True (s.underControl v call).2 := by
  unfold underControl
  split
  · exact hcall s
  · split
    · exact (nests_refl s.enter True).context
    · exact ((nests_control s.enter _).trans (hcall _)).context

/-- **A call under a control of its own brings back the rules of the caller.** -/
theorem nests_under (hcall : ∀ t : Session, t.Nests True (call t).2) (s : Session)
    (source : Option SettingsSource) (v : Option Value) :
    s.Nests True (s.under source v call).2 := by
  unfold under
  split
  · exact nests_underControl hcall s v
  · split
    · exact nests_refl ..
    · next hanchor =>
      obtain ⟨r, -, rfl⟩ := anchor_eq_ok hanchor
      exact (nests_underControl hcall (s.anchored r) v).anchored

end

theorem nests_list (s : Session) (o : Options) (c : NoticeControl) (json : Option Text) :
    s.Nests True (Run.list s o c json).2 := by
  have hafter : ∀ notices, s.Nests True
      ((((s.enter.control c).anchored (s.registry.install (Run.settings o))).settle
        notices).2.release.leave) :=
    fun notices => ((nests_control s.enter c).trans (nests_settle _ notices).anchored).context
  unfold Run.list
  dsimp only
  split <;> exact hafter _

/-- A run of the program shows everything from then on, in the context in which it is called. -/
theorem nests_ofArguments (s : Session) (w : Surroundings) (arguments : List Text) :
    s.Nests False (Run.ofArguments s w arguments).2 := by
  have hshow : s.Nests False s.showAll := ⟨rfl, False.elim⟩
  have hlist : ∀ o c json, s.Nests False (Run.list s.showAll o c json).2 := fun o c json =>
    (hshow.trans (nests_list s.showAll o c json)).mono False.elim
  unfold Run.ofArguments
  dsimp only
  split
  · exact hshow
  · exact hshow
  · exact hshow
  · exact hshow
  · unfold Run.ofOptions
    split
    · exact hlist _ _ _
    · exact hshow
    · exact hshow

end Session

/-! ## 4. Activities -/

namespace Activity

open Session

/-- Whether an activity leaves the rules alone, but for what it does inside of contexts: it calls no
control that is one, and it does not run the program, which shows everything from then on. -/
def Steady : Activity → Prop
  | .control v => ∀ c : NoticeControl, v ≠ c.toValue
  | .program _ _ => False
  | .seq a b => a.Steady ∧ b.Steady
  | .anchored _ body | .caught body => body.Steady
  | _ => True

/-- A control that is none changes nothing. -/
theorem nests_control_step (s : Session) (v : Value) :
    s.Nests (∀ c : NoticeControl, v ≠ c.toValue) (s.perform (.control v)).after := by
  rw [perform]
  cases hv : NoticeControl.ofValue? v with
  | none => exact nests_refl ..
  | some c =>
    exact (nests_control s c).mono fun h => h c (NoticeControl.ofValue?_eq_some_iff.mp hv)

theorem nests_run_parse (s : Session) (source : Option SettingsSource) (v : Option Value)
    (call : Rules → Parse Unit) : s.Nests True ((parse source v call).run s).after := by
  have hcall : ∀ t : Session, t.Nests True (t.parse call).2 := fun t => nests_settle t _
  have hunder := nests_under hcall s source v
  rw [run]
  dsimp only
  split <;> exact hunder

theorem nests_run_program (s : Session) (w : Surroundings) (arguments : List Text) :
    s.Nests False ((program w arguments).run s).after := by
  have hprogram := nests_ofArguments s w arguments
  rw [run]
  dsimp only
  split <;> exact hprogram

theorem nests_run_anchored {body : Activity} {p : Prop}
    (hbody : ∀ t : Session, t.Nests p (body.run t).after) (s : Session) (source : SettingsSource) :
    s.Nests p ((anchored source body).run s).after := by
  rw [run, perform]
  rcases settingStep_cases s (s.anchor source) with ⟨t, ht, hstep⟩ | ⟨f, -, hstep⟩
  · obtain ⟨r, -, rfl⟩ := anchor_eq_ok ht
    rw [hstep]
    exact (hbody (s.anchored r)).anchored
  · rw [hstep]
    exact nests_refl ..

/-- **A block inside a context brings back the rules**, if what is done inside leaves the contexts
open that were: whether it comes to its end or is left early, the context is left. -/
theorem nests_run_filtered {body : Activity} {p : Prop}
    (hbody : ∀ t : Session, t.Nests p (body.run t).after) (s : Session) (v : Value) :
    s.Nests True ((filtered v body).run s).after := by
  rw [run, perform]
  cases NoticeControl.ofValue? v with
  | some c => exact ((nests_control s.enter c).trans (hbody _)).context
  | none => exact (nests_refl s.enter True).context

/-- **Every activity leaves the contexts open that were, and a steady one leaves the rules alone.**
The induction is on the activity. -/
theorem nests_run (a : Activity) (s : Session) : s.Nests a.Steady (a.run s).after := by
  induction a generalizing s with
  | skip => exact nests_refl ..
  | seq a b iha ihb =>
    rw [run]
    dsimp only
    split
    · exact (iha s).mono And.left
    · exact (iha s).trans (ihb _)
  | set source => exact nests_set s source
  | change f => exact ⟨rfl, fun _ => rfl⟩
  | control v => exact nests_control_step s v
  | warn r => exact nests_warn s r
  | parse source v call => exact nests_run_parse s source v call
  | program w arguments => exact nests_run_program s w arguments
  | fail t => exact nests_refl ..
  | anchored source body ih => exact nests_run_anchored ih s source
  | filtered v body ih => exact nests_run_filtered ih s v
  | caught body ih => exact ih s

end Activity

/-! ## 5. The last control -/

open Session

/-- `s.SameTreatment t`: the rules are the same, and so is what becomes of every notice, of this
library or of another. -/
structure Session.SameTreatment (s t : Session) : Prop where
  rules : t.filter.rules = s.filter.rules
  action : ∀ subject, t.filter.actionFor subject = s.filter.actionFor subject

theorem Session.Nests.sameTreatment {s t : Session} (h : s.Nests True t) : s.SameTreatment t :=
  ⟨h.rules trivial, NoticeFilter.actionFor_congr (h.rules trivial)⟩

/-- **The last control counts, and a context brings the one before back.**  Whatever the rules were,
a control that was called is obeyed until another one is called in the same context, and so is one
that a context was entered with.  When a context is left, be it early or at its end, every notice is
treated as it was before, whatever was done inside.  A value that is no control is refused, by the
call and by the context, and changes no treatment. -/
theorem last_control_counts (s : Session) :
    (∀ (c : NoticeControl) (rest : Activity), rest.Steady →
        (s.perform (.control c.toValue)).fault = none ∧
        ((Activity.seq (.control c.toValue) rest).run s).after.Obeys c ∧
        (s.perform (.enter c.toValue)).fault = none ∧
        (rest.run (s.perform (.enter c.toValue)).after).after.Obeys c) ∧
      (∀ v body, s.SameTreatment ((Activity.filtered v body).run s).after) ∧
      ∀ v, (∀ c : NoticeControl, v ≠ c.toValue) →
        ((Activity.control v).run s).raised = some (.step .control) ∧
        s.SameTreatment ((Activity.control v).run s).after ∧
        ∀ body, ((Activity.filtered v body).run s).raised = some (.step .control) := by
  refine ⟨fun c rest hrest => ?_, fun v body => ?_, fun v hv => ?_⟩
  · have hnamed : NoticeControl.ofValue? c.toValue = some c :=
      NoticeControl.ofValue?_eq_some_iff.mpr rfl
    have hcall : s.perform (.control c.toValue) = (s.control c).done := by rw [perform, hnamed]
    have henter : s.perform (.enter c.toValue) = (s.enter.control c).done := by
      rw [perform, hnamed]
    have hseq : ((Activity.seq (.control c.toValue) rest).run s).after =
        (rest.run (s.control c)).after := by
      simp only [Activity.run, hcall]
      rfl
    rw [hcall, henter, hseq]
    exact ⟨rfl, (obeys_control s c).congr ((rest.nests_run _).rules hrest), rfl,
      (obeys_control s.enter c).congr ((rest.nests_run _).rules hrest)⟩
  · exact (Activity.nests_run (.filtered v body) s).sameTreatment
  · have hnone := NoticeControl.ofValue?_eq_none_iff.mpr hv
    refine ⟨?_, ((Activity.nests_run (.control v) s).mono fun _ => hv).sameTreatment,
      fun body => ?_⟩
    · rw [Activity.run, perform, hnone]
      rfl
    · rw [Activity.run, perform, hnone]
      rfl

/-- Under rules of the caller's own, of which one covers a notice by what it says and the other by
where it is given, notices are made to be raised.  Behind that a context is entered to drop them, in
which the default is called for, and the context is left early; then a value that is no control is
refused.  They are still to be raised. -/
theorem last_control_counts_nested :
    let said : NoticeSubject := ⟨.report .ignoredComponents, "loud", .parser⟩
    let other : NoticeSubject := ⟨.foreign "a", "b", .caller⟩
    let rules : List NoticeRule :=
      [⟨(·.text = ("loud" : Text)), .once .text⟩, ⟨(·.place = .caller), .raise⟩]
    let s : Session := { Session.start ⟨none, false, none⟩ with filter := .ofRules rules }
    let body : Activity := .seq (.control .null) (.fail "inside")
    let rest : Activity := .seq (.caught (.filtered (.text "none") body))
      (.caught (.control (.text "loud")))
    let after := ((Activity.seq (.control (.text "error")) rest).run s).after
    let block := ((Activity.filtered (.text "error") rest).run s).after
    rest.Steady ∧ after.Obeys .error ∧ block.filter.actionFor said = .once .text ∧
      block.filter.actionFor other = .raise ∧
      ((Activity.control (.text "loud")).run after).raised = some (.step .control) := by
  intro said other rules s body rest after block
  have hloud : ∀ c : NoticeControl, Value.text "loud" ≠ c.toValue :=
    NoticeControl.ofValue?_eq_none_iff.mp (by decide)
  have hrest : rest.Steady := ⟨trivial, hloud⟩
  obtain ⟨hobeys, hblock, -⟩ := last_control_counts s
  have hsame := hblock (.text "error") rest
  refine ⟨hrest, (hobeys .error rest hrest).2.1, ?_, ?_,
    ((last_control_counts after).2.2 _ hloud).1⟩
  · exact (hsame.action said).trans (by decide +kernel)
  · exact (hsame.action other).trans (by decide +kernel)

end ContractAbi
