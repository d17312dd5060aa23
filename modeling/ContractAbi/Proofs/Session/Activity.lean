import ContractAbi.CommandLine.Run
import ContractAbi.Proofs.Outcome
import ContractAbi.Session.Step

/-!
# Activities

A caller does not drive a session by single steps alone.  It runs something inside an anchor or
inside a context, and the block is left when that is over, be it because it came to its end or
because something in it failed; what is left early leaves all blocks around it, up to one that
catches failures.  An `Activity` is what a caller does in this sense, and `Activity.run` does it,
every single thing by the step or the call that there is for it.

What lasts is then a matter of frames.  `Session.Keeps` says what every activity leaves as it was
(`Activity.keeps_run`): anchors are released as they were entered, and settings objects stay what
they are, but for those that are changed while they are global.  Whoever brings settings of its own
leaves the global settings as they were, too: `Session.Restores`.
-/

namespace ContractAbi

/-! ## 1. Activities -/

/-- Why an activity is left before its end. -/
inductive Raised where
  /-- A step failed, or the caller of its own accord. -/
  | step (f : StepFault)
  /-- A parser failed. -/
  | parse (f : Failure)
  /-- A run of the program did not return. -/
  | program (e : Ending)

/-- What a caller does with a session. -/
inductive Activity where
  | skip
  /-- One thing, and then another unless the first was left early. -/
  | seq (a b : Activity)
  /-- Makes settings global, or none. -/
  | set (source : SettingsSource)
  /-- Changes the settings that are global, unchecked. -/
  | change (f : Settings → Settings)
  /-- Puts the filter under the control that a value names. -/
  | control (v : Value)
  /-- Gives a notice. -/
  | warn (r : Report)
  /-- Calls a parser, under settings and a control of its own if the call has them. -/
  | parse (source : Option SettingsSource) (v : Option Value) (call : Rules → Parse Unit)
  /-- Runs the program. -/
  | program (w : Surroundings) (arguments : List Text)
  /-- Fails. -/
  | fail (t : Text)
  /-- Something inside an anchor. -/
  | anchored (source : SettingsSource) (body : Activity)
  /-- Something inside a context. -/
  | filtered (v : Value) (body : Activity)
  /-- Something of which no failure gets out. -/
  | caught (body : Activity)

/-- What an activity comes to. -/
structure Activity.Result where
  /-- Why it was left early, if it was. -/
  raised : Option Raised
  /-- What lasts. -/
  after : Session
  /-- The handles of the settings that were changed. -/
  changed : List Nat

/-- What a parser comes to in a session: its failure, if it has one, and what lasts. -/
def Session.parse (s : Session) (call : Rules → Parse Unit) : Option Failure × Session :=
  let p := call s.rules
  let failure :=
    match p.outcome with
    | .ok _ => none
    | .error e => some e
  (failure, (s.settle p.notices).2)

namespace Activity

/-- What a single step comes to. -/
def Result.ofStepped (r : Stepped) : Result := ⟨r.fault.map .step, r.after, []⟩

/-- Does what an activity says. -/
def run : Activity → Session → Result
  | .skip, s => ⟨none, s, []⟩
  | .seq a b, s =>
    let r := a.run s
    match r.raised with
    | some _ => r
    | none =>
      let r' := b.run r.after
      { r' with changed := r.changed ++ r'.changed }
  | .set source, s => .ofStepped (s.perform (.set source))
  | .change f, s =>
    { Result.ofStepped (s.perform (.change f)) with changed := s.registry.global.toList }
  | .control v, s => .ofStepped (s.perform (.control v))
  | .warn r, s => .ofStepped (s.perform (.warn r))
  | .parse source v call, s =>
    let (r, after) := s.under source v fun s => s.parse call
    match r with
    | .ok failure => ⟨failure.map .parse, after, []⟩
    | .error f => ⟨some (.step f), after, []⟩
  | .program w arguments, s =>
    let (r, after) := Run.ofArguments s w arguments
    -- Only a run that got its options returns; help, for one, is an exit of its own.
    match Options.ofArguments arguments, r.ending with
    | .ok _, .exit _ => ⟨none, after, []⟩
    | _, e => ⟨some (.program e), after, []⟩
  | .fail t, s => ⟨some (.step (.failed t)), s, []⟩
  | .anchored source body, s =>
    let entered := s.perform (.anchor source)
    match entered.fault with
    | some f => ⟨some (.step f), entered.after, []⟩
    | none =>
      let r := body.run entered.after
      { r with after := r.after.release }
  | .filtered v body, s =>
    let entered := s.perform (.enter v)
    match entered.fault with
    | some f => ⟨some (.step f), entered.after, []⟩
    | none =>
      let r := body.run entered.after
      { r with after := r.after.leave }
  | .caught body, s => { body.run s with raised := none }

end Activity

/-! ## 2. What lasts -/

/-- What is global is one of the settings objects, if anything is. -/
def Registry.Known (r : Registry) : Prop := ∀ h, r.global = some h → h < r.next

namespace Session

/-- `s.Keeps changed t`: from `s` to `t` the defaults and the open anchors have stayed, and so have
all settings objects but those with the handles `changed`.  There may be more of them. -/
structure Keeps (s : Session) (changed : List Nat) (t : Session) : Prop where
  defaults : t.defaults = s.defaults
  anchors : t.anchors = s.anchors
  grows : s.registry.next ≤ t.registry.next
  objects : ∀ h x, s.registry.objects[h]? = some x → h ∉ changed →
    t.registry.objects[h]? = some x
  known : s.registry.Known → t.registry.Known

/-- `s.Restores changed t`: besides, the same settings are global. -/
structure Restores (s : Session) (changed : List Nat) (t : Session) : Prop
    extends s.Keeps changed t where
  global : t.registry.global = s.registry.global

variable {s t u : Session} {changed changed' : List Nat}

theorem Keeps.trans (h : s.Keeps changed t) (h' : t.Keeps changed' u) :
    s.Keeps (changed ++ changed') u where
  defaults := h'.defaults.trans h.defaults
  anchors := h'.anchors.trans h.anchors
  grows := Nat.le_trans h.grows h'.grows
  objects := by
    intro i x hx hnot
    rw [List.mem_append, not_or] at hnot
    exact h'.objects i x (h.objects i x hx hnot.1) hnot.2
  known := fun hknown => h'.known (h.known hknown)

theorem Restores.trans (h : s.Restores changed t) (h' : t.Restores changed' u) :
    s.Restores (changed ++ changed') u :=
  ⟨h.toKeeps.trans h'.toKeeps, h'.global.trans h.global⟩

/-- Where only the filter is another, all is restored. -/
theorem restores_of_eq (hdefaults : t.defaults = s.defaults) (hanchors : t.anchors = s.anchors)
    (hregistry : t.registry = s.registry) : s.Restores changed t := by
  obtain ⟨_, _, _, _, _⟩ := t
  subst hdefaults hanchors hregistry
  exact ⟨⟨rfl, rfl, Nat.le_refl _, fun _ _ hx _ => hx, id⟩, rfl⟩

theorem restores_refl (s : Session) (changed : List Nat) : s.Restores changed s :=
  restores_of_eq rfl rfl rfl

/-! ### Contexts -/

@[simp] theorem registry_leave (s : Session) : s.leave.registry = s.registry := by
  unfold leave
  split <;> rfl

@[simp] theorem anchors_leave (s : Session) : s.leave.anchors = s.anchors := by
  unfold leave
  split <;> rfl

@[simp] theorem defaults_leave (s : Session) : s.leave.defaults = s.defaults := by
  unfold leave
  split <;> rfl

theorem restores_leave (s : Session) (changed : List Nat) : s.Restores changed s.leave :=
  restores_of_eq (defaults_leave s) (anchors_leave s) (registry_leave s)

theorem restores_enter (s : Session) (c : NoticeControl) (changed : List Nat) :
    s.Restores changed (s.enter.control c) :=
  restores_of_eq rfl rfl rfl

theorem restores_enter_leave (s : Session) (changed : List Nat) :
    s.Restores changed s.enter.leave :=
  restores_of_eq (defaults_leave s.enter) (anchors_leave s.enter) (registry_leave s.enter)

/-- A context does not count for what is kept inside. -/
theorem Keeps.context {c : NoticeControl} (h : (s.enter.control c).Keeps changed t) :
    s.Keeps changed t.leave := by
  have hkeeps := ((restores_enter s c []).toKeeps.trans h).trans (restores_leave t []).toKeeps
  rwa [List.nil_append, List.append_nil] at hkeeps

theorem Restores.context {c : NoticeControl} (h : (s.enter.control c).Restores changed t) :
    s.Restores changed t.leave := by
  have hrestores := ((restores_enter s c []).trans h).trans (restores_leave t [])
  rwa [List.nil_append, List.append_nil] at hrestores

/-! ### Anchors -/

/-- `r.Grows r'`: the objects of `r` are in `r'`, perhaps with more behind them, and what is global
there is one of them. -/
structure Grows (r r' : Registry) : Prop where
  objects : r.objects <+: r'.objects
  known : r.Known → r'.Known

theorem known_select_none (r : Registry) : (r.select none).Known := nofun

theorem known_select {r : Registry} {h : Nat} (hlt : h < r.next) : (r.select (some h)).Known := by
  intro i hi
  rw [← Option.some.inj hi]
  exact hlt

theorem grows_install (r : Registry) (x : Settings) : Grows r (r.install x) := by
  refine ⟨List.prefix_append _ _, fun _ => known_select ?_⟩
  simp [Registry.next, Registry.add]

/-- What a caller hands over is global in a registry that has all objects that were there. -/
theorem grows_of_settled {source : SettingsSource} {r : Registry}
    (h : s.settled source = .ok r) : Grows s.registry r := by
  unfold settled at h
  split at h
  · cases h
    exact ⟨List.prefix_rfl, fun _ => known_select_none _⟩
  · next args =>
    obtain ⟨x, -, rfl⟩ := Outcome.map_eq_ok_iff.mp h
    exact grows_install s.registry x
  · split at h
    · next hlt =>
      cases h
      exact ⟨List.prefix_rfl, fun _ => known_select hlt⟩
    · cases h
  · cases h

theorem Grows.getElem? {r r' : Registry} (h : Grows r r') {i : Nat} {x : Settings}
    (hx : r.objects[i]? = some x) : r'.objects[i]? = some x := by
  obtain ⟨more, hmore⟩ := h.objects
  obtain ⟨hi, -⟩ := List.getElem?_eq_some_iff.mp hx
  rw [← hmore, List.getElem?_append_left hi, hx]

/-- **An anchor that is released restores what was global**, whatever was done inside. -/
theorem Keeps.release {r : Registry} (hr : Grows s.registry r)
    (h : (s.anchored r).Keeps changed t) : s.Restores changed t.release := by
  have hanchors : t.anchors = s.registry.global :: s.anchors := h.anchors
  have hnext : s.registry.next ≤ t.registry.next :=
    Nat.le_trans hr.objects.length_le h.grows
  have hrelease : t.release =
      { t with registry := t.registry.select s.registry.global, anchors := s.anchors } := by
    rw [Session.release, hanchors]
  rw [hrelease]
  refine ⟨⟨h.defaults, rfl, hnext, fun i x hx hnot => ?_, fun hknown i hi => ?_⟩, rfl⟩
  · exact h.objects i x (hr.getElem? hx) hnot
  · exact Nat.lt_of_lt_of_le (hknown i hi) hnext

theorem anchor_eq_ok {source : SettingsSource} (h : s.anchor source = .ok t) :
    ∃ r, s.settled source = .ok r ∧ t = s.anchored r := by
  unfold anchor at h
  split at h
  · cases h
  · obtain ⟨r, hr, rfl⟩ := Outcome.map_eq_ok_iff.mp h
    exact ⟨r, hr, rfl⟩

/-! ### Steps -/

/-- A step that may refuse settings is done, or leaves the session as it was. -/
theorem settingStep_cases (s : Session) (r : Except Settings.Fault Session) :
    (∃ t, r = .ok t ∧ s.settingStep r = t.done) ∨
      ∃ f, r = .error f ∧ s.settingStep r = s.fails (.settings f) := by
  cases r with
  | ok t => exact Or.inl ⟨t, rfl, rfl⟩
  | error f => exact Or.inr ⟨f, rfl, rfl⟩

theorem keeps_set (s : Session) (source : SettingsSource) :
    s.Keeps [] (s.perform (.set source)).after := by
  rw [perform]
  rcases settingStep_cases s (s.setGlobal source) with ⟨t, ht, hstep⟩ | ⟨f, -, hstep⟩
  · obtain ⟨r, hr, rfl⟩ := Outcome.map_eq_ok_iff.mp ht
    have hgrows := grows_of_settled hr
    rw [hstep]
    exact ⟨rfl, rfl, hgrows.objects.length_le, fun _ _ hx _ => hgrows.getElem? hx, hgrows.known⟩
  · rw [hstep]
    exact (restores_refl s []).toKeeps

/-- Only the settings that are global are changed. -/
theorem keeps_change (s : Session) (f : Settings → Settings) :
    s.Keeps s.registry.global.toList (s.perform (.change f)).after := by
  have hafter : (s.perform (.change f)).after = { s with registry := s.registry.change f } := rfl
  rw [hafter, Registry.change]
  cases hglobal : s.registry.global with
  | none => exact (restores_refl s []).toKeeps
  | some h =>
    refine ⟨rfl, rfl, ?_, fun i x hx hnot => ?_, fun hknown i hi => ?_⟩
    · simp [Registry.next]
    · rw [Option.toList_some, List.mem_singleton] at hnot
      dsimp only
      rw [List.getElem?_modify, hx]
      simp [Ne.symm hnot]
    · have hlt := hknown i (hglobal.trans hi)
      simpa [Registry.next] using hlt

theorem restores_control (s : Session) (v : Value) (changed : List Nat) :
    s.Restores changed (s.perform (.control v)).after := by
  rw [perform]
  split <;> exact restores_of_eq rfl rfl rfl

theorem restores_warn (s : Session) (r : Report) (changed : List Nat) :
    s.Restores changed (s.perform (.warn r)).after := by
  rw [perform, warn]
  split
  · exact restores_refl s changed
  · split <;> exact restores_of_eq rfl rfl rfl

/-! ### Calls -/

theorem restores_settle (s : Session) (notices : List Notice) (changed : List Nat) :
    s.Restores changed (s.settle notices).2 :=
  restores_of_eq rfl rfl rfl

/-- A parser leaves the settings as they were, however it ends. -/
theorem restores_parse (s : Session) (call : Rules → Parse Unit) (changed : List Nat) :
    s.Restores changed (s.parse call).2 :=
  restores_settle s _ changed

section

variable {α : Type} {call : Session → α × Session}

theorem restores_underControl (hcall : ∀ t : Session, t.Restores changed (call t).2) (s : Session)
    (v : Option Value) : s.Restores changed (s.underControl v call).2 := by
  unfold underControl
  split
  · exact hcall s
  · split
    · exact restores_enter_leave s changed
    · exact (hcall _).context

/-- **A call under settings of its own restores those of the caller.** -/
theorem restores_under (hcall : ∀ t : Session, t.Restores changed (call t).2) (s : Session)
    (source : Option SettingsSource) (v : Option Value) :
    s.Restores changed (s.under source v call).2 := by
  unfold under
  split
  · exact restores_underControl hcall s v
  · split
    · exact restores_refl s changed
    · next hanchor =>
      obtain ⟨r, hr, rfl⟩ := anchor_eq_ok hanchor
      exact (restores_underControl hcall (s.anchored r) v).toKeeps.release (grows_of_settled hr)

end

/-- The listing of a run stands in an anchor inside of a context. -/
theorem restores_list (s : Session) (o : Options) (c : NoticeControl) (json : Option Text) :
    s.Restores [] (Run.list s o c json).2 := by
  have hinstall : Grows (s.enter.control c).registry (s.registry.install (Run.settings o)) :=
    grows_install s.registry (Run.settings o)
  have hafter : ∀ notices, s.Restores []
      ((((s.enter.control c).anchored (s.registry.install (Run.settings o))).settle
        notices).2.release.leave) :=
    fun notices => ((restores_settle _ notices []).toKeeps.release hinstall).context
  unfold Run.list
  dsimp only
  split <;> exact hafter _

/-- **A run of the program restores the settings of the caller**, whatever it comes to. -/
theorem restores_ofArguments (s : Session) (w : Surroundings) (arguments : List Text) :
    s.Restores [] (Run.ofArguments s w arguments).2 := by
  have hshow : s.Restores [] s.showAll := restores_of_eq rfl rfl rfl
  have hlist : ∀ o c json, s.Restores [] (Run.list s.showAll o c json).2 := by
    intro o c json
    exact hshow.trans (restores_list s.showAll o c json)
  unfold Run.ofArguments
  dsimp only
  split
  · exact hshow
  · exact hshow
  · exact hshow
  · exact hshow
  · unfold Run.ofOptions
    split
    · exact hlist _ _ _
    · exact hshow
    · exact hshow

end Session

/-! ## 3. Every activity -/

namespace Activity

open Session

/-- A call restores the settings, under settings of its own or not. -/
theorem restores_run_parse (s : Session) (source : Option SettingsSource) (v : Option Value)
    (call : Rules → Parse Unit) :
    s.Restores ((parse source v call).run s).changed ((parse source v call).run s).after := by
  have hcall : ∀ t : Session, t.Restores [] (t.parse call).2 :=
    fun t => restores_parse t call []
  have hunder := restores_under hcall s source v
  rw [run]
  dsimp only
  split <;> exact hunder

theorem restores_run_program (s : Session) (w : Surroundings) (arguments : List Text) :
    s.Restores ((program w arguments).run s).changed ((program w arguments).run s).after := by
  have hprogram := restores_ofArguments s w arguments
  rw [run]
  dsimp only
  split <;> exact hprogram

/-- **A block inside an anchor restores the settings**, if what is done inside keeps what lasts:
whether it comes to its end or is left early, the anchor is released. -/
theorem restores_run_anchored {body : Activity}
    (hbody : ∀ t : Session, t.Keeps (body.run t).changed (body.run t).after) (s : Session)
    (source : SettingsSource) :
    s.Restores ((anchored source body).run s).changed ((anchored source body).run s).after := by
  rw [run, perform]
  rcases settingStep_cases s (s.anchor source) with ⟨t, ht, hstep⟩ | ⟨f, -, hstep⟩
  · obtain ⟨r, hr, rfl⟩ := anchor_eq_ok ht
    rw [hstep]
    exact (hbody (s.anchored r)).release (grows_of_settled hr)
  · rw [hstep]
    exact restores_refl s []

/-- A block inside a context keeps what is kept inside. -/
theorem keeps_run_filtered {body : Activity}
    (hbody : ∀ t : Session, t.Keeps (body.run t).changed (body.run t).after) (s : Session)
    (v : Value) : s.Keeps ((filtered v body).run s).changed ((filtered v body).run s).after := by
  rw [run, perform]
  cases NoticeControl.ofValue? v with
  | some c => exact (hbody (s.enter.control c)).context
  | none => exact (restores_enter_leave s []).toKeeps

/-- **Every activity keeps what lasts.**  The induction is on the activity. -/
theorem keeps_run (a : Activity) (s : Session) : s.Keeps (a.run s).changed (a.run s).after := by
  induction a generalizing s with
  | skip => exact (restores_refl s []).toKeeps
  | seq a b iha ihb =>
    rw [run]
    dsimp only
    split
    · exact iha s
    · exact (iha s).trans (ihb _)
  | set source => exact keeps_set s source
  | change f => exact keeps_change s f
  | control v => exact (restores_control s v []).toKeeps
  | warn r => exact (restores_warn s r []).toKeeps
  | parse source v call => exact (restores_run_parse s source v call).toKeeps
  | program w arguments => exact (restores_run_program s w arguments).toKeeps
  | fail t => exact (restores_refl s []).toKeeps
  | anchored source body ih => exact (restores_run_anchored ih s source).toKeeps
  | filtered v body ih => exact keeps_run_filtered ih s v
  | caught body ih => exact ih s

end Activity

end ContractAbi
