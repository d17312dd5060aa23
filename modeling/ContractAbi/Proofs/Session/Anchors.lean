import ContractAbi.Proofs.Listing
import ContractAbi.Proofs.Session.Activity

/-!
# Anchored settings never leak

Settings that an anchor puts in place are in force inside of it, with the defaults of the
environment for what they leave open, and no option is taken from the settings around them
(`anchor_of_given`).  When the anchor is released, the settings from before are global again, and
they have the options that they had, unless they were made global inside and changed there
(`Restores.sameSettings`).  Settings that are refused change nothing at all.

All of this rests on `Activity.keeps_run`, so that it does not matter what is done inside an anchor
and how it ends.
-/

namespace ContractAbi

/-! ## 1. The same settings -/

/-- `s.SameSettings t`: the same settings object is global in both, if any is, with the same
options, and what follows from them for a parse is the same. -/
structure Session.SameSettings (s t : Session) : Prop where
  global : t.registry.global = s.registry.global
  options : t.registry.global? = s.registry.global?
  ceiling : t.ceiling = s.ceiling
  strictness : t.strictness = s.strictness

/-- **Where all is restored and the global settings were not changed, they are the same.**  A handle
that is known has an object, and the object of an unchanged handle stays. -/
theorem Session.Restores.sameSettings {s t : Session} {changed : List Nat}
    (h : s.Restores changed t) (known : s.registry.Known)
    (hnot : ∀ i, s.registry.global = some i → i ∉ changed) : s.SameSettings t := by
  have hoptions : t.registry.global? = s.registry.global? := by
    rw [Registry.global?, Registry.global?, h.global]
    cases hglobal : s.registry.global with
    | none => rfl
    | some i =>
      have hlt : i < s.registry.objects.length := known i hglobal
      have hx : s.registry.objects[i]? = some s.registry.objects[i] := List.getElem?_eq_getElem hlt
      rw [Option.bind_some, Option.bind_some, hx]
      exact h.objects i _ hx (hnot i hglobal)
  have hactive : t.registry.active = s.registry.active := by
    rw [Registry.active, Registry.active, hoptions]
  refine ⟨h.global, hoptions, ?_, ?_⟩
  · rw [Session.ceiling, Session.ceiling, hactive, h.defaults]
  · rw [Session.strictness, Session.strictness, hactive, h.defaults]

/-- Whatever a caller did from the start on, what is global is one of the settings objects. -/
theorem Activity.known_run_start (a : Activity) (d : Defaults) :
    (a.run (Session.start d)).after.registry.Known :=
  (a.keeps_run (Session.start d)).known nofun

/-! ## 2. What a caller hands over -/

/-- The settings that a caller hands over, if they are settings. -/
def Registry.given? (r : Registry) : SettingsSource → Option Settings
  | .arguments args => (Settings.ofArguments args).toOption
  | .existing h => r.objects[h]?
  | .nothing | .other => none

namespace Session

variable {s : Session} {source : SettingsSource} {x : Settings}

theorem active_select {r : Registry} {h : Nat} (hx : r.objects[h]? = some x) :
    (r.select (some h)).active = x := by
  rw [Registry.active, Registry.global?, Registry.select, Option.bind_some, hx, Option.getD_some]

theorem anchor_eq (h : source ≠ .nothing) :
    s.anchor source = (s.settled source).map s.anchored := by
  cases source with
  | nothing => exact absurd rfl h
  | _ => rfl

/-- Settings that are handed over are in force once they are global. -/
theorem settled_of_given (h : s.registry.given? source = some x) :
    ∃ r, s.settled source = .ok r ∧ r.active = x := by
  cases source with
  | nothing => cases h
  | other => cases h
  | arguments args =>
    have hargs : Settings.ofArguments args = .ok x := Outcome.toOption_eq_some_iff.mp h
    refine ⟨s.registry.install x, ?_, active_install s.registry x⟩
    rw [settled, hargs]
    rfl
  | existing i =>
    obtain ⟨hlt, -⟩ := List.getElem?_eq_some_iff.mp h
    exact ⟨s.registry.select (some i), if_pos hlt, active_select h⟩

/-- An anchor for settings is entered, and they are in force in it. -/
theorem anchor_of_given (h : s.registry.given? source = some x) :
    ∃ r, s.anchor source = .ok (s.anchored r) ∧ r.active = x := by
  obtain ⟨r, hr, hactive⟩ := settled_of_given h
  have hsome : source ≠ .nothing := by
    intro hnothing
    rw [hnothing] at h
    cases h
  refine ⟨r, ?_, hactive⟩
  rw [anchor_eq hsome, hr]
  rfl

/-- An anchor for anything else is refused. -/
theorem anchor_of_not_given (h : s.registry.given? source = none) :
    ∃ f, s.anchor source = .error f := by
  cases hanchor : s.anchor source with
  | error f => exact ⟨f, rfl⟩
  | ok t =>
    obtain ⟨r, hr, -⟩ := anchor_eq_ok hanchor
    cases source with
    | nothing => cases hanchor
    | other => cases hr
    | arguments args =>
      obtain ⟨x, hx, -⟩ := Outcome.map_eq_ok_iff.mp hr
      rw [Registry.given?, hx] at h
      cases h
    | existing i =>
      have hle : s.registry.next ≤ i := List.getElem?_eq_none_iff.mp h
      rw [settled, if_neg (Nat.not_lt.mpr hle)] at hr
      cases hr

/-- **Settings that are refused change nothing.** -/
theorem after_settingStep_of_fault {r : Except Settings.Fault Session}
    (h : (s.settingStep r).fault ≠ none) : (s.settingStep r).after = s := by
  rcases settingStep_cases s r with ⟨t, -, hstep⟩ | ⟨f, -, hstep⟩
  · rw [hstep] at h
    exact absurd rfl h
  · rw [hstep]
    rfl

end Session

/-! ## 3. Anchors -/

open Session

/-- **Anchored settings never leak.**  Whatever is done in an anchor and however it is left, the
settings from before are global again afterwards, with the options they had unless they themselves
were changed inside while they were global.  Inside, the options are those of the anchor and the
defaults.  Settings that are refused, parses and runs of the program leave everything in place. -/
theorem anchors_never_leak {s : Session} (known : s.registry.Known) :
    (∀ source body,
      let block := (Activity.anchored source body).run s
      block.after.registry.global = s.registry.global ∧
        ((∀ h, s.registry.global = some h → h ∉ block.changed) →
          s.SameSettings block.after)) ∧
    (∀ source,
      let entered := s.perform (.anchor source)
      match s.registry.given? source with
      | some x => entered.fault = none ∧
          entered.after.ceiling = x.maxNestingDepth.orElse (.ofOption s.defaults.maxNestingDepth) ∧
          entered.after.strictness = x.strictComponents.orElse s.defaults.strictComponents
      | none => entered.fault ≠ none ∧ entered.after = s) ∧
    (∀ source, (s.perform (.set source)).fault ≠ none →
      (s.perform (.set source)).after = s) ∧
    (∀ source v call, s.SameSettings ((Activity.parse source v call).run s).after) ∧
    ∀ w arguments, s.SameSettings (Run.ofArguments s w arguments).2 := by
  refine ⟨fun source body => ?_, fun source => ?_, fun source h => ?_, fun source v call => ?_,
    fun w arguments => ?_⟩
  · have hrestores := Activity.restores_run_anchored body.keeps_run s source
    exact ⟨hrestores.global, hrestores.sameSettings known⟩
  · dsimp only
    cases hgiven : s.registry.given? source with
    | some x =>
      obtain ⟨r, hr, rfl⟩ := anchor_of_given hgiven
      have hstep : s.perform (.anchor source) = (s.anchored r).done := by rw [perform, hr]; rfl
      rw [hstep]
      exact ⟨rfl, rfl, rfl⟩
    | none =>
      obtain ⟨f, hf⟩ := anchor_of_not_given hgiven
      have hstep : s.perform (.anchor source) = s.fails (.settings f) := by rw [perform, hf]; rfl
      rw [hstep]
      exact ⟨Option.some_ne_none _, rfl⟩
  · exact after_settingStep_of_fault h
  · have hrestores := Activity.restores_run_parse s source v call
    have hchanged : ((Activity.parse source v call).run s).changed = [] := by
      rw [Activity.run]
      dsimp only
      split <;> rfl
    refine hrestores.sameSettings known fun i _ => ?_
    rw [hchanged]
    exact List.not_mem_nil
  · exact (restores_ofArguments s w arguments).sameSettings known fun i _ => List.not_mem_nil

/-- An anchor inside of settings that allow ten levels.  Its own settings are changed, another
anchor is refused, one more makes the first settings global again and fails, no settings are made
global, and a parse fails at last: the settings that allow ten levels are back. -/
theorem anchors_never_leak_failing :
    let outer := ((Activity.set (.arguments [("max_nesting_depth", .int 10)])).run
      (Session.start ⟨none, false, none⟩)).after
    let body : Activity :=
      .seq (.change (Settings.assign "max_nesting_depth" (.int 3)))
        (.seq (.caught (.anchored .other .skip))
          (.seq (.caught (.anchored (.arguments [("max_nesting_depth", .int 2)])
              (.seq (.set (.existing 0)) (.fail "inner"))))
            (.seq (.set .nothing)
              (.parse none none fun rules => EventParam.parse rules .null >>= fun _ => pure ()))))
    let block := (Activity.anchored (.arguments [("strict_components", .bool true)]) body).run outer
    outer.registry.Known ∧ outer.registry.global = some 0 ∧ outer.ceiling = .limit 10 ∧
      block.raised.isSome ∧ block.changed = [1] ∧ outer.SameSettings block.after := by
  intro outer body block
  have known : outer.registry.Known := Activity.known_run_start _ _
  have hglobal : outer.registry.global = some 0 := by decide +kernel
  have hchanged : block.changed = [1] := by decide +kernel
  refine ⟨known, hglobal, rfl, by decide +kernel, hchanged, ?_⟩
  refine ((anchors_never_leak known).1 _ body).2 fun h hh => ?_
  rw [hglobal] at hh
  cases hh
  show 0 ∉ block.changed
  rw [hchanged]
  decide

end ContractAbi
