import ContractAbi.Parse

/-!
# Outcomes of parses

What a parse comes to does not depend on its notices: `Parse.outcome` turns a chain of parses into
the chain of their outcomes (`outcome_bind`, `outcome_mapM`), about which `Outcome` has the facts.
-/

namespace ContractAbi.Parse

variable {α β : Type}

theorem outcome_bind (p : Parse α) (f : α → Parse β) :
    (p >>= f).outcome = p.outcome >>= fun a => (f a).outcome := by
  obtain ⟨ns, o⟩ := p
  cases o <;> rfl

theorem outcome_map (f : α → β) (p : Parse α) : (f <$> p).outcome = p.outcome.map f := by
  obtain ⟨ns, o⟩ := p
  cases o <;> rfl

theorem outcome_mapM (f : α → Parse β) (l : List α) :
    (l.mapM f).outcome = l.mapM fun a => (f a).outcome := by
  induction l with
  | nil => rfl
  | cons a l ih =>
    rw [List.mapM_cons, List.mapM_cons, outcome_bind]
    refine bind_congr fun b => ?_
    rw [outcome_bind, ih]
    rfl

/-- A result keeps the notices of all steps that led to it. -/
theorem notices_bind_of_ok {p : Parse α} {a : α} (h : p.outcome = .ok a) (f : α → Parse β) :
    (p >>= f).notices = p.notices ++ (f a).notices := by
  obtain ⟨ns, o⟩ := p
  cases h
  rfl

/-- The steps of a chain that has a result. -/
theorem of_bind_eq_ok {p : Parse α} {f : α → Parse β} {b : β} (h : (p >>= f).outcome = .ok b) :
    ∃ a, p.outcome = .ok a ∧ (f a).outcome = .ok b := by
  obtain ⟨ns, o⟩ := p
  cases o with
  | error e => cases h
  | ok a => exact ⟨a, rfl, h⟩

/-- A step that gives a result and no notice is nothing but its result. -/
theorem quiet_ok (a : α) : (quiet (.ok a) : Parse α) = pure a := rfl

/-- Quiet steps for each member of a list. -/
theorem mapM_map_eq_quiet {γ : Type} {f : β → Parse γ} {g : α → β} {h : α → Except Failure γ}
    {l : List α} (hf : ∀ a ∈ l, f (g a) = quiet (h a)) :
    (l.map g).mapM f = quiet (l.mapM h) := by
  induction l with
  | nil => rfl
  | cons a l ih =>
    rw [List.forall_mem_cons] at hf
    rw [List.map_cons, List.mapM_cons, List.mapM_cons, hf.1, ih hf.2]
    cases h a with
    | error e => rfl
    | ok c =>
      rw [quiet_ok, pure_bind]
      cases l.mapM h <;> rfl

/-- Steps that undo what was done to each member of a list give the list back. -/
theorem mapM_map_eq_pure {f : β → Parse α} {g : α → β} {l : List α}
    (h : ∀ a ∈ l, f (g a) = pure a) : (l.map g).mapM f = pure l := by
  have hall : l.mapM (fun a => (pure (id a) : Except Failure α)) = pure (l.map id) := List.mapM_pure
  rw [List.map_id] at hall
  rw [mapM_map_eq_quiet (h := fun a => pure (id a)) h, hall]
  rfl

end ContractAbi.Parse
