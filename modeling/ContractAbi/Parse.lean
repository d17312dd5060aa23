import ContractAbi.Failure

/-!
# Parses and their notices

A parse ends with a result or a failure, and gives notices on the way, which stand even when it
fails later.  Parses are chained like partial functions: what follows a failure does not happen, so
a failure keeps the notices before it and gives no more (`mk_error_bind`).
-/

namespace ContractAbi

/-- What a parse gives: notices in order, and at the end a result or a failure. -/
structure Parse (α : Type) where
  notices : List Notice
  outcome : Except Failure α

namespace Parse

variable {α β γ : Type}

/-! ## 1. Chaining -/

/-- A parse that was quiet and has a result. -/
protected def pure (a : α) : Parse α := ⟨[], .ok a⟩

/-- A parse and what follows from its result. -/
protected def bind (p : Parse α) (f : α → Parse β) : Parse β :=
  match p.outcome with
  | .ok a => ⟨p.notices ++ (f a).notices, (f a).outcome⟩
  | .error e => ⟨p.notices, .error e⟩

instance : Monad Parse where
  pure := Parse.pure
  bind := Parse.bind

@[simp] theorem pure_def (a : α) : (pure a : Parse α) = ⟨[], .ok a⟩ := rfl

/-- A result is handed on. -/
@[simp] theorem mk_ok_bind (ns : List Notice) (a : α) (f : α → Parse β) :
    ((⟨ns, .ok a⟩ : Parse α) >>= f) = ⟨ns ++ (f a).notices, (f a).outcome⟩ := rfl

/-- Nothing follows a failure. -/
@[simp] theorem mk_error_bind (ns : List Notice) (e : Failure) (f : α → Parse β) :
    ((⟨ns, .error e⟩ : Parse α) >>= f) = ⟨ns, .error e⟩ := rfl

/-- A quiet result in front changes nothing. -/
theorem bind_of_pure (a : α) (f : α → Parse β) : pure a >>= f = f a := by simp

/-- Parses may be chained in any grouping. -/
theorem bind_bind (p : Parse α) (f : α → Parse β) (g : β → Parse γ) :
    p >>= f >>= g = p >>= fun a => f a >>= g := by
  obtain ⟨ns, o⟩ := p
  cases o with
  | error e => rfl
  | ok a =>
    cases h : f a with
    | mk ms q => cases q <;> simp [h]

/-- Changing nothing about the result changes nothing. -/
theorem id_map (p : Parse α) : id <$> p = p := by
  obtain ⟨ns, o⟩ := p
  cases o <;> simp [Functor.map, Parse.bind, Parse.pure]

instance : LawfulMonad Parse := LawfulMonad.mk' Parse id_map bind_of_pure bind_bind

/-! ## 2. Steps -/

/-- A failure. -/
def fail (e : Failure) : Parse α := ⟨[], .error e⟩

/-- A notice. -/
def notice (n : Notice) : Parse Unit := ⟨[n], .ok ()⟩

/-- A step that gives no notices. -/
def quiet (r : Except Failure α) : Parse α := ⟨[], r⟩

/-- Puts a failure into other words. -/
def mapFailure (f : Failure → Failure) (p : Parse α) : Parse α :=
  ⟨p.notices, p.outcome.mapError f⟩

@[simp] theorem notices_fail (e : Failure) : (fail e : Parse α).notices = [] := rfl

@[simp] theorem outcome_fail (e : Failure) : (fail e : Parse α).outcome = .error e := rfl

@[simp] theorem notices_quiet (r : Except Failure α) : (quiet r).notices = [] := rfl

@[simp] theorem outcome_quiet (r : Except Failure α) : (quiet r).outcome = r := rfl

@[simp] theorem notices_mapFailure (f : Failure → Failure) (p : Parse α) :
    (p.mapFailure f).notices = p.notices := rfl

@[simp] theorem outcome_mapFailure (f : Failure → Failure) (p : Parse α) :
    (p.mapFailure f).outcome = p.outcome.mapError f := rfl

end Parse

end ContractAbi
