import ContractAbi.Proofs.Outcome
import ContractAbi.TypeName

/-!
# Steps under a ceiling

A ceiling takes results away and adds none.  `Filters m fits free capped` compares a step `free`
without a ceiling and the same step `capped` under the ceiling `m`: a result stays if it `fits` and
is refused for nesting too deep otherwise, and a failure stays or gives way to that refusal.

Nothing in it speaks of depth but `filters_check`, the comparison of one depth with the ceiling.
All else follows from how steps are put together, since each lemma says when the whole fits if it is
known when the parts do.
-/

namespace ContractAbi

/-- The refusal of what nests beyond the ceiling `m`. -/
def Ceiling.refusal (m : Int) : Failure := .refused (.tooDeep (.limit m))

/-- `Filters m fits free capped`: the ceiling `m` makes `capped` of `free`. -/
structure Filters {α : Type} (m : Int) (fits : Prop) (free capped : Except Failure α) : Prop where
  keeps : ∀ a, free = .ok a → fits → capped = .ok a
  refuses : ∀ a, free = .ok a → ¬ fits → capped = .error (Ceiling.refusal m)
  fails : ∀ e, free = .error e → capped = .error e ∨ capped = .error (Ceiling.refusal m)

variable {α β : Type} {m : Int} {p q : Prop}

/-! ## 1. Single steps -/

/-- A step that knows of no ceiling. -/
theorem filters_refl (m : Int) (r : Except Failure α) : Filters m True r r :=
  ⟨fun _ h _ => h, fun _ _ h => absurd trivial h, fun _ h => Or.inl h⟩

/-- A step that fails whatever the ceiling is. -/
theorem filters_error (m : Int) (p : Prop) (e : Failure) :
    Filters m p (.error e : Except Failure α) (.error e) :=
  ⟨nofun, nofun, fun _ h => Or.inl h⟩

/-- A step that is refused under the ceiling, because nothing that it results in fits. -/
theorem filters_refused {free : Except Failure α} (h : ∀ a, free = .ok a → ¬ p) :
    Filters m p free (.error (Ceiling.refusal m)) :=
  ⟨fun a ha hp => absurd hp (h a ha), fun _ _ _ => rfl, fun _ _ => Or.inr rfl⟩

theorem check_limit (m depth : Int) :
    (Ceiling.limit m).check depth = if depth ≤ m then .ok () else .error (Ceiling.refusal m) := by
  unfold Ceiling.check
  rw [Ceiling.exceededBy?_limit]
  by_cases h : depth ≤ m
  · rw [if_pos h, decide_eq_false (Int.not_lt.mpr h)]
  · rw [if_neg h, decide_eq_true (Int.not_le.mp h)]
    rfl

/-- **A depth passes the ceiling if it is not beyond it.** -/
theorem filters_check (m depth : Int) :
    Filters m (depth ≤ m) (Ceiling.unlimited.check depth) ((Ceiling.limit m).check depth) := by
  rw [check_limit]
  refine ⟨fun _ _ h => if_pos h, fun _ _ h => if_neg h, fun e h => ?_⟩
  cases h

/-! ## 2. Steps after one another -/

/-- What fits may be said in other words about each result. -/
theorem Filters.congr {free capped : Except Failure α} (h : Filters m p free capped)
    (hpq : ∀ a, free = .ok a → (p ↔ q)) : Filters m q free capped :=
  ⟨fun a ha hq => h.keeps a ha ((hpq a ha).mpr hq),
    fun a ha hq => h.refuses a ha (mt (hpq a ha).mp hq), h.fails⟩

/-- **A chain fits if both its steps do.**  What fits of the second may depend on the result of the
first. -/
theorem Filters.bind {free capped : Except Failure α} {f g : α → Except Failure β}
    {q : α → Prop} (h : Filters m p free capped)
    (hf : ∀ a, free = .ok a → Filters m (q a) (f a) (g a)) :
    Filters m (p ∧ ∀ a, free = .ok a → q a) (free >>= f) (capped >>= g) := by
  cases hfree : free with
  | error e =>
    refine ⟨nofun, nofun, fun e' he => ?_⟩
    cases he
    rcases h.fails e hfree with hc | hc
    · exact Or.inl (by rw [hc]; rfl)
    · exact Or.inr (by rw [hc]; rfl)
  | ok a =>
    by_cases hp : p
    · have hc := h.keeps a hfree hp
      rw [hc, Outcome.ok_bind, Outcome.ok_bind]
      refine (hf a hfree).congr fun _ _ => ⟨fun hq => ⟨hp, ?_⟩, fun hq => hq.2 a rfl⟩
      intro a' ha'
      cases ha'
      exact hq
    · have hc := h.refuses a hfree hp
      rw [hc, Outcome.error_bind]
      exact filters_refused fun _ _ hpq => hp hpq.1

theorem Filters.map {free capped : Except Failure α} (h : Filters m p free capped) (f : α → β) :
    Filters m p (free.map f) (capped.map f) := by
  refine ⟨fun b hb hp => ?_, fun b hb hp => ?_, fun e he => ?_⟩
  · obtain ⟨a, ha, rfl⟩ := Outcome.map_eq_ok_iff.mp hb
    rw [h.keeps a ha hp]
    rfl
  · obtain ⟨a, ha, rfl⟩ := Outcome.map_eq_ok_iff.mp hb
    rw [h.refuses a ha hp]
    rfl
  · rcases h.fails e (Outcome.map_eq_error_iff.mp he) with hc | hc
    · exact Or.inl (Outcome.map_eq_error_iff.mpr hc)
    · exact Or.inr (Outcome.map_eq_error_iff.mpr hc)

/-- **A list of steps fits if all of them do.** -/
theorem filters_mapM {f g : α → Except Failure β} {p : α → Prop} {l : List α}
    (h : ∀ a ∈ l, Filters m (p a) (f a) (g a)) :
    Filters m (∀ a ∈ l, p a) (l.mapM f) (l.mapM g) := by
  induction l with
  | nil => exact (filters_refl m _).congr fun _ _ => by simp
  | cons a l ih =>
    rw [List.forall_mem_cons] at h
    rw [List.mapM_cons, List.mapM_cons]
    have hrest := fun b => (ih h.2).bind (f := fun bs => .ok (b :: bs)) fun bs _ =>
      filters_refl m (.ok (b :: bs))
    refine (h.1.bind fun b _ => hrest b).congr fun bs hbs => ?_
    obtain ⟨b, hb, -⟩ := Outcome.bind_eq_ok_iff.mp hbs
    rw [List.forall_mem_cons]
    constructor
    · rintro ⟨ha, hl⟩
      exact ⟨ha, (hl b hb).1⟩
    · rintro ⟨ha, hl⟩
      exact ⟨ha, fun _ _ => ⟨hl, fun _ _ => trivial⟩⟩

/-! ## 3. Acceptance -/

/-- A result under a ceiling is the result without it, and fits. -/
theorem Filters.of_ok {free capped : Except Failure α} (h : Filters m p free capped) {a : α}
    (hc : capped = .ok a) : free = .ok a ∧ p := by
  cases hfree : free with
  | error e =>
    rcases h.fails e hfree with he | he <;> rw [hc] at he <;> cases he
  | ok b =>
    by_cases hp : p
    · have hb := h.keeps b hfree hp
      rw [hc] at hb
      cases hb
      exact ⟨rfl, hp⟩
    · have hb := h.refuses b hfree hp
      rw [hc] at hb
      cases hb

end ContractAbi
