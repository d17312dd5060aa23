/-!
# Outcomes

What it takes for a chain of steps to succeed, and where it can fail.  A step is an `Except`, and
each lemma turns an equation about a chain into equations about its steps.

A list of steps is described by `List.map`: `l.map f = bs.map .ok` says that `f` succeeds on all of
`l`, with the results `bs` in order.
-/

namespace ContractAbi.Outcome

variable {ε ε' α β : Type}

/-! ## 1. Single steps -/

theorem map_eq_ok_iff {f : α → β} {r : Except ε α} {b : β} :
    r.map f = .ok b ↔ ∃ a, r = .ok a ∧ f a = b := by
  cases r <;> simp [Except.map]

theorem map_eq_error_iff {f : α → β} {r : Except ε α} {e : ε} :
    r.map f = .error e ↔ r = .error e := by
  cases r <;> simp [Except.map]

@[simp] theorem mapError_ok (f : ε → ε') (a : α) :
    (Except.ok a : Except ε α).mapError f = .ok a := rfl

@[simp] theorem mapError_error (f : ε → ε') (e : ε) :
    (Except.error e : Except ε α).mapError f = .error (f e) := rfl

theorem mapError_eq_ok_iff {f : ε → ε'} {r : Except ε α} {a : α} :
    r.mapError f = .ok a ↔ r = .ok a := by
  cases r <;> simp

theorem mapError_eq_error_iff {f : ε → ε'} {r : Except ε α} {e : ε'} :
    r.mapError f = .error e ↔ ∃ e', r = .error e' ∧ f e' = e := by
  cases r <;> simp

@[simp] theorem ok_bind (a : α) (f : α → Except ε β) : (Except.ok a >>= f) = f a := rfl

@[simp] theorem error_bind (e : ε) (f : α → Except ε β) :
    ((Except.error e : Except ε α) >>= f) = .error e := rfl

theorem bind_eq_ok_iff {r : Except ε α} {f : α → Except ε β} {b : β} :
    (r >>= f) = .ok b ↔ ∃ a, r = .ok a ∧ f a = .ok b := by
  cases r <;> simp

theorem bind_eq_error_iff {r : Except ε α} {f : α → Except ε β} {e : ε} :
    (r >>= f) = .error e ↔ r = .error e ∨ ∃ a, r = .ok a ∧ f a = .error e := by
  cases r <;> simp

theorem toOption_eq_some_iff {r : Except ε α} {a : α} : r.toOption = some a ↔ r = .ok a := by
  cases r <;> simp [Except.toOption]

/-! ## 2. Lists of steps -/

/-- Steps that are the same on a list. -/
theorem mapM_congr {f g : α → Except ε β} {l : List α} (h : ∀ a ∈ l, f a = g a) :
    l.mapM f = l.mapM g := by
  induction l with
  | nil => rfl
  | cons a l ih =>
    rw [List.forall_mem_cons] at h
    rw [List.mapM_cons, List.mapM_cons, h.1, ih h.2]

/-- All steps succeed. -/
theorem mapM_eq_ok_iff {f : α → Except ε β} {l : List α} {bs : List β} :
    l.mapM f = .ok bs ↔ l.map f = bs.map .ok := by
  induction l generalizing bs with
  | nil => cases bs <;> simp [pure, Except.pure]
  | cons a l ih =>
    rw [List.mapM_cons]
    constructor
    · intro h
      obtain ⟨b, hb, h⟩ := bind_eq_ok_iff.mp h
      obtain ⟨cs, hc, h⟩ := bind_eq_ok_iff.mp h
      cases h
      simp [hb, ih.mp hc]
    · intro h
      cases bs with
      | nil => simp at h
      | cons b bs =>
        obtain ⟨hb, hbs⟩ := List.cons.inj h
        rw [hb, ih.mpr hbs]
        rfl

/-- All steps succeed: the list and its results are the two sides of a list of pairs. -/
theorem mapM_eq_ok_iff_pairs {f : α → Except ε β} {l : List α} {bs : List β} :
    l.mapM f = .ok bs ↔
      ∃ es : List (α × β), l = es.map (·.1) ∧ bs = es.map (·.2) ∧ ∀ e ∈ es, f e.1 = .ok e.2 := by
  rw [mapM_eq_ok_iff]
  constructor
  · intro h
    have hlen : l.length = bs.length := by simpa using congrArg List.length h
    refine ⟨l.zip bs, ?_, ?_, ?_⟩
    · rw [List.map_fst_zip (Nat.le_of_eq hlen)]
    · rw [List.map_snd_zip (Nat.le_of_eq hlen.symm)]
    · intro e he
      obtain ⟨i, hi, rfl⟩ := List.getElem_of_mem he
      have hi' := congrArg (·[i]?) h
      have hl : i < l.length := by simp at hi; omega
      have hb : i < bs.length := by simp at hi; omega
      simpa [hl, hb] using hi'
  · rintro ⟨es, rfl, rfl, h⟩
    simpa using h

/-- If all steps succeed, each of them does. -/
theorem exists_of_mapM_eq_ok {f : α → Except ε β} {l : List α} {bs : List β}
    (h : l.mapM f = .ok bs) {a : α} (ha : a ∈ l) : ∃ b, f a = .ok b := by
  obtain ⟨es, rfl, -, hes⟩ := mapM_eq_ok_iff_pairs.mp h
  obtain ⟨e, he, rfl⟩ := List.mem_map.mp ha
  exact ⟨e.2, hes e he⟩

/-- If all steps succeed, the results are those of the members of the list. -/
theorem mem_iff_of_mapM_eq_ok {f : α → Except ε β} {l : List α} {bs : List β}
    (h : l.mapM f = .ok bs) {b : β} : b ∈ bs ↔ ∃ a ∈ l, f a = .ok b := by
  obtain ⟨es, rfl, rfl, hes⟩ := mapM_eq_ok_iff_pairs.mp h
  constructor
  · intro hb
    obtain ⟨e, he, rfl⟩ := List.mem_map.mp hb
    exact ⟨e.1, List.mem_map_of_mem he, hes e he⟩
  · rintro ⟨a, ha, hab⟩
    obtain ⟨e, he, rfl⟩ := List.mem_map.mp ha
    cases (hes e he).symm.trans hab
    exact List.mem_map_of_mem he

/-- One step fails, and all before it succeed. -/
theorem mapM_eq_error_iff {f : α → Except ε β} {l : List α} {e : ε} :
    l.mapM f = .error e ↔
      ∃ before a after, l = before ++ a :: after ∧ (∀ x ∈ before, ∃ b, f x = .ok b) ∧
        f a = .error e := by
  induction l with
  | nil => simp [pure, Except.pure]
  | cons a l ih =>
    rw [List.mapM_cons]
    constructor
    · intro h
      rcases bind_eq_error_iff.mp h with ha | ⟨b, hb, h⟩
      · exact ⟨[], a, l, rfl, by simp, ha⟩
      · rcases bind_eq_error_iff.mp h with hl | ⟨bs, -, h⟩
        · obtain ⟨before, c, after, rfl, hok, hc⟩ := ih.mp hl
          refine ⟨a :: before, c, after, rfl, ?_, hc⟩
          intro x hx
          rcases List.mem_cons.mp hx with rfl | hx
          · exact ⟨b, hb⟩
          · exact hok x hx
        · cases h
    · rintro ⟨before, c, after, hl, hok, hc⟩
      cases before with
      | nil =>
        obtain ⟨rfl, rfl⟩ := List.cons.inj hl
        rw [hc]
        rfl
      | cons d before =>
        obtain ⟨rfl, rfl⟩ := List.cons.inj hl
        obtain ⟨b, hb⟩ := hok a (List.mem_cons_self ..)
        have hrest := ih.mpr
          ⟨before, c, after, rfl, fun x hx => hok x (List.mem_cons_of_mem _ hx), hc⟩
        rw [hb, hrest]
        rfl

/-- One step from a state fails, and all before it succeed. -/
theorem foldlM_eq_error_iff {f : β → α → Except ε β} {l : List α} {b : β} {e : ε} :
    l.foldlM f b = .error e ↔
      ∃ before a after b', l = before ++ a :: after ∧ before.foldlM f b = .ok b' ∧
        f b' a = .error e := by
  induction l generalizing b with
  | nil => simp [pure, Except.pure]
  | cons a l ih =>
    rw [List.foldlM_cons]
    constructor
    · intro h
      rcases bind_eq_error_iff.mp h with ha | ⟨b', hb, h⟩
      · exact ⟨[], a, l, b, rfl, rfl, ha⟩
      · obtain ⟨before, c, after, b'', rfl, hfold, hc⟩ := ih.mp h
        refine ⟨a :: before, c, after, b'', rfl, ?_, hc⟩
        rw [List.foldlM_cons, hb]
        exact hfold
    · rintro ⟨before, c, after, b', hl, hfold, hc⟩
      cases before with
      | nil =>
        obtain ⟨rfl, rfl⟩ := List.cons.inj hl
        cases hfold
        rw [hc]
        rfl
      | cons d before =>
        obtain ⟨rfl, rfl⟩ := List.cons.inj hl
        rw [List.foldlM_cons] at hfold
        obtain ⟨b'', hb, hfold⟩ := bind_eq_ok_iff.mp hfold
        rw [hb]
        exact ih.mpr ⟨before, c, after, b', rfl, hfold, hc⟩

end ContractAbi.Outcome
