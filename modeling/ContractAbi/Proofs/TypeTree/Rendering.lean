import ContractAbi.Proofs.AbiType.Bounds
import ContractAbi.Proofs.Outcome
import ContractAbi.TypeTree.Rendering

/-!
# What stands in the way of a rendering

A tree is rendered exactly if there is room for its calls and none of its numbers has too many
digits, and then what becomes of it is what would become of it without obstacles (`run_eq_ok_iff`).
So where the numbers fit, the room decides (`run_of_fits`).

`calls_wrap` says that every array dimension takes calls of its own: an array over anything is not
rendered if only it has dimensions enough.
-/

namespace ContractAbi

/-! ## 1. Steps -/

theorem enter_eq_ok_iff {α : Type} {calls room : Nat} {body : Nat → Except Obstacle α} {a : α} :
    enter calls room body = .ok a ↔ calls ≤ room ∧ body (room - calls) = .ok a := by
  unfold enter
  split <;> simp [*]

/-- Calls inside of calls. -/
theorem enter_ite {α : Type} (calls more room : Nat) (a : α) :
    (enter calls room fun room => if more ≤ room then .ok a else .error .nesting) =
      if calls + more ≤ room then .ok a else .error .nesting := by
  unfold enter
  split
  · have hiff : more ≤ room - calls ↔ calls + more ≤ room := by omega
    simp only [hiff]
  · rw [if_neg (by omega)]

/-- Calls are no reason to find too many digits. -/
theorem enter_ne_digits {α : Type} {calls room : Nat} {body : Nat → Except Obstacle α}
    (h : ∀ room, body room ≠ .error .digits) : enter calls room body ≠ .error .digits := by
  unfold enter
  split
  · exact h _
  · intro hne
    cases hne

theorem Decimal.check_eq_ok_iff {n : Nat} {u : Unit} : check n = .ok u ↔ Fits n := by
  unfold check
  split <;> simp [*]

theorem Decimal.forM_check_eq_ok_iff {ns : List Nat} {u : Unit} :
    ns.forM check = .ok u ↔ ∀ n ∈ ns, Fits n := by
  induction ns with
  | nil => simp [pure, Except.pure]
  | cons n ns ih =>
    have hcons : (n :: ns).forM check = check n >>= fun _ => ns.forM check := rfl
    rw [hcons, Outcome.bind_eq_ok_iff, List.forall_mem_cons, ← ih]
    simp only [check_eq_ok_iff, exists_const]

namespace Rendering

variable {α β : Type} {r : Rendering α β} {room : Nat} {t : TypeTree α} {b : β}

/-- Several trees are rendered one after another. -/
theorem runAll_eq (r : Rendering α β) (room : Nat) (ts : List (TypeTree α)) :
    r.runAll room ts = ts.mapM (r.run room) := by
  induction ts with
  | nil => rfl
  | cons t ts ih => rw [runAll, ih, List.mapM_cons]

theorem run_tuple_cons (t : TypeTree α) (ts : List (TypeTree α)) :
    r.run room (.tuple (t :: ts)) =
      enter r.tupleCalls room fun room => ((t :: ts).mapM (r.run room)).map r.tuple := by
  rw [run]
  refine congrArg (enter r.tupleCalls room) (funext fun room => ?_)
  rw [← runAll_eq, runAll]
  cases r.run room t with
  | error o => rfl
  | ok b => cases r.runAll room ts <;> rfl

/-! ## 2. Success -/

/-- Renderings of trees that are rendered as they would be without obstacles. -/
theorem mapM_run_eq_ok_iff {ts : List (TypeTree α)} {bs : List β}
    (h : ∀ t ∈ ts, ∀ b, r.run room t = .ok b ↔
      r.calls t ≤ room ∧ (∀ n ∈ r.numbersOf t, Decimal.Fits n) ∧ b = r.result t) :
    ts.mapM (r.run room) = .ok bs ↔
      (∀ t ∈ ts, r.calls t ≤ room) ∧ (∀ t ∈ ts, ∀ n ∈ r.numbersOf t, Decimal.Fits n) ∧
        bs = ts.map r.result := by
  induction ts generalizing bs with
  | nil => simp [pure, Except.pure, eq_comm]
  | cons t ts ih =>
    rw [List.forall_mem_cons] at h
    rw [List.mapM_cons, Outcome.bind_eq_ok_iff]
    simp only [Outcome.bind_eq_ok_iff, h.1, ih h.2, List.forall_mem_cons, List.map_cons]
    constructor
    · rintro ⟨_, ⟨hcalls, hfit, rfl⟩, _, ⟨hcalls', hfit', rfl⟩, hbs⟩
      cases hbs
      exact ⟨⟨hcalls, hcalls'⟩, ⟨hfit, hfit'⟩, rfl⟩
    · rintro ⟨⟨hcalls, hcalls'⟩, ⟨hfit, hfit'⟩, rfl⟩
      exact ⟨_, ⟨hcalls, hfit, rfl⟩, _, ⟨hcalls', hfit', rfl⟩, rfl⟩

/-- **When a tree is rendered, and what becomes of it.**  The induction is on the tree; the room is
left open, since the parts of a tree have less of it. -/
theorem run_eq_ok_iff : r.run room t = .ok b ↔
    r.calls t ≤ room ∧ (∀ n ∈ r.numbersOf t, Decimal.Fits n) ∧ b = r.result t := by
  have hpure : ∀ (x y : β), (pure x : Except Obstacle β) = .ok y ↔ y = x :=
    fun x y => ⟨fun h => (Except.ok.inj h).symm, fun h => h ▸ rfl⟩
  induction t using TypeTree.induction generalizing room b with
  | leaf a =>
    rw [run, enter_eq_ok_iff, Outcome.bind_eq_ok_iff]
    simp only [Decimal.forM_check_eq_ok_iff, hpure, exists_const, calls, numbersOf, result]
  | array t ih =>
    rw [run, enter_eq_ok_iff, Outcome.bind_eq_ok_iff]
    simp only [ih, hpure, calls, numbersOf, result]
    constructor
    · rintro ⟨hcalls, _, ⟨hcalls', hfit, rfl⟩, rfl⟩
      exact ⟨by omega, hfit, rfl⟩
    · rintro ⟨hcalls, hfit, rfl⟩
      exact ⟨by omega, _, ⟨by omega, hfit, rfl⟩, rfl⟩
  | fixedArray t n ih =>
    rw [run, enter_eq_ok_iff, Outcome.bind_eq_ok_iff]
    simp only [Outcome.bind_eq_ok_iff, Decimal.check_eq_ok_iff, ih, hpure, exists_const, calls,
      numbersOf, result, List.forall_mem_cons]
    constructor
    · rintro ⟨hcalls, _, ⟨hcalls', hfit, rfl⟩, hn, rfl⟩
      exact ⟨by omega, ⟨hn, hfit⟩, rfl⟩
    · rintro ⟨hcalls, ⟨hn, hfit⟩, rfl⟩
      exact ⟨by omega, _, ⟨by omega, hfit, rfl⟩, hn, rfl⟩
  | tuple ts ih =>
    cases ts with
    | nil =>
      rw [run, enter_eq_ok_iff, hpure]
      simp [calls, numbersOf, result]
    | cons t ts =>
      have hmax : r.calls (.tuple (t :: ts)) ≤ room ↔
          r.tupleCalls ≤ room ∧ ∀ u ∈ t :: ts, r.calls u ≤ room - r.tupleCalls := by
        have hall := @foldr_max_le_iff ((t :: ts).map r.calls) (room - r.tupleCalls)
        rw [List.forall_mem_map] at hall
        rw [← hall, calls, callsAll_eq, List.map_cons, List.foldr_cons]
        omega
      have hnumbers : (∀ n ∈ r.numbersOf (.tuple (t :: ts)), Decimal.Fits n) ↔
          ∀ u ∈ t :: ts, ∀ n ∈ r.numbersOf u, Decimal.Fits n := by
        rw [numbersOf, numbersOfAll_eq]
        exact List.forall_mem_flatMap
      rw [run_tuple_cons, enter_eq_ok_iff, Outcome.map_eq_ok_iff, hmax, hnumbers, result,
        results_eq]
      simp only [mapM_run_eq_ok_iff fun u hu b => ih u hu]
      constructor
      · rintro ⟨hcalls, _, ⟨hall, hfit, rfl⟩, rfl⟩
        exact ⟨⟨hcalls, hall⟩, hfit, rfl⟩
      · rintro ⟨⟨hcalls, hall⟩, hfit, rfl⟩
        exact ⟨hcalls, _, ⟨hall, hfit, rfl⟩, rfl⟩

theorem run_eq_ok (hcalls : r.calls t ≤ room) (fit : ∀ n ∈ r.numbersOf t, Decimal.Fits n) :
    r.run room t = .ok (r.result t) :=
  run_eq_ok_iff.mpr ⟨hcalls, fit, rfl⟩

theorem eq_result_of_run (h : r.run room t = .ok b) : b = r.result t := (run_eq_ok_iff.mp h).2.2

/-! ## 3. Failure -/

/-- Where the numbers fit, they are no obstacle. -/
theorem run_ne_digits (fit : ∀ n ∈ r.numbersOf t, Decimal.Fits n) :
    r.run room t ≠ .error .digits := by
  induction t using TypeTree.induction generalizing room with
  | leaf a =>
    have hcheck : (r.numbers a).forM Decimal.check = .ok () :=
      Decimal.forM_check_eq_ok_iff.mpr fit
    rw [run, hcheck]
    exact enter_ne_digits fun _ h => nomatch h
  | array t ih =>
    rw [run]
    refine enter_ne_digits fun room h => ?_
    rcases Outcome.bind_eq_error_iff.mp h with h | ⟨_, -, h⟩
    · exact ih fit h
    · cases h
  | fixedArray t n ih =>
    obtain ⟨hn, fit⟩ := List.forall_mem_cons.mp fit
    have hcheck : Decimal.check n = .ok () := Decimal.check_eq_ok_iff.mpr hn
    rw [run, hcheck]
    refine enter_ne_digits fun room h => ?_
    rcases Outcome.bind_eq_error_iff.mp h with h | ⟨_, -, h⟩
    · exact ih fit h
    · cases h
  | tuple ts ih =>
    cases ts with
    | nil => exact enter_ne_digits fun _ h => nomatch h
    | cons t ts =>
      rw [run_tuple_cons]
      refine enter_ne_digits fun room h => ?_
      obtain ⟨before, u, after, hts, -, h⟩ :=
        Outcome.mapM_eq_error_iff.mp (Outcome.map_eq_error_iff.mp h)
      have hu : u ∈ t :: ts := by simp [hts]
      rw [numbersOf, numbersOfAll_eq, List.forall_mem_flatMap] at fit
      exact ih u hu (fit u hu) h

/-- **Where the numbers fit, the room decides.** -/
theorem run_of_fits (fit : ∀ n ∈ r.numbersOf t, Decimal.Fits n) :
    r.run room t = if r.calls t ≤ room then .ok (r.result t) else .error .nesting := by
  split
  · next hcalls => exact run_eq_ok hcalls fit
  · next hcalls =>
    cases h : r.run room t with
    | ok b => exact absurd (run_eq_ok_iff.mp h).1 hcalls
    | error o =>
      cases o with
      | nesting => rfl
      | digits => exact absurd h (run_ne_digits fit)

/-! ## 4. Dimensions -/

/-- **Every dimension takes its calls.** -/
theorem calls_wrap (r : Rendering α β) (ds : List TypeTree.Dimension) (t : TypeTree α) :
    r.calls (TypeTree.wrap ds t) = ds.length * r.arrayCalls + r.calls t := by
  induction ds with
  | nil => simp
  | cons d ds ih =>
    have hcons : r.calls (TypeTree.wrap (d :: ds) t) =
        r.arrayCalls + r.calls (TypeTree.wrap ds t) := by
      cases d <;> rfl
    rw [hcons, ih, List.length_cons, Nat.succ_mul]
    omega

end Rendering

end ContractAbi
