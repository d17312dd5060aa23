import ContractAbi.Parameter.Fields
import Mathlib.Data.List.Perm.Basic

/-!
# What the fields of an object are

The fields of an object are found pair by pair, with a look at all that was found before.  What is
found does not depend on that order: a known field has the value that stands under its key, and the
object is refused exactly if two values stand under one such key.

So an object is described by its *values* under each key (`Fields.valuesOf`).  Two objects with the
same values have the same fields, whatever else they hold and however they are arranged.
-/

namespace ContractAbi

/-! ## 1. Values under a key -/

namespace Field

/-- Whether a key is that of a field. -/
def isKey (f : Field) : Value → Bool
  | .text t => t = f.label
  | _ => false

/-- The values that stand under the key of a field, in order. -/
def values (f : Field) (pairs : List (Value × Value)) : List Value :=
  (pairs.filter fun p => f.isKey p.1).map (·.2)

@[simp] theorem values_nil (f : Field) : f.values [] = [] := rfl

theorem values_append (f : Field) (ps qs : List (Value × Value)) :
    f.values (ps ++ qs) = f.values ps ++ f.values qs := by
  simp [values]

theorem values_cons_of_isKey {f : Field} {k : Value} (h : f.isKey k = true) (v : Value)
    (ps : List (Value × Value)) : f.values ((k, v) :: ps) = v :: f.values ps := by
  simp [values, h]

theorem values_cons_of_not_isKey {f : Field} {k : Value} (h : f.isKey k = false) (v : Value)
    (ps : List (Value × Value)) : f.values ((k, v) :: ps) = f.values ps := by
  simp [values, h]

theorem values_perm (f : Field) {ps qs : List (Value × Value)} (h : ps.Perm qs) :
    (f.values ps).Perm (f.values qs) :=
  (h.filter _).map _

@[simp] theorem isKey_value (f : Field) : f.isKey f.value = true := by
  simp [isKey, value]

theorem isKey_iff {f : Field} {k : Value} : f.isKey k = true ↔ k = .text f.label := by
  cases k <;> simp [isKey]

/-- No two fields share a key. -/
theorem label_injective : Function.Injective label := by
  intro f g h
  cases f <;> cases g <;> first | rfl | exact absurd h (by decide)

/-- A key names the known field that it is the key of. -/
theorem ofKey?_eq_some_iff {known : List Field} {k : Value} {f : Field} :
    ofKey? known k = some f ↔ f ∈ known ∧ f.isKey k = true := by
  rw [isKey_iff]
  constructor
  · intro h
    unfold ofKey? at h
    split at h
    · next t =>
      have hlabel : f.label = t := by simpa using List.find?_some h
      exact ⟨List.mem_of_find?_eq_some h, by rw [hlabel]⟩
    · cases h
  · rintro ⟨hmem, rfl⟩
    obtain ⟨g, hg⟩ : ∃ g, known.find? (fun x => x.label = f.label) = some g := by
      rw [← Option.isSome_iff_exists, List.find?_isSome]
      exact ⟨f, hmem, by simp⟩
    have hlabel : g.label = f.label := by simpa using List.find?_some hg
    obtain rfl := label_injective hlabel
    exact hg

theorem ofKey?_value {known : List Field} {f : Field} (h : f ∈ known) :
    ofKey? known f.value = some f :=
  ofKey?_eq_some_iff.mpr ⟨h, isKey_value f⟩

/-- A key that names no known field is the key of none. -/
theorem ofKey?_eq_none_iff {known : List Field} {k : Value} :
    ofKey? known k = none ↔ ∀ f ∈ known, f.isKey k = false := by
  constructor
  · intro h f hf
    rw [← Bool.not_eq_true]
    intro hkey
    rw [ofKey?_eq_some_iff.mpr ⟨hf, hkey⟩] at h
    cases h
  · intro h
    rw [Option.eq_none_iff_forall_ne_some]
    intro f hf
    obtain ⟨hmem, hkey⟩ := ofKey?_eq_some_iff.mp hf
    rw [h f hmem] at hkey
    cases hkey

end Field

/-! ## 2. What is found -/

namespace Fields

variable {known : List Field} {pairs : List (Value × Value)} {found fs : Fields}

/-- The values of a field, if it is known. -/
def valuesOf (known : List Field) (f : Field) (pairs : List (Value × Value)) : List Value :=
  if f ∈ known then f.values pairs else []

theorem valuesOf_of_mem {f : Field} (h : f ∈ known) (pairs : List (Value × Value)) :
    valuesOf known f pairs = f.values pairs := if_pos h

theorem valuesOf_of_not_mem {f : Field} (h : f ∉ known) (pairs : List (Value × Value)) :
    valuesOf known f pairs = [] := if_neg h

/-- A pair whose key names no known field adds no value. -/
theorem valuesOf_cons_unknown {k : Value} (h : Field.ofKey? known k = none) (v : Value)
    (pairs : List (Value × Value)) (f : Field) :
    valuesOf known f ((k, v) :: pairs) = valuesOf known f pairs := by
  unfold valuesOf
  split
  · next hf => exact Field.values_cons_of_not_isKey (Field.ofKey?_eq_none_iff.mp h f hf) v pairs
  · rfl

/-- A pair whose key names a known field adds its value to that field. -/
theorem valuesOf_cons_known {k : Value} {g : Field} (h : Field.ofKey? known k = some g) (v : Value)
    (pairs : List (Value × Value)) (f : Field) :
    valuesOf known f ((k, v) :: pairs) =
      if f = g then v :: valuesOf known f pairs else valuesOf known f pairs := by
  obtain ⟨hmem, hkey⟩ := Field.ofKey?_eq_some_iff.mp h
  by_cases hfg : f = g
  · subst hfg
    rw [if_pos rfl, valuesOf_of_mem hmem, valuesOf_of_mem hmem]
    exact Field.values_cons_of_isKey hkey v pairs
  · rw [if_neg hfg]
    unfold valuesOf
    split
    · refine Field.values_cons_of_not_isKey ?_ v pairs
      rw [← Bool.not_eq_true, Field.isKey_iff, Field.isKey_iff.mp hkey]
      intro hlabel
      exact hfg (Field.label_injective (Value.text.inj hlabel)).symm
    · rfl

theorem valuesOf_append (f : Field) (ps qs : List (Value × Value)) :
    valuesOf known f (ps ++ qs) = valuesOf known f ps ++ valuesOf known f qs := by
  unfold valuesOf
  split
  · exact Field.values_append f ps qs
  · rfl

theorem valuesOf_perm (f : Field) {ps qs : List (Value × Value)} (h : ps.Perm qs) :
    (valuesOf known f ps).Perm (valuesOf known f qs) := by
  unfold valuesOf
  split
  · exact Field.values_perm f h
  · exact .refl _

/-- A field behind those that were found is a new one. -/
theorem get?_append_singleton (found : Fields) (f g : Field) (v : Value)
    (h : found.get? g = none) :
    Fields.get? (found ++ [(g, v)]) f = if f = g then some v else found.get? f := by
  unfold get? at h ⊢
  rw [List.lookup_append]
  by_cases hfg : f = g
  · subst hfg
    rw [h]
    simp
  · have hne : (f == g) = false := beq_eq_false_iff_ne.mpr hfg
    simp [List.lookup_cons, hne, hfg]

/-- What was found together with what is still to be found, field by field. -/
theorem values_of_collectInto (h : collectInto known found pairs = .ok fs) (f : Field) :
    (found.get? f).toList ++ valuesOf known f pairs = (fs.get? f).toList := by
  induction pairs generalizing found with
  | nil =>
    cases h
    unfold valuesOf
    split <;> simp
  | cons p pairs ih =>
    obtain ⟨k, v⟩ := p
    rw [collectInto] at h
    cases hk : Field.ofKey? known k with
    | none =>
      rw [hk] at h
      rw [valuesOf_cons_unknown hk]
      exact ih h
    | some g =>
      rw [hk] at h
      dsimp only at h
      split at h
      · cases h
      · next hnew =>
        have hnone : found.get? g = none := by simpa using hnew
        rw [← ih h, valuesOf_cons_known hk, get?_append_singleton found f g v hnone]
        by_cases hfg : f = g
        · subst hfg
          simp [hnone]
        · rw [if_neg hfg, if_neg hfg]

/-- Only a second value of a field is refused. -/
theorem repeats_of_collectInto {e : ParseError} (h : collectInto known found pairs = .error e) :
    ∃ f, e = .duplicateField f ∧ 2 ≤ ((found.get? f).toList ++ valuesOf known f pairs).length := by
  induction pairs generalizing found with
  | nil => cases h
  | cons p pairs ih =>
    obtain ⟨k, v⟩ := p
    rw [collectInto] at h
    cases hk : Field.ofKey? known k with
    | none =>
      rw [hk] at h
      obtain ⟨f, he, hlen⟩ := ih h
      exact ⟨f, he, by rwa [valuesOf_cons_unknown hk]⟩
    | some g =>
      rw [hk] at h
      dsimp only at h
      split at h
      · next hold =>
        cases h
        obtain ⟨u, hu⟩ := Option.isSome_iff_exists.mp hold
        refine ⟨g, rfl, ?_⟩
        rw [valuesOf_cons_known hk, if_pos rfl, hu]
        simp
      · next hnew =>
        have hnone : found.get? g = none := by simpa using hnew
        obtain ⟨f, he, hlen⟩ := ih h
        refine ⟨f, he, ?_⟩
        rw [get?_append_singleton found f g v hnone] at hlen
        rw [valuesOf_cons_known hk]
        by_cases hfg : f = g
        · subst hfg
          simpa [hnone] using hlen
        · rwa [if_neg hfg] at hlen ⊢

/-- **A field has the one value that stands under its key.** -/
theorem values_of_collect (h : collect known pairs = .ok fs) (f : Field) :
    valuesOf known f pairs = (fs.get? f).toList :=
  values_of_collectInto h f

/-- The value of a field is the one under its key. -/
theorem get?_of_collect (h : collect known pairs = .ok fs) (f : Field) :
    fs.get? f = (valuesOf known f pairs).head? := by
  rw [values_of_collect h f]
  cases fs.get? f <;> rfl

/-- **An object is refused for a known field under whose key two values stand**, and for nothing
else. -/
theorem repeats_of_collect {e : ParseError} (h : collect known pairs = .error e) :
    ∃ f, e = .duplicateField f ∧ 2 ≤ (valuesOf known f pairs).length :=
  repeats_of_collectInto h

/-- Fields are found if no known key has two values. -/
theorem exists_collect (h : ∀ f, (valuesOf known f pairs).length ≤ 1) :
    ∃ fs, collect known pairs = .ok fs := by
  cases hc : collect known pairs with
  | ok fs => exact ⟨fs, rfl⟩
  | error e =>
    obtain ⟨f, -, hlen⟩ := repeats_of_collect hc
    exact absurd (h f) (by omega)

/-- In an object that is accepted no known key has two values. -/
theorem length_valuesOf_le (h : collect known pairs = .ok fs) (f : Field) :
    (valuesOf known f pairs).length ≤ 1 := by
  rw [values_of_collect h f]
  exact Option.length_toList_le

/-! ## 3. Objects with other pairs -/

variable {ps qs : List (Value × Value)} {g : Field}

/-- An object with no more values under any known key is accepted too. -/
theorem exists_collect_of_le (h : collect known ps = .ok fs)
    (hle : ∀ f, (valuesOf known f qs).length ≤ (valuesOf known f ps).length) :
    ∃ gs, collect known qs = .ok gs := by
  refine exists_collect fun f => ?_
  have hone : (valuesOf known f ps).length ≤ 1 := length_valuesOf_le h f
  exact Nat.le_trans (hle f) hone

/-- **Objects with the same values have the same fields.** -/
theorem collect_of_values (h : collect known ps = .ok fs)
    (hval : ∀ f, valuesOf known f qs = valuesOf known f ps) :
    ∃ gs, collect known qs = .ok gs ∧ ∀ f, gs.get? f = fs.get? f := by
  obtain ⟨gs, hgs⟩ := exists_collect_of_le h fun f => Nat.le_of_eq (congrArg _ (hval f))
  refine ⟨gs, hgs, fun f => ?_⟩
  rw [get?_of_collect hgs, get?_of_collect h, hval f]

/-- **The order of the pairs does not matter.** -/
theorem collect_of_perm (h : collect known ps = .ok fs) (hperm : ps.Perm qs) :
    ∃ gs, collect known qs = .ok gs ∧ ∀ f, gs.get? f = fs.get? f := by
  refine collect_of_values h fun f => ?_
  have hone : (valuesOf known f ps).length ≤ 1 := length_valuesOf_le h f
  have hvalues : (valuesOf known f ps).Perm (valuesOf known f qs) := valuesOf_perm f hperm
  match hl : valuesOf known f ps, hone with
  | [], _ => rw [hl] at hvalues; exact hvalues.nil_eq.symm
  | [v], _ => rw [hl] at hvalues; exact List.perm_singleton.mp hvalues.symm

/-- Where other fields are known, those known in both places have the same values. -/
theorem collect_of_known {known' : List Field} (h : collect known ps = .ok fs)
    (hone : ∀ f ∈ known', (f.values ps).length ≤ 1) :
    ∃ gs, collect known' ps = .ok gs ∧ ∀ f ∈ known, f ∈ known' → gs.get? f = fs.get? f := by
  have hle : ∀ f, (valuesOf known' f ps).length ≤ 1 := by
    intro f
    by_cases hf : f ∈ known'
    · rw [valuesOf_of_mem hf]
      exact hone f hf
    · rw [valuesOf_of_not_mem hf]
      exact Nat.zero_le _
  obtain ⟨gs, hgs⟩ := exists_collect hle
  refine ⟨gs, hgs, fun f hf hf' => ?_⟩
  rw [get?_of_collect hgs, get?_of_collect h, valuesOf_of_mem hf, valuesOf_of_mem hf']

/-- The values of an object in which one pair stands under the key of a field. -/
theorem valuesOf_middle (hg : g ∈ known) (v : Value) (f : Field) :
    valuesOf known f (ps ++ (g.value, v) :: qs) =
      if f = g then valuesOf known f ps ++ v :: valuesOf known f qs
      else valuesOf known f (ps ++ qs) := by
  rw [valuesOf_append, valuesOf_cons_known (Field.ofKey?_value hg) v qs f, valuesOf_append]
  split <;> rfl

/-- An accepted object has its value under a key nowhere else. -/
theorem values_around (hg : g ∈ known) {v : Value}
    (h : collect known (ps ++ (g.value, v) :: qs) = .ok fs) :
    valuesOf known g ps = [] ∧ valuesOf known g qs = [] := by
  have hone := length_valuesOf_le h g
  rw [valuesOf_middle hg, if_pos rfl, List.length_append, List.length_cons] at hone
  constructor <;> refine List.eq_nil_of_length_eq_zero ?_ <;> omega

/-- **Another value of one field changes no other field.** -/
theorem collect_replace (hg : g ∈ known) {v : Value} (w : Value)
    (h : collect known (ps ++ (g.value, v) :: qs) = .ok fs) :
    fs.get? g = some v ∧ ∃ gs, collect known (ps ++ (g.value, w) :: qs) = .ok gs ∧
      gs.get? g = some w ∧ ∀ f, f ≠ g → gs.get? f = fs.get? f := by
  obtain ⟨hps, hqs⟩ := values_around hg h
  have hvalue : ∀ u, valuesOf known g (ps ++ (g.value, u) :: qs) = [u] := by
    intro u
    rw [valuesOf_middle hg, if_pos rfl, hps, hqs]
    rfl
  have hother : ∀ f, f ≠ g → valuesOf known f (ps ++ (g.value, w) :: qs) =
      valuesOf known f (ps ++ (g.value, v) :: qs) := by
    intro f hf
    rw [valuesOf_middle hg, valuesOf_middle hg, if_neg hf, if_neg hf]
  have hle : ∀ f, (valuesOf known f (ps ++ (g.value, w) :: qs)).length ≤
      (valuesOf known f (ps ++ (g.value, v) :: qs)).length := by
    intro f
    refine Nat.le_of_eq ?_
    by_cases hf : f = g
    · subst hf
      simp only [hvalue, List.length_singleton]
    · rw [hother f hf]
  obtain ⟨gs, hgs⟩ := exists_collect_of_le h hle
  refine ⟨by rw [get?_of_collect h, hvalue]; rfl, gs, hgs, ?_, fun f hf => ?_⟩
  · rw [get?_of_collect hgs, hvalue]
    rfl
  · rw [get?_of_collect hgs, get?_of_collect h, hother f hf]

/-- **A field that is dropped changes no other field.** -/
theorem collect_drop (hg : g ∈ known) {v : Value}
    (h : collect known (ps ++ (g.value, v) :: qs) = .ok fs) :
    ∃ gs, collect known (ps ++ qs) = .ok gs ∧ ∀ f, f ≠ g → gs.get? f = fs.get? f := by
  obtain ⟨hps, hqs⟩ := values_around hg h
  have hother : ∀ f, f ≠ g → valuesOf known f (ps ++ qs) =
      valuesOf known f (ps ++ (g.value, v) :: qs) := by
    intro f hf
    rw [valuesOf_middle hg, if_neg hf]
  have hle : ∀ f, (valuesOf known f (ps ++ qs)).length ≤
      (valuesOf known f (ps ++ (g.value, v) :: qs)).length := by
    intro f
    by_cases hf : f = g
    · rw [hf, valuesOf_append, hps, hqs]
      exact Nat.zero_le _
    · exact Nat.le_of_eq (congrArg List.length (hother f hf))
  obtain ⟨gs, hgs⟩ := exists_collect_of_le h hle
  refine ⟨gs, hgs, fun f hf => ?_⟩
  rw [get?_of_collect hgs, get?_of_collect h, hother f hf]

end Fields

end ContractAbi
