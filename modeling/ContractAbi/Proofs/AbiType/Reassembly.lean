import ContractAbi.Draft.Build
import ContractAbi.Proofs.Outcome

/-!
# Types through their constructors

Whoever puts a type together by hand has it checked at every node: widths must be positive, lengths
must be whole numbers, and elements must be types.  A type that comes from a parser was not checked
so.  But it may be taken apart and put together again through these checks (`AbiType.reassemble`),
and nothing is refused exactly if the type is well-formed (`reassemble_eq_ok_iff`).
-/

namespace ContractAbi

/-- The width of a scalar that has one. -/
def Scalar.width? : Scalar → Option Nat
  | .int n | .uint n | .fixedBytes n => some n
  | _ => none

namespace AbiType

mutual

/-- Puts a type together again, from its leaves up and through every check. -/
def reassemble : AbiType → Except Rejection Draft
  | .leaf s =>
    Draft.assemble (Draft.typeClass (.leaf (some s))) (s.width?.toList.map fun (n : Nat) => .int n)
  | .array t => do
    let d ← reassemble t
    Draft.assemble .array [.draft d]
  | .fixedArray t n => do
    let d ← reassemble t
    Draft.assemble .fixedArray [.draft d, .int n]
  | .tuple ts => do
    let ds ← reassembleAll ts
    Draft.assemble .tuple [.tuple (ds.map .draft)]

/-- Puts several types together again. -/
def reassembleAll : List AbiType → Except Rejection (List Draft)
  | [] => .ok []
  | t :: ts => do
    let d ← reassemble t
    let ds ← reassembleAll ts
    pure (d :: ds)

end

@[simp] theorem reassembleAll_eq (ts : List AbiType) : reassembleAll ts = ts.mapM reassemble := by
  induction ts with
  | nil => rfl
  | cons t ts ih => rw [reassembleAll, ih, List.mapM_cons]

/-- The elements of a tuple that are types are not refused. -/
theorem asElements_drafts (ds : List Draft) :
    Draft.asElements (.tuple (ds.map .draft)) = .ok ds := by
  have hds : (ds.map Value.draft).mapM (Draft.asElement .tuple) = .ok ds := by
    rw [Outcome.mapM_eq_ok_iff, List.map_map]
    rfl
  exact hds

/-- A scalar is refused for a width that is not positive, and for nothing else. -/
theorem reassemble_leaf_eq_ok_iff {s : Scalar} :
    reassemble (.leaf s) = .ok (Draft.ofType (.leaf s)) ↔ s.WellFormed := by
  have hsized : ∀ (k : Sized) n, (k.scalar? n).map (fun s => (TypeTree.leaf (some s) : Draft)) =
      .ok (.leaf (some (k.scalar n))) ↔ 0 < n := by
    intro k n
    rw [Outcome.map_eq_ok_iff]
    constructor
    · rintro ⟨s, hs, -⟩
      exact (Sized.scalar?_eq_ok_iff.mp hs).1
    · intro hpos
      exact ⟨_, Sized.scalar?_eq_ok_iff.mpr ⟨hpos, rfl⟩, rfl⟩
  cases s with
  | int n => exact hsized .int n
  | uint n => exact hsized .uint n
  | fixedBytes n => exact hsized .fixedBytes n
  | _ => exact iff_of_true rfl trivial

/-- **The constructors accept exactly the well-formed types**, and make the same of them. -/
theorem reassemble_eq_ok_iff {t : AbiType} :
    reassemble t = .ok (Draft.ofType t) ↔ t.WellFormed := by
  induction t using TypeTree.induction with
  | leaf s => rw [reassemble_leaf_eq_ok_iff, wellFormed_leaf]
  | array t ih =>
    rw [wellFormed_array, ← ih, reassemble, Outcome.bind_eq_ok_iff]
    constructor
    · rintro ⟨d, hd, h⟩
      cases h
      exact hd
    · intro h
      exact ⟨_, h, rfl⟩
  | fixedArray t n ih =>
    rw [wellFormed_fixedArray, ← ih, reassemble, Outcome.bind_eq_ok_iff]
    constructor
    · rintro ⟨d, hd, h⟩
      cases h
      exact hd
    · intro h
      exact ⟨_, h, rfl⟩
  | tuple ts ih =>
    have hall : ts.mapM reassemble = .ok (ts.map Draft.ofType) ↔ ∀ t ∈ ts, WellFormed t := by
      rw [Outcome.mapM_eq_ok_iff, List.map_map, List.map_inj_left]
      exact forall₂_congr ih
    rw [wellFormed_tuple, ← hall, reassemble, reassembleAll_eq, Outcome.bind_eq_ok_iff]
    have hdraft : Draft.ofType (.tuple ts) = .tuple (ts.map Draft.ofType) := by
      rw [Draft.ofType, TypeTree.map, TypeTree.mapAll_eq]
      rfl
    constructor
    · rintro ⟨ds, hds, h⟩
      rw [Draft.assemble, asElements_drafts, hdraft] at h
      cases h
      exact hds
    · intro h
      refine ⟨_, h, ?_⟩
      rw [Draft.assemble, asElements_drafts, hdraft]
      rfl

end AbiType

end ContractAbi
