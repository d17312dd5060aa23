import ContractAbi.Proofs.AbiType.Levels
import ContractAbi.Proofs.Ceiling
import ContractAbi.Proofs.TypeName.Reading

/-!
# Reading names under a ceiling

A ceiling is compared with the depth of every name that is read on the way: once for the name
itself, once behind every array suffix, and once for every element of a tuple.  What is left of all
these comparisons is one: the depth of the name and the levels that it spells, together, against the
ceiling (`filters_readWithin`).

So a name that is read without a ceiling is read under one, or refused for nesting too deep, and a
name that is not read stays unread.
-/

namespace ContractAbi.TypeName

/-! ## 1. Depth without a ceiling -/

/-- **Without a ceiling the depth of a name does not matter.** -/
theorem readWithin_unlimited_depth (budget : Nat) (name : Text) (d d' : Int) :
    readWithin .unlimited budget name d = readWithin .unlimited budget name d' := by
  induction budget, name, d using reading_induction generalizing d' with
  | zero name d => rfl
  | succ budget name d hinner hpiece =>
    rw [readWithin_unlimited, readWithin_unlimited]
    exact readEnd_congr (fun before body hend => hinner before body hend _ _)
      fun _ _ p _ _ _ => hpiece p _ _

theorem readAt_unlimited (name : Text) (depth : Int) {limit : Nat} :
    readAt .unlimited name depth limit = read .unlimited name limit :=
  readWithin_unlimited_depth _ name depth 0

/-! ## 2. Any ceiling -/

/-- A name that is read by its end is read by better readers of its parts. -/
theorem readEnd_mono {inner inner' piece piece' : Text → Except Failure AbiType} {name : Text}
    {t : AbiType}
    (hinner : ∀ before body u, ending name = .suffix before body → inner before = .ok u →
      inner' before = .ok u)
    (hpiece : ∀ p u, piece p = .ok u → piece' p = .ok u) (h : readEnd inner piece name = .ok t) :
    readEnd inner' piece' name = .ok t := by
  unfold readEnd at h ⊢
  split at h
  · exact h
  · cases h
  · next body hend =>
    split at h
    · cases h
    · next ps hps =>
      obtain ⟨ts, hts, rfl⟩ := Outcome.map_eq_ok_iff.mp h
      obtain ⟨es, rfl, rfl, hes⟩ := Outcome.mapM_eq_ok_iff_pairs.mp hts
      have hts' : (es.map (·.1)).mapM piece' = .ok (es.map (·.2)) :=
        Outcome.mapM_eq_ok_iff_pairs.mpr ⟨es, rfl, rfl, fun e he => hpiece _ _ (hes e he)⟩
      exact Outcome.map_eq_ok_iff.mpr ⟨_, hts', rfl⟩
  · next before body hend =>
    obtain ⟨dim, hdim, h⟩ := Outcome.bind_eq_ok_iff.mp h
    obtain ⟨u, hu, rfl⟩ := Outcome.map_eq_ok_iff.mp h
    refine Outcome.bind_eq_ok_iff.mpr ⟨dim, hdim, ?_⟩
    exact Outcome.map_eq_ok_iff.mpr ⟨u, hinner before body u hend hu, rfl⟩
  · cases h

/-- What is read under a ceiling is read without one, be it a depth or what is no number at all. -/
theorem readWithin_unlimited_of_ok {ceiling : Ceiling} {budget : Nat} {name : Text} {depth : Int}
    {t : AbiType} (h : readWithin ceiling budget name depth = .ok t) :
    readWithin .unlimited budget name depth = .ok t := by
  induction budget, name, depth using reading_induction generalizing t with
  | zero name depth => cases h
  | succ budget name depth hinner hpiece =>
    rw [readWithin_succ] at h
    obtain ⟨_, -, h⟩ := Outcome.bind_eq_ok_iff.mp h
    rw [readWithin_unlimited]
    exact readEnd_mono (fun before body u hend hu => hinner before body hend _ hu)
      (fun p u hu => hpiece p _ hu) h

/-- **What is read under any ceiling at any depth is read without.** -/
theorem read_of_readAt {ceiling : Ceiling} {name : Text} {depth : Int} {limit : Nat} {t : AbiType}
    (h : readAt ceiling name depth limit = .ok t) : read .unlimited name limit = .ok t := by
  rw [← readAt_unlimited name depth]
  exact readWithin_unlimited_of_ok h

/-! ## 3. Levels against the ceiling -/

/-- What a reading from a depth comes to stays within a bound, if it comes to anything. -/
def Within (m depth : Int) (r : Except Failure AbiType) : Prop :=
  ∀ t, r = .ok t → depth + t.spelledLevels ≤ m

theorem within_ok {m depth : Int} {t : AbiType} :
    Within m depth (.ok t) ↔ depth + t.spelledLevels ≤ m :=
  ⟨fun h => h t rfl, fun h u hu => by cases hu; exact h⟩

/-- The pieces of a group stay within a bound one level further in exactly if the tuple does. -/
theorem within_tuple {m depth : Int} {piece : Text → Except Failure AbiType} {ps : List Text}
    {ts : List AbiType} (hne : ps ≠ []) (h : ps.mapM piece = .ok ts) :
    (∀ p ∈ ps, Within m (depth + 1) (piece p)) ↔
      depth + (AbiType.spelledLevels (.tuple ts) : Nat) ≤ m := by
  obtain ⟨es, rfl, rfl, hes⟩ := Outcome.mapM_eq_ok_iff_pairs.mp h
  have hne' : es.map (·.2) ≠ [] := mt List.map_eq_nil_iff.mp (mt List.map_eq_nil_iff.mpr hne)
  have hlevels : (∀ p ∈ es.map (·.1), Within m (depth + 1) (piece p)) ↔
      ∀ t ∈ es.map (·.2), depth + 1 + (t.spelledLevels : Nat) ≤ m := by
    simp only [List.forall_mem_map]
    refine forall₂_congr fun e he => ?_
    rw [hes e he, within_ok]
  rw [hlevels, AbiType.spelledLevels_tuple hne', ← add_foldr_max_le_iff hne']
  omega

/-- A word spells no level. -/
theorem spelledLevels_of_word {s : Text} {t : AbiType} (h : Word s t) : t.spelledLevels = 0 := by
  cases h <;> rfl

variable {m depth : Int} {name : Text}

/-- An end that is read stays within a bound as its parts do. -/
theorem filters_readEnd {inner inner' piece piece' : Text → Except Failure AbiType}
    (hdepth : depth ≤ m)
    (hinner : ∀ before body, ending name = .suffix before body →
      Filters m (Within m (depth + 1) (inner before)) (inner before) (inner' before))
    (hpiece : ∀ p, Filters m (Within m (depth + 1) (piece p)) (piece p) (piece' p)) :
    Filters m (Within m depth (readEnd inner piece name)) (readEnd inner piece name)
      (readEnd inner' piece' name) := by
  unfold readEnd
  cases hend : ending name with
  | bare =>
    dsimp only
    refine (filters_refl m _).congr fun t ht => iff_of_true trivial ?_
    rw [ht, within_ok, spelledLevels_of_word (word_of_readScalar ht)]
    simpa using hdepth
  | faulty f => exact filters_error m _ _
  | group body =>
    dsimp only
    cases hpieces : pieces body with
    | error f => exact filters_error m _ _
    | ok ps =>
      dsimp only
      refine ((filters_mapM fun p _ => hpiece p).map TypeTree.tuple).congr fun t ht => ?_
      obtain ⟨ts, hts, rfl⟩ := Outcome.map_eq_ok_iff.mp ht
      rw [ht, within_ok]
      exact within_tuple (join_of_split (pieces_eq_ok_iff.mp hpieces).1).2 hts
  | suffix before body =>
    dsimp only
    have hrest := fun dim => (hinner before body hend).map fun t => TypeTree.arrayOf t dim
    refine ((filters_refl m (dimension body name)).bind fun dim _ => hrest dim).congr
      fun t ht => ?_
    obtain ⟨dim, hdim, hmap⟩ := Outcome.bind_eq_ok_iff.mp ht
    obtain ⟨u, hu, rfl⟩ := Outcome.map_eq_ok_iff.mp hmap
    rw [ht, within_ok, hu, within_ok, AbiType.spelledLevels_arrayOf]
    constructor
    · rintro ⟨-, h⟩
      have h := h dim hdim
      omega
    · intro h
      exact ⟨trivial, fun _ _ => by omega⟩
  | braces => exact filters_error m _ _

/-- **A ceiling refuses a name exactly if its depth and the levels that it spells lie beyond
it.** -/
theorem filters_readWithin (m : Int) (budget : Nat) (name : Text) (depth : Int) :
    Filters m (Within m depth (readWithin .unlimited budget name depth))
      (readWithin .unlimited budget name depth) (readWithin (.limit m) budget name depth) := by
  induction budget, name, depth using reading_induction with
  | zero name depth => exact filters_refused nofun
  | succ budget name depth hinner hpiece =>
    rw [readWithin_succ, readWithin_succ]
    by_cases hdepth : depth ≤ m
    · have hend := filters_readEnd hdepth (fun before body hend => hinner before body hend _)
        fun p => hpiece p _
      refine ((filters_check m depth).bind fun _ _ => hend).congr fun t ht => ?_
      simp only [hdepth, true_and]
      exact ⟨fun h => h () rfl, fun h _ _ => h⟩
    · rw [check_limit, if_neg hdepth]
      refine filters_refused fun t ht hfits => hdepth ?_
      have hle := hfits t ht
      omega

theorem filters_readAt (m : Int) (name : Text) (depth : Int) (limit : Nat) :
    Filters m (Within m depth (read .unlimited name limit)) (readAt .unlimited name depth limit)
      (readAt (.limit m) name depth limit) := by
  have h := filters_readWithin m (limit + 1) name depth
  rwa [← readAt_unlimited name depth]

/-- **The ceiling of a name is exact.**  A name that is read without a ceiling is read as the same
type under one, as far as its depth and the levels that it spells stay within it, and is refused
from there on, with the ceiling as what is reported.  A name that is not read stays so, if it is not
refused before that shows.  However many tuples in one another are read makes no difference. -/
theorem readAt_under_limit (m depth : Int) (name : Text) (limit : Nat) :
    (∀ t, readAt .unlimited name depth limit = .ok t →
      readAt (.limit m) name depth limit =
        if depth + t.spelledLevels ≤ m then .ok t else .error (Ceiling.refusal m)) ∧
      (∀ e, readAt .unlimited name depth limit = .error e →
        readAt (.limit m) name depth limit = .error e ∨
          readAt (.limit m) name depth limit = .error (Ceiling.refusal m)) ∧
      (Ceiling.refusal m).report?.map (fun r => (r.kind, r.attributes)) =
        some (ReportKind.nestingTooDeep, [(("max_depth" : Text), Value.int m)]) := by
  have hfilters := filters_readAt m name depth limit
  refine ⟨fun t ht => ?_, hfilters.fails, rfl⟩
  have hread : read .unlimited name limit = .ok t := by rwa [← readAt_unlimited name depth]
  by_cases hfits : depth + t.spelledLevels ≤ m
  · rw [if_pos hfits]
    exact hfilters.keeps t ht (by rwa [hread, within_ok])
  · rw [if_neg hfits]
    exact hfilters.refuses t ht (by rwa [hread, within_ok])

/-- A tuple of which the second element is the deeper one, four levels below a depth of three; and a
name with a bracket that closes nothing, behind which a suffix is a level too many. -/
theorem readAt_under_limit_mixed :
    let name : Text := "[bool[],[tuple,uint8][2]][]"
    let t : AbiType :=
      .array (.tuple [.array (.leaf .bool), .fixedArray (.tuple [.tuple [], .leaf (.uint 8)]) 2])
    readAt (.limit 7) name 3 = .ok t ∧
      readAt (.limit 6) name 3 = .error (.refused (.tooDeep (.limit 6))) ∧
      (readAt (.limit 0) "bool][]" 0 = .error (.refused (.name "bool]" .unbalanced)) ∨
        readAt (.limit 0) "bool][]" 0 = .error (.refused (.tooDeep (.limit 0)))) := by
  intro name t
  have hfree : readAt .unlimited name 3 = .ok t :=
    Outcome.toOption_eq_some_iff.mp (by decide +kernel)
  have hstray : readAt .unlimited "bool][]" 0 = .error (.refused (.name "bool]" .unbalanced)) := by
    rw [readAt, readWithin_unlimited, readEnd,
      show ending "bool][]" = .suffix "bool]" [] from rfl]
    dsimp only
    rw [readWithin_unlimited, readEnd, show ending "bool]" = .faulty .unbalanced from rfl]
    rfl
  exact ⟨(readAt_under_limit 7 3 name _).1 t hfree, (readAt_under_limit 6 3 name _).1 t hfree,
    (readAt_under_limit 0 0 "bool][]" _).2.1 _ hstray⟩

end ContractAbi.TypeName
