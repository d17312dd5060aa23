import ContractAbi.Draft
import ContractAbi.Json.Write
import ContractAbi.Text.Lines
import Mathlib.Tactic.SplitIfs

/-!
# Texts on one line

Whoever reads results line by line relies on their being written on one line each.  `Text.OneLine`
says that there is no line feed in a text.

Most of what is written is so whatever it is made of: numerals, the names of types, how a type was
put together, quoted text (`Quoted.oneLine_text`) and all JSON (`Json.oneLine_write`).  In the last
two a line feed is escaped.
-/

namespace ContractAbi

/-! ## 1. Texts -/

namespace Text

/-- There is no line feed in a text. -/
def OneLine (t : Text) : Prop := Lines.feed ∉ t

instance (t : Text) : Decidable (OneLine t) := inferInstanceAs (Decidable (_ ∉ t))

variable {s t sep : Text}

@[simp] theorem oneLine_append : OneLine (s ++ t) ↔ OneLine s ∧ OneLine t := by
  simp only [OneLine, List.mem_append, not_or]

theorem oneLine_cons {c : CodePoint} : OneLine (c :: t) ↔ c ≠ Lines.feed ∧ OneLine t := by
  rw [OneLine, List.mem_cons, not_or, ← ne_eq, ne_comm, OneLine]

theorem oneLine_singleton {c : CodePoint} : OneLine [c] ↔ c ≠ Lines.feed := by
  rw [OneLine, List.mem_singleton, ← ne_eq, ne_comm]

theorem oneLine_ite {p : Prop} [Decidable p] (hs : p → OneLine s) (ht : OneLine t) :
    OneLine (if p then s else t) := by
  split
  · next hp => exact hs hp
  · exact ht

/-- A part of a text on one line is on one line. -/
theorem OneLine.of_subset (h : OneLine t) (hs : s ⊆ t) : OneLine s := fun hmem => h (hs hmem)

theorem oneLine_join {ts : List Text} (hsep : OneLine sep) (h : ∀ t ∈ ts, OneLine t) :
    OneLine (join sep ts) := by
  induction ts with
  | nil => exact List.not_mem_nil
  | cons t ts ih =>
    rw [List.forall_mem_cons] at h
    cases ts with
    | nil => exact h.1
    | cons u ts =>
      rw [join_cons_cons, oneLine_append, oneLine_append]
      exact ⟨⟨h.1, hsep⟩, ih h.2⟩

theorem oneLine_flatMap {f : CodePoint → Text} (h : ∀ c, OneLine (f c)) (t : Text) :
    OneLine (t.flatMap f) := by
  intro hmem
  obtain ⟨c, -, hc⟩ := List.mem_flatMap.mp hmem
  exact h c hc

end Text

open Text (OneLine)

/-! ## 2. Numerals -/

theorem Decimal.oneLine_render (n : Nat) : OneLine (render n) := by
  intro hmem
  have hdigit : isDigit Lines.feed = true := isDigit_of_mem_render hmem
  cases hdigit

theorem Decimal.oneLine_renderInt (i : Int) : OneLine (renderInt i) := by
  cases i with
  | ofNat n => exact oneLine_render n
  | negSucc n => exact Text.oneLine_cons.mpr ⟨by decide, oneLine_render (n + 1)⟩

theorem Hex.oneLine_digits (width n : Nat) : OneLine (digits width n) := by
  induction width generalizing n with
  | zero => exact List.not_mem_nil
  | succ width ih =>
    have hdigit : digit n ≠ Lines.feed := by
      intro h
      have hval : (digit n).val = 10 := by
        rw [h]
        rfl
      unfold digit at hval
      split at hval
      · have hdecimal : 48 + n % 16 = 10 := hval
        omega
      · have hletter : 87 + n % 16 = 10 := hval
        omega
    rw [digits, Text.oneLine_append, Text.oneLine_singleton]
    exact ⟨ih _, hdigit⟩

namespace Binary64

theorem oneLine_zeros (n : Nat) : OneLine (zeros n) := by
  intro hmem
  cases List.eq_of_mem_replicate hmem

theorem oneLine_significant (c : Nat) : OneLine (significant c) := by
  refine (Decimal.oneLine_render c).of_subset fun d hd => ?_
  rw [significant, List.mem_reverse] at hd
  exact List.mem_reverse.mp ((List.dropWhile_sublist _).subset hd)

variable {ds : Text}

theorem oneLine_positional (h : OneLine ds) (point : Int) : OneLine (positional ds point) := by
  unfold positional
  refine Text.oneLine_ite (fun _ => ?_) ?_
  · rw [Text.oneLine_append, Text.oneLine_append]
    exact ⟨⟨by decide, oneLine_zeros _⟩, h⟩
  refine Text.oneLine_ite (fun _ => ?_) ?_
  · rw [Text.oneLine_append, Text.oneLine_append]
    exact ⟨⟨h, oneLine_zeros _⟩, by decide⟩
  · rw [Text.oneLine_append, Text.oneLine_append]
    exact ⟨⟨h.of_subset (List.take_subset ..), by decide⟩, h.of_subset (List.drop_subset ..)⟩

theorem oneLine_scientific (h : OneLine ds) (exponent : Int) :
    OneLine (scientific ds exponent) := by
  have hfraction : OneLine (if 1 < ds.length then ("." : Text) ++ ds.drop 1 else []) := by
    refine Text.oneLine_ite (fun _ => ?_) List.not_mem_nil
    exact Text.oneLine_append.mpr ⟨by decide, h.of_subset (List.drop_subset ..)⟩
  have hmark : OneLine (if exponent < 0 then "e-" else "e+") :=
    Text.oneLine_ite (fun _ => by decide) (by decide)
  simp only [scientific, Text.oneLine_append]
  exact ⟨⟨⟨⟨h.of_subset (List.take_subset ..), hfraction⟩, hmark⟩, oneLine_zeros _⟩,
    Decimal.oneLine_render _⟩

theorem oneLine_text (x : Binary64) : OneLine x.text := by
  cases x with
  | nan => exact (by decide : OneLine "nan")
  | infinity neg => cases neg <;> decide
  | finite neg m q =>
    have hsign : OneLine (if neg then "-" else "") := by cases neg <;> decide
    unfold text
    dsimp only
    split
    · exact Text.oneLine_append.mpr ⟨hsign, by decide⟩
    · rw [Text.oneLine_append]
      refine ⟨hsign, ?_⟩
      split
      · exact oneLine_positional (oneLine_significant _) _
      · exact oneLine_scientific (oneLine_significant _) _

end Binary64

/-! ## 3. Quoted text -/

namespace Quoted

theorem oneLine_numbered (n : Nat) : OneLine (numbered n) := by
  unfold numbered
  refine Text.oneLine_ite (fun _ => ?_) ?_
  · exact Text.oneLine_append.mpr ⟨by decide, Hex.oneLine_digits 2 n⟩
  refine Text.oneLine_ite (fun _ => ?_) ?_
  · exact Text.oneLine_append.mpr ⟨by decide, Hex.oneLine_digits 4 n⟩
  · exact Text.oneLine_append.mpr ⟨by decide, Hex.oneLine_digits 8 n⟩

theorem oneLine_of_named? {n : Nat} {t : Text} (h : named? n = some t) : OneLine t := by
  unfold named? at h
  split_ifs at h <;> cases h <;> decide

/-- A line feed has an escape of its own, and is not printable. -/
theorem oneLine_escape {mark : CodePoint} (hmark : mark ≠ Lines.feed) (c : CodePoint) :
    OneLine (escape mark c) := by
  unfold escape
  split
  · next h =>
    rw [h]
    exact Text.oneLine_cons.mpr ⟨by decide, Text.oneLine_singleton.mpr hmark⟩
  · split
    · next hnamed => exact oneLine_of_named? hnamed
    · split
      · next hprintable =>
        refine Text.oneLine_singleton.mpr ?_
        rintro rfl
        cases hprintable
      · exact oneLine_numbered _

/-- **A quoted text is on one line**, whatever it holds. -/
theorem oneLine_text (t : Text) : OneLine (text t) := by
  have hmark : ∀ single double, markFor single double ≠ Lines.feed := by decide
  rw [text, List.cons_append, Text.oneLine_cons, Text.oneLine_append, Text.oneLine_singleton]
  exact ⟨hmark _ _, Text.oneLine_flatMap (oneLine_escape (hmark _ _)) t, hmark _ _⟩

end Quoted

/-! ## 4. JSON -/

namespace Json

theorem oneLine_escapeUnit (n : Nat) : OneLine (escapeUnit n) :=
  Text.oneLine_append.mpr ⟨by decide, Hex.oneLine_digits 4 n⟩

theorem oneLine_escape (c : CodePoint) : OneLine (escape c) := by
  unfold escape
  refine Text.oneLine_ite (fun _ => by decide) ?_
  refine Text.oneLine_ite (fun _ => by decide) ?_
  refine Text.oneLine_ite (fun hplain => Text.oneLine_singleton.mpr ?_) ?_
  · rintro rfl
    exact absurd hplain.1 (by decide)
  iterate 5 refine Text.oneLine_ite (fun _ => by decide) ?_
  refine Text.oneLine_ite (fun _ => oneLine_escapeUnit _) ?_
  exact Text.oneLine_append.mpr ⟨oneLine_escapeUnit _, oneLine_escapeUnit _⟩

theorem oneLine_writeText (t : Text) : OneLine (writeText t) := by
  rw [writeText, Text.oneLine_append, Text.oneLine_append]
  exact ⟨⟨by decide, Text.oneLine_flatMap oneLine_escape t⟩, by decide⟩

theorem oneLine_writeFloat (x : Binary64) : OneLine (writeFloat x) := by
  cases x with
  | nan => exact (by decide : OneLine "NaN")
  | infinity neg => cases neg <;> decide
  | finite neg m q => exact Binary64.oneLine_text (.finite neg m q)

mutual

/-- **All JSON is written on one line.** -/
theorem oneLine_write : (j : Json) → OneLine (write j)
  | .null => by rw [write]; decide
  | .bool b => by cases b <;> rw [write] <;> decide
  | .int i => by
    rw [write]
    exact Decimal.oneLine_renderInt i
  | .float x => by
    rw [write]
    exact oneLine_writeFloat x
  | .text t => by
    rw [write]
    exact oneLine_writeText t
  | .array items => by
    rw [write, Text.oneLine_append, Text.oneLine_append]
    exact ⟨⟨by decide, Text.oneLine_join (by decide) (oneLine_writeAll items)⟩, by decide⟩
  | .object fields => by
    rw [write, Text.oneLine_append, Text.oneLine_append]
    exact ⟨⟨by decide, Text.oneLine_join (by decide) (oneLine_writeFields fields)⟩, by decide⟩

theorem oneLine_writeAll : (js : List Json) → ∀ t ∈ writeAll js, OneLine t
  | [] => by
    rw [writeAll]
    exact fun t ht => absurd ht List.not_mem_nil
  | j :: js => by
    rw [writeAll, List.forall_mem_cons]
    exact ⟨oneLine_write j, oneLine_writeAll js⟩

theorem oneLine_writeFields : (fields : List (Text × Json)) → ∀ t ∈ writeFields fields, OneLine t
  | [] => by
    rw [writeFields]
    exact fun t ht => absurd ht List.not_mem_nil
  | (name, j) :: fields => by
    rw [writeFields, List.forall_mem_cons, Text.oneLine_append, Text.oneLine_append]
    exact ⟨⟨⟨oneLine_writeText name, by decide⟩, oneLine_write j⟩, oneLine_writeFields fields⟩

end

end Json

/-! ## 5. Types -/

theorem Scalar.oneLine_name (s : Scalar) : OneLine s.name := by
  cases s with
  | int n | uint n | fixedBytes n =>
    exact Text.oneLine_append.mpr ⟨by decide, Decimal.oneLine_render n⟩
  | _ => decide

namespace AbiType

theorem oneLine_suffix (dim : TypeTree.Dimension) : OneLine (suffix dim) := by
  cases dim with
  | none => decide
  | some n =>
    rw [suffix, Text.oneLine_append, Text.oneLine_append]
    exact ⟨⟨by decide, Decimal.oneLine_render n⟩, by decide⟩

theorem oneLine_join_map {name : AbiType → Text} {ts : List AbiType}
    (h : ∀ t ∈ ts, OneLine (name t)) : OneLine (Text.join "," (ts.map name)) := by
  refine Text.oneLine_join (by decide) fun t ht => ?_
  obtain ⟨u, hu, rfl⟩ := List.mem_map.mp ht
  exact h u hu

theorem oneLine_selector (t : AbiType) : OneLine t.selector := by
  induction t using TypeTree.induction with
  | leaf s =>
    rw [selector]
    exact s.oneLine_name
  | array t ih =>
    rw [selector, Text.oneLine_append]
    exact ⟨ih, oneLine_suffix none⟩
  | fixedArray t n ih =>
    rw [selector, Text.oneLine_append]
    exact ⟨ih, oneLine_suffix (some n)⟩
  | tuple ts ih =>
    rw [selector, selectors_eq, Text.oneLine_append, Text.oneLine_append]
    exact ⟨⟨by decide, oneLine_join_map ih⟩, by decide⟩

theorem oneLine_canonical (t : AbiType) : OneLine t.canonical := by
  induction t using TypeTree.induction with
  | leaf s =>
    rw [canonical]
    exact s.oneLine_name
  | array t ih =>
    rw [canonical, Text.oneLine_append]
    exact ⟨ih, oneLine_suffix none⟩
  | fixedArray t n ih =>
    rw [canonical, Text.oneLine_append]
    exact ⟨ih, oneLine_suffix (some n)⟩
  | tuple ts ih =>
    cases ts with
    | nil => decide
    | cons t ts =>
      rw [canonical, canonicals_eq, ← List.map_cons, Text.oneLine_append, Text.oneLine_append]
      exact ⟨⟨by decide, oneLine_join_map ih⟩, by decide⟩

end AbiType

namespace Draft

theorem oneLine_leafText (s : Option Scalar) : OneLine (leafText s) := by
  cases s with
  | none => decide
  | some s =>
    cases s with
    | int n | uint n | fixedBytes n =>
      rw [leafText, Text.oneLine_append, Text.oneLine_append]
      exact ⟨⟨by decide, Decimal.oneLine_render n⟩, by decide⟩
    | _ => decide

theorem oneLine_sequenceText {ts : List Text} (h : ∀ t ∈ ts, OneLine t) :
    OneLine (sequenceText ts) := by
  unfold sequenceText
  split
  · decide
  · rw [Text.oneLine_append, Text.oneLine_append]
    exact ⟨⟨by decide, h _ (List.mem_cons_self ..)⟩, by decide⟩
  · rw [Text.oneLine_append, Text.oneLine_append]
    exact ⟨⟨by decide, Text.oneLine_join (by decide) h⟩, by decide⟩

/-- How a type was put together is told on one line. -/
theorem oneLine_text (d : Draft) : OneLine d.text := by
  induction d using TypeTree.induction with
  | leaf s =>
    rw [text]
    exact oneLine_leafText s
  | array d ih =>
    rw [text, Text.oneLine_append, Text.oneLine_append]
    exact ⟨⟨by decide, ih⟩, by decide⟩
  | fixedArray d n ih =>
    simp only [text, Text.oneLine_append]
    exact ⟨⟨⟨⟨by decide, ih⟩, by decide⟩, Decimal.oneLine_render n⟩, by decide⟩
  | tuple ds ih =>
    rw [text, texts_eq, Text.oneLine_append, Text.oneLine_append]
    refine ⟨⟨by decide, oneLine_sequenceText fun t ht => ?_⟩, by decide⟩
    obtain ⟨d, hd, rfl⟩ := List.mem_map.mp ht
    exact ih d hd

end Draft

end ContractAbi
