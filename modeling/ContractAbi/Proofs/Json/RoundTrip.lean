import ContractAbi.Json.Decode
import ContractAbi.Json.Write
import ContractAbi.Proofs.Outcome

/-!
# What is written as JSON is decoded

A JSON value that holds no number is written and decoded back (`decode_write`), with records in the
place of its objects.  Every text comes back in which no surrogate stands, whatever else does.

* An escape *spells* a code point, if the pieces that it is read as are joined to that code point
  and to nothing that follows (`spells_escape`).  Only the two halves of a pair are joined, so a
  surrogate of its own would not be safe from what stands beside it.
* The machine that decodes is in the middle of a text most of the time.  `Reads` says what it does
  with the text of a value between any open containers and in front of any rest, and is carried
  through lists and objects one member at a time (`run_items`, `run_fields`).

Containers count: each that is open takes a place on the stack of the machine (`Plain`).
-/

namespace ContractAbi

/-! ## 1. Strings -/

/-- A digit has the value that it was made of. -/
theorem Hex.value?_digit (d : Nat) : Hex.value? (Hex.digit d) = some (d % 16) := by
  have hd : d % 16 < 16 := Nat.mod_lt _ (by decide)
  unfold Hex.digit
  split
  · next h =>
    have hrange : 48 ≤ 48 + d % 16 ∧ 48 + d % 16 ≤ 57 := by omega
    simp [Hex.value?, hrange]
  · next h =>
    have hlow : ¬ 87 + d % 16 ≤ 57 := by omega
    have hrange : 97 ≤ 87 + d % 16 ∧ 87 + d % 16 ≤ 102 := by omega
    simp [Hex.value?, hlow, hrange]

namespace Json

/-- A code point that is no escape is a piece. -/
theorem pieces_plain (start : Text) {c : CodePoint} (hquote : c ≠ CodePoint.ofChar '"')
    (hslash : c ≠ CodePoint.ofChar '\\') (hlow : 32 ≤ c.val) (rest : Text) :
    pieces start (c :: rest) = (pieces start rest).map (consPiece (c, false)) := by
  rw [pieces.eq_def]
  simp only [if_neg hquote, if_neg hslash, if_neg (Nat.not_lt.mpr hlow)]

theorem pieces_short (start : Text) {e p : CodePoint} (h : shortEscape? e = some p) (rest : Text) :
    pieces start (CodePoint.ofChar '\\' :: e :: rest) =
      (pieces start rest).map (consPiece (p, false)) := by
  have hu : e ≠ CodePoint.ofChar 'u' := by
    rintro rfl
    cases h
  rw [pieces.eq_def]
  simp [hu, h]

theorem pieces_escapeUnit (start : Text) {c : CodePoint} (h : c.val < 0x10000) (next : CodePoint)
    (more : Text) :
    pieces start (escapeUnit c.val ++ next :: more) =
      (pieces start (next :: more)).map (consPiece (c, true)) := by
  have hlong : longEscape? (Hex.digit (c.val / 16 / 16 / 16)) (Hex.digit (c.val / 16 / 16))
      (Hex.digit (c.val / 16)) (Hex.digit c.val) = some c := by
    have hval : ((c.val / 16 / 16 / 16 % 16 * 16 + c.val / 16 / 16 % 16) * 16 +
        c.val / 16 % 16) * 16 + c.val % 16 = c.val := by omega
    simp only [longEscape?, Hex.value?_digit, hval]
    simp [CodePoint.ofNat?, c.val_lt]
  have hsplit : escapeUnit c.val ++ next :: more =
      CodePoint.ofChar '\\' :: CodePoint.ofChar 'u' :: Hex.digit (c.val / 16 / 16 / 16) ::
        Hex.digit (c.val / 16 / 16) :: Hex.digit (c.val / 16) :: Hex.digit c.val :: next :: more :=
    rfl
  rw [hsplit, pieces.eq_def]
  simp [hlong]

/-- Pieces in front of those that follow. -/
def consPieces (ps : List Piece) (r : List Piece × Text) : List Piece × Text := (ps ++ r.1, r.2)

/-- Only the first half of a surrogate pair may be joined with what follows. -/
theorem joinPieces_cons {c : CodePoint} (h : c.isHighSurrogate = false) (b : Bool)
    (ps : List Piece) : joinPieces ((c, b) :: ps) = c :: joinPieces ps := by
  cases ps with
  | nil => rfl
  | cons p ps =>
    obtain ⟨d, b'⟩ := p
    simp [joinPieces, h]

theorem isHighSurrogate_of_isSurrogate {c : CodePoint} (h : c.isSurrogate = false) :
    c.isHighSurrogate = false := by
  simp only [CodePoint.isSurrogate, CodePoint.isHighSurrogate, Bool.and_eq_false_iff,
    decide_eq_false_iff_not] at h ⊢
  omega

/-- `Spells t c`: what `t` writes inside a string is joined to the code point `c`, whatever
follows. -/
def Spells (t : Text) (c : CodePoint) : Prop :=
  ∃ ps, (∀ qs, joinPieces (ps ++ qs) = c :: joinPieces qs) ∧
    ∀ start next more, pieces start (t ++ next :: more) =
      (pieces start (next :: more)).map (consPieces ps)

/-- A code point beyond the basic plane is the pair of its surrogates. -/
theorem spells_pair {c : CodePoint} (h : 0x10000 ≤ c.val) :
    Spells (escapeUnit (0xD800 + (c.val - 0x10000) / 0x400) ++
      escapeUnit (0xDC00 + (c.val - 0x10000) % 0x400)) c := by
  have hlt := c.val_lt
  let high : CodePoint := ⟨0xD800 + (c.val - 0x10000) / 0x400, by omega⟩
  let low : CodePoint := ⟨0xDC00 + (c.val - 0x10000) % 0x400, by omega⟩
  have hhigh : high.isHighSurrogate = true := by
    simp only [CodePoint.isHighSurrogate, Bool.and_eq_true, decide_eq_true_eq, high]
    omega
  have hlow : low.isLowSurrogate = true := by
    simp only [CodePoint.isLowSurrogate, Bool.and_eq_true, decide_eq_true_eq, low]
    omega
  have hpaired : Encoding.paired high low = c := by
    apply CodePoint.ext_val
    simp only [Encoding.paired, high, low]
    omega
  refine ⟨[(high, true), (low, true)], fun qs => ?_, fun start next more => ?_⟩
  · simp [joinPieces, hhigh, hlow, hpaired]
  · have hfirst := pieces_escapeUnit start (c := high) (by simp only [high]; omega)
      (CodePoint.ofChar '\\') ((escapeUnit low.val).tail ++ next :: more)
    have hsecond := pieces_escapeUnit start (c := low) (by simp only [low]; omega) next more
    rw [List.append_assoc]
    refine hfirst.trans ?_
    rw [show CodePoint.ofChar '\\' :: ((escapeUnit low.val).tail ++ next :: more) =
      escapeUnit low.val ++ next :: more from rfl, hsecond]
    cases pieces start (next :: more) <;> rfl

/-- **An escape spells the code point that it was made of.** -/
theorem spells_escape {c : CodePoint} (h : c.isSurrogate = false) : Spells (escape c) c := by
  have hone := joinPieces_cons (isHighSurrogate_of_isSurrogate h)
  have hshort : ∀ e : CodePoint, shortEscape? e = some c → Spells [CodePoint.ofChar '\\', e] c :=
    fun e he => ⟨[(c, false)], hone false, fun start _ _ => pieces_short start he _⟩
  unfold escape
  split
  · next hc => exact hshort (CodePoint.ofChar '"') (by rw [hc]; rfl)
  split
  · next hc => exact hshort (CodePoint.ofChar '\\') (by rw [hc]; rfl)
  split
  · next hquote hslash hc =>
    exact ⟨[(c, false)], hone false, fun start _ _ => pieces_plain start hquote hslash hc.1 _⟩
  split
  · next hc => exact hshort (CodePoint.ofChar 'n') (congrArg some (CodePoint.ext_val hc.symm))
  split
  · next hc => exact hshort (CodePoint.ofChar 'r') (congrArg some (CodePoint.ext_val hc.symm))
  split
  · next hc => exact hshort (CodePoint.ofChar 't') (congrArg some (CodePoint.ext_val hc.symm))
  split
  · next hc => exact hshort (CodePoint.ofChar 'f') (congrArg some (CodePoint.ext_val hc.symm))
  split
  · next hc => exact hshort (CodePoint.ofChar 'b') (congrArg some (CodePoint.ext_val hc.symm))
  split
  · next hc => exact ⟨[(c, true)], hone true, fun start => pieces_escapeUnit start hc⟩
  · next hc => exact spells_pair (Nat.le_of_not_lt hc)

end Json

/-- A text in which no surrogate stands. -/
def Text.NoSurrogates (t : Text) : Prop := ∀ c ∈ t, c.isSurrogate = false

instance (t : Text) : Decidable t.NoSurrogates := inferInstanceAs (Decidable (∀ c ∈ t, _))

namespace Json

/-- The escapes of a text are read up to the quote behind them, and joined to the text. -/
theorem pieces_flatMap_escape {t : Text} (h : t.NoSurrogates) (start rest : Text) :
    ∃ ps, pieces start (t.flatMap escape ++ CodePoint.ofChar '"' :: rest) = .ok (ps, rest) ∧
      joinPieces ps = t := by
  induction t with
  | nil =>
    refine ⟨[], ?_, rfl⟩
    rw [List.flatMap_nil, List.nil_append, pieces.eq_def]
    rfl
  | cons c t ih =>
    obtain ⟨hc, ht⟩ := List.forall_mem_cons.mp h
    obtain ⟨qs, hqs, hjoin⟩ := ih ht
    obtain ⟨ps, hspell, hpieces⟩ := spells_escape hc
    refine ⟨ps ++ qs, ?_, by rw [hspell, hjoin]⟩
    obtain ⟨next, more, htail⟩ := List.exists_cons_of_ne_nil
      (List.append_ne_nil_of_right_ne_nil (t.flatMap escape)
        (List.cons_ne_nil (CodePoint.ofChar '"') rest))
    rw [List.flatMap_cons, List.append_assoc, htail, hpieces, ← htail, hqs]
    rfl

/-! ## 2. Words -/

theorem lexemes_blank {c : CodePoint} (h : isBlank c = true) (rest : Text) :
    lexemes (c :: rest) = lexemes rest := by
  have hdrop : dropBlanks (c :: rest) = dropBlanks rest := List.dropWhile_cons_of_pos h
  rw [lexemes.eq_def, lexemes.eq_def rest]
  split
  · next hnil =>
    rw [hdrop] at hnil
    split
    · rfl
    · next hcons => cases hnil.symm.trans hcons
  · next hcons =>
    rw [hdrop] at hcons
    split
    · next hnil => cases hnil.symm.trans hcons
    · next hcons' =>
      cases hcons.symm.trans hcons'
      rfl

theorem lexemes_cons {c : CodePoint} (h : isBlank c = false) (rest : Text) :
    lexemes (c :: rest) = ((word c rest).1, c :: rest) :: lexemes (word c rest).2 := by
  have hdrop : dropBlanks (c :: rest) = c :: rest :=
    List.dropWhile_cons_of_neg (by rw [h]; exact Bool.false_ne_true)
  rw [lexemes.eq_def]
  split
  · next hnil => rw [hdrop] at hnil; cases hnil
  · next hcons =>
    rw [hdrop] at hcons
    cases hcons
    rfl

theorem mark?_of_isBlank {c : CodePoint} (h : isBlank c = true) : mark? c = none := by
  simp only [isBlank, Bool.or_eq_true, decide_eq_true_eq] at h
  rcases h with ((h | h) | h) | h
  · rw [show c = CodePoint.ofChar ' ' from CodePoint.ext_val h]; rfl
  · rw [show c = CodePoint.ofChar '\t' from CodePoint.ext_val h]; rfl
  · rw [show c = CodePoint.ofChar '\n' from CodePoint.ext_val h]; rfl
  · rw [show c = CodePoint.ofChar '\r' from CodePoint.ext_val h]; rfl

/-- A punctuation mark is a word. -/
theorem lexemes_mark {c : CodePoint} {l : Lexeme} (h : mark? c = some l) (rest : Text) :
    lexemes (c :: rest) = (l, c :: rest) :: lexemes rest := by
  have hblank : isBlank c = false := by
    rw [← Bool.not_eq_true]
    intro hblank
    rw [mark?_of_isBlank hblank] at h
    cases h
  have hword : word c rest = (l, rest) := by rw [word, h]
  rw [lexemes_cons hblank, hword]

theorem lexemes_writeText {t : Text} (h : t.NoSurrogates) (rest : Text) :
    lexemes (writeText t ++ rest) = (.text t, writeText t ++ rest) :: lexemes rest := by
  have hsplit : writeText t ++ rest =
      CodePoint.ofChar '"' :: (t.flatMap escape ++ CodePoint.ofChar '"' :: rest) := by
    rw [writeText, List.append_assoc, List.append_assoc]
    rfl
  obtain ⟨ps, hpieces, rfl⟩ := pieces_flatMap_escape h
    (CodePoint.ofChar '"' :: (t.flatMap escape ++ CodePoint.ofChar '"' :: rest)) rest
  have hword : word (CodePoint.ofChar '"')
      ((joinPieces ps).flatMap escape ++ CodePoint.ofChar '"' :: rest) =
        (.text (joinPieces ps), rest) := by
    rw [word, show mark? (CodePoint.ofChar '"') = none from rfl]
    simp only [if_true, hpieces]
  rw [hsplit, lexemes_cons rfl, hword]

theorem lexemes_null (rest : Text) :
    lexemes (("null" : Text) ++ rest) = (.atom .null, ("null" : Text) ++ rest) :: lexemes rest :=
  lexemes_cons rfl _

theorem lexemes_writeBool (b : Bool) (rest : Text) :
    lexemes (writeBool b ++ rest) = (.atom (.bool b), writeBool b ++ rest) :: lexemes rest := by
  cases b <;> exact lexemes_cons rfl _

/-! ## 3. The machine -/

mutual

/-- The value that a JSON value decodes to when it has been written. -/
def decoded : Json → Value
  | .null => .null
  | .bool b => .bool b
  | .int i => .int i
  | .float x => .float x
  | .text t => .text t
  | .array items => .list (decodedAll items)
  | .object fields => .record (decodedFields fields)

/-- The values that several JSON values decode to. -/
def decodedAll : List Json → List Value
  | [] => []
  | j :: js => decoded j :: decodedAll js

/-- The pairs that several fields decode to. -/
def decodedFields : List (Text × Json) → List (Value × Value)
  | [] => []
  | (name, j) :: fs => (.text name, decoded j) :: decodedFields fs

end

theorem decodedAll_eq (js : List Json) : decodedAll js = js.map decoded := by
  induction js with
  | nil => rfl
  | cons j js ih => rw [decodedAll, ih, List.map_cons]

theorem decodedFields_eq (fs : List (Text × Json)) :
    decodedFields fs = fs.map fun f => (.text f.1, decoded f.2) := by
  induction fs with
  | nil => rfl
  | cons f fs ih => rw [decodedFields, ih, List.map_cons]

theorem writeAll_eq (js : List Json) : writeAll js = js.map write := by
  induction js with
  | nil => rfl
  | cons j js ih => rw [writeAll, ih, List.map_cons]

/-- A field with its name. -/
def writeField (f : Text × Json) : Text := writeText f.1 ++ (": " : Text) ++ write f.2

theorem writeFields_eq (fs : List (Text × Json)) : writeFields fs = fs.map writeField := by
  induction fs with
  | nil => rfl
  | cons f fs ih => rw [writeFields, ih, List.map_cons, writeField]

/-- `Plain n j`: there are no numbers and no surrogates in a JSON value, and at most `n` containers
in one another. -/
inductive Plain : Nat → Json → Prop
  | null {n : Nat} : Plain n .null
  | bool {n : Nat} (b : Bool) : Plain n (.bool b)
  | text {n : Nat} {t : Text} (h : t.NoSurrogates) : Plain n (.text t)
  | array {n : Nat} {items : List Json} (h : ∀ j ∈ items, Plain n j) : Plain (n + 1) (.array items)
  | object {n : Nat} {fields : List (Text × Json)} (names : ∀ f ∈ fields, f.1.NoSurrogates)
    (h : ∀ f ∈ fields, Plain n f.2) : Plain (n + 1) (.object fields)

theorem Plain.mono {m n : Nat} {j : Json} (h : Plain m j) (hle : m ≤ n) : Plain n j := by
  induction h generalizing n with
  | null => exact .null
  | bool b => exact .bool b
  | text h => exact .text h
  | array _ ih =>
    obtain ⟨n, rfl⟩ := Nat.exists_eq_succ_of_ne_zero (Nat.ne_zero_of_lt hle)
    exact .array fun j hj => ih j hj (Nat.le_of_succ_le_succ hle)
  | object names _ ih =>
    obtain ⟨n, rfl⟩ := Nat.exists_eq_succ_of_ne_zero (Nat.ne_zero_of_lt hle)
    exact .object names fun f hf => ih f hf (Nat.le_of_succ_le_succ hle)

/-- The same of the fields of an object. -/
def PlainFields (n : Nat) (fields : List (Text × Json)) : Prop :=
  ∀ f ∈ fields, f.1.NoSurrogates ∧ Plain n f.2

theorem PlainFields.object {n : Nat} {fields : List (Text × Json)} (h : PlainFields n fields) :
    Plain (n + 1) (.object fields) :=
  .object (fun f hf => (h f hf).1) fun f hf => (h f hf).2

theorem PlainFields.append {n : Nat} {fs gs : List (Text × Json)} (hfs : PlainFields n fs)
    (hgs : PlainFields n gs) : PlainFields n (fs ++ gs) :=
  List.forall_mem_append.mpr ⟨hfs, hgs⟩

theorem plainFields_singleton {n : Nat} {name : Text} {j : Json} (hname : name.NoSurrogates)
    (hj : Plain n j) : PlainFields n [(name, j)] :=
  List.forall_mem_singleton.mpr ⟨hname, hj⟩

variable {limit : Nat} {fs : List Frame}

/-- A word that the machine takes. -/
theorem run_cons {s s' : State} {w : Lexeme × Text} (h : step limit s w = .ok s')
    (ws : List (Lexeme × Text)) : run limit s (w :: ws) = run limit s' ws := by
  rw [run, h]

/-- `Reads limit fs j`: between the open containers `fs` the machine reads the text of a JSON value,
and hands the decoded value on. -/
def Reads (limit : Nat) (fs : List Frame) (j : Json) : Prop :=
  ∀ rest, run limit (.value fs) (lexemes (j.write ++ rest)) =
    run limit (deliver j.decoded fs) (lexemes rest)

/-- A comma and a blank stand between the first of some texts and the others. -/
theorem join_append (t u : Text) (ts : List Text) (rest : Text) :
    Text.join ", " (t :: u :: ts) ++ rest =
      t ++ CodePoint.ofChar ',' :: CodePoint.ofChar ' ' :: (Text.join ", " (u :: ts) ++ rest) := by
  rw [Text.join_cons_cons, List.append_assoc, List.append_assoc]
  rfl

/-- **The items of a list** are read one after another, up to the bracket behind the last. -/
theorem run_items {j : Json} {js : List Json} (done : List Value)
    (h : ∀ i ∈ j :: js, ∀ done, Reads limit (.list done :: fs) i) (rest : Text) :
    run limit (.value (.list done :: fs))
        (lexemes (Text.join ", " ((j :: js).map write) ++ CodePoint.ofChar ']' :: rest)) =
      run limit (deliver (.list (done.reverse ++ (j :: js).map decoded)) fs) (lexemes rest) := by
  induction js generalizing j done with
  | nil =>
    rw [List.map_singleton, Text.join_singleton, h j (List.mem_cons_self ..), deliver,
      lexemes_mark rfl, run_cons rfl]
    simp
  | cons k ks ih =>
    obtain ⟨hj, hks⟩ := List.forall_mem_cons.mp h
    rw [List.map_cons, List.map_cons, join_append, hj, deliver, lexemes_mark rfl, run_cons rfl,
      lexemes_blank rfl, ← List.map_cons, ih _ hks]
    simp

/-- **The fields of an object** are read one after another, up to the brace behind the last. -/
theorem run_fields {f : Text × Json} {gs : List (Text × Json)} (done : List (Value × Value))
    (names : ∀ g ∈ f :: gs, g.1.NoSurrogates)
    (h : ∀ g ∈ f :: gs, ∀ done key, Reads limit (.field done key :: fs) g.2) (rest : Text) :
    run limit (.name done fs)
        (lexemes (Text.join ", " ((f :: gs).map writeField) ++ CodePoint.ofChar '\x7d' :: rest)) =
      run limit
        (deliver (.record (done.reverse ++ (f :: gs).map fun g => (.text g.1, decoded g.2))) fs)
        (lexemes rest) := by
  have hfield : ∀ g ∈ f :: gs, ∀ done rest,
      run limit (.name done fs) (lexemes (writeField g ++ rest)) =
        run limit (.afterField ((.text g.1, decoded g.2) :: done) fs) (lexemes rest) := by
    intro g hg done rest
    have hsplit : writeField g ++ rest = writeText g.1 ++
        CodePoint.ofChar ':' :: CodePoint.ofChar ' ' :: (g.2.write ++ rest) := by
      rw [writeField, List.append_assoc, List.append_assoc]
      rfl
    rw [hsplit, lexemes_writeText (names g hg), run_cons rfl, lexemes_mark rfl, run_cons rfl,
      lexemes_blank rfl, h g hg, deliver]
  induction gs generalizing f done with
  | nil =>
    rw [List.map_singleton, Text.join_singleton, hfield f (List.mem_cons_self ..),
      lexemes_mark rfl, run_cons rfl]
    simp
  | cons g gs ih =>
    obtain ⟨hf, hgs⟩ := List.forall_mem_cons.mp hfield
    rw [List.map_cons, List.map_cons, join_append, hf, lexemes_mark rfl, run_cons rfl,
      lexemes_blank rfl, ← List.map_cons,
      ih _ (List.forall_mem_cons.mp names).2 (List.forall_mem_cons.mp h).2 hgs]
    simp

/-- The text of a JSON value does not begin with a closing bracket. -/
theorem lexemes_write {n : Nat} {j : Json} (h : Plain n j) (rest : Text) :
    ∃ w ws, lexemes (j.write ++ rest) = w :: ws ∧ w.1 ≠ .closeList := by
  cases h with
  | null => exact ⟨_, _, lexemes_null rest, nofun⟩
  | bool b => exact ⟨_, _, lexemes_writeBool b rest, nofun⟩
  | text h => exact ⟨_, _, lexemes_writeText h rest, nofun⟩
  | array h => exact ⟨_, _, lexemes_mark rfl _, nofun⟩
  | object names h => exact ⟨_, _, lexemes_mark rfl _, nofun⟩

theorem join_cons_append (t : Text) (ts : List Text) (rest : Text) :
    ∃ more, Text.join ", " (t :: ts) ++ rest = t ++ more := by
  cases ts with
  | nil => exact ⟨rest, rfl⟩
  | cons u ts => exact ⟨_, join_append t u ts rest⟩

theorem run_openList (room : fs.length < limit) (here : Text) (ws : List (Lexeme × Text)) :
    run limit (.value fs) ((.openList, here) :: ws) = run limit (.firstItem fs) ws := by
  refine run_cons ?_ ws
  rw [step, stepValue, enter, if_pos room]

theorem run_openRecord (room : fs.length < limit) (here : Text) (ws : List (Lexeme × Text)) :
    run limit (.value fs) ((.openRecord, here) :: ws) = run limit (.firstName fs) ws := by
  refine run_cons ?_ ws
  rw [step, stepValue, enter, if_pos room]

/-- At the first name in an object the machine does as at any other. -/
theorem run_firstName (t here : Text) (ws : List (Lexeme × Text)) :
    run limit (.firstName fs) ((.text t, here) :: ws) =
      run limit (.name [] fs) ((.text t, here) :: ws) := rfl

/-- At the first item of a list the machine does as at any other. -/
theorem run_firstItem {w : Lexeme × Text} (h : w.1 ≠ .closeList) (ws : List (Lexeme × Text)) :
    run limit (.firstItem fs) (w :: ws) = run limit (.value (.list [] :: fs)) (w :: ws) := by
  obtain ⟨l, here⟩ := w
  cases l with
  | closeList => exact absurd rfl h
  | _ => rfl

/-- **A JSON value is read where there is room for its containers.**  The induction is on the value:
each container leaves its frame to what is in it. -/
theorem reads_of_plain {n : Nat} {j : Json} (h : Plain n j) (room : fs.length + n ≤ limit) :
    Reads limit fs j := by
  induction h generalizing fs with
  | null =>
    intro rest
    rw [write, lexemes_null, run_cons rfl, decoded]
  | bool b =>
    intro rest
    rw [write, lexemes_writeBool, run_cons rfl, decoded]
  | text h =>
    intro rest
    rw [write, lexemes_writeText h, run_cons rfl, decoded]
  | @array n items h ih =>
    intro rest
    have hsplit : (Json.array items).write ++ rest = CodePoint.ofChar '[' ::
        (Text.join ", " (items.map write) ++ CodePoint.ofChar ']' :: rest) := by
      rw [write, writeAll_eq, List.append_assoc, List.append_assoc]
      rfl
    rw [hsplit, lexemes_mark rfl, run_openList (by omega), decoded, decodedAll_eq]
    cases items with
    | nil =>
      rw [List.map_nil, Text.join_nil, List.nil_append, lexemes_mark rfl, run_cons rfl,
        List.map_nil]
    | cons i is =>
      obtain ⟨more, hmore⟩ := join_cons_append i.write (is.map write) (CodePoint.ofChar ']' :: rest)
      obtain ⟨w, ws, hws, hw⟩ := lexemes_write (h i (List.mem_cons_self ..)) more
      have hinside : ∀ k ∈ i :: is, ∀ done, Reads limit (.list done :: fs) k :=
        fun k hk done => ih k hk (by rw [List.length_cons]; omega)
      have hitems := run_items [] hinside rest
      rw [List.map_cons, hmore, hws] at hitems ⊢
      rw [run_firstItem hw, hitems]
      rfl
  | @object n fields names h ih =>
    intro rest
    have hsplit : (Json.object fields).write ++ rest = CodePoint.ofChar '\x7b' ::
        (Text.join ", " (fields.map writeField) ++ CodePoint.ofChar '\x7d' :: rest) := by
      rw [write, writeFields_eq, List.append_assoc, List.append_assoc]
      rfl
    rw [hsplit, lexemes_mark rfl, run_openRecord (by omega), decoded, decodedFields_eq]
    cases fields with
    | nil =>
      rw [List.map_nil, Text.join_nil, List.nil_append, lexemes_mark rfl, run_cons rfl,
        List.map_nil]
    | cons f gs =>
      obtain ⟨more, hmore⟩ := join_cons_append (writeField f) (gs.map writeField)
        (CodePoint.ofChar '\x7d' :: rest)
      have hinside : ∀ g ∈ f :: gs, ∀ done key, Reads limit (.field done key :: fs) g.2 :=
        fun g hg done key => ih g hg (by rw [List.length_cons]; omega)
      have hfields := run_fields [] names hinside rest
      rw [List.map_cons, hmore, writeField, List.append_assoc, List.append_assoc,
        lexemes_writeText (names f (List.mem_cons_self ..))] at hfields ⊢
      rw [run_firstName, hfields]
      rfl

/-! ## 4. Decoding -/

/-- The text of a JSON value does not begin with a byte order mark. -/
theorem exists_write_eq_cons {n : Nat} {j : Json} (h : Plain n j) :
    ∃ c rest, j.write = c :: rest ∧ c.val ≠ 0xFEFF := by
  cases h with
  | null => exact ⟨_, _, rfl, by decide⟩
  | bool b => cases b <;> exact ⟨_, _, rfl, by decide⟩
  | text h => exact ⟨_, _, rfl, by decide⟩
  | array h => exact ⟨_, _, rfl, by decide⟩
  | object names h => exact ⟨_, _, rfl, by decide⟩

/-- **What was written is decoded**, if its containers nest no deeper than is decoded. -/
theorem decode_write {n : Nat} {j : Json} (h : Plain n j) (hn : n ≤ depthLimit) :
    decode j.write = .ok j.decoded := by
  obtain ⟨c, rest, hcons, hmark⟩ := exists_write_eq_cons h
  have hwords : decodeWords j.write = .ok j.decoded := by
    have hreads : Reads depthLimit [] j := reads_of_plain h (by simpa using hn)
    have hread := hreads []
    rw [List.append_nil] at hread
    rw [decodeWords, hread, lexemes.eq_def]
    rfl
  rw [hcons] at hwords ⊢
  rw [decode, if_neg hmark, hwords]

end Json

end ContractAbi
