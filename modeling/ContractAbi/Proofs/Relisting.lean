import ContractAbi.Listing
import ContractAbi.Proofs.Json.RoundTrip
import ContractAbi.Proofs.Lines
import ContractAbi.Proofs.Parameter.Edits
import ContractAbi.Proofs.Parameter.RoundTrip

/-!
# Listings that are listed again

The lines of a listing of parameters in JSON, put between brackets, are a JSON text that can be
listed in its turn, in any format (`run_relisted`).

On the way the text is decoded, and objects decode to records where the JSON form of a parameter is
a mapping.  That is an edit that does not count (`edits_decoded`), so the decoded parameters are
parsed as the JSON forms are.
-/

namespace ContractAbi

/-! ## 1. Parameters are written without numbers -/

theorem Text.NoSurrogates.append {s t : Text} (hs : s.NoSurrogates) (ht : t.NoSurrogates) :
    (s ++ t).NoSurrogates :=
  List.forall_mem_append.mpr ⟨hs, ht⟩

theorem noSurrogates_render (n : Nat) : (Decimal.render n).NoSurrogates := by
  intro c hc
  have hdigit := Decimal.isDigit_of_mem_render hc
  simp only [Decimal.isDigit, Bool.and_eq_true, decide_eq_true_eq] at hdigit
  simp only [CodePoint.isSurrogate, Bool.and_eq_false_iff, decide_eq_false_iff_not]
  omega

theorem noSurrogates_suffix (d : TypeTree.Dimension) : (AbiType.suffix d).NoSurrogates := by
  cases d with
  | none => decide
  | some n =>
    have hopen : Text.NoSurrogates "[" := by decide
    have hclose : Text.NoSurrogates "]" := by decide
    exact (hopen.append (noSurrogates_render n)).append hclose

theorem noSurrogates_scalar (s : Scalar) : s.name.NoSurrogates := by
  have hsized : ∀ (word : Text) (n : Nat), word.NoSurrogates →
      (word ++ Decimal.render n).NoSurrogates :=
    fun _ n hword => hword.append (noSurrogates_render n)
  cases s with
  | int n => exact hsized _ n (by decide)
  | uint n => exact hsized _ n (by decide)
  | fixedBytes n => exact hsized _ n (by decide)
  | _ => decide

namespace Descriptor

/-- The name in a descriptor is ASCII. -/
theorem noSurrogates_typeName (t : AbiType) : (ofType t).typeName.NoSurrogates := by
  induction t using TypeTree.induction with
  | leaf s => exact noSurrogates_scalar s
  | array t ih => exact ih.append (noSurrogates_suffix none)
  | fixedArray t n ih => exact ih.append (noSurrogates_suffix (some n))
  | tuple ts _ =>
    show Text.NoSurrogates "tuple"
    decide

/-- A descriptor under another name. -/
def rename (d : Descriptor) (name : Text) : Descriptor := .mk name d.components

theorem rename_typeName (d : Descriptor) : d.rename d.typeName = d := by
  cases d
  rfl

/-- **A descriptor takes two containers for each tuple that it nests**, and one for itself. -/
theorem plainFields_rename (t : AbiType) {name : Text} (hname : name.NoSurrogates) :
    Json.PlainFields (2 * t.tupleDepth) ((ofType t).rename name).fields := by
  have htype : Text.NoSurrogates "type" := by decide
  have hcomponents : Text.NoSurrogates "components" := by decide
  induction t using TypeTree.induction generalizing name with
  | leaf s => exact Json.plainFields_singleton htype (.text hname)
  | array t ih => exact ih hname
  | fixedArray t n ih => exact ih hname
  | tuple ts ih =>
    have hobject : ∀ u ∈ ts, Json.Plain (2 * (ts.map AbiType.tupleDepth).foldr max 0 + 1)
        (.object (ofType u).fields) := by
      intro u hu
      have hfields := ih u hu (noSurrogates_typeName u)
      have hle := le_foldr_max AbiType.tupleDepth hu
      rw [rename_typeName] at hfields
      exact hfields.object.mono (by omega)
    have hobjects : ∀ j ∈ objects (ofTypes ts),
        Json.Plain (2 * (ts.map AbiType.tupleDepth).foldr max 0 + 1) j := by
      rw [ofTypes_eq, objects_eq, List.map_map]
      exact List.forall_mem_map.mpr hobject
    rw [AbiType.tupleDepth, AbiType.tupleDepths_eq]
    exact (Json.plainFields_singleton htype (.text hname)).append
      (Json.plainFields_singleton hcomponents (.array hobjects))

theorem plainFields_ofType (t : AbiType) :
    Json.PlainFields (2 * t.tupleDepth) (ofType t).fields := by
  have hfields := plainFields_rename t (noSurrogates_typeName t)
  rwa [rename_typeName] at hfields

theorem plainFields_nameField (n : Nat) {name : Option Text} (h : ∀ s ∈ name, s.NoSurrogates) :
    Json.PlainFields n (nameField name) := by
  cases name with
  | none => exact fun f hf => absurd hf List.not_mem_nil
  | some s => exact Json.plainFields_singleton (by decide) (.text (h s rfl))

end Descriptor

theorem EventParam.plain_toJson {p : EventParam} (hname : p.name.NoSurrogates) :
    Json.Plain (2 * p.kind.tupleDepth + 1) p.toJson := by
  have hnamed : ∀ s ∈ some p.name, s.NoSurrogates := by simpa using hname
  exact (((Descriptor.plainFields_nameField _ hnamed).append
    (Descriptor.plainFields_ofType p.kind)).append
      (Json.plainFields_singleton (by decide) (.bool _))).object

theorem TupleParam.plain_toJson {p : TupleParam} (hname : ∀ s ∈ p.name, s.NoSurrogates) :
    Json.Plain (2 * p.kind.tupleDepth + 1) p.toJson :=
  ((Descriptor.plainFields_nameField _ hname).append
    (Descriptor.plainFields_ofType p.kind)).object

/-! ## 2. Decoding is an edit -/

section

variable {place : Place} {ps qs : List (Value × Value)}

/-- A mapping and a record of the same pairs. -/
theorem edits_record (ps : List (Value × Value)) : Edits place (.mapping ps) (.record ps) :=
  .single ⟨ps, ps, rfl, rfl, .permute (List.Perm.refl ps)⟩

/-- Edits of one component are edits of the object. -/
theorem Edits.inside {v w : Value} (h : Edits .component v w) (before after : List Value) :
    Edits place (.record (ps ++ (Field.components.value, .list (before ++ v :: after)) :: qs))
      (.record (ps ++ (Field.components.value, .list (before ++ w :: after)) :: qs)) := by
  induction h with
  | refl => exact .refl
  | tail _ hstep ih =>
    obtain ⟨os, os', hos, hos', hedit⟩ := hstep
    exact ih.tail ⟨_, _, rfl, rfl, .inside ps qs before after rfl rfl hos hos' hedit⟩

/-- Components may be edited one after another.  The induction is on those that are left. -/
theorem edits_components {α : Type} {f g : α → Value} {l : List α}
    (h : ∀ a ∈ l, Edits .component (f a) (g a)) (before : List Value) :
    Edits place (.record (ps ++ (Field.components.value, .list (before ++ l.map f)) :: qs))
      (.record (ps ++ (Field.components.value, .list (before ++ l.map g)) :: qs)) := by
  induction l generalizing before with
  | nil => exact .refl
  | cons a l ih =>
    obtain ⟨ha, hl⟩ := List.forall_mem_cons.mp h
    refine (ha.inside before (l.map f)).trans ?_
    have hrest := ih hl (before ++ [g a])
    rwa [List.append_assoc, List.append_assoc] at hrest

namespace Descriptor

/-- The value that a descriptor decodes to when it has been written. -/
def decoded (d : Descriptor) : Value := (Json.object d.fields).decoded

/-- The pairs of the descriptor of a tuple, under any name. -/
theorem toEntries_tuple (ts : List AbiType) (name : Text) :
    Json.toEntries ((ofType (.tuple ts)).rename name).fields =
      [(.text "type", .text name),
        (Field.components.value, .list (ts.map fun u => (ofType u).toValue))] := by
  have hcomponents : ((ofType (.tuple ts)).rename name).componentsValue =
      some (.list (ts.map fun u => (ofType u).toValue)) := by
    simp [componentsValue, rename, components, ofType, Function.comp_def]
  rw [toEntries_fields, hcomponents]
  rfl

theorem decodedFields_tuple (ts : List AbiType) (name : Text) :
    Json.decodedFields ((ofType (.tuple ts)).rename name).fields =
      [(.text "type", .text name),
        (Field.components.value, .list (ts.map fun u => (ofType u).decoded))] := by
  have hobjects : Json.decodedAll (objects (ofTypes ts)) = ts.map fun u => (ofType u).decoded := by
    rw [Json.decodedAll_eq, ofTypes_eq, objects_eq, List.map_map, List.map_map]
    rfl
  rw [← hobjects]
  rfl

/-- **Decoding a descriptor is an edit**, whatever stands around its fields.  The induction is on
the type: the components are descriptors of smaller types. -/
theorem edits_decodedFields (t : AbiType) (name : Text) (place : Place)
    (ps qs : List (Value × Value)) :
    Edits place (.mapping (ps ++ Json.toEntries ((ofType t).rename name).fields ++ qs))
      (.record (ps ++ Json.decodedFields ((ofType t).rename name).fields ++ qs)) := by
  induction t using TypeTree.induction generalizing place name ps qs with
  | leaf s => exact edits_record _
  | array t ih => exact ih name place ps qs
  | fixedArray t n ih => exact ih name place ps qs
  | tuple ts ih =>
    have hitems : ∀ u ∈ ts, Edits .component (ofType u).toValue (ofType u).decoded := by
      intro u hu
      have hedits := ih u hu (ofType u).typeName .component [] []
      rwa [rename_typeName, List.append_nil, List.append_nil] at hedits
    have hcomponents : Edits place
        (.record ((ps ++ [(.text "type", .text name)]) ++ (Field.components.value,
          .list ([] ++ ts.map fun u => (ofType u).toValue)) :: qs))
        (.record ((ps ++ [(.text "type", .text name)]) ++ (Field.components.value,
          .list ([] ++ ts.map fun u => (ofType u).decoded)) :: qs)) :=
      edits_components hitems []
    rw [toEntries_tuple, decodedFields_tuple]
    refine (edits_record _).trans ?_
    simp only [List.append_assoc, List.cons_append, List.nil_append] at hcomponents ⊢
    exact hcomponents

theorem edits_decodedFields_ofType (t : AbiType) (place : Place) (ps qs : List (Value × Value)) :
    Edits place (.mapping (ps ++ Json.toEntries (ofType t).fields ++ qs))
      (.record (ps ++ Json.decodedFields (ofType t).fields ++ qs)) := by
  have hedits := edits_decodedFields t (ofType t).typeName place ps qs
  rwa [rename_typeName] at hedits

end Descriptor

theorem decodedFields_append (fs gs : List (Text × Json)) :
    Json.decodedFields (fs ++ gs) = Json.decodedFields fs ++ Json.decodedFields gs := by
  rw [Json.decodedFields_eq, Json.decodedFields_eq, Json.decodedFields_eq, List.map_append]

/-- A name decodes to what it is in the JSON form. -/
theorem decodedFields_nameField (name : Option Text) :
    Json.decodedFields (Descriptor.nameField name) =
      Json.toEntries (Descriptor.nameField name) := by
  cases name <;> rfl

theorem EventParam.edits_decoded (p : EventParam) :
    Edits .event p.toJson.toValue p.toJson.decoded := by
  rw [EventParam.toJson, Json.toValue, Json.decoded, toEntries_append, toEntries_append,
    decodedFields_append, decodedFields_append, decodedFields_nameField]
  exact Descriptor.edits_decodedFields_ofType p.kind .event _ _

theorem TupleParam.edits_decoded (p : TupleParam) :
    Edits .tuple p.toJson.toValue p.toJson.decoded := by
  have hedits := Descriptor.edits_decodedFields_ofType p.kind .tuple
    (Json.toEntries (Descriptor.nameField p.name)) []
  rw [TupleParam.toJson, Json.toValue, Json.decoded, toEntries_append, decodedFields_append,
    decodedFields_nameField]
  rwa [List.append_nil, List.append_nil] at hedits

end

/-! ## 3. Decoded parameters are parsed -/

section

variable {rules : Rules}

/-- What is parsed without a notice stays so under edits: nothing is repeated in it. -/
theorem Edits.parse_eq_pure {α : Type} {place : Place} {parse : Value → Parse α} {v w : Value}
    {a : α} (h : Edits place v w)
    (hstep : ∀ v w, EditsTo place v w → (parse v).Alike (parse w)) (hv : parse v = pure a) :
    parse w = pure a := by
  have honce : ¬ (parse v).Repeats := Parse.not_repeats_of_ok (congrArg Parse.outcome hv)
  exact (h.eq_of_alike hstep honce).trans hv

theorem EventParam.parse_decoded (unlimited : rules.ceiling = .unlimited) {p : EventParam}
    (wf : p.kind.WellFormed) (fit : p.kind.NumbersFit)
    (nesting : p.kind.tupleDepth ≤ componentsLimit) :
    EventParam.parse rules p.toJson.decoded = pure p :=
  p.edits_decoded.parse_eq_pure (fun _ _ h => h.alike_eventParam)
    (EventParam.parse_descriptor unlimited wf fit nesting p.name p.indexed)

theorem TupleParam.parse_decoded (unlimited : rules.ceiling = .unlimited) {p : TupleParam}
    (wf : p.kind.WellFormed) (fit : p.kind.NumbersFit)
    (nesting : p.kind.tupleDepth ≤ componentsLimit) :
    TupleParam.parse rules p.toJson.decoded = pure p :=
  p.edits_decoded.parse_eq_pure (fun _ _ h => h.alike_tupleParam)
    (TupleParam.parse_descriptor unlimited wf fit nesting p.name)

end

/-! ## 4. Listings -/

/-- The JSON text of several lines. -/
def listingText (lines : List Text) : Text :=
  ("[" : Text) ++ Text.join ", " lines ++ ("]" : Text)

/-- Where the decoded form of each of some things is parsed to it, the text of all of them has their
lines, or as far as these can be written. -/
theorem run_listingText {α : Type} {rules : Rules} {asEvent : Bool} {f : Format} {n : Nat}
    {toJson : α → Json} {line : α → Except Obstacle Text} {ps : List α} (hn : n < Json.depthLimit)
    (hplain : ∀ p ∈ ps, Json.Plain n (toJson p))
    (hline : ∀ p ∈ ps, Listing.ofObject rules asEvent f (toJson p).decoded =
      .quiet (Listing.written (line p))) :
    Listing.run rules ⟨[], some (listingText (ps.map fun p => (toJson p).write)), asEvent, f⟩ =
      .quiet (ps.mapM fun p => Listing.written (line p)) := by
  have hwrite : listingText (ps.map fun p => (toJson p).write) =
      (Json.array (ps.map toJson)).write := by
    rw [listingText, Json.write, Json.writeAll_eq, List.map_map]
    rfl
  have hdecode : Json.decode (Json.array (ps.map toJson)).write =
      .ok (.list (ps.map fun p => (toJson p).decoded)) := by
    rw [Json.decode_write (.array (List.forall_mem_map.mpr hplain)) hn, Json.decoded,
      Json.decodedAll_eq, List.map_map]
    rfl
  have htypes : Listing.typeLines rules f [] = .ok [] := rfl
  have hparams := Parse.mapM_map_eq_quiet hline
  simp only [Listing.run, htypes, hwrite, Listing.ofJson, hdecode, Listing.objects, Parse.quiet_ok,
    pure_bind, hparams, List.nil_append]
  exact bind_pure _

/-- Lines for which there is room are all written. -/
theorem mapM_written {α : Type} {line : α → Except Obstacle Text} {text : α → Text} {ps : List α}
    (h : ∀ p ∈ ps, line p = .ok (text p)) :
    (ps.mapM fun p => Listing.written (line p)) = .ok (ps.map text) := by
  rw [Outcome.mapM_eq_ok_iff, List.map_map]
  refine List.map_congr_left fun p hp => ?_
  rw [h p hp]
  rfl

/-- `Relistable name t`: the name and the type of a parameter can be written in JSON and parsed
back. -/
def Relistable (name : Option Text) (t : AbiType) : Prop :=
  (∀ s ∈ name, s.NoSurrogates) ∧ t.WellFormed ∧ t.NumbersFit ∧ t.tupleDepth ≤ componentsLimit

instance (name : Option Text) (t : AbiType) : Decidable (Relistable name t) :=
  inferInstanceAs (Decidable (_ ∧ _ ∧ _ ∧ _))

/-- What becomes of some parameters that are listed in JSON, and of these lines when they are listed
again.  `line` is how the line of a parameter is written, and `text` what is written if nothing
stands in the way. -/
structure Relists {α : Type} (rules : Rules) (asEvent : Bool) (f : Format)
    (line : Format → α → Except Obstacle Text) (text : Format → α → Text) (kind : α → AbiType)
    (ps : List α) : Prop where
  /-- Where there is room for it, the lines are those of the listing in JSON. -/
  listed : (∀ p ∈ ps, Format.json.paramCalls (kind p) ≤ callRoom) →
    ps.mapM (line .json) = .ok (ps.map (text .json))
  /-- The second listing has the line of every parameter, or fails by the first that is not
  written. -/
  again : Listing.run rules ⟨[], some (listingText (ps.map (text .json))), asEvent, f⟩ =
    ⟨[], ps.mapM fun p => Listing.written (line f p)⟩
  /-- Where there is room for them, all lines are written. -/
  complete : (∀ p ∈ ps, f.paramCalls (kind p) ≤ callRoom) →
    Listing.run rules ⟨[], some (listingText (ps.map (text .json))), asEvent, f⟩ =
      ⟨[], .ok (ps.map (text f))⟩

theorem relists_of {α : Type} {rules : Rules} {asEvent : Bool} {f : Format} {n : Nat}
    {toJson : α → Json} {line : Format → α → Except Obstacle Text} {text : Format → α → Text}
    {kind : α → AbiType} {ps : List α} (hn : n < Json.depthLimit)
    (hplain : ∀ p ∈ ps, Json.Plain n (toJson p)) (hjson : ∀ p, text .json p = (toJson p).write)
    (hparse : ∀ p ∈ ps, Listing.ofObject rules asEvent f (toJson p).decoded =
      .quiet (Listing.written (line f p)))
    (hline : ∀ p ∈ ps, ∀ g : Format, line g p =
      if g.paramCalls (kind p) ≤ callRoom then .ok (text g p) else .error .nesting) :
    Relists rules asEvent f line text kind ps := by
  have hagain : Listing.run rules ⟨[], some (listingText (ps.map (text .json))), asEvent, f⟩ =
      ⟨[], ps.mapM fun p => Listing.written (line f p)⟩ := by
    rw [funext hjson]
    exact run_listingText hn hplain hparse
  refine ⟨fun hroom => ?_, hagain, fun hroom => ?_⟩
  · refine Outcome.mapM_eq_ok_iff.mpr ?_
    rw [List.map_map]
    exact List.map_congr_left fun p hp => (hline p hp .json).trans (if_pos (hroom p hp))
  · rw [hagain, mapM_written fun p hp => (hline p hp f).trans (if_pos (hroom p hp))]

/-- **The lines of a listing in JSON can be listed again**, in any format.  This holds without a
ceiling, for event parameters and for tuple parameters alike; in JSON it gives the lines back. -/
theorem run_relisted {rules : Rules} (unlimited : rules.ceiling = .unlimited) (f : Format) :
    (∀ ps : List EventParam, (∀ p ∈ ps, Relistable (some p.name) p.kind) →
      Relists rules true f (·.eventParamLine callRoom) Format.ofEventParam (·.kind) ps) ∧
      ∀ ps : List TupleParam, (∀ p ∈ ps, Relistable p.name p.kind) →
        Relists rules false f (·.tupleParamLine callRoom) Format.ofTupleParam (·.kind) ps := by
  have hlimit : 2 * componentsLimit + 1 < Json.depthLimit := by decide
  constructor
  · intro ps hps
    refine relists_of hlimit (fun p hp => ?_) (fun _ => rfl) (fun p hp => ?_) fun p hp g => ?_
    · obtain ⟨hname, -, -, hnesting⟩ := hps p hp
      have hplain := EventParam.plain_toJson (hname p.name rfl)
      exact hplain.mono (by omega)
    · obtain ⟨-, wf, fit, hnesting⟩ := hps p hp
      rw [Listing.ofObject, if_pos rfl, EventParam.parse_decoded unlimited wf fit hnesting,
        pure_bind]
    · obtain ⟨-, -, fit, -⟩ := hps p hp
      exact Format.eventParamLine_of_fits fit callRoom
  · intro ps hps
    refine relists_of hlimit (fun p hp => ?_) (fun _ => rfl) (fun p hp => ?_) fun p hp g => ?_
    · obtain ⟨hname, -, -, hnesting⟩ := hps p hp
      have hplain := TupleParam.plain_toJson hname
      exact hplain.mono (by omega)
    · obtain ⟨-, wf, fit, hnesting⟩ := hps p hp
      rw [Listing.ofObject, if_neg Bool.false_ne_true,
        TupleParam.parse_decoded unlimited wf fit hnesting, pure_bind]
    · obtain ⟨-, -, fit, -⟩ := hps p hp
      exact Format.tupleParamLine_of_fits fit callRoom

/-- Names of a quote, a backslash, two control characters and one beyond the basic plane, no name
and an empty one, over tuples of empty tuples. -/
theorem run_relisted_names :
    let odd : Text := "\"\\\x01\x7f😀"
    let rules : Rules := ⟨.unlimited, true, true⟩
    let events : List EventParam :=
      [⟨odd, .array (.tuple [.tuple []]), true⟩, ⟨[], .fixedArray (.leaf (.uint 8)) 2, false⟩]
    let selectors : List Text := ["(())[] indexed \"\\\x01\x7f😀", "uint8[2]"]
    let elements : List TupleParam := [⟨some odd, .tuple []⟩, ⟨none, .leaf .bool⟩]
    let lines : List Text :=
      [("\x7b\"name\": \"\\\"\\\\\\u0001\\u007f\\ud83d\\ude00\"" : Text) ++
          (", \"type\": \"tuple\", \"components\": []\x7d" : Text),
        "\x7b\"type\": \"bool\"\x7d"]
    (∀ p ∈ events, Relistable (some p.name) p.kind) ∧
      (∀ p ∈ elements, Relistable p.name p.kind) ∧
      Listing.run rules ⟨[], some (listingText (events.map Format.json.ofEventParam)), true,
        .selector⟩ = ⟨[], .ok selectors⟩ ∧
      Listing.run rules ⟨[], some (listingText lines), false, .json⟩ = ⟨[], .ok lines⟩ := by
  intro odd rules events selectors elements lines
  have hevents : ∀ p ∈ events, Relistable (some p.name) p.kind := by decide +kernel
  have helements : ∀ p ∈ elements, Relistable p.name p.kind := by decide +kernel
  have hselectors : events.map Format.selector.ofEventParam = selectors := by decide +kernel
  have hlines : elements.map Format.json.ofTupleParam = lines := by decide +kernel
  refine ⟨hevents, helements, ?_, ?_⟩
  · rw [← hselectors]
    exact ((run_relisted rfl .selector).1 events hevents).complete (by decide +kernel)
  · rw [← hlines]
    exact ((run_relisted rfl .json).2 elements helements).complete (by decide +kernel)

end ContractAbi
