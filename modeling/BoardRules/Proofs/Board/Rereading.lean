import Mathlib
import BoardRules.Board.Storage
import BoardRules.Proofs.Json.Rereading

/-!
# Snapshots are read again as they were

Whatever is read as a snapshot, or as a part of one, is written in a form that is read as the same
value again (`Snapshot.reread_snapshots`).  Players and nations read back whatever they are; for
nations this is an induction over the members nested in them (`NationMember.ofJson?_written`).
Records and monitors keep the fields that they do not know, so they read back only if none of these
has a known name and all are finite.  Both hold for what was read, and from there on the stored
forms that hold records or monitors are stable, level by level: behaviours, pieces, packages and
boards.
-/

namespace BoardRules

/-! ## Players -/

instance : LawfulWire Player where
  ofJson?_toJson p := by
    obtain ⟨fields, -, opened, get⟩ := Json.exists_fields_ofFields _
      [("direct", toJson p.seat), ("uuid", toJson p.id), ("user", toJson p.user)]
    have seat : fields.required "direct" = some p.seat :=
      Fields.required_of_get? (get "direct") (ofJson?_toJson p.seat)
    have id : fields.required "uuid" = some p.id :=
      Fields.required_of_get? (get "uuid") (ofJson?_toJson p.id)
    have user : fields.withDefault "user" .nil = some p.user :=
      Fields.withDefault_of_get? (get "user") (ofJson?_toJson p.user)
    refine bind_eq_some_of_eq_some opened (bind_eq_some_of_eq_some seat ?_)
    exact bind_eq_some_of_eq_some id (bind_eq_some_of_eq_some user rfl)

namespace Snapshot

/-! ## Nations -/

section

variable {fields : Fields} {head : NationHead} {members : List Json}

/-- The fields of a nation say again what its head is, and its members are those written. -/
theorem NationHead.exists_fields_toJson (head : NationHead) (members : List Json) :
    ∃ fields : Fields, head.toJson members = .object fields ∧ ofFields? fields = some head ∧
      fields.get? "sub" = some (.array members) := by
  obtain ⟨fields, object, -, get⟩ := Json.exists_fields_ofFields fieldNames
    [("name", BoardRules.toJson head.name), ("uuid", BoardRules.toJson head.id),
     ("color", BoardRules.toJson head.color), ("monarch", BoardRules.toJson head.monarch),
     ("sub", .array members)]
  have name : fields.withDefault "name" "" = some head.name :=
    Fields.withDefault_of_get? (get "name") (ofJson?_toJson head.name)
  have id : fields.withDefault "uuid" .nil = some head.id :=
    Fields.withDefault_of_get? (get "uuid") (ofJson?_toJson head.id)
  have color : fields.withDefault "color" (-1) = some head.color :=
    Fields.withDefault_of_get? (get "color") (ofJson?_toJson head.color)
  have monarch : fields.withDefault "monarch" "" = some head.monarch :=
    Fields.withDefault_of_get? (get "monarch") (ofJson?_toJson head.monarch)
  refine ⟨fields, object, ?_, get "sub"⟩
  refine bind_eq_some_of_eq_some name (bind_eq_some_of_eq_some id ?_)
  exact bind_eq_some_of_eq_some color (bind_eq_some_of_eq_some monarch rfl)

/-- The object of a nation is finite if its members are. -/
theorem NationHead.isFinite_toJson (head : NationHead)
    (finite : Json.itemsFinite members = true) : (head.toJson members).isFinite = true := by
  have given : ∀ field ∈ [("name", BoardRules.toJson head.name), ("uuid", BoardRules.toJson head.id),
      ("color", BoardRules.toJson head.color), ("monarch", BoardRules.toJson head.monarch),
      ("sub", Json.array members)], field.2.isFinite = true := by
    simp only [List.forall_mem_cons, List.not_mem_nil, false_imp_iff, implies_true, and_true]
    exact ⟨rfl, rfl, rfl, rfl, finite⟩
  exact Json.fieldsFinite_foldl_set given rfl

/-- The members of a nation are read from its field for them. -/
theorem NationMember.membersOfFields?_eq (stored : fields.get? "sub" = some (.array members)) :
    membersOfFields? fields = membersOfItems? members := by
  induction fields with
  | nil => exact nomatch stored
  | cons field rest ih =>
    obtain ⟨name, j⟩ := field
    rw [Fields.get?_cons] at stored
    rw [membersOfFields?]
    by_cases found : name = "sub"
    · rw [if_pos found.symm] at stored
      rw [if_pos found, Option.some.inj stored, membersOfJson?]
    · rw [if_neg (Ne.symm found)] at stored
      rw [if_neg found, ih stored]

end

namespace NationMember

mutual

/-- What is written of a member is finite. -/
theorem isFinite_written (m : NationMember) : m.toJson.isFinite = true := by
  match m with
  | .piece id => rfl
  | .group head members => exact head.isFinite_toJson (itemsFinite_written members)

/-- What is written of members is finite. -/
theorem itemsFinite_written (ms : List NationMember) :
    Json.itemsFinite (membersToJson ms) = true := by
  match ms with
  | [] => rfl
  | m :: rest =>
    rw [membersToJson, Json.itemsFinite, isFinite_written m, itemsFinite_written rest]
    rfl

end

mutual

/-- A member reads back, with everything nested in it. -/
theorem ofJson?_written (m : NationMember) : ofJson? m.toJson = some m := by
  match m with
  | .piece id => rfl
  | .group head members =>
    obtain ⟨fields, object, heads, sub⟩ := head.exists_fields_toJson (membersToJson members)
    have finite : Json.fieldsFinite fields = true := by
      have whole := isFinite_written (.group head members)
      rwa [toJson, object] at whole
    have nested : membersOfFields? fields = some members :=
      (membersOfFields?_eq sub).trans (membersOfItems?_written members)
    rw [toJson, object, ofJson?, finite, heads, nested]
    rfl

/-- Members read back in order. -/
theorem membersOfItems?_written (ms : List NationMember) :
    membersOfItems? (membersToJson ms) = some ms := by
  match ms with
  | [] => rfl
  | m :: rest =>
    rw [membersToJson, membersOfItems?, ofJson?_written m, membersOfItems?_written rest]

end

end NationMember

instance : LawfulWire Nation where
  ofJson?_toJson n := by
    obtain ⟨fields, object, heads, sub⟩ :=
      n.head.exists_fields_toJson (NationMember.membersToJson n.members)
    have opened : (toJson n).structure? NationHead.fieldNames = some fields :=
      congrArg (Json.structure? NationHead.fieldNames) object
    have nested : NationMember.membersOfFields? fields = some n.members :=
      (NationMember.membersOfFields?_eq sub).trans (NationMember.membersOfItems?_written n.members)
    refine bind_eq_some_of_eq_some opened (bind_eq_some_of_eq_some heads ?_)
    exact bind_eq_some_of_eq_some nested rfl

end Snapshot

/-! ## Records and monitors -/

/-- A record that was read keeps finite fields of other names than those that it knows, which are
those of its document. -/
theorem StepRecord.exists_fields_of_read {j : Json} {r : StepRecord}
    (read : Wire.ofJson? j = some r) :
    ∃ fields : Fields, j = .object fields ∧ Json.fieldsFinite fields = true ∧
      r.fields = fields.without knownFields := by
  obtain ⟨k, finite, read⟩ := Option.bind_eq_some_iff.1 read
  obtain ⟨fields, opened, read⟩ := Option.bind_eq_some_iff.1 read
  obtain ⟨kind, -, read⟩ := Option.bind_eq_some_iff.1 read
  obtain ⟨name, -, read⟩ := Option.bind_eq_some_iff.1 read
  obtain ⟨id, -, read⟩ := Option.bind_eq_some_iff.1 read
  obtain rfl := Option.some.inj read
  obtain ⟨whole, object⟩ := Json.fieldsFinite_of_finite? finite opened
  exact ⟨fields, object, whole, rfl⟩

instance : StableWire StepRecord where
  reread {j} r read := by
    obtain ⟨fields, -, finite, kept⟩ := StepRecord.exists_fields_of_read read
    obtain ⟨kind, header, extra⟩ := r
    obtain rfl : extra = fields.without StepRecord.knownFields := kept
    let written : Fields := Fields.set "name" (toJson header.name) (Fields.set "type" (toJson kind)
      (Fields.set "uuid" (toJson header.id) (fields.without StepRecord.knownFields)))
    have whole : Json.fieldsFinite written = true :=
      Json.fieldsFinite_set (Json.fieldsFinite_set (Json.fieldsFinite_set
        (Json.fieldsFinite_without finite _) "uuid" rfl) "type" rfl) "name" rfl
    have others : written.without StepRecord.knownFields =
        fields.without StepRecord.knownFields := by
      rw [Fields.without_set (by decide), Fields.without_set (by decide),
        Fields.without_set (by decide), Fields.without_without]
    have type : written.required "type" = some kind := by
      refine Fields.required_of_get? ?_ (ofJson?_toJson kind)
      rw [Fields.get?_set_of_ne (by decide), Fields.get?_set_self]
    have name : written.withDefault "name" "" = some header.name :=
      Fields.withDefault_of_get? (Fields.get?_set_self _ _ _) (ofJson?_toJson header.name)
    have id : written.withDefault "uuid" .nil = some header.id := by
      refine Fields.withDefault_of_get? ?_ (ofJson?_toJson header.id)
      rw [Fields.get?_set_of_ne (by decide), Fields.get?_set_of_ne (by decide),
        Fields.get?_set_self]
    refine bind_eq_some_of_eq_some (Json.finite?_object whole) (bind_eq_some_of_eq_some rfl ?_)
    refine bind_eq_some_of_eq_some type (bind_eq_some_of_eq_some name ?_)
    refine bind_eq_some_of_eq_some id ?_
    rw [others]
    rfl

/-- What is written of a record that was read has the fields of its document that it does not
know. -/
theorem StepRecord.get?_toJson_of_read {j : Json} {r : StepRecord}
    (read : Wire.ofJson? j = some r) {name : String} (unknown : name ∉ knownFields) :
    (toJson r).get? name = j.get? name := by
  obtain ⟨fields, rfl, -, kept⟩ := exists_fields_of_read read
  have different : ∀ known ∈ knownFields, name ≠ known := fun known listed same =>
    unknown (same ▸ listed)
  change Fields.get? (Fields.set "name" _ (Fields.set "type" _ (Fields.set "uuid" _ r.fields)))
    name = fields.get? name
  rw [Fields.get?_set_of_ne (different _ (by decide)),
    Fields.get?_set_of_ne (different _ (by decide)),
    Fields.get?_set_of_ne (different _ (by decide)), kept,
    Fields.get?_without_of_not_mem unknown]

/-- A monitor that was read keeps finite fields of other names than those that it knows, which are
those of its document. -/
theorem Monitor.exists_fields_of_read {j : Json} {m : Monitor} (read : Wire.ofJson? j = some m) :
    ∃ fields : Fields, j = .object fields ∧ Json.fieldsFinite fields = true ∧
      m.extra = fields.without knownFields := by
  obtain ⟨k, finite, read⟩ := Option.bind_eq_some_iff.1 read
  obtain ⟨fields, opened, read⟩ := Option.bind_eq_some_iff.1 read
  obtain ⟨kind, -, read⟩ := Option.bind_eq_some_iff.1 read
  obtain ⟨counters, -, read⟩ := Option.bind_eq_some_iff.1 read
  obtain rfl := Option.some.inj read
  obtain ⟨whole, object⟩ := Json.fieldsFinite_of_finite? finite opened
  exact ⟨fields, object, whole, rfl⟩

/-- What is written of counters is finite. -/
theorem Monitor.isFinite_counters (counters : List (PieceId × UInt32)) :
    (toJson counters).isFinite = true := by
  change Json.itemsFinite (counters.map toJson) = true
  induction counters with
  | nil => rfl
  | cons counter rest ih =>
    rw [List.map_cons, Json.itemsFinite, ih]
    rfl

instance : StableWire Monitor where
  reread {j} m read := by
    obtain ⟨fields, -, finite, kept⟩ := Monitor.exists_fields_of_read read
    obtain ⟨kind, counters, extra⟩ := m
    obtain rfl : extra = fields.without Monitor.knownFields := kept
    let written : Fields := Fields.set "type" (toJson kind) (Fields.set "counters" (toJson counters)
      (fields.without Monitor.knownFields))
    have whole : Json.fieldsFinite written = true :=
      Json.fieldsFinite_set (Json.fieldsFinite_set (Json.fieldsFinite_without finite _) "counters"
        (Monitor.isFinite_counters counters)) "type" rfl
    have others : written.without Monitor.knownFields = fields.without Monitor.knownFields := by
      rw [Fields.without_set (by decide), Fields.without_set (by decide), Fields.without_without]
    have type : written.required "type" = some kind :=
      Fields.required_of_get? (Fields.get?_set_self _ _ _) (ofJson?_toJson kind)
    have counts : written.withDefault "counters" [] = some counters := by
      refine Fields.withDefault_of_get? ?_ (ofJson?_toJson counters)
      rw [Fields.get?_set_of_ne (by decide), Fields.get?_set_self]
    refine bind_eq_some_of_eq_some (Json.finite?_object whole) (bind_eq_some_of_eq_some rfl ?_)
    refine bind_eq_some_of_eq_some type (bind_eq_some_of_eq_some counts ?_)
    rw [others]
    rfl

/-- What is written of a monitor that was read has the fields of its document that it does not
know. -/
theorem Monitor.get?_toJson_of_read {j : Json} {m : Monitor} (read : Wire.ofJson? j = some m)
    {name : String} (unknown : name ∉ knownFields) : (toJson m).get? name = j.get? name := by
  obtain ⟨fields, rfl, -, kept⟩ := exists_fields_of_read read
  have different : ∀ known ∈ knownFields, name ≠ known := fun known listed same =>
    unknown (same ▸ listed)
  change Fields.get? (Fields.set "type" _ (Fields.set "counters" _ m.extra)) name = fields.get? name
  rw [Fields.get?_set_of_ne (different _ (by decide)),
    Fields.get?_set_of_ne (different _ (by decide)), kept, Fields.get?_without_of_not_mem unknown]

namespace Snapshot

/-! ## Behaviours, pieces, packages and boards -/

/-- A behaviour reads back if its records do. -/
theorem Behaviour.ofJson?_written {b : Behaviour}
    (records : Wire.ofJson? (toJson b.actions) = some b.actions) :
    Wire.ofJson? (toJson b) = some b := by
  obtain ⟨fields, -, opened, get⟩ := Json.exists_fields_ofFields _
    [("name", toJson b.name), ("type", toJson b.trigger), ("uuid", toJson b.id),
     ("actions", toJson b.actions)]
  have name : fields.withDefault "name" "" = some b.name :=
    Fields.withDefault_of_get? (get "name") (ofJson?_toJson b.name)
  have trigger : fields.withDefault "type" .initiative = some b.trigger :=
    Fields.withDefault_of_get? (get "type") (ofJson?_toJson b.trigger)
  have id : fields.withDefault "uuid" .nil = some b.id :=
    Fields.withDefault_of_get? (get "uuid") (ofJson?_toJson b.id)
  have actions : fields.withDefault "actions" [] = some b.actions :=
    Fields.withDefault_of_get? (get "actions") records
  refine bind_eq_some_of_eq_some opened (bind_eq_some_of_eq_some name ?_)
  refine bind_eq_some_of_eq_some trigger (bind_eq_some_of_eq_some id ?_)
  exact bind_eq_some_of_eq_some actions rfl

instance : StableWire Behaviour where
  reread {j} b read := by
    obtain ⟨fields, -, read⟩ := Option.bind_eq_some_iff.1 read
    obtain ⟨name, -, read⟩ := Option.bind_eq_some_iff.1 read
    obtain ⟨trigger, -, read⟩ := Option.bind_eq_some_iff.1 read
    obtain ⟨id, -, read⟩ := Option.bind_eq_some_iff.1 read
    obtain ⟨actions, listed, read⟩ := Option.bind_eq_some_iff.1 read
    obtain rfl := Option.some.inj read
    exact Behaviour.ofJson?_written (Fields.reread_withDefault rfl listed)

/-- A piece reads back if its behaviours do. -/
theorem Piece.ofJson?_written {p : Piece}
    (pipelines : Wire.ofJson? (toJson p.behaviours) = some p.behaviours) :
    Wire.ofJson? (toJson p) = some p := by
  obtain ⟨fields, -, opened, get⟩ := Json.exists_fields_ofFields _
    [("name", toJson p.name), ("type", toJson p.template), ("uuid", toJson p.id),
     ("img", toJson p.image), ("behaviours", toJson p.behaviours)]
  have name : fields.withDefault "name" "" = some p.name :=
    Fields.withDefault_of_get? (get "name") (ofJson?_toJson p.name)
  have template : fields.withDefault "type" .nil = some p.template :=
    Fields.withDefault_of_get? (get "type") (ofJson?_toJson p.template)
  have id : fields.required "uuid" = some p.id :=
    Fields.required_of_get? (get "uuid") (ofJson?_toJson p.id)
  have image : fields.withDefault "img" "" = some p.image :=
    Fields.withDefault_of_get? (get "img") (ofJson?_toJson p.image)
  have behaviours : fields.withDefault "behaviours" [] = some p.behaviours :=
    Fields.withDefault_of_get? (get "behaviours") pipelines
  refine bind_eq_some_of_eq_some opened (bind_eq_some_of_eq_some name ?_)
  refine bind_eq_some_of_eq_some template (bind_eq_some_of_eq_some id ?_)
  exact bind_eq_some_of_eq_some image (bind_eq_some_of_eq_some behaviours rfl)

instance : StableWire Piece where
  reread {j} p read := by
    obtain ⟨fields, -, read⟩ := Option.bind_eq_some_iff.1 read
    obtain ⟨name, -, read⟩ := Option.bind_eq_some_iff.1 read
    obtain ⟨template, -, read⟩ := Option.bind_eq_some_iff.1 read
    obtain ⟨id, -, read⟩ := Option.bind_eq_some_iff.1 read
    obtain ⟨image, -, read⟩ := Option.bind_eq_some_iff.1 read
    obtain ⟨behaviours, listed, read⟩ := Option.bind_eq_some_iff.1 read
    obtain rfl := Option.some.inj read
    exact Piece.ofJson?_written (Fields.reread_withDefault rfl listed)

/-- A package reads back if its pieces do. -/
theorem Package.ofJson?_written {p : Package}
    (pieces : Wire.ofJson? (toJson p.entities) = some p.entities) :
    Wire.ofJson? (toJson p) = some p := by
  obtain ⟨fields, -, opened, get⟩ := Json.exists_fields_ofFields _
    [("name", toJson p.name), ("uuid", toJson p.id), ("entities", toJson p.entities)]
  have name : fields.withDefault "name" "" = some p.name :=
    Fields.withDefault_of_get? (get "name") (ofJson?_toJson p.name)
  have id : fields.withDefault "uuid" .nil = some p.id :=
    Fields.withDefault_of_get? (get "uuid") (ofJson?_toJson p.id)
  have entities : fields.withDefault "entities" [] = some p.entities :=
    Fields.withDefault_of_get? (get "entities") pieces
  refine bind_eq_some_of_eq_some opened (bind_eq_some_of_eq_some name ?_)
  exact bind_eq_some_of_eq_some id (bind_eq_some_of_eq_some entities rfl)

instance : StableWire Package where
  reread {j} p read := by
    obtain ⟨fields, -, read⟩ := Option.bind_eq_some_iff.1 read
    obtain ⟨name, -, read⟩ := Option.bind_eq_some_iff.1 read
    obtain ⟨id, -, read⟩ := Option.bind_eq_some_iff.1 read
    obtain ⟨entities, listed, read⟩ := Option.bind_eq_some_iff.1 read
    obtain rfl := Option.some.inj read
    exact Package.ofJson?_written (Fields.reread_withDefault rfl listed)

/-- A board reads back if its pieces and its monitors do. -/
theorem Board.ofJson?_written {b : Board}
    (known : Wire.ofJson? (toJson b.pieces) = some b.pieces)
    (counting : Wire.ofJson? (toJson b.monitors) = some b.monitors) :
    Wire.ofJson? (toJson b) = some b := by
  obtain ⟨fields, -, opened, get⟩ := Json.exists_fields_ofFields _
    [("type", toJson b.kind), ("name", toJson b.name), ("uuid", toJson b.id),
     ("pieces", toJson b.pieces), ("nations", toJson b.nations), ("players", toJson b.players),
     ("monitors", toJson b.monitors), ("state", toJson b.state), ("size", toJson b.size),
     ("losers", toJson b.losers)]
  have kind : fields.required "type" = some b.kind :=
    Fields.required_of_get? (get "type") (ofJson?_toJson b.kind)
  have name : fields.withDefault "name" "" = some b.name :=
    Fields.withDefault_of_get? (get "name") (ofJson?_toJson b.name)
  have id : fields.withDefault "uuid" .nil = some b.id :=
    Fields.withDefault_of_get? (get "uuid") (ofJson?_toJson b.id)
  have pieces : fields.withDefault "pieces" [] = some b.pieces :=
    Fields.withDefault_of_get? (get "pieces") known
  have nations : fields.withDefault "nations" [] = some b.nations :=
    Fields.withDefault_of_get? (get "nations") (ofJson?_toJson b.nations)
  have players : fields.withDefault "players" [] = some b.players :=
    Fields.withDefault_of_get? (get "players") (ofJson?_toJson b.players)
  have monitors : fields.withDefault "monitors" [] = some b.monitors :=
    Fields.withDefault_of_get? (get "monitors") counting
  have state : fields.withDefault "state" [] = some b.state :=
    Fields.withDefault_of_get? (get "state") (ofJson?_toJson b.state)
  have size : fields.withDefault "size" .standard = some b.size :=
    Fields.withDefault_of_get? (get "size") (ofJson?_toJson b.size)
  have losers : fields.withDefault "losers" [] = some b.losers :=
    Fields.withDefault_of_get? (get "losers") (ofJson?_toJson b.losers)
  refine bind_eq_some_of_eq_some opened (bind_eq_some_of_eq_some kind ?_)
  refine bind_eq_some_of_eq_some name (bind_eq_some_of_eq_some id ?_)
  refine bind_eq_some_of_eq_some pieces (bind_eq_some_of_eq_some nations ?_)
  refine bind_eq_some_of_eq_some players (bind_eq_some_of_eq_some monitors ?_)
  refine bind_eq_some_of_eq_some state (bind_eq_some_of_eq_some size ?_)
  exact bind_eq_some_of_eq_some losers rfl

instance : StableWire Board where
  reread {j} b read := by
    obtain ⟨fields, -, read⟩ := Option.bind_eq_some_iff.1 read
    obtain ⟨kind, -, read⟩ := Option.bind_eq_some_iff.1 read
    obtain ⟨name, -, read⟩ := Option.bind_eq_some_iff.1 read
    obtain ⟨id, -, read⟩ := Option.bind_eq_some_iff.1 read
    obtain ⟨pieces, known, read⟩ := Option.bind_eq_some_iff.1 read
    obtain ⟨nations, -, read⟩ := Option.bind_eq_some_iff.1 read
    obtain ⟨players, -, read⟩ := Option.bind_eq_some_iff.1 read
    obtain ⟨monitors, counting, read⟩ := Option.bind_eq_some_iff.1 read
    obtain ⟨state, -, read⟩ := Option.bind_eq_some_iff.1 read
    obtain ⟨size, -, read⟩ := Option.bind_eq_some_iff.1 read
    obtain ⟨losers, -, read⟩ := Option.bind_eq_some_iff.1 read
    obtain rfl := Option.some.inj read
    have pieces := Fields.reread_withDefault rfl known
    exact Board.ofJson?_written pieces (Fields.reread_withDefault rfl counting)

/-- Decoding undoes encoding.  Whatever document is read as a board, a package, a piece, a
behaviour, a record, a monitor or a nation, what is written of the value is read as the value again,
however deep its nations are nested, and whether its structures come as objects or as arrays of
their values.  What is written of a record or a monitor still has all the fields of the document
that it does not know. -/
theorem reread_snapshots :
    (∀ (j : Json) (b : Board), Wire.ofJson? j = some b → Wire.ofJson? (toJson b) = some b) ∧
    (∀ (j : Json) (p : Package), Wire.ofJson? j = some p → Wire.ofJson? (toJson p) = some p) ∧
    (∀ (j : Json) (p : Piece), Wire.ofJson? j = some p → Wire.ofJson? (toJson p) = some p) ∧
    (∀ (j : Json) (b : Behaviour), Wire.ofJson? j = some b → Wire.ofJson? (toJson b) = some b) ∧
    (∀ (j : Json) (r : StepRecord), Wire.ofJson? j = some r →
      Wire.ofJson? (toJson r) = some r ∧
        ∀ name ∉ StepRecord.knownFields, (toJson r).get? name = j.get? name) ∧
    (∀ (j : Json) (m : Monitor), Wire.ofJson? j = some m →
      Wire.ofJson? (toJson m) = some m ∧
        ∀ name ∉ Monitor.knownFields, (toJson m).get? name = j.get? name) ∧
    ∀ (j : Json) (n : Nation), Wire.ofJson? j = some n → Wire.ofJson? (toJson n) = some n := by
  refine ⟨fun j b read => reread read, fun j p read => reread read, fun j p read => reread read,
    fun j b read => reread read, fun j r read => ⟨reread read, fun name unknown => ?_⟩,
    fun j m read => ⟨reread read, fun name unknown => ?_⟩, fun j n read => reread read⟩
  · exact StepRecord.get?_toJson_of_read read unknown
  · exact Monitor.get?_toJson_of_read read unknown

/-- The document of a move that says less than a move knows, and more. -/
def notedMove : Json := .ofFields
  [("type", .string "vanilla.move"), ("note", .string "straight ahead"), ("loop", .null)]

/-- The document of a behaviour with this move. -/
def march : Json := .ofFields
  [("actions", .array [notedMove]), ("type", .object [("Passive", .null)])]

/-- The document of a piece with this behaviour. -/
def marcher : Json := .ofFields [("uuid", .string "marcher"), ("behaviours", .array [march])]

/-- The document of a package with this piece, an array of its values. -/
def company : Json := .array [.string "company", .string "company", .array [marcher]]

/-- The document of a monitor of a kind of its own. -/
def clock : Json := .ofFields [("type", .string "clock"), ("limit", .int 40)]

/-- The document of a nation with a guard, which has a guard of its own.  The innermost is an array
of values and ends after its name. -/
def guardedNation : Json := .ofFields
  [("sub", .array
    [.string "marcher", .ofFields [("name", .string "guard"), ("sub", .array
      [.array [.string "guard of the guard"], .string "guardian"])]])]

/-- The document of a board with all of them. -/
def camp : Json := .ofFields
  [("type", .string "camp"), ("pieces", .array [marcher]), ("nations", .array [guardedNation]),
   ("monitors", .array [clock]), ("state", .array [.array [.string "marcher",
      .array [.int 1, .int (-1)]]])]

/-- The camp, all its parts and the company are read and read back, and the move and the clock keep
the fields that they do not know. -/
theorem reread_camp :
    (∃ b : Board, Wire.ofJson? camp = some b ∧ Wire.ofJson? (toJson b) = some b) ∧
    (∃ p : Package, Wire.ofJson? company = some p ∧ Wire.ofJson? (toJson p) = some p) ∧
    (∃ p : Piece, Wire.ofJson? marcher = some p ∧ Wire.ofJson? (toJson p) = some p) ∧
    (∃ b : Behaviour, Wire.ofJson? march = some b ∧ Wire.ofJson? (toJson b) = some b) ∧
    (∃ r : StepRecord, Wire.ofJson? notedMove = some r ∧ Wire.ofJson? (toJson r) = some r ∧
      (toJson r).get? "note" = some (.string "straight ahead")) ∧
    (∃ m : Monitor, Wire.ofJson? clock = some m ∧ Wire.ofJson? (toJson m) = some m ∧
      (toJson m).get? "limit" = some (.int 40)) ∧
    ∃ n : Nation, Wire.ofJson? guardedNation = some n ∧ Wire.ofJson? (toJson n) = some n := by
  obtain ⟨boards, packages, pieces, behaviours, records, monitors, nations⟩ := reread_snapshots
  have read : ∀ (α : Type) [Wire α] (j : Json), (j.as? α).isSome = true →
      ∃ a : α, Wire.ofJson? j = some a := fun α _ j h => Option.isSome_iff_exists.1 h
  obtain ⟨board, hboard⟩ := read Board camp (by cbv)
  obtain ⟨package, hpackage⟩ := read Package company (by cbv)
  obtain ⟨piece, hpiece⟩ := read Piece marcher (by cbv)
  obtain ⟨behaviour, hbehaviour⟩ := read Behaviour march (by cbv)
  obtain ⟨record, hrecord⟩ := read StepRecord notedMove (by cbv)
  obtain ⟨monitor, hmonitor⟩ := read Monitor clock (by cbv)
  obtain ⟨nation, hnation⟩ := read Nation guardedNation (by cbv)
  obtain ⟨recordBack, noted⟩ := records notedMove record hrecord
  obtain ⟨monitorBack, limited⟩ := monitors clock monitor hmonitor
  refine ⟨⟨board, hboard, boards camp board hboard⟩,
    ⟨package, hpackage, packages company package hpackage⟩,
    ⟨piece, hpiece, pieces marcher piece hpiece⟩,
    ⟨behaviour, hbehaviour, behaviours march behaviour hbehaviour⟩,
    ⟨record, hrecord, recordBack, ?_⟩, ⟨monitor, hmonitor, monitorBack, ?_⟩,
    ⟨nation, hnation, nations guardedNation nation hnation⟩⟩
  · exact noted "note" (by decide)
  · exact limited "limit" (by decide)

end Snapshot

end BoardRules
