import Mathlib
import BoardRules.Board.Storage
import BoardRules.Proofs.Json.Exact
import BoardRules.Proofs.Session.Reload

/-!
# What a loaded board stores of a record

A step that was built does not keep the record it was built from: what is stored of it is written
from its parts.  A part that was read from a field is written as the field stood
(`StepRecord.toJson_of_readOr`), but a field that the type does not define is no part, and is not
stored (`Step.get?_toRecord_iff`).  A record that could not be built is its own step and is stored
whole.  So which fields of a record come back depends on the step it is loaded as (`Step.keeps`),
and a board that raises no issue may store less than it was loaded from.
-/

namespace BoardRules

/-- Written fields that all agree with a value have it under a name exactly if they have the
name. -/
theorem Fields.get?_eq_some_iff_of_agree {written : Fields} {name : String} {value : Json}
    (agree : ∀ j, (name, j) ∈ written → j = value) :
    written.get? name = some value ↔ name ∈ written.map Prod.fst := by
  constructor
  · intro found
    obtain ⟨before, behind, rfl, -⟩ := List.lookup_eq_some_iff.1 found
    simp
  · intro listed
    cases found : written.get? name with
    | none =>
      obtain ⟨field, held, rfl⟩ := List.mem_map.1 listed
      exact absurd (List.lookup_eq_none_iff.1 found field held) (by simp)
    | some j =>
      obtain ⟨before, behind, split, -⟩ := List.lookup_eq_some_iff.1 found
      rw [agree j (split ▸ List.mem_append_right before List.mem_cons_self)]

/-! ## One record -/

/-- The step that a record is loaded as. -/
def StepRecord.step (types : StepTypes) (vocabulary : Vocabulary) (r : StepRecord) : Step :=
  match Step.ofRecord types vocabulary r with
  | .ok step => step
  | .error _ => .unresolved r

/-- The step of a loaded record does not depend on the behaviour that is named in its issue. -/
theorem Behaviour.fst_loadStep (types : StepTypes) (vocabulary : Vocabulary) (id : BehaviourId)
    (r : StepRecord) : (loadStep types vocabulary id r).1 = r.step types vocabulary := by
  unfold loadStep StepRecord.step
  cases Step.ofRecord types vocabulary r with
  | error fault => cases fault <;> rfl
  | ok step => cases step <;> rfl

/-- The fields that moves define. -/
def Move.fieldNames : List String := ["loop", "loopLimit", "moveType", "stepPosition"]

/-- Whether a field of the record that a step was loaded from is stored. -/
def Step.keeps : Step → String → Bool
  | .action (.move _), name => Move.fieldNames.contains name
  | .action (.lose _), _ => false
  | .condition _, name => name = "code"
  | .unresolved _, _ => true

section

variable {r : StepRecord}

/-- A move that is read has the parts that its fields are read as. -/
theorem Move.parts_of_ofRecord {m : Move} (read : Move.ofRecord r = .ok m) :
    r.readOr "loop" false = .ok m.sliding ∧
      r.readOr "loopLimit" (1 : UInt32) = .ok m.loopLimit ∧
      r.readOr "moveType" MoveModes.standard = .ok m.modes ∧
      r.readOr "stepPosition" ([] : List Square) = .ok m.vectors := by
  unfold ofRecord at read
  obtain ⟨modes, hmodes, read⟩ := exists_of_bind_eq_ok read
  obtain ⟨sliding, hsliding, read⟩ := exists_of_bind_eq_ok read
  obtain ⟨limit, hlimit, read⟩ := exists_of_bind_eq_ok read
  obtain ⟨vectors, hvectors, read⟩ := exists_of_bind_eq_ok read
  rw [← Except.ok.inj read]
  exact ⟨hsliding, hlimit, hmodes, hvectors⟩

variable {name : String} {value : Json}

/-- Of the fields of its record a move stores those that moves define. -/
theorem Move.get?_toRecord_iff {m : Move} (read : Move.ofRecord r = .ok m)
    (stored : r.fields.get? name = some value) (present : value ≠ .null) :
    m.toRecord.fields.get? name = some value ↔ name ∈ Move.fieldNames := by
  obtain ⟨sliding, limit, modes, vectors⟩ := Move.parts_of_ofRecord read
  refine Fields.get?_eq_some_iff_of_agree fun j written => ?_
  simp only [toRecord, List.mem_cons, Prod.mk.injEq, List.not_mem_nil, or_false] at written
  obtain ⟨rfl, rfl⟩ | ⟨rfl, rfl⟩ | ⟨rfl, rfl⟩ | ⟨rfl, rfl⟩ := written
  · exact StepRecord.toJson_of_readOr stored present sliding
  · exact StepRecord.toJson_of_readOr stored present limit
  · exact StepRecord.toJson_of_readOr stored present modes
  · exact StepRecord.toJson_of_readOr stored present vectors

/-- Of the fields of its record a condition stores its source. -/
theorem Condition.get?_toRecord_iff {vocabulary : Vocabulary} {c : Condition}
    (read : Condition.ofRecord vocabulary r = .ok c) (stored : r.fields.get? name = some value)
    (present : value ≠ .null) : c.toRecord.fields.get? name = some value ↔ name = "code" := by
  have source : r.readOr "code" "" = .ok c.code := by
    unfold ofRecord at read
    cases found : r.readOr "code" "" with
    | error fault =>
      rw [found] at read
      exact nomatch read
    | ok code =>
      rw [found] at read
      rw [← Except.ok.inj read]
      rfl
  refine (Fields.get?_eq_some_iff_of_agree fun j written => ?_).trans List.mem_singleton
  obtain ⟨rfl, rfl⟩ := Prod.mk.inj (List.mem_singleton.1 written)
  exact StepRecord.toJson_of_readOr stored present source

variable {types : StepTypes} {vocabulary : Vocabulary}

/-- Of the fields of the record it was loaded from a step stores those it keeps. -/
theorem Step.get?_toRecord_iff (stored : r.fields.get? name = some value)
    (present : value ≠ .null) :
    (r.step types vocabulary).toRecord.fields.get? name = some value ↔
      (r.step types vocabulary).keeps name = true := by
  unfold StepRecord.step
  cases built : Step.ofRecord types vocabulary r with
  | error fault => exact iff_of_true stored rfl
  | ok step =>
    obtain ⟨maker, form, -, builds⟩ := Step.exists_builds built
    cases builds with
    | condition read =>
      exact (Condition.get?_toRecord_iff read stored present).trans decide_eq_true_iff.symm
    | move read =>
      exact (Move.get?_toRecord_iff read stored present).trans List.contains_iff_mem.symm
    | lose => exact iff_of_false (nomatch ·) (nomatch ·)

/-- A step is stored under the header of the record it was loaded from. -/
theorem Step.header_toRecord (types : StepTypes) (vocabulary : Vocabulary) (r : StepRecord) :
    (r.step types vocabulary).toRecord.header = r.header := by
  unfold StepRecord.step
  cases built : Step.ofRecord types vocabulary r with
  | error fault => rfl
  | ok step => exact (Step.builtFrom_of_ofRecord built).header

/-- What a type that comes with the rules builds is stored under the name of the type. -/
theorem Step.kind_toRecord (vocabulary : Vocabulary) (r : StepRecord) :
    (r.step .vanilla vocabulary).toRecord.kind = r.kind := by
  unfold StepRecord.step
  cases built : Step.ofRecord .vanilla vocabulary r with
  | error fault => rfl
  | ok step =>
    obtain ⟨maker, form, found, builds⟩ := Step.exists_builds built
    obtain ⟨before, behind, split, -⟩ := List.lookup_eq_some_iff.1 found
    have listed : (r.kind, (⟨maker, form⟩ : StepType)) ∈ StepTypes.vanilla.entries :=
      split ▸ List.mem_append_right before List.mem_cons_self
    simp only [StepTypes.vanilla, List.mem_cons, Prod.mk.injEq, StepType.mk.injEq,
      List.not_mem_nil, or_false] at listed
    obtain ⟨known, rfl, -⟩ | ⟨known, rfl, -⟩ | ⟨known, rfl, -⟩ := listed <;> rw [known] <;>
      cases builds <;> rfl

/-- A record of a type that is not registered, or with a field that cannot be read, is stored as it
stands. -/
theorem Step.toRecord_of_not_isBuilt
    (unbuilt : (r.step types vocabulary).isBuilt = false) :
    (r.step types vocabulary).toRecord = r := by
  unfold StepRecord.step at unbuilt ⊢
  cases built : Step.ofRecord types vocabulary r with
  | error fault => rfl
  | ok step =>
    rw [built] at unbuilt
    cases Step.builtFrom_of_ofRecord built <;> exact nomatch unbuilt

end

/-! ## All records of a board -/

/-- The record at a place: of the piece, of its behaviour, and of the record in it. -/
def Snapshot.Board.recordAt? (data : Snapshot.Board) (piece behaviour step : Nat) :
    Option StepRecord := do
  let p ← data.pieces[piece]?
  let b ← p.behaviours[behaviour]?
  b.actions[step]?

/-- At a place of what is stored of several loaded things stands what is stored of the one that was
loaded from there. -/
theorem getElem?_store_load {α β γ δ : Type} (load : α → β × γ) (store : β → δ) (records : List α)
    (i : Nat) :
    (((records.map load).map Prod.fst).map store)[i]? =
      records[i]?.map fun a => store (load a).1 := by
  rw [List.map_map, List.map_map, List.getElem?_map]
  rfl

namespace Board

/-- The record at a place of what a built board stores is that of the step which the record at that
place of the snapshot is loaded as. -/
theorem recordAt?_toSnapshot_build (registries : Registries) (data : Snapshot.Board)
    (i j k : Nat) :
    (build registries data).1.toSnapshot.recordAt? i j k =
      (data.recordAt? i j k).map fun r =>
        (r.step registries.types registries.vocabulary).toRecord := by
  unfold Snapshot.Board.recordAt?
  have pieces : (build registries data).1.toSnapshot.pieces[i]? = _ :=
    getElem?_store_load (Piece.load registries.types registries.vocabulary) Piece.toSnapshot
      data.pieces i
  rw [pieces]
  cases data.pieces[i]? with
  | none => rfl
  | some p =>
    have behaviours : (Piece.load registries.types registries.vocabulary
        p).1.toSnapshot.behaviours[j]? = _ :=
      getElem?_store_load (Behaviour.load registries.types registries.vocabulary)
        Behaviour.toSnapshot p.behaviours j
    change Option.bind (Piece.toSnapshot _).behaviours[j]? _ =
      Option.map _ (Option.bind p.behaviours[j]? _)
    rw [behaviours]
    cases p.behaviours[j]? with
    | none => rfl
    | some b =>
      have steps : (Behaviour.load registries.types registries.vocabulary
          b).1.toSnapshot.actions[k]? = _ :=
        getElem?_store_load (Behaviour.loadStep registries.types registries.vocabulary b.id)
          Step.toRecord b.actions k
      refine steps.trans ?_
      simp only [Behaviour.fst_loadStep]
      rfl

/-- Every record of a snapshot has its record in what the loaded board stores, with the name and the
identity, and with the type if it is one that comes with the rules.  A record that could not be
built is stored whole.  Of any other record those fields are stored as they stood which the step
keeps, and no others: a note beside the fields that the type of the step defines is lost. -/
theorem records_of_load {registries : Registries} {settings : Settings} {data : Snapshot.Board}
    {b : Board} {issues : List Issue} (loaded : load registries settings data = .ok (b, issues))
    {i j k : Nat} {r : StepRecord} (listed : data.recordAt? i j k = some r) :
    ∃ stored, b.toSnapshot.recordAt? i j k = some stored ∧
      stored.header = r.header ∧
      (registries.types = .vanilla → stored.kind = r.kind) ∧
      ((r.step registries.types registries.vocabulary).isBuilt = false → stored = r) ∧
      ∀ name value, r.fields.get? name = some value → value ≠ .null →
        (stored.fields.get? name = some value ↔
          (r.step registries.types registries.vocabulary).keeps name = true) := by
  obtain ⟨rfl, -, -⟩ := built_of_load loaded
  refine ⟨(r.step registries.types registries.vocabulary).toRecord, ?_, ?_, ?_, ?_, ?_⟩
  · rw [recordAt?_toSnapshot_build, listed]
    rfl
  · exact Step.header_toRecord _ _ r
  · intro vanilla
    rw [vanilla]
    exact Step.kind_toRecord _ r
  · exact Step.toRecord_of_not_isBuilt
  · exact fun name value held present => Step.get?_toRecord_iff held present

/-- A scribe whose behaviour has a condition, a move and an elimination, each with a note. -/
def notes : Snapshot.Board where
  kind := basicKind
  name := "notes"
  id := ⟨"board"⟩
  pieces :=
    [{ name := "", template := .nil, id := ⟨"scribe"⟩, image := "",
       behaviours :=
        [{ name := "", trigger := .initiative, id := ⟨"write"⟩,
           actions :=
            [⟨Condition.kind, { id := ⟨"c"⟩ },
                [("code", .string "(me)"), ("note", .string "first")]⟩,
             ⟨Move.kind, { id := ⟨"m"⟩ },
                [("moveType", toJson MoveModes.move), ("note", .string "second"),
                 ("stepPosition", toJson [(⟨0, 1⟩ : Square)])]⟩,
             ⟨Action.loseKind, { id := ⟨"l"⟩ }, [("note", .string "third")]⟩] }] }]
  nations :=
    [{ head := { name := "White", id := ⟨"whites"⟩, color := 0, monarch := "white" },
       members := [.piece ⟨"scribe"⟩] }]
  players := [{ id := ⟨"white"⟩, seat := ⟨1⟩ }, { id := ⟨"black"⟩, seat := ⟨3⟩ }]
  monitors := []
  state := [(⟨"scribe"⟩, ⟨0, 0⟩)]
  size := ⟨3, 3⟩
  losers := []

/-- The move of the scribe comes back with its vectors, and without its note. -/
theorem records_of_notes :
    ∃ b stored, load {} {} notes = .ok (b, []) ∧ b.toSnapshot.recordAt? 0 0 1 = some stored ∧
      stored.fields.get? "stepPosition" = some (toJson [(⟨0, 1⟩ : Square)]) ∧
      stored.fields.get? "note" ≠ some (.string "second") := by
  have loaded : load {} {} notes = .ok ((build {} notes).1, []) := by cbv
  obtain ⟨stored, found, -, -, -, kept⟩ := records_of_load loaded (i := 0) (j := 0) (k := 1) rfl
  have vectors : toJson [(⟨0, 1⟩ : Square)] ≠ .null := Json.noConfusion
  have note : Json.string "second" ≠ .null := Json.noConfusion
  refine ⟨_, stored, loaded, found, ?_, ?_⟩
  · exact (kept "stepPosition" _ rfl vectors).2 (by cbv)
  · exact fun back => Bool.false_ne_true ((kept "note" _ rfl note).1 back)

/-- None of the three notes is stored, though the board loads without an issue. -/
theorem notes_lost :
    ∃ b, load {} {} notes = .ok (b, []) ∧
      (List.range 3).map (fun k => (notes.recordAt? 0 0 k).bind (·.fields.get? "note")) =
        [some (.string "first"), some (.string "second"), some (.string "third")] ∧
      (List.range 3).map (fun k => (b.toSnapshot.recordAt? 0 0 k).map (·.fields.get? "note")) =
        [some none, some none, some none] :=
  ⟨(build {} notes).1, by cbv, by cbv, by cbv⟩

end Board

end BoardRules
