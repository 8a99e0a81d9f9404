import Mathlib
import BoardRules.Board.Storage
import BoardRules.Proofs.Nation.Nesting
import BoardRules.Proofs.Search.Guarded
import BoardRules.Proofs.Session.Run

/-!
# Saving and loading in the middle of a game

Loading fills in what a record leaves out, and keeps as they are the records that it cannot build.
So a stored step may differ from the record it was loaded from, but loading it once more gives the
same step with the same issue (`Behaviour.loadStep_toRecord`); behaviours and pieces follow.  The
forest of nations nests into the nations it was laid out from (`Forest.toSnapshot_ofSnapshot`).
Play changes none of this, and never takes the last monitor away, so that no new one is added
(`Board.kept_loadedFrom`).  Hence every board that is reached from a loaded one is stored in a
snapshot that loads into this very board (`Board.load_toSnapshot_of_reached`).
-/

namespace BoardRules

/-! ## Steps -/

/-- A field that holds a written value reads back as the value. -/
theorem StepRecord.readOr_eq_ok {α : Type} [Wire α] [LawfulWire α] {r : StepRecord} {name : String}
    {a : α} (stored : r.fields.get? name = some (toJson a)) (present : toJson a ≠ .null)
    (fallback : α) : r.readOr name fallback = .ok a := by
  have read : Wire.ofJson? (toJson a) = some a := ofJson?_toJson a
  generalize toJson a = j at stored present read
  unfold readOr read?
  rw [stored]
  cases j with
  | null => exact absurd rfl present
  | _ =>
    dsimp only
    rw [read]
    rfl

/-- A stored move reads back as the move. -/
theorem Move.ofRecord_toRecord (m : Move) : Move.ofRecord m.toRecord = .ok m := by
  have modes : m.toRecord.readOr "moveType" MoveModes.standard = .ok m.modes :=
    StepRecord.readOr_eq_ok rfl (by nofun) _
  have sliding : m.toRecord.readOr "loop" false = .ok m.sliding :=
    StepRecord.readOr_eq_ok rfl (by nofun) _
  have limit : m.toRecord.readOr "loopLimit" (1 : UInt32) = .ok m.loopLimit :=
    StepRecord.readOr_eq_ok rfl (by nofun) _
  have vectors : m.toRecord.readOr "stepPosition" ([] : List Square) = .ok m.vectors :=
    StepRecord.readOr_eq_ok rfl (by nofun) _
  unfold ofRecord
  rw [modes, sliding, limit, vectors]
  rfl

/-- A reading in several parts succeeds only if the first part does. -/
theorem exists_of_bind_eq_ok {ε α β : Type} {first : Except ε α} {next : α → Except ε β} {b : β}
    (read : first >>= next = .ok b) : ∃ a, first = .ok a ∧ next a = .ok b := by
  cases first with
  | error fault => exact nomatch read
  | ok a => exact ⟨a, rfl, read⟩

/-- A move that is read has the header of its record. -/
theorem Move.header_of_ofRecord {r : StepRecord} {m : Move} (read : Move.ofRecord r = .ok m) :
    m.header = r.header := by
  unfold ofRecord at read
  obtain ⟨modes, -, read⟩ := exists_of_bind_eq_ok read
  obtain ⟨sliding, -, read⟩ := exists_of_bind_eq_ok read
  obtain ⟨limit, -, read⟩ := exists_of_bind_eq_ok read
  obtain ⟨vectors, -, read⟩ := exists_of_bind_eq_ok read
  rw [← Except.ok.inj read]

/-- What a type of step builds: a condition or a move that is read from the record, or an
elimination. -/
inductive StepMaker.Builds (vocabulary : Vocabulary) (r : StepRecord) : StepMaker → Step → Prop
  | condition {c : Condition} (read : Condition.ofRecord vocabulary r = .ok c) :
      Builds vocabulary r .condition (.condition c)
  | move {m : Move} (read : Move.ofRecord r = .ok m) :
      Builds vocabulary r .move (.action (.move m))
  | lose : Builds vocabulary r .lose (.action (.lose r.header))

/-- A step that is built is built by the type that is registered for the record. -/
theorem Step.exists_builds {types : StepTypes} {vocabulary : Vocabulary} {r : StepRecord}
    {step : Step} (built : ofRecord types vocabulary r = .ok step) :
    ∃ maker form, types.get? r.kind = some ⟨maker, form⟩ ∧ maker.Builds vocabulary r step := by
  unfold ofRecord at built
  cases found : types.get? r.kind with
  | none =>
    rw [found] at built
    exact nomatch built
  | some type =>
    rw [found] at built
    obtain ⟨maker, form⟩ := type
    refine ⟨maker, form, rfl, ?_⟩
    cases maker with
    | condition =>
      cases read : Condition.ofRecord vocabulary r with
      | error fault =>
        rw [read] at built
        exact nomatch built
      | ok c =>
        rw [read] at built
        obtain rfl := Except.ok.inj built
        exact .condition read
    | move =>
      cases read : Move.ofRecord r with
      | error fault =>
        rw [read] at built
        exact nomatch built
      | ok m =>
        rw [read] at built
        obtain rfl := Except.ok.inj built
        exact .move read
    | lose =>
      obtain rfl := Except.ok.inj built
      exact .lose

namespace Step

/-- A step of a record, with the header of the record: a condition with a source, a move, or an
elimination. -/
inductive BuiltFrom (vocabulary : Vocabulary) (r : StepRecord) : Step → Prop
  | condition (code : String) :
      BuiltFrom vocabulary r (.condition (.ofCode vocabulary r.header code))
  | move {m : Move} (header : m.header = r.header) : BuiltFrom vocabulary r (.action (.move m))
  | lose : BuiltFrom vocabulary r (.action (.lose r.header))

variable {vocabulary : Vocabulary} {r : StepRecord} {step : Step}

/-- What is built from a record is one of these. -/
theorem builtFrom_of_ofRecord {types : StepTypes} (built : ofRecord types vocabulary r = .ok step) :
    BuiltFrom vocabulary r step := by
  obtain ⟨maker, form, -, builds⟩ := exists_builds built
  cases builds with
  | @condition c read =>
    rw [Condition.ofRecord_eq] at read
    cases source : r.source? with
    | none =>
      rw [source] at read
      exact nomatch read
    | some code =>
      rw [source] at read
      obtain rfl := Except.ok.inj read
      exact .condition code
  | move read => exact .move (Move.header_of_ofRecord read)
  | lose => exact .lose

/-- A built step is stored under the header of its record. -/
theorem BuiltFrom.header (built : BuiltFrom vocabulary r step) :
    step.toRecord.header = r.header := by
  cases built with
  | condition code => rfl
  | move header => exact header
  | lose => rfl

/-- A built step is built again from what is stored of it. -/
theorem BuiltFrom.ofRecord_toRecord (built : BuiltFrom vocabulary r step) :
    ofRecord .vanilla vocabulary step.toRecord = .ok step := by
  cases built with
  | condition code =>
    unfold ofRecord
    rw [Condition.ofRecord_eq]
    rfl
  | @move m header =>
    have again : Move.ofRecord (toRecord (.action (.move m))) = .ok m := m.ofRecord_toRecord
    unfold ofRecord
    rw [again]
    rfl
  | lose => rfl

end Step

namespace Behaviour

variable (vocabulary : Vocabulary)

/-- Loading what is stored of a loaded step gives the step again, with the same issue. -/
theorem loadStep_toRecord (id : BehaviourId) (r : StepRecord) :
    loadStep .vanilla vocabulary id (loadStep .vanilla vocabulary id r).1.toRecord =
      loadStep .vanilla vocabulary id r := by
  cases built : Step.ofRecord .vanilla vocabulary r with
  | error fault =>
    have kept : (loadStep .vanilla vocabulary id r).1 = .unresolved r := by
      unfold loadStep
      rw [built]
      cases fault <;> rfl
    rw [kept]
    rfl
  | ok step =>
    have loaded : (loadStep .vanilla vocabulary id r).1 = step := by
      unfold loadStep
      rw [built]
      cases step <;> rfl
    have spec := Step.builtFrom_of_ofRecord built
    rw [loaded, loadStep, loadStep, built, spec.ofRecord_toRecord, spec.header]
    cases step <;> rfl

end Behaviour

/-! ## Behaviours, pieces and boards -/

/-- If loading what is stored of anything loaded gives it again, so it does for several of them. -/
theorem map_load_store {α β γ : Type} {load : α → β × γ} {store : β → α}
    (again : ∀ a, load (store (load a).1) = load a) (records : List α) :
    (((records.map load).map Prod.fst).map store).map load = records.map load := by
  rw [List.map_map, List.map_map, List.map_map]
  exact List.map_congr_left fun a _ => again a

variable (vocabulary : Vocabulary)

/-- A loaded behaviour is loaded again from its snapshot, with the same issues. -/
theorem Behaviour.load_toSnapshot (data : Snapshot.Behaviour) :
    load .vanilla vocabulary (load .vanilla vocabulary data).1.toSnapshot =
      load .vanilla vocabulary data := by
  have steps := map_load_store (loadStep_toRecord vocabulary data.id) data.actions
  unfold load toSnapshot
  dsimp only
  rw [steps]

/-- A loaded piece is loaded again from its snapshot, with the same issues. -/
theorem Piece.load_toSnapshot (data : Snapshot.Piece) :
    load .vanilla vocabulary (load .vanilla vocabulary data).1.toSnapshot =
      load .vanilla vocabulary data := by
  have behaviours := map_load_store (Behaviour.load_toSnapshot vocabulary) data.behaviours
  unfold load toSnapshot
  dsimp only
  rw [behaviours]

namespace Board

variable {data : Snapshot.Board} {b c : Board}

/-- A board that is loaded is the one that is built, with the issues of its pieces and its own; a
strict load finds none. -/
theorem built_of_load {registries : Registries} {settings : Settings} {issues : List Issue}
    (loaded : load registries settings data = .ok (b, issues)) :
    b = (build registries data).1 ∧ issues = (build registries data).2 ++ b.issues registries.kinds ∧
      (settings.strict = true → issues = []) := by
  unfold load at loaded
  dsimp only at loaded
  split at loaded
  · exact nomatch loaded
  · rename_i passed
    obtain ⟨rfl, rfl⟩ := Prod.mk.inj (Except.ok.inj loaded)
    refine ⟨rfl, rfl, fun strict => ?_⟩
    rw [strict, Bool.true_and, Bool.not_eq_true', Bool.not_eq_false] at passed
    exact List.isEmpty_iff.1 passed

/-- A board whose pieces and nations were loaded from a snapshot, with some monitor. -/
structure LoadedFrom (data : Snapshot.Board) (b : Board) : Prop where
  /-- The pieces are those of the snapshot. -/
  pieces : b.pieces = (data.pieces.map (Piece.load .vanilla .vanilla)).map Prod.fst
  /-- The nations are those of the snapshot. -/
  nations : b.nations = .ofSnapshot data.nations
  /-- There is a monitor. -/
  monitors : b.monitors ≠ []

/-- A board that is loaded has some monitor. -/
theorem loadedFrom_build (data : Snapshot.Board) : LoadedFrom data (build {} data).1 where
  pieces := rfl
  nations := rfl
  monitors := by
    change (if data.monitors.isEmpty then [Monitor.step] else data.monitors) ≠ []
    split
    · exact List.cons_ne_nil _ _
    · rename_i some
      exact fun none => some (List.isEmpty_iff.2 none)

/-- Every change of a board keeps what was loaded from a snapshot. -/
theorem kept_loadedFrom (data : Snapshot.Board) : Kept (LoadedFrom data) where
  lift c piece h := ⟨h.pieces, h.nations, h.monitors⟩
  move c piece square h :=
    ⟨h.pieces, h.nations, fun none => h.monitors (List.map_eq_nil_iff.1 none)⟩
  eliminate c player h := by
    unfold Board.eliminate
    split
    · exact h
    · exact ⟨h.pieces, h.nations, h.monitors⟩

/-- A board with what was loaded from a snapshot is built again from what is stored of it, with the
same issues of its pieces. -/
theorem LoadedFrom.build_toSnapshot (h : LoadedFrom data b) :
    build {} b.toSnapshot = (b, (build {} data).2) := by
  have pieces : (b.pieces.map Piece.toSnapshot).map (Piece.load .vanilla .vanilla) =
      data.pieces.map (Piece.load .vanilla .vanilla) := by
    rw [h.pieces]
    exact map_load_store (Piece.load_toSnapshot .vanilla) data.pieces
  have nations : Forest.ofSnapshot b.nations.toSnapshot = b.nations := by
    rw [h.nations, Forest.toSnapshot_ofSnapshot]
  have monitors : b.monitors.isEmpty = false := by
    rw [← Bool.not_eq_true, List.isEmpty_iff]
    exact h.monitors
  unfold build toSnapshot
  dsimp only
  rw [pieces, nations, monitors, ← h.pieces]
  rfl

/-- A board that comes out of another one by commits, for any analysis of it, and eliminations. -/
inductive Reached (b : Board) : Board → Prop
  /-- Nothing has been done. -/
  | start : Reached b b
  /-- A selection is committed. -/
  | commit {c next : Board} (h : Reached b c) {settings : Settings} {phase : Phase}
      {include? : Piece → Bool} {selection : Selection}
      (played : (c.analysisWhere settings phase include?).play selection = .ok next) :
      Reached b next
  /-- A player is eliminated. -/
  | eliminate {c : Board} (h : Reached b c) (player : PlayerId) : Reached b (c.eliminate player)

end Board

/-- What lasts holds on every board that is reached. -/
theorem Lasting.reached {P : Board → Prop} (lasting : Lasting P) {b c : Board} (h : P b)
    (reached : b.Reached c) : P c := by
  induction reached with
  | start => exact h
  | commit _ played ih =>
    unfold Analysis.play at played
    split at played
    · rename_i candidate found
      rw [← Except.ok.inj played]
      exact lasting.outcome ih (Analysis.mem_candidates_of_find? found)
    · exact nomatch played
  | eliminate _ player ih => exact lasting.elimination _ player ih

/-- Saving and loading in the middle of a game is invisible.  A board that is reached by commits and
eliminations from a loaded one is stored in a snapshot that loads into the very same board.  So its
stored form, the steps of its behaviours, whoever owns a piece and every analysis are the same; and
the pieces raise the issues that they raised when they were first loaded. -/
theorem Board.load_toSnapshot_of_reached {data : Snapshot.Board} {first b : Board}
    {issues : List Issue} (loaded : load {} {} data = .ok (first, issues))
    (reached : first.Reached b) :
    load {} {} b.toSnapshot = .ok (b, (build {} data).2 ++ b.issues .vanilla) := by
  have built : first = (build {} data).1 := by
    have done : load {} {} data = .ok ((build {} data).1, _) := rfl
    rw [done] at loaded
    exact (Prod.mk.inj (Except.ok.inj loaded)).1.symm
  subst built
  have stored := (kept_loadedFrom data).lasting.reached (loadedFrom_build data) reached
  have again := stored.build_toSnapshot
  unfold load
  rw [again]
  rfl

/-- The raid as it may be stored: the moves leave out fields, the guard has a step of a type that
is not registered, and no monitor is listed. -/
def raidSnapshot : Snapshot.Board :=
  { raidBoard.toSnapshot with
    pieces :=
      [{ name := "raider", template := .nil, id := ⟨"raider"⟩, image := "",
         behaviours :=
          [{ name := "raid", trigger := .initiative, id := ⟨"raid"⟩,
             actions :=
              [⟨Move.kind, {}, [("moveType", toJson MoveModes.attack),
                  ("stepPosition", toJson [(⟨1, 0⟩ : Square)])]⟩,
               ⟨Move.kind, {}, [("loop", .bool true),
                  ("stepPosition", toJson [(⟨0, 1⟩ : Square)])]⟩] }] },
       { name := "guard", template := .nil, id := ⟨"guard"⟩, image := "",
         behaviours :=
          [{ name := "watch", trigger := .immediately, id := ⟨"watch"⟩,
             actions := [⟨"custom.watch", {}, [("range", .int 2)]⟩] }] },
       Piece.toSnapshot { id := ⟨"king"⟩, behaviours := [fallBehaviour] }]
    monitors := [] }

/-- After the raid, when the guard and the king are gone and black has lost, the board is stored in
a snapshot that loads into the same board. -/
theorem reload_after_raid :
    ∃ first issues, Board.load {} {} raidSnapshot = .ok (first, issues) ∧
      ∃ b, first.Reached b ∧ b.placements = [(⟨"raider"⟩, ⟨0, 2⟩)] ∧ b.losers = [⟨"black"⟩] ∧
        Board.load {} {} b.toSnapshot =
          .ok (b, (Board.build {} raidSnapshot).2 ++ b.issues .vanilla) := by
  have outcome : (((Board.build {} raidSnapshot).1.analysis {} .initiative).find?
      ⟨⟨"raider"⟩, ⟨"raid"⟩, [0, 1]⟩).map (fun c => (c.outcome.placements, c.outcome.losers)) =
        some ([(⟨"raider"⟩, ⟨0, 2⟩)], [⟨"black"⟩]) := by cbv
  obtain ⟨c, found, parts⟩ := Option.map_eq_some_iff.1 outcome
  obtain ⟨placed, lost⟩ := Prod.mk.inj parts
  have played : ((Board.build {} raidSnapshot).1.analysis {} .initiative).play
      ⟨⟨"raider"⟩, ⟨"raid"⟩, [0, 1]⟩ = .ok c.outcome := by
    unfold Analysis.play
    rw [found]
  have reached : (Board.build {} raidSnapshot).1.Reached c.outcome := .commit .start played
  exact ⟨_, _, rfl, c.outcome, reached, placed, lost,
    Board.load_toSnapshot_of_reached rfl reached⟩

end BoardRules
