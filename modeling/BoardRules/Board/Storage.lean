import BoardRules.Board.Integrity
import BoardRules.Json.Reader
import BoardRules.Json.Writer
import BoardRules.Nation.Storage

/-!
# Boards and snapshots

Loading resolves the steps of a snapshot against the registered types and words, and reports the
issues of steps and of the board. A strict load fails on any issue.
-/

namespace BoardRules

namespace Snapshot

/-- The stored form of a board. -/
structure Board where
  kind : String
  name : String
  id : DesignId
  pieces : List Piece
  nations : List Nation
  players : List Player
  monitors : List Monitor
  state : List (PieceId × Square)
  size : Extent
  losers : List PlayerId
  deriving Repr

instance : Wire Board where
  toJson b := .ofFields
    [("type", toJson b.kind), ("name", toJson b.name), ("uuid", toJson b.id),
     ("pieces", toJson b.pieces), ("nations", toJson b.nations), ("players", toJson b.players),
     ("monitors", toJson b.monitors), ("state", toJson b.state), ("size", toJson b.size),
     ("losers", toJson b.losers)]
  ofJson? j := do
    let fields ← j.structure?
      ["type", "name", "uuid", "pieces", "nations", "players", "monitors", "state", "size",
        "losers"]
    return { kind := ← fields.required "type",
             name := ← fields.withDefault "name" "",
             id := ← fields.withDefault "uuid" .nil,
             pieces := ← fields.withDefault "pieces" [],
             nations := ← fields.withDefault "nations" [],
             players := ← fields.withDefault "players" [],
             monitors := ← fields.withDefault "monitors" [],
             state := ← fields.withDefault "state" [],
             size := ← fields.withDefault "size" .standard,
             losers := ← fields.withDefault "losers" [] }

end Snapshot

/-- What loading resolves names against. -/
structure Registries where
  types : StepTypes := .vanilla
  vocabulary : Vocabulary := .vanilla
  kinds : BoardKinds := .vanilla

/-- The refusal to install registries a second time. -/
def Registries.alreadyInstalled : String := "registries are already installed"

/-- Why a snapshot cannot be loaded. -/
inductive LoadFault where
  /-- The text is no snapshot. -/
  | snapshot
  /-- A strict load found issues. -/
  | integrity (issues : List Issue)

/-- The wording of a failed strict load. -/
def LoadFault.integrityMessage (issues : List Issue) : String :=
  "board snapshot failed " ++ toString issues.length ++ " integrity check(s)"

namespace Board

/-- Build the board of a snapshot, with the issues of its pieces. Without monitors it gets a step
monitor. -/
def build (registries : Registries) (data : Snapshot.Board) : Board × List Issue :=
  let loaded := data.pieces.map (Piece.load registries.types registries.vocabulary)
  ({ kind := data.kind, name := data.name, id := data.id, size := data.size,
     pieces := loaded.map Prod.fst, nations := .ofSnapshot data.nations, players := data.players,
     monitors := if data.monitors.isEmpty then [.step] else data.monitors,
     placements := data.state, losers := data.losers },
    loaded.flatMap Prod.snd)

/-- Load a snapshot, with the issues of its pieces and of the board. -/
def load (registries : Registries) (settings : Settings) (data : Snapshot.Board) :
    Except LoadFault (Board × List Issue) :=
  let (board, stepIssues) := build registries data
  let issues := stepIssues ++ board.issues registries.kinds
  if settings.strict && !issues.isEmpty then .error (.integrity issues) else .ok (board, issues)

/-- The stored form of a board. -/
def toSnapshot (b : Board) : Snapshot.Board :=
  { kind := b.kind, name := b.name, id := b.id, pieces := b.pieces.map Piece.toSnapshot,
    nations := b.nations.toSnapshot, players := b.players, monitors := b.monitors,
    state := b.placements, size := b.size, losers := b.losers }

/-- Load the text of a snapshot. -/
def read (registries : Registries) (settings : Settings) (text : String) :
    Except LoadFault (Board × List Issue) :=
  match (Json.parse? text).bind Wire.ofJson? with
  | none => .error .snapshot
  | some data => load registries settings data

/-- The text of the snapshot of a board. -/
def write (b : Board) : String := (toJson b.toSnapshot).render

end Board

end BoardRules
