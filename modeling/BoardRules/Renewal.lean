import BoardRules.Board.Storage
import BoardRules.Random.Generator

/-!
# Fresh identities

Copying a design gives new identities to everything it contains. Identities are drawn from a supply,
each thing before what it contains and everything in order; in a board, whatever names one of its
pieces follows the new name. The generator is one such supply.
-/

namespace BoardRules

/-- A supply of identity texts with states `σ`. -/
abbrev Supply (σ : Type) := StateM σ String

/-- The random generator as a supply. -/
def Generator.supply : Supply Generator := fun g => g.freshText

variable {σ : Type}

/-- Draw an identity. -/
def Id.draw {kind : IdKind} (supply : Supply σ) : StateM σ (Id kind) := return ⟨← supply⟩

namespace Snapshot

/-- Renew a record. -/
def renewRecord (supply : Supply σ) (r : StepRecord) : StateM σ StepRecord := do
  let id ← Id.draw supply
  return { r with header := { r.header with id } }

/-- Renew a behaviour and its records. -/
def Behaviour.renew (supply : Supply σ) (b : Behaviour) : StateM σ Behaviour := do
  let id ← Id.draw supply
  let actions ← b.actions.mapM (renewRecord supply)
  return { b with id, actions }

/-- Renew a piece and its behaviours. -/
def Piece.renew (supply : Supply σ) (p : Piece) : StateM σ Piece := do
  let id ← Id.draw supply
  let behaviours ← p.behaviours.mapM (·.renew supply)
  return { p with id, behaviours }

/-- Renew a package and its pieces. -/
def Package.renew (supply : Supply σ) (p : Package) : StateM σ Package := do
  let id ← Id.draw supply
  let entities ← p.entities.mapM (·.renew supply)
  return { p with id, entities }

end Snapshot

/-- Renew the nations of a forest in their order. -/
def Forest.renew (supply : Supply σ) (f : Forest) : StateM σ Forest := do
  let nodes ← f.nodes.mapM fun n => do
    let id ← Id.draw supply
    return { n with id }
  return { f with nodes }

namespace Snapshot

/-- The new name of a piece, from the pieces before and after renewal. Of pieces with one name the
last one counts. -/
def newName? (old new : List Piece) (id : PieceId) : Option PieceId :=
  ((old.map (·.id)).zip (new.map (·.id))).reverse.lookup id

/-- Renew a board, its pieces and its nations. Placements, counters and nation members follow the
pieces. -/
def Board.renew (supply : Supply σ) (b : Board) : StateM σ Board := do
  let id ← Id.draw supply
  let pieces ← b.pieces.mapM (·.renew supply)
  let new? := newName? b.pieces pieces
  let nations ← ((Forest.ofSnapshot b.nations).rename new?).renew supply
  return { b with
    id, pieces
    nations := nations.toSnapshot
    state := b.state.map fun placed => ((new? placed.1).getD placed.1, placed.2)
    monitors := b.monitors.map (·.rename new?) }

end Snapshot

end BoardRules
