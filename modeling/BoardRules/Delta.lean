import BoardRules.Geometry.Square
import BoardRules.Identity

/-!
# Deltas

The state changes that a behaviour gathers along its steps. A delta set is an ordered list with one
delta for each kind of change. Merging a newer delta replaces the one of its kind in place, except
that attacked pieces add up; a new kind goes to the end. Seen kind by kind, merging changes the
kind of the newer delta and no other (`get?_merge_self`, `get?_merge_of_ne`).
-/

namespace BoardRules

/-- The kinds of change. -/
inductive DeltaKind where
  /-- The square the piece goes to. -/
  | position
  /-- The square shown to the player. -/
  | cell
  /-- The pieces taken. -/
  | attack
  /-- The player eliminated. -/
  | lose
  deriving DecidableEq, Repr

/-- The word for a kind of change. -/
def DeltaKind.name : DeltaKind → String
  | .position => "Position"
  | .cell => "Cell"
  | .attack => "Attack"
  | .lose => "Lose"

/-- A change of state. -/
inductive Delta where
  | position (square : Square)
  | cell (square : Square)
  | attack (pieces : List PieceId)
  | lose (player : PlayerId)
  deriving DecidableEq, Repr

namespace Delta

/-- The kind of a change. -/
def kind : Delta → DeltaKind
  | .position _ => .position
  | .cell _ => .cell
  | .attack _ => .attack
  | .lose _ => .lose

/-- A delta after a newer one of its kind: attacked pieces add up, all else is replaced. -/
def absorb : Delta → Delta → Delta
  | .attack old, .attack new => .attack (old ++ new)
  | _, new => new

/-- Absorbing gives a delta of the newer one's kind. -/
@[simp] theorem kind_absorb (e d : Delta) : (e.absorb d).kind = d.kind := by
  unfold absorb
  split <;> rfl

instance : Wire Delta where
  toJson d := .object [match d with
    | .position square => ("Position", toJson square)
    | .cell square => ("Cell", toJson square)
    | .attack pieces => ("Attack", toJson pieces)
    | .lose player => ("Lose", toJson player)]
  ofJson?
    | .object [(name, j)] =>
      if name = "Position" then (Wire.ofJson? j).map .position
      else if name = "Cell" then (Wire.ofJson? j).map .cell
      else if name = "Attack" then (Wire.ofJson? j).map .attack
      else if name = "Lose" then (Wire.ofJson? j).map .lose
      else none
    | _ => none

instance : LawfulWire Delta where
  ofJson?_toJson
    | .position square => congrArg (Option.map Delta.position) (ofJson?_toJson square)
    | .cell square => congrArg (Option.map Delta.cell) (ofJson?_toJson square)
    | .attack pieces => congrArg (Option.map Delta.attack) (ofJson?_toJson pieces)
    | .lose player => congrArg (Option.map Delta.lose) (ofJson?_toJson player)

end Delta

/-- Deltas in order of first occurrence of their kinds. -/
structure DeltaSet where
  deltas : List Delta
  deriving DecidableEq, Repr

namespace DeltaSet

/-- No changes. -/
def empty : DeltaSet := ⟨[]⟩

/-- Merge a delta into a list of deltas. -/
def mergeInto (d : Delta) : List Delta → List Delta
  | [] => [d]
  | e :: rest => if e.kind = d.kind then e.absorb d :: rest else e :: mergeInto d rest

/-- Merge one newer delta. -/
def merge (s : DeltaSet) (d : Delta) : DeltaSet := ⟨mergeInto d s.deltas⟩

/-- Merge newer deltas one after the other. -/
def mergeAll (s : DeltaSet) (ds : List Delta) : DeltaSet := ds.foldl merge s

/-- The set of a list of deltas. -/
def ofList (ds : List Delta) : DeltaSet := empty.mergeAll ds

/-- The delta of a kind. -/
def get? (s : DeltaSet) (kind : DeltaKind) : Option Delta :=
  s.deltas.find? (·.kind = kind)

theorem find?_mergeInto_self (d : Delta) (ds : List Delta) :
    (mergeInto d ds).find? (·.kind = d.kind) =
      some (((ds.find? (·.kind = d.kind)).map (·.absorb d)).getD d) := by
  induction ds with
  | nil => simp [mergeInto]
  | cons e rest ih =>
    unfold mergeInto
    split
    · rename_i h
      simp [h]
    · rename_i h
      simp only [List.find?_cons, h, decide_false, ih]

theorem find?_mergeInto_of_ne {d : Delta} {kind : DeltaKind} (h : kind ≠ d.kind)
    (ds : List Delta) :
    (mergeInto d ds).find? (·.kind = kind) = ds.find? (·.kind = kind) := by
  induction ds with
  | nil => simp [mergeInto, Ne.symm h]
  | cons e rest ih =>
    unfold mergeInto
    split
    · rename_i same
      simp [same, Ne.symm h]
    · simp only [List.find?_cons, ih]

/-- After merging, the delta of a kind is the merged one, or what the old one becomes by it. -/
@[simp] theorem get?_merge_self (s : DeltaSet) (d : Delta) :
    (s.merge d).get? d.kind = some (((s.get? d.kind).map (·.absorb d)).getD d) :=
  find?_mergeInto_self d s.deltas

theorem get?_merge_of_ne (s : DeltaSet) {d : Delta} {kind : DeltaKind}
    (h : kind ≠ d.kind) : (s.merge d).get? kind = s.get? kind :=
  find?_mergeInto_of_ne h s.deltas

/-- The square the piece goes to. -/
def destination? (s : DeltaSet) : Option Square :=
  match s.get? .position with
  | some (.position square) => some square
  | _ => none

/-- The square shown to the player. -/
def shown? (s : DeltaSet) : Option Square :=
  match s.get? .cell with
  | some (.cell square) => some square
  | _ => none

/-- The pieces taken, in the order of taking. -/
def victims (s : DeltaSet) : List PieceId :=
  match s.get? .attack with
  | some (.attack pieces) => pieces
  | _ => []

/-- The player eliminated. -/
def loser? (s : DeltaSet) : Option PlayerId :=
  match s.get? .lose with
  | some (.lose player) => some player
  | _ => none

end DeltaSet

end BoardRules
