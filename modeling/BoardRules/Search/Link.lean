import BoardRules.Search.Branch

/-!
# Links and candidates

A link is one piece's run through one of its behaviours: the branches it took, what it changes, and
the board after it. A candidate is the link of the piece that moves, followed by the links of the
pieces that react.
-/

namespace BoardRules

/-- A behaviour of a piece, and the branch taken at each of its steps. -/
structure Selection where
  piece : PieceId
  behaviour : BehaviourId
  indices : List UInt16
  deriving DecidableEq, Repr

instance : Wire Selection where
  toJson s := .ofFields
    [("piece", toJson s.piece), ("behaviour", toJson s.behaviour), ("indices", toJson s.indices)]
  ofJson? j := do
    let fields ← j.structure? ["piece", "behaviour", "indices"]
    return { piece := ← fields.required "piece",
             behaviour := ← fields.required "behaviour",
             indices := ← fields.required "indices" }

/-- That a piece took another one, which stood on a square. -/
structure Attack where
  attacker : PieceId
  victim : PieceId
  square : Square
  deriving DecidableEq, Repr

instance : Wire Attack where
  toJson a := .ofFields
    [("attacker", toJson a.attacker), ("victim", toJson a.victim), ("square", toJson a.square)]
  ofJson? j := do
    let fields ← j.structure? ["attacker", "victim", "square"]
    return { attacker := ← fields.required "attacker",
             victim := ← fields.required "victim",
             square := ← fields.required "square" }

/-- The attacks along a chain, in order. -/
structure AttackLog where
  attacks : List Attack := []
  deriving DecidableEq, Repr

namespace AttackLog

/-- The first attacker of a piece. -/
def attacker? (log : AttackLog) (victim : PieceId) : Option PieceId :=
  (log.attacks.find? (·.victim = victim)).map (·.attacker)

instance : Wire AttackLog where
  toJson log := .ofFields [("attacks", toJson log.attacks)]
  ofJson? j := do
    let fields ← j.structure? ["attacks"]
    return { attacks := ← fields.required "attacks" }

end AttackLog

/-- A run through a behaviour, finished or not. -/
structure Link where
  selection : Selection
  deltas : DeltaSet
  tags : List Tag
  /-- The board after the deltas. -/
  board : Board
  log : AttackLog

/-- A finished run of the piece that moves, and the reactions to it in order. -/
structure Candidate where
  head : Link
  reactions : List Link

namespace Candidate

/-- All links in order. -/
def links (c : Candidate) : List Link := c.head :: c.reactions

/-- The last link. -/
def last (c : Candidate) : Link := c.reactions.getLast?.getD c.head

/-- The board after all links. -/
def finalBoard (c : Candidate) : Board := c.last.board

/-- The players eliminated along the links, each at its first elimination. -/
def fallen (c : Candidate) : List PlayerId :=
  (c.links.filterMap (·.deltas.loser?)).foldl
    (fun found player => if found.contains player then found else found ++ [player]) []

/-- Whether somebody other than a player is eliminated. -/
def fellsOther (c : Candidate) (player : PlayerId) : Bool :=
  c.fallen.any (· ≠ player)

end Candidate

end BoardRules
