import BoardRules.Identity

/-!
# The forest of nations

Nations are kept in a row and refer to each other by place, so that a piece moves between nations
without anything being rebuilt. Some of them are roots. The references need not form a forest: a
group may be shared, lie below itself, or be missing, and every operation copes with that.
-/

namespace BoardRules

/-- A member of a nation: a nation by its place in the row, or a piece. -/
inductive Child where
  | group (key : Nat)
  | piece (id : PieceId)
  deriving DecidableEq, Repr

/-- An ownership group. -/
structure Nation where
  id : NationId
  name : String := ""
  /-- Index of a colour; negative for none. -/
  color : Int32 := -1
  /-- The player who claims the nation. -/
  monarch : Option PlayerId := none
  children : List Child := []
  deriving DecidableEq, Repr

/-- Nations in a row, and the places of the roots in order. -/
structure Forest where
  nodes : List Nation := []
  roots : List Nat := []
  deriving DecidableEq, Repr

namespace Nation

/-- The pieces directly below a nation. -/
def pieces (n : Nation) : List PieceId :=
  n.children.filterMap fun
    | .piece id => some id
    | .group _ => none

/-- Add a member at the end. -/
def addChild (n : Nation) (c : Child) : Nation := { n with children := n.children ++ [c] }

/-- Drop a piece wherever it is a direct member. -/
def drop (n : Nation) (piece : PieceId) : Nation :=
  { n with children := n.children.filter (· ≠ .piece piece) }

/-- Rename the direct pieces; a piece without a new name keeps its own. -/
def rename (n : Nation) (new? : PieceId → Option PieceId) : Nation :=
  { n with children := n.children.map fun
      | .piece id => .piece ((new? id).getD id)
      | .group key => .group key }

end Nation

namespace Forest

/-! ## Looking up -/

/-- The nation at a place. -/
def get? (f : Forest) (key : Nat) : Option Nation := f.nodes[key]?

/-- The members of the nation at a place; a missing nation has none. -/
def childrenOf (f : Forest) (key : Nat) : List Child := ((f.get? key).map (·.children)).getD []

/-- The first place of a nation with an identity. -/
def find? (f : Forest) (id : NationId) : Option Nat := f.nodes.findIdx? (·.id = id)

/-- Every direct membership of a piece, nation by nation. -/
def memberships (f : Forest) : List (Nation × PieceId) :=
  f.nodes.flatMap fun n => n.pieces.map fun id => (n, id)

/-! ## Walking -/

theorem length_erase_lt {fresh : List Nat} {key : Nat} (h : key ∈ fresh) :
    (fresh.erase key).length < fresh.length := by
  rw [List.length_erase_of_mem h]
  exact Nat.sub_one_lt (Nat.ne_of_gt (List.length_pos_of_mem h))

/-- The pieces met when the queue is worked off from its front, groups adding their members to its
end. Only groups still in `fresh` are entered, each of them once. -/
def sweep (f : Forest) (fresh : List Nat) (queue : List Child) : List PieceId :=
  match queue with
  | [] => []
  | .piece id :: rest => id :: f.sweep fresh rest
  | .group key :: rest =>
    if key ∈ fresh then f.sweep (fresh.erase key) (rest ++ f.childrenOf key)
    else f.sweep fresh rest
termination_by (fresh.length, queue.length)
decreasing_by
  · exact Prod.Lex.right _ (Nat.lt_succ_self _)
  · exact Prod.Lex.left _ _ (length_erase_lt ‹_›)
  · exact Prod.Lex.right _ (Nat.lt_succ_self _)

/-- The places that may still be entered below a place. -/
def below (f : Forest) (key : Nat) : List Nat := (List.range f.nodes.length).erase key

/-- Every piece below a nation, nearer ones first. -/
def piecesBelow (f : Forest) (key : Nat) : List PieceId := f.sweep (f.below key) (f.childrenOf key)

/-- The first root with a piece below it. -/
def rootAbove? (f : Forest) (piece : PieceId) : Option Nat :=
  f.roots.find? fun root => (f.piecesBelow root).contains piece

/-- The player who claims the root nation above a piece. -/
def claimant? (f : Forest) (piece : PieceId) : Option PlayerId := do
  let root ← f.rootAbove? piece
  let nation ← f.get? root
  nation.monarch

/-- The root nations that a player claims. -/
def rootsOf (f : Forest) (player : PlayerId) : List Nat :=
  f.roots.filter fun root => (f.get? root).any (·.monarch = some player)

/-- The items that occur again, each at its second occurrence; `seen` occurred before. -/
def repeats (seen : List PieceId) : List PieceId → List PieceId
  | [] => []
  | p :: rest =>
    if seen.count p = 1 then p :: repeats (p :: seen) rest else repeats (p :: seen) rest

/-- The pieces met more than once below the roots. -/
def repeated (f : Forest) : List PieceId := repeats [] (f.roots.flatMap f.piecesBelow)

/-! ## Changing -/

/-- Put a nation at the end of the row, and give its place. A place is a 32-bit number, and a nation
that no longer gets one is refused by halting; here the row goes on. -/
def append (f : Forest) (n : Nation) : Forest × Nat :=
  ({ f with nodes := f.nodes ++ [n] }, f.nodes.length)

/-- Change the nation at a place, if there is one. -/
def modify (f : Forest) (key : Nat) (change : Nation → Nation) : Forest :=
  { f with nodes := f.nodes.modify key change }

/-- Add a root. -/
def newRoot (f : Forest) (n : Nation) : Forest × Nat :=
  let (f, key) := f.append n
  ({ f with roots := f.roots ++ [key] }, key)

/-- Add a nation below another; below a missing one it is out of reach. -/
def newGroup (f : Forest) (parent : Nat) (n : Nation) : Forest × Nat :=
  let (f, key) := f.append n
  (f.modify parent (·.addChild (.group key)), key)

/-- Add a piece below a nation. -/
def enlist (f : Forest) (parent : Nat) (piece : PieceId) : Forest :=
  f.modify parent (·.addChild (.piece piece))

/-- Whether any nation has the piece as a direct member. -/
def holds (f : Forest) (piece : PieceId) : Bool :=
  f.nodes.any fun n => n.children.contains (.piece piece)

/-- Drop a piece from every nation. -/
def dismiss (f : Forest) (piece : PieceId) : Forest :=
  { f with nodes := f.nodes.map (·.drop piece) }

/-- Move a piece below a nation, and only there. -/
def transfer (f : Forest) (piece : PieceId) (parent : Nat) : Forest :=
  (f.dismiss piece).enlist parent piece

/-- Set or clear the monarch of a nation. -/
def crown (f : Forest) (key : Nat) (monarch : Option PlayerId) : Forest :=
  f.modify key fun n => { n with monarch }

/-- Rename pieces everywhere. -/
def rename (f : Forest) (new? : PieceId → Option PieceId) : Forest :=
  { f with nodes := f.nodes.map (·.rename new?) }

end Forest

end BoardRules
