import BoardRules.Guard.Evaluation
import BoardRules.Search.Link
import BoardRules.Settings

/-!
# Searching a behaviour

The behaviours of a piece are searched with a work-list of unfinished runs: the run at the front is
taken off, and the runs it leads to go to the end. A condition keeps a run or drops it, an action
replaces it by one run for each branch, and a run without steps left is a finding. Every run's board
is made anew from the board on which the search started, by applying all deltas of the run.

A game may bring further actions and guards along (`Extension`), and nothing is asked of these. The
search is written for any extension; the one of a query alone is that without an extension.
-/

namespace BoardRules

/-- The actions and guards that a game brings along. Their steps are known by what is left of them
without the extension: a record that is not resolved, or a condition whose source has no meaning. -/
structure Extension where
  /-- The action of a record, if the extension has one: it turns a board, the deltas gathered so far
  and the piece that acts into branches. -/
  action? : StepRecord → Option (Board → DeltaSet → Piece → List Branch)
  /-- The guard of a condition, if the extension has one. -/
  guard? : Condition → Option (Guard.Context → Bool)

namespace Extension

/-- No further actions and guards. -/
def empty : Extension := ⟨fun _ => none, fun _ => none⟩

/-- Whether a step is run. -/
def resolves (x : Extension) : Step → Bool
  | .unresolved r => (x.action? r).isSome
  | step => step.isBuilt

theorem resolves_empty : empty.resolves = Step.isBuilt := by
  funext step
  cases step <;> rfl

/-- Whether a condition lets pass. -/
def passes (x : Extension) (c : Condition) (context : Guard.Context) : Bool :=
  match x.guard? c with
  | some guard => guard context
  | none => c.passes context

/-- The steps of a behaviour that are run. -/
def builtSteps (x : Extension) (b : Behaviour) : List Step := b.steps.filter x.resolves

end Extension

/-- What a search is about: one piece, on one board, with the attacks before it. -/
structure Query where
  settings : Settings
  board : Board
  piece : Piece
  trigger : Trigger
  log : AttackLog

/-- Take victims off the board, recording those that stood on it. -/
def strike (attacker : PieceId) (state : Board × AttackLog) (victim : PieceId) :
    Board × AttackLog :=
  match state.1.squareOf? victim with
  | some square =>
    (state.1.lift victim, ⟨state.2.attacks ++ [⟨attacker, victim, square⟩]⟩)
  | none => state

/-- Apply one delta of a piece. Going to the square where the piece stands changes nothing and does
not count. -/
def Delta.apply (piece : PieceId) (state : Board × AttackLog) : Delta → Board × AttackLog
  | .position square =>
    if state.1.squareOf? piece = some square then state
    else ((state.1.place piece square).countMove piece, state.2)
  | .cell _ => state
  | .attack victims => victims.foldl (strike piece) state
  | .lose player => (state.1.eliminate player, state.2)

/-- Apply deltas of a piece in order. -/
def DeltaSet.apply (deltas : DeltaSet) (piece : PieceId) (state : Board × AttackLog) :
    Board × AttackLog :=
  deltas.deltas.foldl (Delta.apply piece) state

namespace Query

/-- The run before the first step: where the piece stands, if it stands anywhere. -/
def start (q : Query) (behaviour : Behaviour) : Link where
  selection := ⟨q.piece.id, behaviour.id, []⟩
  deltas :=
    match q.board.squareOf? q.piece.id with
    | some square => .ofList [.position square, .cell square]
    | none => .empty
  tags := []
  board := q.board
  log := q.log

/-- A run that took branch `index` of an action. -/
def follow (q : Query) (link : Link) (branch : Branch) (index : Nat) : Link :=
  let state := branch.deltas.apply q.piece.id (q.board, q.log)
  { selection :=
      { link.selection with indices := link.selection.indices ++ [UInt16.ofNat index] }
    deltas := branch.deltas
    tags := link.tags ++ branch.tags
    board := state.1
    log := state.2 }

/-- As many branches of one action are followed as indices can number. -/
def maxBranches : Nat := 65536

/-- The runs that a run leads to with the branches of an action. -/
def fork (q : Query) (link : Link) (branches : List Branch) : List Link :=
  if q.trigger = .passive ∧ q.settings.passiveLimit < branches.length then []
  else (branches.zipIdx.take maxBranches).map fun (branch, index) => q.follow link branch index

end Query

namespace Extension

/-- The runs that a run leads to at a step. -/
def advance (x : Extension) (q : Query) (step : Step) (link : Link) : List Link :=
  match step with
  | .condition c =>
    if x.passes c ⟨link.board, q.piece.id, link.log.attacker? q.piece.id⟩ then
      [{ link with
          selection := { link.selection with indices := link.selection.indices ++ [0] } }]
    else []
  | .action a => q.fork link (a.branches link.board link.deltas q.piece.id)
  | .unresolved r =>
    match x.action? r with
    | some act => q.fork link (act link.board link.deltas q.piece)
    | none => []

/-- The number of runs that a run unfolds into, itself included. -/
def weight (x : Extension) (q : Query) : List Step → Link → Nat
  | [], _ => 1
  | step :: rest, link =>
    1 + (x.advance q step link).foldr (fun next n => x.weight q rest next + n) 0

theorem weight_pos (x : Extension) (q : Query) (steps : List Step) (link : Link) :
    0 < x.weight q steps link := by
  cases steps with
  | nil => exact Nat.one_pos
  | cons step rest => rw [weight]; omega

/-- The number of runs that a list of unfinished runs unfolds into. -/
def weightAll (x : Extension) (q : Query) (work : List (List Step × Link)) : Nat :=
  work.foldr (fun w n => x.weight q w.1 w.2 + n) 0

theorem weightAll_cons (x : Extension) (q : Query) (w : List Step × Link)
    (work : List (List Step × Link)) :
    x.weightAll q (w :: work) = x.weight q w.1 w.2 + x.weightAll q work := rfl

theorem weightAll_append (x : Extension) (q : Query) (work more : List (List Step × Link)) :
    x.weightAll q (work ++ more) = x.weightAll q work + x.weightAll q more := by
  induction work with
  | nil => exact (Nat.zero_add _).symm
  | cons w rest ih => rw [List.cons_append, weightAll_cons, weightAll_cons, ih, Nat.add_assoc]

/-- A run weighs one more than all that its first step leads to. -/
theorem weight_cons (x : Extension) (q : Query) (step : Step) (rest : List Step) (link : Link) :
    x.weight q (step :: rest) link =
      1 + x.weightAll q ((x.advance q step link).map fun next => (rest, next)) := by
  rw [weight, weightAll, List.foldr_map]

/-- Work the list off from its front. Each run is kept with the steps before it. -/
def run (x : Extension) (q : Query) (work : List (List Step × Link)) : List Link :=
  match work with
  | [] => []
  | ([], link) :: rest => link :: x.run q rest
  | (step :: steps, link) :: rest =>
    x.run q (rest ++ (x.advance q step link).map fun next => (steps, next))
termination_by x.weightAll q work
decreasing_by
  · rw [weightAll_cons]; exact Nat.lt_add_of_pos_left (x.weight_pos q [] link)
  · simp only [weightAll_append, weightAll_cons, weight_cons]; omega

/-- The finished runs of one behaviour. -/
def runs (x : Extension) (q : Query) (behaviour : Behaviour) : List Link :=
  x.run q [(x.builtSteps behaviour, q.start behaviour)]

/-- The finished runs of the piece's behaviours with the trigger, behaviour by behaviour. A piece
that nobody owns has none. -/
def findings (x : Extension) (q : Query) : List Link :=
  if (q.board.owner? q.piece.id).isNone then []
  else (q.piece.triggered q.trigger).flatMap (x.runs q)

end Extension

/-! ## The search without an extension -/

namespace Query

/-- The runs that a run leads to at a step. -/
def advance (q : Query) : Step → Link → List Link := Extension.empty.advance q

/-- Work the list off from its front. -/
def run (q : Query) : List (List Step × Link) → List Link := Extension.empty.run q

/-- The finished runs of one behaviour. -/
def runs (q : Query) : Behaviour → List Link := Extension.empty.runs q

/-- The finished runs of the piece's behaviours with the trigger. -/
def findings (q : Query) : List Link := Extension.empty.findings q

theorem advance_condition (q : Query) (c : Condition) (link : Link) :
    q.advance (.condition c) link =
      if c.passes ⟨link.board, q.piece.id, link.log.attacker? q.piece.id⟩ then
        [{ link with
            selection := { link.selection with indices := link.selection.indices ++ [0] } }]
      else [] := rfl

theorem run_nil (q : Query) : q.run [] = [] := by
  rw [run, Extension.run]

theorem run_finished (q : Query) (link : Link) (rest : List (List Step × Link)) :
    q.run (([], link) :: rest) = link :: q.run rest := by
  rw [run, Extension.run]

theorem run_unfinished (q : Query) (step : Step) (steps : List Step) (link : Link)
    (rest : List (List Step × Link)) :
    q.run ((step :: steps, link) :: rest) =
      q.run (rest ++ (q.advance step link).map fun next => (steps, next)) := by
  rw [run, Extension.run]
  rfl

theorem runs_eq_run (q : Query) (behaviour : Behaviour) :
    q.runs behaviour = q.run [(behaviour.builtSteps, q.start behaviour)] := by
  rw [runs, Extension.runs, Extension.builtSteps, Extension.resolves_empty]
  rfl

theorem findings_eq (q : Query) :
    q.findings =
      if (q.board.owner? q.piece.id).isNone then []
      else (q.piece.triggered q.trigger).flatMap q.runs := rfl

end Query

end BoardRules
