import BoardRules.Search.WorkList

/-!
# Analysis

The candidates of every piece of a board. Behind each finished run the other pieces get one chance
to react, in the order of the board: the first passive finding of a piece on the board as it is then
becomes the next link.
-/

namespace BoardRules

/-- The part of a turn that is searched. -/
inductive Phase where
  /-- The move that a player chooses. -/
  | initiative
  /-- Further steps of the piece that has just moved. -/
  | immediately
  deriving DecidableEq, Repr

namespace Phase

/-- The behaviours that fire in a phase. -/
def trigger : Phase → Trigger
  | .initiative => .initiative
  | .immediately => .immediately

end Phase

/-- The reactions of pieces to a run of the initiator. Each piece looks at the board and the attacks
after the links before it. -/
def Extension.reactionsTo (x : Extension) (settings : Settings) (initiator : PieceId) :
    List Piece → Link → List Link
  | [], _ => []
  | piece :: rest, tail =>
    if piece.id = initiator ∧ !settings.initiatorReacts then
      x.reactionsTo settings initiator rest tail
    else
      match (x.findings ⟨settings, tail.board, piece, .passive, tail.log⟩).head? with
      | none => x.reactionsTo settings initiator rest tail
      | some reaction => reaction :: x.reactionsTo settings initiator rest reaction

theorem Extension.reactionsTo_empty_cons (settings : Settings) (initiator : PieceId) (piece : Piece)
    (rest : List Piece) (tail : Link) :
    empty.reactionsTo settings initiator (piece :: rest) tail =
      if piece.id = initiator ∧ !settings.initiatorReacts then
        empty.reactionsTo settings initiator rest tail
      else
        match (Query.findings ⟨settings, tail.board, piece, .passive, tail.log⟩).head? with
        | none => empty.reactionsTo settings initiator rest tail
        | some reaction => reaction :: empty.reactionsTo settings initiator rest reaction := rfl

/-- A finished run with the reactions to it. -/
def Extension.candidate (x : Extension) (settings : Settings) (head : Link) : Candidate :=
  ⟨head, x.reactionsTo settings head.selection.piece head.board.pieces head⟩

/-- A finished run with the reactions to it, without an extension. -/
def Link.candidate (settings : Settings) (head : Link) : Candidate :=
  Extension.empty.candidate settings head

/-- The candidates of pieces, in the order of the board. Pieces without candidates are left out. -/
structure Analysis where
  phase : Phase
  entries : List (PieceId × List Candidate)

namespace Analysis

/-- An analysis without candidates. -/
def empty (phase : Phase) : Analysis := ⟨phase, []⟩

/-- The candidates of a piece. -/
def of (a : Analysis) (piece : PieceId) : List Candidate := (a.entries.lookup piece).getD []

/-- All candidates, piece by piece. -/
def candidates (a : Analysis) : List Candidate := a.entries.flatMap Prod.snd

/-- The first candidate of the selected piece with a selection. -/
def find? (a : Analysis) (selection : Selection) : Option Candidate :=
  (a.of selection.piece).find? (·.head.selection = selection)

/-- The candidates of a piece that show a square. -/
def showing (a : Analysis) (piece : PieceId) (square : Square) : List Candidate :=
  (a.of piece).filter (·.head.deltas.shown? = some square)

/-- The number of candidates. -/
def count (a : Analysis) : Nat := a.candidates.length

/-- Whether no piece has a candidate. -/
def isEmpty (a : Analysis) : Bool := a.entries.isEmpty

end Analysis

namespace Extension

/-- The candidates of one piece. -/
def candidatesOf (x : Extension) (b : Board) (settings : Settings) (phase : Phase)
    (piece : Piece) : List Candidate :=
  (x.findings ⟨settings, b, piece, phase.trigger, {}⟩).map (x.candidate settings)

/-- The analysis of the pieces that pass a test. -/
def analysisWhere (x : Extension) (b : Board) (settings : Settings) (phase : Phase)
    (include? : Piece → Bool) : Analysis :=
  ⟨phase, ((b.pieces.filter include?).map fun p =>
    (p.id, x.candidatesOf b settings phase p)).filter fun entry => !entry.2.isEmpty⟩

end Extension

namespace Board

/-- The candidates of one piece, without an extension. -/
def candidatesOf (b : Board) (settings : Settings) (phase : Phase) (piece : Piece) :
    List Candidate :=
  Extension.empty.candidatesOf b settings phase piece

/-- The analysis of the pieces that pass a test, without an extension. -/
def analysisWhere (b : Board) (settings : Settings) (phase : Phase) (include? : Piece → Bool) :
    Analysis :=
  Extension.empty.analysisWhere b settings phase include?

theorem candidatesOf_eq (b : Board) (settings : Settings) (phase : Phase) (piece : Piece) :
    b.candidatesOf settings phase piece =
      (Query.findings ⟨settings, b, piece, phase.trigger, {}⟩).map (Link.candidate settings) := rfl

theorem analysisWhere_eq (b : Board) (settings : Settings) (phase : Phase)
    (include? : Piece → Bool) :
    b.analysisWhere settings phase include? =
      ⟨phase, ((b.pieces.filter include?).map fun p =>
        (p.id, b.candidatesOf settings phase p)).filter fun entry => !entry.2.isEmpty⟩ := rfl

/-- The analysis of every piece. -/
def analysis (b : Board) (settings : Settings) (phase : Phase) : Analysis :=
  b.analysisWhere settings phase fun _ => true

/-- The analysis of the pieces that a player owns. -/
def analysisFor (b : Board) (settings : Settings) (phase : Phase) (player : PlayerId) :
    Analysis :=
  b.analysisWhere settings phase (b.owns player ·.id)

/-- The analysis of one piece. -/
def analysisOf (b : Board) (settings : Settings) (phase : Phase) (piece : PieceId) : Analysis :=
  b.analysisWhere settings phase (·.id = piece)

end Board

end BoardRules
