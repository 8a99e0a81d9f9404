import Mathlib
import BoardRules.Proofs.Search.Chain

/-!
# Analyses in other words

A board can be told in other words: under other names, turned, or with its placements in another
order.  What this does to a search is a matter of the search; `Retelling.Sound` asks that the search
in the new words finds the same runs in the new words.  For reactions and candidates nothing more is
needed than that: the same pieces react (`Retelling.Sound.reactionsTo`), and the analysis of the
retold board is the retold analysis (`Retelling.Sound.analysisWhere`).
-/

namespace BoardRules

/-- Other words for whatever searches are about. -/
structure Retelling where
  name : PieceId → PieceId
  piece : Piece → Piece
  board : Board → Board
  log : AttackLog → AttackLog
  link : Link → Link

namespace Retelling

/-- A search in other words. -/
def query (r : Retelling) (q : Query) : Query where
  settings := q.settings
  board := r.board q.board
  piece := r.piece q.piece
  trigger := q.trigger
  log := r.log q.log

/-- A run and the reactions to it in other words. -/
def candidate (r : Retelling) (c : Candidate) : Candidate := ⟨r.link c.head, c.reactions.map r.link⟩

/-- An analysis in other words: the same pieces and candidates in the same order. -/
def analysis (r : Retelling) (a : Analysis) : Analysis where
  phase := a.phase
  entries := a.entries.map (Prod.map r.name (List.map r.candidate))

/-- Searches on boards with a property find the same in other words, and hand the property on. -/
structure Sound (r : Retelling) (P : Board → Prop) : Prop where
  handedOn : HandedOn P
  /-- Different pieces have different names. -/
  injective : Function.Injective r.name
  /-- A piece is retold with the new name. -/
  name : ∀ p, (r.piece p).id = r.name p.id
  /-- The pieces of a board come in the same order. -/
  pieces : ∀ b, (r.board b).pieces = b.pieces.map r.piece
  /-- Where nothing has been attacked there is nothing to retell. -/
  unattacked : r.log {} = {}
  /-- A run is retold with its board, its log and its piece. -/
  link : ∀ l, (r.link l).board = r.board l.board ∧ (r.link l).log = r.log l.log ∧
    (r.link l).selection.piece = r.name l.selection.piece
  /-- The same runs are found in the same order. -/
  findings : ∀ q, P q.board → (r.query q).findings = q.findings.map r.link

namespace Sound

variable {r : Retelling} {P : Board → Prop} {b : Board} {piece : Piece}

/-- The same pieces react in the same way. -/
theorem reactionsTo (sound : r.Sound P) (settings : Settings) (initiator : PieceId)
    (pieces : List Piece) {tail : Link} (h : P tail.board) :
    Extension.empty.reactionsTo settings (r.name initiator) (pieces.map r.piece) (r.link tail) =
      (Extension.empty.reactionsTo settings initiator pieces tail).map r.link := by
  induction pieces generalizing tail with
  | nil => rfl
  | cons piece rest ih =>
    have self : (r.piece piece).id = r.name initiator ↔ piece.id = initiator := by
      rw [sound.name, sound.injective.eq_iff]
    have found : Query.findings ⟨settings, (r.link tail).board, r.piece piece, .passive,
        (r.link tail).log⟩ =
          (Query.findings ⟨settings, tail.board, piece, .passive, tail.log⟩).map r.link := by
      rw [(sound.link tail).1, (sound.link tail).2.1]
      exact sound.findings ⟨settings, tail.board, piece, .passive, tail.log⟩ h
    rw [List.map_cons, Extension.reactionsTo_empty_cons, Extension.reactionsTo_empty_cons, found,
      List.head?_map]
    simp only [self]
    split
    · exact ih h
    · cases reacts : (Query.findings ⟨settings, tail.board, piece, .passive, tail.log⟩).head? with
      | none => exact ih h
      | some reaction =>
        have kept : P reaction.board := sound.handedOn _ h reaction (List.mem_of_head? reacts)
        simp only [Option.map_some]
        rw [ih kept, List.map_cons]

/-- A run gets the same reactions. -/
theorem candidate (sound : r.Sound P) (settings : Settings) {head : Link} (h : P head.board) :
    (r.link head).candidate settings = r.candidate (head.candidate settings) := by
  have reactions :=
    sound.reactionsTo settings head.selection.piece head.board.pieces h
  obtain ⟨board, -, piece⟩ := sound.link head
  rw [← sound.pieces, ← board, ← piece] at reactions
  exact congrArg (Candidate.mk (r.link head)) reactions

/-- A piece has the same candidates. -/
theorem candidatesOf (sound : r.Sound P) (h : P b) (settings : Settings) (phase : Phase)
    (piece : Piece) :
    (r.board b).candidatesOf settings phase (r.piece piece) =
      (b.candidatesOf settings phase piece).map r.candidate := by
  have found : Query.findings ⟨settings, r.board b, r.piece piece, phase.trigger, {}⟩ =
      (Query.findings ⟨settings, b, piece, phase.trigger, {}⟩).map r.link := by
    have retold := sound.findings ⟨settings, b, piece, phase.trigger, {}⟩ h
    unfold query at retold
    rwa [sound.unattacked] at retold
  rw [Board.candidatesOf_eq, Board.candidatesOf_eq]
  rw [found, List.map_map, List.map_map]
  refine List.map_congr_left fun head hhead => ?_
  exact sound.candidate settings (sound.handedOn _ h head hhead)

/-- The analysis of the retold board is the retold analysis. -/
theorem analysisWhere (sound : r.Sound P) (h : P b) (settings : Settings) (phase : Phase)
    {include? included : Piece → Bool} (same : ∀ p, included (r.piece p) = include? p) :
    (r.board b).analysisWhere settings phase included =
      r.analysis (b.analysisWhere settings phase include?) := by
  have pieces : (r.board b).pieces.filter included = (b.pieces.filter include?).map r.piece := by
    have tests : included ∘ r.piece = include? := funext same
    rw [sound.pieces, List.filter_map, tests]
  have entries : ((r.board b).pieces.filter included).map
      (fun p => (p.id, (r.board b).candidatesOf settings phase p)) =
        ((b.pieces.filter include?).map fun p => (p.id, b.candidatesOf settings phase p)).map
          (Prod.map r.name (List.map r.candidate)) := by
    rw [pieces, List.map_map, List.map_map]
    refine List.map_congr_left fun piece _ => ?_
    exact Prod.ext (sound.name piece) (sound.candidatesOf h settings phase piece)
  rw [Board.analysisWhere_eq, Board.analysisWhere_eq, analysis]
  rw [entries, List.filter_map]
  refine congrArg (fun kept => Analysis.mk phase (List.map _ kept)) ?_
  refine List.filter_congr fun entry _ => ?_
  rw [Function.comp_apply, Prod.map_snd, List.isEmpty_map]

end Sound

end Retelling

end BoardRules
