import Mathlib
import BoardRules.Search.Analysis

/-!
# Along a chain of reactions

Every link of a candidate is a finding of some search: the first one on the board of the analysis,
each further one on the board of the link before it.  So whatever a search hands from its board to
the boards of its findings (`HandedOn`) holds along every chain (`HandedOn.links`), and on every
board that is searched for it (`HandedOn.exists_query_of_mem_links`).
-/

namespace BoardRules

/-- What searches hand on from board to board. -/
def HandedOn (P : Board → Prop) : Prop :=
  ∀ q : Query, P q.board → ∀ link ∈ q.findings, P link.board

variable {P : Board → Prop}

/-- Every reaction is a finding of a search on a board where what searches hand on holds. -/
theorem HandedOn.exists_query_of_mem_reactionsTo (keeps : HandedOn P) (settings : Settings)
    (initiator : PieceId) (pieces : List Piece) {tail : Link} (h : P tail.board) :
    ∀ link ∈ Extension.empty.reactionsTo settings initiator pieces tail,
      ∃ q : Query, P q.board ∧ link ∈ q.findings := by
  induction pieces generalizing tail with
  | nil => exact fun link hlink => absurd hlink List.not_mem_nil
  | cons piece rest ih =>
    rw [Extension.reactionsTo_empty_cons]
    split
    · exact ih h
    · split
      · exact ih h
      · rename_i reaction found
        have first := List.mem_of_head? found
        intro link hlink
        rcases List.mem_cons.1 hlink with rfl | later
        · exact ⟨_, h, first⟩
        · exact ih (keeps _ h reaction first) link later

/-- A candidate of an analysis is a finding for a piece of the board, with the reactions to it. -/
theorem Extension.exists_finding_of_mem_candidates {x : Extension} {b : Board}
    {settings : Settings} {phase : Phase} {include? : Piece → Bool} {c : Candidate}
    (h : c ∈ (x.analysisWhere b settings phase include?).candidates) :
    ∃ piece ∈ b.pieces, include? piece = true ∧
      ∃ head ∈ x.findings ⟨settings, b, piece, phase.trigger, {}⟩,
        x.candidate settings head = c := by
  obtain ⟨entry, hentry, hc⟩ := List.mem_flatMap.1 h
  obtain ⟨piece, hpiece, rfl⟩ := List.mem_map.1 (List.mem_filter.1 hentry).1
  obtain ⟨known, included⟩ := List.mem_filter.1 hpiece
  obtain ⟨head, hhead, heq⟩ := List.mem_map.1 hc
  exact ⟨piece, known, included, head, hhead, heq⟩

/-- The same without an extension. -/
theorem exists_finding_of_mem_candidates {b : Board} {settings : Settings} {phase : Phase}
    {include? : Piece → Bool} {c : Candidate}
    (h : c ∈ (b.analysisWhere settings phase include?).candidates) :
    ∃ piece ∈ b.pieces, include? piece = true ∧
      ∃ head ∈ Query.findings ⟨settings, b, piece, phase.trigger, {}⟩,
        head.candidate settings = c := Extension.exists_finding_of_mem_candidates h

/-- Every link of a candidate is a finding of a search on a board where what searches hand on
holds. -/
theorem HandedOn.exists_query_of_mem_links (keeps : HandedOn P) {b : Board} (h : P b)
    {settings : Settings} {phase : Phase} {include? : Piece → Bool} {c : Candidate}
    (hc : c ∈ (b.analysisWhere settings phase include?).candidates) :
    ∀ link ∈ c.links, ∃ q : Query, P q.board ∧ link ∈ q.findings := by
  obtain ⟨piece, -, -, head, hhead, rfl⟩ := exists_finding_of_mem_candidates hc
  intro link hlink
  rcases List.mem_cons.1 hlink with rfl | later
  · exact ⟨_, h, hhead⟩
  · have first : P head.board := keeps _ h head hhead
    exact keeps.exists_query_of_mem_reactionsTo settings head.selection.piece head.board.pieces
      first link later

/-- What searches hand on holds at every link of every candidate. -/
theorem HandedOn.links (keeps : HandedOn P) {b : Board} (h : P b) {settings : Settings}
    {phase : Phase} {include? : Piece → Bool} {c : Candidate}
    (hc : c ∈ (b.analysisWhere settings phase include?).candidates) :
    ∀ link ∈ c.links, P link.board := by
  intro link hlink
  obtain ⟨q, holds, found⟩ := keeps.exists_query_of_mem_links h hc link hlink
  exact keeps q holds link found

/-- The last link of a candidate is one of its links. -/
theorem Candidate.last_mem_links (c : Candidate) : c.last ∈ c.links := by
  unfold last links
  cases h : c.reactions.getLast? with
  | none => exact List.mem_cons_self
  | some link => exact List.mem_cons_of_mem _ (List.mem_of_getLast? h)

end BoardRules
