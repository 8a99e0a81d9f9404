import Mathlib
import BoardRules.Proofs.Search.Enumeration

/-!
# Ambiguous reactions

An action of a passive behaviour is ambiguous where it has more branches than the settings allow.
The search drops the run that has come there, and that run alone: a sibling that took another branch
before goes on.  What is found are therefore the runs of the unlimited search that pass no step
where they are over the limit (`mem_runs_iff_unlimited`).  If the limit is at most one then runs
have no siblings, each run that is met leads where the start leads (`Meets.enumerate_eq`), and a
behaviour that is ambiguous anywhere is dropped as a whole (`runs_eq_nil_of_disputed`).  With a
limit of two this fails: `forking_goes_on` has a behaviour that is ambiguous after one branch of its
first step and goes on after the other.
-/

namespace BoardRules

namespace Query

/-! ## The runs that a search meets -/

/-- A search meets a run, with the steps that are left to it, on the way from another one. -/
inductive Meets (q : Query) : List Step → Link → List Step → Link → Prop
  /-- It meets the run with which it starts. -/
  | here (steps : List Step) (link : Link) : Meets q steps link steps link
  /-- It meets what a run leads to. -/
  | onward {step : Step} {rest steps : List Step} {link next met : Link}
      (leads : next ∈ q.advance step link) (later : Meets q rest next steps met) :
      Meets q (step :: rest) link steps met

/-- At a step a run has more branches than the settings allow. -/
def OverLimit (q : Query) : Step → Link → Prop
  | .action a, link => q.Ambiguous (a.branches link.board link.deltas q.piece.id)
  | _, _ => False

/-- Some run of a behaviour that the search meets is over the limit. -/
def Disputed (q : Query) (b : Behaviour) : Prop :=
  ∃ step rest link, q.Meets b.builtSteps (q.start b) (step :: rest) link ∧ q.OverLimit step link

/-- The search as for a move of one's own, where nothing is ambiguous. -/
def unlimited (q : Query) : Query := { q with trigger := .initiative }

variable {q : Query} {step : Step} {rest steps later : List Step} {link met next last : Link}

/-- A run over the limit leads nowhere. -/
theorem OverLimit.advance_eq (many : q.OverLimit step link) : q.advance step link = [] := by
  cases step with
  | action a => exact if_pos many
  | condition c => exact many.elim
  | unresolved r => exact many.elim

/-- A run within the limit leads where it leads without one. -/
theorem advance_eq_unlimited (within : ¬ q.OverLimit step link) :
    q.advance step link = q.unlimited.advance step link := by
  cases step with
  | action a =>
    have free : ¬ q.unlimited.Ambiguous (a.branches link.board link.deltas q.piece.id) :=
      fun ambiguous => nomatch ambiguous.1
    have clear : ¬ q.Ambiguous (a.branches link.board link.deltas q.piece.id) := within
    rw [advance_action, advance_action, if_neg clear]
    exact (if_neg free).symm
  | condition c => rfl
  | unresolved r => rfl

/-- What a run that is met finds is found. -/
theorem Meets.mem_enumerate (h : q.Meets steps link later met)
    (hlast : last ∈ q.enumerate later met) : last ∈ q.enumerate steps link := by
  induction h with
  | here steps link => exact hlast
  | onward leads next ih =>
    rw [enumerate_cons]
    exact List.mem_flatMap.2 ⟨_, leads, ih hlast⟩

/-- A finished run was reached through only one of the runs that a step leads to: their branch
numbers differ, and it carries them. -/
theorem eq_of_mem_enumerate {other : Link} (hnext : next ∈ q.advance step link)
    (hother : other ∈ q.advance step link) (hlast : last ∈ q.enumerate rest next)
    (hlast' : last ∈ q.enumerate rest other) : next = other := by
  cases step with
  | condition c =>
    exact (mem_advance_condition_iff.1 hnext).2.symm.trans (mem_advance_condition_iff.1 hother).2
  | unresolved r => exact absurd hnext List.not_mem_nil
  | action a =>
    obtain ⟨-, branch, index, found, bound, rfl⟩ := mem_advance_action_iff.1 hnext
    obtain ⟨-, branch', index', found', bound', rfl⟩ := mem_advance_action_iff.1 hother
    obtain ⟨path, hpath, -⟩ := (mem_enumerate_iff.1 hlast).exists_indices
    obtain ⟨path', hpath', -⟩ := (mem_enumerate_iff.1 hlast').exists_indices
    have paths := hpath.symm.trans hpath'
    rw [follow, follow, List.append_assoc, List.append_assoc] at paths
    have numbers := List.head_eq_of_cons_eq (List.append_cancel_left paths)
    have same : index = index' := by
      have values := congrArg UInt16.toNat numbers
      rwa [UInt16.toNat_ofNat_of_lt' bound, UInt16.toNat_ofNat_of_lt' bound'] at values
    subst same
    rw [found] at found'
    rw [Option.some.inj found']

/-! ## The limit drops single runs -/

/-- The limit leaves out some of the finished runs. -/
theorem sublist_enumerate_unlimited (q : Query) (steps : List Step) (link : Link) :
    (q.enumerate steps link).Sublist (q.unlimited.enumerate steps link) := by
  induction steps generalizing link with
  | nil => exact .refl _
  | cons step rest ih =>
    rw [enumerate_cons, enumerate_cons]
    by_cases many : q.OverLimit step link
    · rw [many.advance_eq]
      exact List.nil_sublist _
    · rw [advance_eq_unlimited many]
      induction q.unlimited.advance step link with
      | nil => exact .refl _
      | cons next others ih' =>
        rw [List.flatMap_cons, List.flatMap_cons]
        exact (ih next).append ih'

/-- The finished runs are those that pass no step where they are over the limit. -/
theorem mem_enumerate_iff_unlimited :
    last ∈ q.enumerate steps link ↔
      last ∈ q.unlimited.enumerate steps link ∧
        ∀ step rest met, q.unlimited.Meets steps link (step :: rest) met →
          last ∈ q.unlimited.enumerate (step :: rest) met → ¬ q.OverLimit step met := by
  constructor
  · intro hlast
    refine ⟨(q.sublist_enumerate_unlimited steps link).subset hlast, ?_⟩
    induction steps generalizing link with
    | nil =>
      intro step rest met meets
      exact nomatch meets
    | cons first others ih =>
      rw [enumerate_cons, List.mem_flatMap] at hlast
      obtain ⟨next, hnext, hlast⟩ := hlast
      have within : ¬ q.OverLimit first link := by
        intro many
        rw [many.advance_eq] at hnext
        exact List.not_mem_nil hnext
      rw [advance_eq_unlimited within] at hnext
      intro step rest met meets through
      cases meets with
      | here => exact within
      | onward leads meets =>
        -- the run to `last` goes through `next`, so no other run that is met leads there
        have same := eq_of_mem_enumerate hnext leads
          ((q.sublist_enumerate_unlimited others next).subset hlast) (meets.mem_enumerate through)
        subst same
        exact ih hlast step rest met meets through
  · rintro ⟨hlast, within⟩
    induction steps generalizing link with
    | nil => exact hlast
    | cons first others ih =>
      have clear := within first others link (.here _ _) hlast
      rw [enumerate_cons, List.mem_flatMap] at hlast ⊢
      obtain ⟨next, hnext, hlast⟩ := hlast
      refine ⟨next, advance_eq_unlimited clear ▸ hnext, ih hlast ?_⟩
      exact fun step rest met meets => within step rest met (.onward hnext meets)

/-! ## A limit of one drops behaviours -/

/-- If no step leads to two runs then the start leads where every run that is met leads. -/
theorem Meets.enumerate_eq (alone : ∀ step link, (q.advance step link).length ≤ 1)
    (h : q.Meets steps link later met) : q.enumerate steps link = q.enumerate later met := by
  induction h with
  | here steps link => rfl
  | @onward step rest steps link next met leads meets ih =>
    -- the run that is met behind this step is the only one to which the step leads
    have only : q.advance step link = [next] := by
      obtain ⟨run, hrun⟩ := List.length_eq_one_iff.1
        (le_antisymm (alone step link) (List.length_pos_of_mem leads))
      rw [hrun] at leads ⊢
      rw [List.mem_singleton.1 leads]
    rw [enumerate_cons, only, List.flatMap_singleton, ih]

/-- In a passive search with a limit of at most one, no step leads to two runs. -/
theorem length_advance_le_one (passive : q.trigger = .passive)
    (strict : q.settings.passiveLimit ≤ 1) (step : Step) (link : Link) :
    (q.advance step link).length ≤ 1 := by
  cases step with
  | condition c =>
    rw [advance_condition]
    split <;> simp
  | unresolved r => exact Nat.zero_le 1
  | action a =>
    rw [advance_action]
    split
    · exact Nat.zero_le 1
    · rename_i clear
      have few : (a.branches link.board link.deltas q.piece.id).length ≤ q.settings.passiveLimit :=
        not_lt.1 fun more => clear ⟨passive, more⟩
      rw [List.length_map, List.length_take, List.length_zipIdx]
      exact (min_le_right _ _).trans (few.trans strict)

/-- With a limit of at most one, a behaviour that is ambiguous anywhere has no finished runs. -/
theorem runs_eq_nil_of_disputed (strict : q.settings.passiveLimit ≤ 1) {b : Behaviour}
    (disputed : q.Disputed b) : q.runs b = [] := by
  obtain ⟨step, rest, link, meets, many⟩ := disputed
  have passive : q.trigger = .passive := by
    cases step with
    | action a => exact many.1
    | condition c => exact many.elim
    | unresolved r => exact many.elim
  rw [runs_eq_enumerate, meets.enumerate_eq (length_advance_le_one passive strict), enumerate_cons,
    many.advance_eq, List.flatMap_nil]

/-! ## What the limit does -/

/-- The limit leaves out, of the finished runs of a behaviour, those that pass a step where they
have too many branches.  If it is at most one, then a behaviour that is ambiguous anywhere has none,
and every finding is a run of one that is not. -/
theorem limit_spec (q : Query) :
    (∀ b : Behaviour, (q.runs b).Sublist (q.unlimited.runs b) ∧
      (∀ last, last ∈ q.runs b ↔ last ∈ q.unlimited.runs b ∧
        ∀ step rest met, q.unlimited.Meets b.builtSteps (q.start b) (step :: rest) met →
          last ∈ q.unlimited.enumerate (step :: rest) met → ¬ q.OverLimit step met) ∧
      (q.settings.passiveLimit ≤ 1 → q.Disputed b → q.runs b = [])) ∧
    (q.settings.passiveLimit ≤ 1 → ∀ last ∈ q.findings,
      ∃ b ∈ q.piece.triggered q.trigger, last ∈ q.runs b ∧ ¬ q.Disputed b) := by
  refine ⟨fun b => ⟨?_, ?_, fun strict => runs_eq_nil_of_disputed strict⟩,
    fun strict last hlast => ?_⟩
  · rw [runs_eq_enumerate, runs_eq_enumerate]
    exact q.sublist_enumerate_unlimited b.builtSteps (q.start b)
  · rw [runs_eq_enumerate, runs_eq_enumerate]
    exact fun last => mem_enumerate_iff_unlimited
  · obtain ⟨b, fires, leads⟩ := exists_leads_of_mem_findings hlast
    have found : last ∈ q.runs b := by
      rw [runs_eq_enumerate]
      exact mem_enumerate_iff.2 leads
    refine ⟨b, fires, found, fun disputed => ?_⟩
    rw [runs_eq_nil_of_disputed strict disputed] at found
    exact List.not_mem_nil found

/-- One square ahead or two. -/
def leap : Action := .move { modes := .move, vectors := [⟨0, 1⟩, ⟨0, 2⟩] }

/-- One square to the left, ahead or back. -/
def stagger : Action := .move { modes := .move, vectors := [⟨-1, 0⟩, ⟨0, 1⟩, ⟨0, -1⟩] }

/-- A reaction in two steps. -/
def forkBehaviour : Behaviour where
  id := ⟨"spread"⟩
  name := "spread"
  trigger := .passive
  steps := [.action leap, .action stagger]

/-- White's spreader in a corner looks for its reactions, with some limit on branches. -/
def forking (limit : ℕ) : Query where
  settings := { passiveLimit := limit }
  board :=
    { Board.empty "forking" ⟨3, 3⟩ with
      pieces := [{ id := ⟨"spreader"⟩, behaviours := [forkBehaviour] }]
      nations :=
        { nodes :=
            [{ id := ⟨"whites"⟩, monarch := some ⟨"white"⟩, children := [.piece ⟨"spreader"⟩] }]
          roots := [0] }
      players := [{ id := ⟨"white"⟩, seat := ⟨1⟩ }]
      placements := [(⟨"spreader"⟩, ⟨2, 0⟩)] }
  piece := { id := ⟨"spreader"⟩, behaviours := [forkBehaviour] }
  trigger := .passive
  log := {}

/-- The king looks for his reaction to an attack, which has one branch. -/
def falling : Query where
  settings := {}
  board := raidBoard
  piece := { id := ⟨"king"⟩, behaviours := [fallBehaviour] }
  trigger := .passive
  log := ⟨[⟨⟨"raider"⟩, ⟨"king"⟩, ⟨0, 2⟩⟩]⟩

/-- With a limit of one the leap is ambiguous, and the spreader does not react.  The king does,
whose fall is not ambiguous. -/
theorem forking_dropped :
    (forking 1).settings.passiveLimit ≤ 1 ∧ (forking 1).Disputed forkBehaviour ∧
      (forking 1).runs forkBehaviour = [] ∧
      ((forking 1).unlimited.runs forkBehaviour).length = 5 ∧
      falling.settings.passiveLimit ≤ 1 ∧
      (∃ last ∈ falling.findings, last.deltas.loser? = some ⟨"black"⟩) ∧
      ¬ falling.Disputed fallBehaviour := by
  have strict : (forking 1).settings.passiveLimit ≤ 1 := le_refl 1
  have disputed : (forking 1).Disputed forkBehaviour := by
    have two : (leap.branches (forking 1).board ((forking 1).start forkBehaviour).deltas
        ⟨"spreader"⟩).length = 2 := by cbv
    exact ⟨.action leap, [.action stagger], _, .here _ _, rfl, two.symm ▸ Nat.lt_succ_self 1⟩
  have losers : falling.findings.map (·.deltas.loser?) = [some ⟨"black"⟩] := by cbv
  obtain ⟨last, hlast, falls⟩ := List.mem_map.1 (losers ▸ List.mem_singleton_self _)
  obtain ⟨b, fires, -, clear⟩ := falling.limit_spec.2 (le_refl 1) last hlast
  obtain rfl : b = fallBehaviour := List.mem_singleton.1 fires
  refine ⟨strict, disputed, ((forking 1).limit_spec.1 forkBehaviour).2.2 strict disputed, ?_,
    le_refl 1, ⟨last, hlast, falls⟩, clear⟩
  cbv

/-- With a limit of two the stagger is ambiguous after the short leap, in the middle of the edge.
After the long one, into the corner, it has two branches, and both are found. -/
theorem forking_goes_on :
    (forking 2).trigger = .passive ∧ (forking 2).Disputed forkBehaviour ∧
      (forking 2).findings.map (·.selection.indices) = [[1, 0], [1, 1]] := by
  refine ⟨rfl, ?_, ?_⟩
  · have counts : ((forking 2).advance (.action leap) ((forking 2).start forkBehaviour)).map
        (fun link => (stagger.branches link.board link.deltas ⟨"spreader"⟩).length) = [3, 2] := by
      cbv
    obtain ⟨link, leads, three⟩ := List.mem_map.1 (counts ▸ List.mem_cons_self)
    refine ⟨.action stagger, [], link, .onward leads (.here _ _), rfl, ?_⟩
    change 2 < (stagger.branches link.board link.deltas ⟨"spreader"⟩).length
    rw [three]
    exact Nat.lt_succ_self 2
  · cbv

end Query

end BoardRules
