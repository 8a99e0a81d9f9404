import Mathlib
import BoardRules.Search.WorkList

/-!
# The runs in the order of the steps

The work-list of a search mixes runs of two depths.  `enumerate` says without a work-list which
runs a behaviour has: it follows the steps to the end, one branch after the other, and so puts the
runs into the order of their branch numbers.  `run_level` shows that working off a whole level of
runs is enumerating below each of them, and `findings_eq_flatMap_enumerate` puts the findings
together.  `Leads` is the same as a relation, one run at a time; what a search keeps is proved by
induction on it.
-/

namespace BoardRules

/-- A run with one more branch number. -/
def Link.numbered (link : Link) (index : UInt16) : Link :=
  { link with selection := { link.selection with indices := link.selection.indices ++ [index] } }

namespace Query

/-- Whether an action with so many branches is ambiguous as a reaction. -/
def Ambiguous (q : Query) (branches : List Branch) : Prop :=
  q.trigger = .passive ∧ q.settings.passiveLimit < branches.length

instance (q : Query) (branches : List Branch) : Decidable (q.Ambiguous branches) :=
  inferInstanceAs (Decidable (_ ∧ _))

/-- The finished runs that a run leads to, one branch after the other.  Of more branches than
indices can number, the first ones are followed. -/
def enumerate (q : Query) : List Step → Link → List Link
  | [], link => [link]
  | .condition c :: rest, link =>
    if c.passes ⟨link.board, q.piece.id, link.log.attacker? q.piece.id⟩ then
      q.enumerate rest (link.numbered 0)
    else []
  | .action a :: rest, link =>
    let branches := a.branches link.board link.deltas q.piece.id
    if q.Ambiguous branches then []
    else (branches.zipIdx.take maxBranches).flatMap fun (branch, index) =>
      q.enumerate rest (q.follow link branch index)
  | .unresolved _ :: _, _ => []

/-- A run leads to a finished one: conditions let it pass, and at each action it takes some branch
that indices can number. -/
inductive Leads (q : Query) : List Step → Link → Link → Prop
  /-- Past the last step a run is finished. -/
  | stop (link : Link) : Leads q [] link link
  /-- A condition lets a run go on. -/
  | pass {c : Condition} {rest : List Step} {link last : Link}
      (passes : c.passes ⟨link.board, q.piece.id, link.log.attacker? q.piece.id⟩ = true)
      (next : Leads q rest (link.numbered 0) last) : Leads q (.condition c :: rest) link last
  /-- A run goes on with a branch of an action. -/
  | take {a : Action} {rest : List Step} {link last : Link} {branch : Branch} {index : ℕ}
      (clear : ¬ q.Ambiguous (a.branches link.board link.deltas q.piece.id))
      (found : (a.branches link.board link.deltas q.piece.id)[index]? = some branch)
      (bound : index < maxBranches)
      (next : Leads q rest (q.follow link branch index) last) :
      Leads q (.action a :: rest) link last

/-! ## The work-list -/

/-- An action that is not ambiguous replaces a run by one for each branch that indices can
number. -/
theorem advance_action (q : Query) (a : Action) (link : Link) :
    q.advance (.action a) link =
      if q.Ambiguous (a.branches link.board link.deltas q.piece.id) then []
      else ((a.branches link.board link.deltas q.piece.id).zipIdx.take maxBranches).map
        fun (branch, index) => q.follow link branch index := rfl

/-- One step of the enumeration is the step that the work-list takes. -/
theorem enumerate_cons (q : Query) (step : Step) (rest : List Step) (link : Link) :
    q.enumerate (step :: rest) link = (q.advance step link).flatMap (q.enumerate rest) := by
  cases step with
  | condition c =>
    rw [enumerate, advance_condition]
    split
    · rw [List.flatMap_singleton]
      rfl
    · rfl
  | action a =>
    rw [enumerate, advance_action]
    by_cases ambiguous : q.Ambiguous (a.branches link.board link.deltas q.piece.id)
    · rw [if_pos ambiguous, if_pos ambiguous, List.flatMap_nil]
    · rw [if_neg ambiguous, if_neg ambiguous, List.flatMap_map]
  | unresolved r => rfl

/-- The runs at the front of the work-list are replaced by what their step leads to, behind the
runs that are one step further. -/
theorem run_front (q : Query) (step : Step) (rest : List Step) (front back : List Link) :
    q.run (front.map (fun link => (step :: rest, link)) ++ back.map fun link => (rest, link)) =
      q.run ((back ++ front.flatMap (q.advance step)).map fun link => (rest, link)) := by
  induction front generalizing back with
  | nil => simp
  | cons link front ih =>
    rw [List.map_cons, List.cons_append, run_unfinished, List.append_assoc, ← List.map_append, ih,
      List.flatMap_cons, List.append_assoc]

/-- Working off runs of the same depth is enumerating below each of them. -/
theorem run_level (q : Query) (steps : List Step) (level : List Link) :
    q.run (level.map fun link => (steps, link)) = level.flatMap (q.enumerate steps) := by
  induction steps generalizing level with
  | nil =>
    induction level with
    | nil => rw [List.map_nil, run_nil, List.flatMap_nil]
    | cons link level ih =>
      rw [List.map_cons, run_finished, ih, List.flatMap_cons, enumerate, List.singleton_append]
  | cons step rest ih =>
    have front := q.run_front step rest level []
    rw [List.map_nil, List.append_nil, List.nil_append, ih, List.flatMap_assoc] at front
    rw [front]
    exact List.flatMap_congr fun link _ => (q.enumerate_cons step rest link).symm

/-- The finished runs of a behaviour are those enumerated below its start. -/
theorem runs_eq_enumerate (q : Query) (b : Behaviour) :
    q.runs b = q.enumerate b.builtSteps (q.start b) := by
  have level := q.run_level b.builtSteps [q.start b]
  rwa [List.map_singleton, List.flatMap_singleton, ← runs_eq_run] at level

/-! ## Paths of branch numbers -/

/-- The branches that are followed are those that indices can number. -/
theorem mem_take_zipIdx_iff {branches : List Branch} {branch : Branch} {index : ℕ} :
    (branch, index) ∈ branches.zipIdx.take maxBranches ↔
      branches[index]? = some branch ∧ index < maxBranches := by
  rw [List.mem_iff_getElem?]
  constructor
  · rintro ⟨i, hi⟩
    rw [List.getElem?_take] at hi
    split at hi
    · rename_i bound
      rw [List.getElem?_zipIdx, Option.map_eq_some_iff] at hi
      obtain ⟨found, hfound, heq⟩ := hi
      obtain ⟨rfl, rfl⟩ := Prod.mk.inj heq
      rw [Nat.zero_add]
      exact ⟨hfound, bound⟩
    · exact nomatch hi
  · rintro ⟨found, bound⟩
    refine ⟨index, ?_⟩
    rw [List.getElem?_take, if_pos bound, List.getElem?_zipIdx, found, Nat.zero_add]
    rfl

/-- What a run leads to at an action: one run for each branch that indices can number, unless the
action is ambiguous. -/
theorem mem_advance_action_iff {q : Query} {a : Action} {link next : Link} :
    next ∈ q.advance (.action a) link ↔
      ¬ q.Ambiguous (a.branches link.board link.deltas q.piece.id) ∧
        ∃ branch index, (a.branches link.board link.deltas q.piece.id)[index]? = some branch ∧
          index < maxBranches ∧ q.follow link branch index = next := by
  rw [advance_action]
  by_cases ambiguous : q.Ambiguous (a.branches link.board link.deltas q.piece.id)
  · rw [if_pos ambiguous]
    simp [ambiguous]
  · rw [if_neg ambiguous]
    simp only [List.mem_map, Prod.exists, mem_take_zipIdx_iff, and_assoc, ambiguous,
      not_false_eq_true, true_and]

/-- What a run leads to at a condition: itself, if the condition lets it pass. -/
theorem mem_advance_condition_iff {q : Query} {c : Condition} {link next : Link} :
    next ∈ q.advance (.condition c) link ↔
      c.passes ⟨link.board, q.piece.id, link.log.attacker? q.piece.id⟩ = true ∧
        link.numbered 0 = next := by
  rw [advance_condition]
  split
  · rename_i passes
    rw [List.mem_singleton, eq_comm]
    exact ⟨fun h => ⟨passes, h⟩, fun h => h.2⟩
  · rename_i stops
    exact ⟨fun h => absurd h List.not_mem_nil, fun h => absurd h.1 stops⟩

/-- The finished runs are those that the start leads to. -/
theorem mem_enumerate_iff {q : Query} {steps : List Step} {link last : Link} :
    last ∈ q.enumerate steps link ↔ q.Leads steps link last := by
  constructor
  · intro h
    induction steps generalizing link with
    | nil =>
      rw [enumerate, List.mem_singleton] at h
      exact h ▸ .stop last
    | cons step rest ih =>
      rw [enumerate_cons, List.mem_flatMap] at h
      obtain ⟨next, hnext, hlast⟩ := h
      cases step with
      | condition c =>
        obtain ⟨passes, rfl⟩ := mem_advance_condition_iff.1 hnext
        exact .pass passes (ih hlast)
      | action a =>
        obtain ⟨clear, branch, index, found, bound, rfl⟩ := mem_advance_action_iff.1 hnext
        exact .take clear found bound (ih hlast)
      | unresolved r => exact absurd hnext List.not_mem_nil
  · intro h
    induction h with
    | stop link => exact List.mem_singleton_self link
    | pass passes next ih =>
      rw [enumerate_cons, List.mem_flatMap]
      exact ⟨_, mem_advance_condition_iff.2 ⟨passes, rfl⟩, ih⟩
    | take clear found bound next ih =>
      rw [enumerate_cons, List.mem_flatMap]
      exact ⟨_, mem_advance_action_iff.2 ⟨clear, _, _, found, bound, rfl⟩, ih⟩

/-- A finding is where the start of a behaviour with the trigger leads. -/
theorem exists_leads_of_mem_findings {q : Query} {last : Link} (h : last ∈ q.findings) :
    ∃ b ∈ q.piece.triggered q.trigger, q.Leads b.builtSteps (q.start b) last := by
  rw [findings_eq] at h
  split at h
  · exact absurd h List.not_mem_nil
  · obtain ⟨b, hb, hlast⟩ := List.mem_flatMap.1 h
    rw [runs_eq_enumerate, mem_enumerate_iff] at hlast
    exact ⟨b, hb, hlast⟩

/-- A finished run carries one further branch number for each step that was left. -/
theorem Leads.exists_indices {q : Query} {steps : List Step} {link last : Link}
    (h : q.Leads steps link last) :
    ∃ path, last.selection.indices = link.selection.indices ++ path ∧
      path.length = steps.length := by
  induction h with
  | stop link => exact ⟨[], (List.append_nil _).symm, rfl⟩
  | pass passes next ih =>
    obtain ⟨path, hpath, hlength⟩ := ih
    refine ⟨0 :: path, ?_, by rw [List.length_cons, hlength, List.length_cons]⟩
    rw [hpath, Link.numbered, List.append_assoc, List.singleton_append]
  | @take a rest link last branch index clear found bound next ih =>
    obtain ⟨path, hpath, hlength⟩ := ih
    refine ⟨UInt16.ofNat index :: path, ?_, by rw [List.length_cons, hlength, List.length_cons]⟩
    rw [hpath, follow, List.append_assoc, List.singleton_append]

/-- A finished run is one of the piece with which it started. -/
theorem Leads.piece_eq {q : Query} {steps : List Step} {link last : Link}
    (h : q.Leads steps link last) : last.selection.piece = link.selection.piece := by
  induction h with
  | stop link => rfl
  | pass passes next ih => exact ih
  | take clear found bound next ih => exact ih

/-- A finding is one of the searched piece. -/
theorem piece_of_mem_findings {q : Query} {last : Link} (h : last ∈ q.findings) :
    last.selection.piece = q.piece.id := by
  obtain ⟨b, -, leads⟩ := exists_leads_of_mem_findings h
  exact leads.piece_eq

/-- The branches that are followed get larger and larger indices. -/
theorem pairwise_indices (branches : List Branch) :
    (branches.zipIdx.take maxBranches).Pairwise
      fun b c => UInt16.ofNat b.2 < UInt16.ofNat c.2 := by
  have ordered : (branches.zipIdx.take maxBranches).Pairwise fun b c => b.2 < c.2 := by
    refine List.Pairwise.take ?_
    rw [← List.pairwise_map (f := Prod.snd) (R := (· < ·)), List.zipIdx_map_snd]
    exact List.pairwise_lt_range'
  refine ordered.imp_of_mem fun {b c} hb hc h => ?_
  exact (UInt16.ofNat_lt_iff_lt (mem_take_zipIdx_iff.1 hb).2 (mem_take_zipIdx_iff.1 hc).2).2 h

/-- The paths of the finished runs increase in lexicographic order. -/
theorem pairwise_enumerate (q : Query) (steps : List Step) (link : Link) :
    (q.enumerate steps link).Pairwise
      fun l m => l.selection.indices < m.selection.indices := by
  induction steps generalizing link with
  | nil => exact List.pairwise_singleton ..
  | cons step rest ih =>
    cases step with
    | condition c =>
      unfold enumerate
      split
      · exact ih _
      · exact .nil
    | action a =>
      rw [enumerate]
      split
      · exact .nil
      · rw [List.pairwise_flatMap]
        refine ⟨fun _ _ => ih _, (pairwise_indices _).imp fun {b c} less => ?_⟩
        -- Both runs share the path up to this step, where their indices differ.
        intro l hl m hm
        obtain ⟨path, hpath, -⟩ := (mem_enumerate_iff.1 hl).exists_indices
        obtain ⟨other, hother, -⟩ := (mem_enumerate_iff.1 hm).exists_indices
        rw [hpath, hother, follow, follow, List.append_assoc, List.append_assoc]
        exact List.append_left_lt (List.cons_lt_cons_iff.2 (.inl less))
    | unresolved r => exact .nil

/-- The work-list search is the enumeration behaviour by behaviour.  Below each behaviour the
finished runs are exactly those that the start leads to; each has one index for every step, and
their paths increase strictly in lexicographic order. -/
theorem findings_eq_flatMap_enumerate (q : Query) :
    (q.findings =
      if (q.board.owner? q.piece.id).isSome then
        (q.piece.triggered q.trigger).flatMap fun b => q.enumerate b.builtSteps (q.start b)
      else []) ∧
    ∀ b : Behaviour,
      (∀ last, last ∈ q.enumerate b.builtSteps (q.start b) ↔
        q.Leads b.builtSteps (q.start b) last) ∧
      (∀ last ∈ q.enumerate b.builtSteps (q.start b),
        last.selection.indices.length = b.builtSteps.length) ∧
      (q.enumerate b.builtSteps (q.start b)).Pairwise
        fun l m => l.selection.indices < m.selection.indices := by
  refine ⟨?_, fun b =>
    ⟨fun last => mem_enumerate_iff, fun last hlast => ?_, q.pairwise_enumerate _ _⟩⟩
  · rw [findings_eq]
    cases owned : q.board.owner? q.piece.id with
    | none => rfl
    | some owner => exact List.flatMap_congr fun b _ => q.runs_eq_enumerate b
  · obtain ⟨path, hpath, hlength⟩ := (mem_enumerate_iff.1 hlast).exists_indices
    rw [hpath, ← hlength]
    rfl

end Query

/-! ## A raid -/

/-- White's raider may take the guard beside it, without leaving its square, and then run up the
file to the black king. -/
def raidBehaviour : Behaviour where
  id := ⟨"raid"⟩
  name := "raid"
  trigger := .initiative
  steps :=
    [.action (.move { modes := .attack, vectors := [⟨1, 0⟩] }),
     .action (.move { sliding := true, vectors := [⟨0, 1⟩] })]

/-- The king's reaction to an attack on him. -/
def fallBehaviour : Behaviour where
  id := ⟨"fall"⟩
  name := "fall"
  trigger := .passive
  steps :=
    [.condition ⟨{}, "(not (is-null (vanilla.attacker)))",
        .ok (.call .not [.call .isNull [.call .attacker []]])⟩,
     .action (.lose {})]

/-- A raider against a guard and a king. -/
def raidBoard : Board :=
  { Board.empty "raid" ⟨3, 3⟩ with
    pieces :=
      [{ id := ⟨"raider"⟩, behaviours := [raidBehaviour] }, { id := ⟨"guard"⟩ },
       { id := ⟨"king"⟩, behaviours := [fallBehaviour] }]
    nations :=
      { nodes :=
          [{ id := ⟨"whites"⟩, monarch := some ⟨"white"⟩, children := [.piece ⟨"raider"⟩] },
           { id := ⟨"blacks"⟩, monarch := some ⟨"black"⟩,
             children := [.piece ⟨"guard"⟩, .piece ⟨"king"⟩] }]
        roots := [0, 1] }
    players := [{ id := ⟨"white"⟩, seat := ⟨1⟩ }, { id := ⟨"black"⟩, seat := ⟨3⟩ }]
    placements := [(⟨"raider"⟩, ⟨0, 0⟩), (⟨"guard"⟩, ⟨1, 0⟩), (⟨"king"⟩, ⟨0, 2⟩)] }

/-- The search for the raider's moves. -/
def raid : Query where
  settings := {}
  board := raidBoard
  piece := { id := ⟨"raider"⟩, behaviours := [raidBehaviour] }
  trigger := .initiative
  log := {}

/-- The raid ends beside the king or on his square, and either run carries two indices. -/
theorem enumeration_of_raid :
    raid.findings.map (·.selection.indices) = [[0, 0], [0, 1]] ∧
      ∃ last ∈ raid.enumerate raidBehaviour.builtSteps (raid.start raidBehaviour),
        last.selection.indices = [0, 1] ∧ last.selection.indices.length = 2 := by
  have paths : (raid.enumerate raidBehaviour.builtSteps (raid.start raidBehaviour)).map
      (·.selection.indices) = [[0, 0], [0, 1]] := by cbv
  have owned : (raid.board.owner? raid.piece.id).isSome = true := by cbv
  have enumeration := raid.findings_eq_flatMap_enumerate
  refine ⟨?_, ?_⟩
  · have fires : raid.piece.triggered raid.trigger = [raidBehaviour] := rfl
    rw [enumeration.1, if_pos owned, fires, List.flatMap_singleton]
    exact paths
  · obtain ⟨last, hlast, hpath⟩ :=
      List.mem_map.1 (paths ▸ List.mem_cons_of_mem _ List.mem_cons_self)
    exact ⟨last, hlast, hpath, (enumeration.2 raidBehaviour).2.1 last hlast⟩

end BoardRules
