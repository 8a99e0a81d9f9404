import Mathlib
import BoardRules.Nation.Forest

/-!
# What lies below a nation

Nations refer to each other by place, and nothing keeps these references from sharing a group, from
running in a circle or from leading nowhere.  A nation reaches another one by a chain of memberships
(`Forest.Reaches`).  Whatever the order in which a traversal enters groups, if it may enter each
place but the first once and leaves out none that it meets (`Forest.Entered`), then it enters
exactly the places that are reached (`Forest.Entered.mem_cons_iff`).  The walk that works off a
queue is such a traversal (`Forest.entered_spec`): it meets the pieces of the groups that it enters,
each membership once (`Forest.sweep_eq`).

`Forest.Walk` is this walk one member at a time, with the places seen so far.  It is over after as
many steps as the groups that it enters have members (`Forest.Walk.iterate_step`), although a group
that is met again stands in the queue again.
-/

namespace BoardRules

/-- The piece that a member is, if it is one. -/
def Child.piece? : Child → Option PieceId
  | .piece id => some id
  | .group _ => none

namespace Forest

variable {f : Forest} {fresh left groups more : List ℕ} {members others : List Child} {key root : ℕ}

/-- The pieces directly below the nation at a place. -/
def piecesIn (f : Forest) (key : ℕ) : List PieceId := (f.childrenOf key).filterMap Child.piece?

/-- One nation has another as a direct member. -/
def HasGroup (f : Forest) (key other : ℕ) : Prop := .group other ∈ f.childrenOf key

/-- A nation is another one, or lies somewhere below it. -/
def Reaches (f : Forest) : ℕ → ℕ → Prop := Relation.ReflTransGen f.HasGroup

/-- A piece is a direct member of a nation or of one that lies somewhere below it. -/
def HasBelow (f : Forest) (root : ℕ) (piece : PieceId) : Prop :=
  ∃ key, f.Reaches root key ∧ piece ∈ f.piecesIn key

/-- A missing nation has no members. -/
theorem childrenOf_of_length_le (missing : f.nodes.length ≤ key) : f.childrenOf key = [] := by
  unfold childrenOf get?
  rw [List.getElem?_eq_none missing]
  rfl

theorem childrenOf_of_get? {n : Nation} (found : f.get? key = some n) :
    f.childrenOf key = n.children := by
  unfold childrenOf
  rw [found]
  rfl

/-- Only nations that are there have members. -/
theorem lt_length_of_mem_childrenOf {member : Child} (h : member ∈ f.childrenOf key) :
    key < f.nodes.length := by
  by_contra missing
  rw [childrenOf_of_length_le (Nat.le_of_not_lt missing)] at h
  exact absurd h List.not_mem_nil

/-- A missing nation reaches nobody that is there. -/
theorem Reaches.lt_length (h : f.Reaches root key) (present : key < f.nodes.length) :
    root < f.nodes.length := by
  rcases h.cases_head with rfl | ⟨group, inside, -⟩
  · exact present
  · exact lt_length_of_mem_childrenOf inside

/-- The places below a place are the others in the row. -/
theorem mem_below_iff {other : ℕ} :
    other ∈ f.below root ↔ other ≠ root ∧ other < f.nodes.length := by
  unfold below
  rw [List.Nodup.mem_erase_iff List.nodup_range, List.mem_range]

/-- Every nation that may be entered below a root is listed once. -/
theorem nodup_below (f : Forest) (root : ℕ) : (f.below root).Nodup := List.nodup_range.erase root

/-! ## Traversals -/

/-- The groups that a traversal of members enters if it may enter those in `fresh`. -/
structure Entered (f : Forest) (fresh : List ℕ) (members : List Child) (groups : List ℕ) :
    Prop where
  /-- No group is entered twice. -/
  once : groups.Nodup
  /-- Only fresh groups are entered. -/
  allowed : ∀ key ∈ groups, key ∈ fresh
  /-- A group that is entered is one of the members or lies below one of them. -/
  reached : ∀ key ∈ groups, ∃ group, .group group ∈ members ∧ f.Reaches group key
  /-- Every fresh member is entered. -/
  meets : ∀ key, .group key ∈ members → key ∈ fresh → key ∈ groups
  /-- Every fresh member of a group that is entered is entered. -/
  closed : ∀ key ∈ groups, ∀ other, f.HasGroup key other → other ∈ fresh → other ∈ groups

namespace Entered

theorem nil (f : Forest) (fresh : List ℕ) : f.Entered fresh [] [] where
  once := List.nodup_nil
  allowed _ h := absurd h List.not_mem_nil
  reached _ h := absurd h List.not_mem_nil
  meets _ h := absurd h List.not_mem_nil
  closed _ h := absurd h List.not_mem_nil

/-- A member that is not entered makes no difference. -/
theorem skip (h : f.Entered fresh members groups) {member : Child}
    (stale : ∀ key ∈ fresh, member ≠ .group key) : f.Entered fresh (member :: members) groups where
  once := h.once
  allowed := h.allowed
  reached key hkey := by
    obtain ⟨group, listed, reaches⟩ := h.reached key hkey
    exact ⟨group, List.mem_cons_of_mem member listed, reaches⟩
  meets key listed hkey := by
    rcases List.mem_cons.1 listed with rfl | listed
    · exact absurd rfl (stale key hkey)
    · exact h.meets key listed hkey
  closed := h.closed

/-- A fresh group is entered, and its members are traversed with the others. -/
theorem enter (nodup : fresh.Nodup) (enters : key ∈ fresh)
    (h : f.Entered (fresh.erase key) (members ++ f.childrenOf key) groups) :
    f.Entered fresh (.group key :: members) (key :: groups) where
  once := List.nodup_cons.2 ⟨fun again => nodup.not_mem_erase (h.allowed key again), h.once⟩
  allowed other hother := by
    rcases List.mem_cons.1 hother with rfl | later
    · exact enters
    · exact List.mem_of_mem_erase (h.allowed other later)
  reached other hother := by
    rcases List.mem_cons.1 hother with rfl | later
    · exact ⟨other, List.mem_cons_self, .refl⟩
    · obtain ⟨group, listed, reaches⟩ := h.reached other later
      rcases List.mem_append.1 listed with beside | inside
      · exact ⟨group, List.mem_cons_of_mem _ beside, reaches⟩
      · exact ⟨key, List.mem_cons_self, .head inside reaches⟩
  meets other listed hother := by
    by_cases same : other = key
    · exact same ▸ List.mem_cons_self
    · have beside : .group other ∈ members :=
        (List.mem_cons.1 listed).resolve_left fun first => same (Child.group.inj first)
      exact List.mem_cons_of_mem key (h.meets other (List.mem_append_left _ beside)
        ((List.mem_erase_of_ne same).2 hother))
  closed group hgroup other inside hother := by
    by_cases same : other = key
    · exact same ▸ List.mem_cons_self
    · have still : other ∈ fresh.erase key := (List.mem_erase_of_ne same).2 hother
      refine List.mem_cons_of_mem key ?_
      rcases List.mem_cons.1 hgroup with rfl | later
      · exact h.meets other (List.mem_append_right members inside) still
      · exact h.closed group later other inside still

/-- After some members, others are traversed with the groups that are still fresh. -/
theorem append (h : f.Entered fresh members groups)
    (remain : ∀ key, key ∈ left ↔ key ∈ fresh ∧ key ∉ groups)
    (k : f.Entered left others more) : f.Entered fresh (others ++ members) (groups ++ more) where
  once := by
    refine h.once.append k.once fun key hkey again => ?_
    exact ((remain key).1 (k.allowed key again)).2 hkey
  allowed key hkey := by
    rcases List.mem_append.1 hkey with first | second
    · exact h.allowed key first
    · exact ((remain key).1 (k.allowed key second)).1
  reached key hkey := by
    rcases List.mem_append.1 hkey with first | second
    · obtain ⟨group, listed, reaches⟩ := h.reached key first
      exact ⟨group, List.mem_append_right others listed, reaches⟩
    · obtain ⟨group, listed, reaches⟩ := k.reached key second
      exact ⟨group, List.mem_append_left members listed, reaches⟩
  meets key listed hkey := by
    by_cases known : key ∈ groups
    · exact List.mem_append_left more known
    · rcases List.mem_append.1 listed with second | first
      · exact List.mem_append_right groups (k.meets key second ((remain key).2 ⟨hkey, known⟩))
      · exact absurd (h.meets key first hkey) known
  closed key hkey other inside hother := by
    by_cases known : other ∈ groups
    · exact List.mem_append_left more known
    · rcases List.mem_append.1 hkey with first | second
      · exact absurd (h.closed key first other inside hother) known
      · exact List.mem_append_right groups
          (k.closed key second other inside ((remain other).2 ⟨hother, known⟩))

/-- A traversal that starts below a nation does not come back to it. -/
theorem once_cons (h : f.Entered (f.below root) members groups) : (root :: groups).Nodup :=
  List.nodup_cons.2 ⟨fun again => (mem_below_iff.1 (h.allowed root again)).1 rfl, h.once⟩

/-- A traversal from a nation that may enter every other place enters what the nation reaches. -/
theorem mem_cons_iff (h : f.Entered (f.below root) (f.childrenOf root) groups)
    (known : root < f.nodes.length) :
    key ∈ root :: groups ↔ f.Reaches root key ∧ key < f.nodes.length := by
  constructor
  · intro hkey
    rcases List.mem_cons.1 hkey with rfl | later
    · exact ⟨.refl, known⟩
    · obtain ⟨group, inside, reaches⟩ := h.reached key later
      exact ⟨.head inside reaches, (mem_below_iff.1 (h.allowed key later)).2⟩
  · rintro ⟨reaches, present⟩
    -- along the chain of memberships: a nation with members is present, so it was entered
    induction reaches with
    | refl => exact List.mem_cons_self
    | @tail group key reaches inside ih =>
      have entered := ih (lt_length_of_mem_childrenOf inside)
      by_cases same : key = root
      · exact same ▸ List.mem_cons_self
      · have still : key ∈ f.below root := mem_below_iff.2 ⟨same, present⟩
        refine List.mem_cons_of_mem root ?_
        rcases List.mem_cons.1 entered with rfl | later
        · exact h.meets key inside still
        · exact h.closed group later key inside still

/-- The pieces of the nations that a traversal enters are those below the nation it starts from. -/
theorem mem_flatMap_iff (h : f.Entered (f.below root) (f.childrenOf root) groups)
    {piece : PieceId} :
    piece ∈ (root :: groups).flatMap f.piecesIn ↔ f.HasBelow root piece := by
  rw [List.mem_flatMap]
  constructor
  · rintro ⟨key, hkey, listed⟩
    rcases List.mem_cons.1 hkey with rfl | later
    · exact ⟨key, .refl, listed⟩
    · obtain ⟨group, inside, reaches⟩ := h.reached key later
      exact ⟨key, .head inside reaches, listed⟩
  · rintro ⟨key, reaches, listed⟩
    obtain ⟨member, inside, -⟩ := List.mem_filterMap.1 listed
    have present := lt_length_of_mem_childrenOf inside
    exact ⟨key, (h.mem_cons_iff (reaches.lt_length present)).2 ⟨reaches, present⟩, listed⟩

end Entered

/-! ## The walk over a queue -/

/-- The groups that a walk over a queue enters, in this order. -/
def entered (f : Forest) (fresh : List ℕ) (queue : List Child) : List ℕ :=
  match queue with
  | [] => []
  | .piece _ :: rest => f.entered fresh rest
  | .group key :: rest =>
    if key ∈ fresh then key :: f.entered (fresh.erase key) (rest ++ f.childrenOf key)
    else f.entered fresh rest
termination_by (fresh.length, queue.length)
decreasing_by
  · exact Prod.Lex.right _ (Nat.lt_succ_self _)
  · exact Prod.Lex.left _ _ (length_erase_lt ‹_›)
  · exact Prod.Lex.right _ (Nat.lt_succ_self _)

/-- A walk over a queue is a traversal. -/
theorem entered_spec (f : Forest) (nodup : fresh.Nodup) (queue : List Child) :
    f.Entered fresh queue (f.entered fresh queue) := by
  fun_induction f.entered fresh queue with
  | case1 fresh => exact .nil f fresh
  | case2 fresh id rest ih => exact (ih nodup).skip fun key _ other => nomatch other
  | case3 fresh key rest enters ih => exact .enter nodup enters (ih (nodup.erase key))
  | case4 fresh key rest stale ih =>
    refine (ih nodup).skip fun other hother same => stale ?_
    exact Child.group.inj same ▸ hother

/-- A walk meets the pieces in the queue, and then those of the groups that it enters. -/
theorem sweep_eq (f : Forest) (fresh : List ℕ) (queue : List Child) :
    f.sweep fresh queue =
      queue.filterMap Child.piece? ++ (f.entered fresh queue).flatMap f.piecesIn := by
  fun_induction f.entered fresh queue with
  | case1 fresh => rw [sweep]; rfl
  | case2 fresh id rest ih => rw [sweep, ih]; rfl
  | case3 fresh key rest enters ih =>
    have first : Child.piece? (.group key) = none := rfl
    rw [sweep, if_pos enters, ih, List.filterMap_append, List.filterMap_cons_none first,
      List.flatMap_cons, List.append_assoc]
    rfl
  | case4 fresh key rest stale ih =>
    have first : Child.piece? (.group key) = none := rfl
    rw [sweep, if_neg stale, ih, List.filterMap_cons_none first]

/-- The pieces below a nation are its own and those of the groups that the walk enters. -/
theorem piecesBelow_eq (f : Forest) (root : ℕ) :
    f.piecesBelow root =
      (root :: f.entered (f.below root) (f.childrenOf root)).flatMap f.piecesIn := by
  unfold piecesBelow
  rw [sweep_eq, List.flatMap_cons]
  rfl

/-- There are no pieces below a nation that is missing. -/
theorem piecesBelow_of_length_le (missing : f.nodes.length ≤ root) : f.piecesBelow root = [] := by
  unfold piecesBelow
  rw [childrenOf_of_length_le missing, sweep]

/-- The pieces that are met below a nation are those that it has below it. -/
theorem mem_piecesBelow_iff {piece : PieceId} :
    piece ∈ f.piecesBelow root ↔ f.HasBelow root piece := by
  rw [piecesBelow_eq]
  exact (f.entered_spec (f.nodup_below root) (f.childrenOf root)).mem_flatMap_iff

/-! ## One member at a time -/

/-- A walk under way: the places seen so far, the members in the queue and the pieces met. -/
structure Walk where
  seen : List ℕ
  queue : List Child
  met : List PieceId := []

namespace Walk

/-- A walk from a nation begins with its members. -/
def start (f : Forest) (root : ℕ) : Walk := { seen := [root], queue := f.childrenOf root }

/-- Take the member at the front of the queue: a piece is met, and the members of a group that has
not been seen go to the end. -/
def step (f : Forest) (w : Walk) : Walk :=
  match w.queue with
  | [] => w
  | .piece id :: rest => { w with queue := rest, met := w.met ++ [id] }
  | .group key :: rest =>
    if key ∈ w.seen then { w with queue := rest }
    else { w with seen := key :: w.seen, queue := rest ++ f.childrenOf key }

/-- A nation that has been seen is passed over. -/
theorem step_known {seen : List ℕ} (known : key ∈ seen) (rest : List Child)
    (met : List PieceId) : step f ⟨seen, .group key :: rest, met⟩ = ⟨seen, rest, met⟩ :=
  if_pos known

/-- A nation that has not been seen is entered, and its members queue up behind the others. -/
theorem step_new {seen : List ℕ} (new : key ∉ seen) (rest : List Child) (met : List PieceId) :
    step f ⟨seen, .group key :: rest, met⟩ =
      ⟨key :: seen, rest ++ f.childrenOf key, met⟩ :=
  if_neg new

/-- A walk is over after one step for each member in the queue and of each group that it enters. -/
theorem iterate_step (f : Forest) (fresh : List ℕ) (queue : List Child) (seen : List ℕ)
    (met : List PieceId) (nodup : fresh.Nodup) (present : ∀ key ∈ fresh, key < f.nodes.length)
    (unseen : ∀ key < f.nodes.length, key ∈ fresh ↔ key ∉ seen) :
    ∃ visited, (step f)^[queue.length +
        ((f.entered fresh queue).map fun key => (f.childrenOf key).length).sum] ⟨seen, queue, met⟩ =
      ⟨visited, [], met ++ f.sweep fresh queue⟩ := by
  fun_induction f.entered fresh queue generalizing seen met with
  | case1 fresh => exact ⟨seen, by rw [sweep, List.append_nil]; rfl⟩
  | case2 fresh id rest ih =>
    obtain ⟨visited, runs⟩ := ih seen (met ++ [id]) nodup present unseen
    refine ⟨visited, ?_⟩
    rw [List.length_cons, Nat.add_right_comm, Function.iterate_succ_apply, sweep, List.append_cons]
    exact runs
  | case3 fresh key rest enters ih =>
    have new : key ∉ seen := (unseen key (present key enters)).1 enters
    have still : ∀ other < f.nodes.length, other ∈ fresh.erase key ↔ other ∉ key :: seen := by
      intro other hother
      rw [nodup.mem_erase_iff, unseen other hother, List.mem_cons, not_or]
    obtain ⟨visited, runs⟩ := ih (key :: seen) met (nodup.erase key)
      (fun other hother => present other (List.mem_of_mem_erase hother)) still
    refine ⟨visited, ?_⟩
    rw [List.length_append, Nat.add_assoc] at runs
    rw [List.length_cons, List.map_cons, List.sum_cons, Nat.add_right_comm,
      Function.iterate_succ_apply, sweep, if_pos enters]
    rw [step_new new]
    exact runs
  | case4 fresh key rest stale ih =>
    rw [List.length_cons, Nat.add_right_comm, Function.iterate_succ_apply, sweep, if_neg stale]
    by_cases known : key ∈ seen
    · rw [step_known known]
      exact ih seen met nodup present unseen
    · have missing : f.nodes.length ≤ key := Nat.le_of_not_lt fun there =>
        stale ((unseen key there).2 known)
      have still : ∀ other < f.nodes.length, other ∈ fresh ↔ other ∉ key :: seen := by
        intro other hother
        rw [unseen other hother, List.mem_cons, not_or]
        exact (and_iff_right (Nat.ne_of_lt (Nat.lt_of_lt_of_le hother missing))).symm
      rw [step_new known, childrenOf_of_length_le missing, List.append_nil]
      exact ih (key :: seen) met nodup present still

/-- The walk from a nation is over after one step for each member of the groups that it enters, the
nation included, and has met the pieces below the nation. -/
theorem iterate_start (f : Forest) (root : ℕ) :
    ∃ visited, (step f)^[((root :: f.entered (f.below root) (f.childrenOf root)).map
        fun key => (f.childrenOf key).length).sum] (start f root) =
      ⟨visited, [], f.piecesBelow root⟩ := by
  have unseen : ∀ key < f.nodes.length, key ∈ f.below root ↔ key ∉ [root] := by
    intro key hkey
    rw [mem_below_iff, List.mem_singleton]
    exact and_iff_left hkey
  obtain ⟨visited, runs⟩ := iterate_step f (f.below root) (f.childrenOf root) [root] []
    (f.nodup_below root) (fun key hkey => (mem_below_iff.1 hkey).2) unseen
  exact ⟨visited, by rw [List.map_cons, List.sum_cons]; exact runs⟩

end Walk

end Forest

end BoardRules
