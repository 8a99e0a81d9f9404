import Mathlib
import BoardRules.Random.Generator

/-!
# Families of generators

Forking a generator over and over, and forking what comes of it, gives a family.  Each member has a
path: the numbers of the forks that lead to it from the root, the last one first.  The seed of a
member lies as many strides behind the seed of the root as the numbers on its path add up to
(`Generator.Kept`), and as long as no counter overflows, nothing wraps in this sum.  The stride is
odd, so seeds are the same exactly if the sums are (`Generator.Kept.seed_eq_iff`).

A generator therefore shares its seed neither with one that descends from it nor with one that was
forked off the same generator (`Generator.Descendant.Close`).  Other relatives are not kept apart:
the second fork of a generator is the first fork of its first fork (`Generator.forks_coincide`).
-/

namespace BoardRules

namespace Generator

/-! ## Families -/

/-- A generator of a family. -/
structure Descendant where
  /-- The numbers of the forks that lead to the generator, the last one first. -/
  path : List ℕ
  generator : Generator
  deriving DecidableEq, Repr

namespace Descendant

/-- The next fork. -/
def child (k : Descendant) : Descendant :=
  ⟨(k.generator.forks.toNat + 1) :: k.path, k.generator.fork.1⟩

/-- What forking leaves of a generator. -/
def forked (k : Descendant) : Descendant := { k with generator := k.generator.fork.2 }

/-- One of two generators descends from the other one, or both were forked off the same. -/
def Close (k l : Descendant) : Prop :=
  k.path <:+ l.path ∨ l.path <:+ k.path ∨ ∃ m n p, k.path = m :: p ∧ l.path = n :: p

end Descendant

open Descendant

/-- Fork the generator at a place of a family, if there is one.  The new one goes to the end. -/
def forkAt (family : List Descendant) (i : ℕ) : List Descendant :=
  match family[i]? with
  | some k => family.set i k.forked ++ [k.child]
  | none => family

/-- The family of a generator after forks at some places, one after the other. -/
def family (root : Generator) (places : List ℕ) : List Descendant :=
  places.foldl forkAt [⟨[], root⟩]

/-! ## Strides -/

/-- The stride is odd, so that multiplying by it can be undone. -/
theorem mul_forkStride_inj {a b : UInt64} : a * forkStride = b * forkStride ↔ a = b := by
  have inverse : forkStride * 0xF1DE83E19937733D = 1 := by decide
  constructor
  · intro same
    calc a = a * (forkStride * 0xF1DE83E19937733D) := by rw [inverse, UInt64.mul_one]
      _ = b * (forkStride * 0xF1DE83E19937733D) := by
        rw [← UInt64.mul_assoc, same, UInt64.mul_assoc]
      _ = b := by rw [inverse, UInt64.mul_one]
  · rintro rfl
    rfl

/-- Seeds some strides behind a seed are the same if they lie equally far behind it. -/
theorem add_mul_forkStride_inj {seed : UInt64} {m n : ℕ} (hm : m < 2 ^ 64) (hn : n < 2 ^ 64) :
    seed + .ofNat m * forkStride = seed + .ofNat n * forkStride ↔ m = n := by
  rw [UInt64.add_right_inj, mul_forkStride_inj, ← UInt64.toNat_inj, UInt64.toNat_ofNat_of_lt' hm,
    UInt64.toNat_ofNat_of_lt' hn]

/-! ## What forking keeps -/

/-- What is kept in the family of a root while it is forked a number of times. -/
structure Kept (root : Generator) (n : ℕ) (all : List Descendant) : Prop where
  /-- A seed lies one stride behind the root's for each unit on the path. -/
  seed : ∀ k ∈ all, k.generator.seed = root.seed + .ofNat k.path.sum * forkStride
  /-- Paths and counters grow by one with each fork. -/
  bound : ∀ k ∈ all, k.path.sum + k.generator.forks.toNat ≤ root.forks.toNat + n
  /-- Forks are counted from one. -/
  positive : ∀ k ∈ all, 0 ∉ k.path
  /-- A fork was made by a member of the family, which has counted it. -/
  counted : ∀ l ∈ all, ∀ m p, l.path = m :: p →
    ∃ k ∈ all, k.path = p ∧ m ≤ k.generator.forks.toNat
  /-- Everyone has a path of their own. -/
  apart : (all.map Descendant.path).Nodup

variable {root : Generator} {n i : ℕ} {all : List Descendant} {k l : Descendant}

/-- A fork replaces the member by the one that has counted it, and adds the new one at the end. -/
theorem forkAt_of_some (found : all[i]? = some k) :
    forkAt all i = all.set i k.forked ++ [k.child] := by
  rw [forkAt, found]

/-- A member after a fork is the new one, or an earlier one that has counted the fork or not. -/
theorem mem_forkAt (found : all[i]? = some k) (later : l ∈ forkAt all i) :
    l = k.child ∨ l = k.forked ∨ l ∈ all := by
  rw [forkAt_of_some found, List.mem_append, List.mem_singleton] at later
  rcases later with old | new
  · exact .inr (List.mem_or_eq_of_mem_set old).symm
  · exact .inl new

/-- An earlier member is still there after a fork, except that the one that was forked has counted
the fork. -/
theorem mem_forkAt_or_eq (found : all[i]? = some k) (earlier : l ∈ all) :
    l ∈ forkAt all i ∨ l = k := by
  rw [forkAt_of_some found]
  obtain ⟨j, hj, rfl⟩ := List.mem_iff_getElem.1 earlier
  by_cases same : i = j
  · subst same
    exact .inr (Option.some.inj ((List.getElem?_eq_getElem hj).symm.trans found))
  · refine .inl (List.mem_append_left _ (List.mem_iff_getElem.2 ⟨j, by simpa using hj, ?_⟩))
    exact List.getElem_set_ne same (by simpa using hj)

/-- The member that was forked is still there, and has counted the fork. -/
theorem forked_mem_forkAt (found : all[i]? = some k) : k.forked ∈ forkAt all i := by
  rw [forkAt_of_some found]
  exact List.mem_append_left _ (List.mem_set (List.getElem?_eq_some_iff.1 found).1 _)

/-- The paths stay, and the new one goes to the end. -/
theorem map_path_forkAt (found : all[i]? = some k) :
    (forkAt all i).map Descendant.path = all.map Descendant.path ++ [k.child.path] := by
  obtain ⟨hi, rfl⟩ := List.getElem?_eq_some_iff.1 found
  have within : i < (all.map Descendant.path).length := by rwa [List.length_map]
  have same : all[i].forked.path = (all.map Descendant.path)[i] := by simp [forked]
  rw [forkAt_of_some found, List.map_append, List.map_set, same, List.set_getElem_self]
  rfl

namespace Kept

theorem start (root : Generator) : Kept root 0 [⟨[], root⟩] where
  seed k hk := by
    obtain rfl := List.mem_singleton.1 hk
    simp
  bound k hk := by
    obtain rfl := List.mem_singleton.1 hk
    simp
  positive k hk := by
    obtain rfl := List.mem_singleton.1 hk
    exact List.not_mem_nil
  counted l hl m p path := by
    obtain rfl := List.mem_singleton.1 hl
    exact nomatch path
  apart := List.nodup_singleton _

/-- Members with one path are the same. -/
theorem eq_of_path_eq (kept : Kept root n all) (hk : k ∈ all) (hl : l ∈ all)
    (same : k.path = l.path) : k = l :=
  List.inj_on_of_nodup_map kept.apart hk hl same

/-- A fork that is still to come is no member of the family. -/
theorem child_fresh (kept : Kept root n all) (hk : k ∈ all) :
    k.child.path ∉ all.map Descendant.path := by
  intro known
  obtain ⟨l, hl, path⟩ := List.mem_map.1 known
  obtain ⟨parent, hparent, same, counted⟩ := kept.counted l hl _ _ path
  obtain rfl := kept.eq_of_path_eq hparent hk same
  exact absurd counted (Nat.not_succ_le_self _)

/-- A counter counts on without overflow while there is room for the calls. -/
theorem toNat_forks_succ (kept : Kept root n all) (room : root.forks.toNat + (n + 1) < 2 ^ 64)
    (hk : k ∈ all) : (k.generator.forks + 1).toNat = k.generator.forks.toNat + 1 := by
  have bound := kept.bound k hk
  rw [UInt64.toNat_add, UInt64.toNat_one]
  exact Nat.mod_eq_of_lt (by omega)

/-- The seed of a new fork lies as far behind the root's as its path says. -/
theorem seed_child (kept : Kept root n all) (hk : k ∈ all) :
    k.child.generator.seed = root.seed + .ofNat k.child.path.sum * forkStride := by
  have own := kept.seed k hk
  have length : UInt64.ofNat k.child.path.sum =
      .ofNat k.path.sum + (k.generator.forks + 1) := by
    have sum : k.child.path.sum = k.path.sum + (k.generator.forks.toNat + 1) := by
      rw [child, List.sum_cons, Nat.add_comm]
    rw [sum, UInt64.ofNat_add, UInt64.ofNat_add, UInt64.ofNat_toNat]
    rfl
  calc k.child.generator.seed
      = k.generator.seed + (k.generator.forks + 1) * forkStride := rfl
    _ = root.seed + .ofNat k.path.sum * forkStride + (k.generator.forks + 1) * forkStride := by
      rw [own]
    _ = root.seed + .ofNat k.child.path.sum * forkStride := by
      have spread : (UInt64.ofNat k.path.sum + (k.generator.forks + 1)) * forkStride =
          .ofNat k.path.sum * forkStride + (k.generator.forks + 1) * forkStride := UInt64.add_mul
      rw [length, spread, UInt64.add_assoc]

/-- Whoever has made a fork is still there after another one, and has not counted down. -/
theorem counted_forkAt (kept : Kept root n all) (room : root.forks.toNat + (n + 1) < 2 ^ 64)
    (found : all[i]? = some k) (hl : l ∈ all) {m : ℕ} {p : List ℕ} (path : l.path = m :: p) :
    ∃ q ∈ Generator.forkAt all i, q.path = p ∧ m ≤ q.generator.forks.toNat := by
  obtain ⟨q, hq, own, counted⟩ := kept.counted l hl m p path
  rcases mem_forkAt_or_eq found hq with here | rfl
  · exact ⟨q, here, own, counted⟩
  · have succ := kept.toNat_forks_succ room hq
    refine ⟨q.forked, forked_mem_forkAt found, own, ?_⟩
    simp only [forked, fork, succ]
    omega

/-- One more fork keeps the account. -/
theorem forkAt (kept : Kept root n all) (room : root.forks.toNat + (n + 1) < 2 ^ 64) (i : ℕ) :
    Kept root (n + 1) (forkAt all i) := by
  cases found : all[i]? with
  | none =>
    rw [Generator.forkAt, found]
    exact { kept with bound := fun k hk => Nat.le_succ_of_le (kept.bound k hk) }
  | some k =>
    have hk : k ∈ all := List.mem_of_getElem? found
    have succ := kept.toNat_forks_succ room hk
    have room' := kept.bound k hk
    constructor
    case seed =>
      intro l hl
      rcases mem_forkAt found hl with rfl | rfl | old
      · exact kept.seed_child hk
      · exact kept.seed k hk
      · exact kept.seed l old
    case bound =>
      intro l hl
      rcases mem_forkAt found hl with rfl | rfl | old
      · simp only [child, List.sum_cons, fork, ofSeed, UInt64.toNat_zero]
        omega
      · simp only [forked, fork, succ]
        omega
      · exact Nat.le_succ_of_le (kept.bound l old)
    case positive =>
      intro l hl
      rcases mem_forkAt found hl with rfl | rfl | old
      · exact List.not_mem_cons_of_ne_of_not_mem (Nat.zero_ne_add_one _) (kept.positive k hk)
      · exact kept.positive k hk
      · exact kept.positive l old
    case counted =>
      intro l hl m p path
      rcases mem_forkAt found hl with rfl | rfl | old
      · obtain ⟨rfl, rfl⟩ := List.cons.inj path
        exact ⟨k.forked, forked_mem_forkAt found, rfl, succ.ge⟩
      · exact kept.counted_forkAt room found hk path
      · exact kept.counted_forkAt room found old path
    case apart =>
      rw [map_path_forkAt found, ← List.concat_eq_append]
      exact kept.apart.concat (kept.child_fresh hk)

/-- A family keeps the account as long as no counter overflows. -/
theorem family (root : Generator) (places : List ℕ)
    (room : root.forks.toNat + places.length < 2 ^ 64) :
    Kept root places.length (root.family places) := by
  induction places using List.reverseRecOn with
  | nil => exact start root
  | append_singleton places i ih =>
    have length : (places ++ [i]).length = places.length + 1 := by simp
    rw [length] at room ⊢
    have last : root.family (places ++ [i]) = Generator.forkAt (root.family places) i :=
      List.foldl_concat ..
    rw [last]
    exact (ih (by omega)).forkAt room i

/-- Seeds are the same exactly if the paths add up to the same. -/
theorem seed_eq_iff (kept : Kept root n all) (room : root.forks.toNat + n < 2 ^ 64) (hk : k ∈ all)
    (hl : l ∈ all) : k.generator.seed = l.generator.seed ↔ k.path.sum = l.path.sum := by
  have boundK := kept.bound k hk
  have boundL := kept.bound l hl
  rw [kept.seed k hk, kept.seed l hl]
  exact add_mul_forkStride_inj (by omega) (by omega)

/-- Whoever descends from a generator is further away from the root. -/
theorem sum_lt_of_suffix (kept : Kept root n all) (hl : l ∈ all) (below : k.path <:+ l.path)
    (differ : k.path ≠ l.path) : k.path.sum < l.path.sum := by
  obtain ⟨steps, path⟩ := below
  cases steps with
  | nil => exact absurd path differ
  | cons m rest =>
    have positive : m ≠ 0 := fun zero => kept.positive l hl (by simp [← path, zero])
    rw [← path, List.sum_append, List.sum_cons]
    omega

/-- The paths of close relatives do not add up to the same. -/
theorem sum_ne_of_close (kept : Kept root n all) (hk : k ∈ all) (hl : l ∈ all)
    (differ : k.path ≠ l.path) (close : k.Close l) : k.path.sum ≠ l.path.sum := by
  rcases close with below | above | ⟨m, m', p, pathK, pathL⟩
  · exact (kept.sum_lt_of_suffix hl below differ).ne
  · exact (kept.sum_lt_of_suffix hk above differ.symm).ne'
  · intro same
    rw [pathK, pathL, List.sum_cons, List.sum_cons, Nat.add_right_cancel_iff] at same
    exact differ (by rw [pathK, pathL, same])

end Kept

/-- Forks are kept apart from their close relatives, and from nobody else.  Take any family that
comes about from a generator by forking members of it in any order, with no more calls than its
counter has room for.  Then any two members have paths of their own, they have the same seed exactly
if their paths add up to the same, and they have different seeds if one descends from the other one
or if both were forked off the same. -/
theorem seeds_of_family (root : Generator) (places : List ℕ)
    (room : root.forks.toNat + places.length < 2 ^ 64) :
    (root.family places).Pairwise fun k l =>
      k.path ≠ l.path ∧
        (k.generator.seed = l.generator.seed ↔ k.path.sum = l.path.sum) ∧
        (k.Close l → k.generator.seed ≠ l.generator.seed) := by
  have kept := Kept.family root places room
  refine (List.pairwise_map.1 kept.apart).imp_of_mem fun {k l} hk hl differ => ?_
  have same := kept.seed_eq_iff room hk hl
  exact ⟨differ, same, fun close equal => kept.sum_ne_of_close hk hl differ close (same.1 equal)⟩

/-- Two forks of a root and one of its first fork. -/
theorem seeds_of_first_forks :
    (ofSeed 42).forks.toNat + [0, 0, 1].length < 2 ^ 64 ∧
      (((ofSeed 42).family [0, 0, 1]).Pairwise fun k l =>
        k.path ≠ l.path ∧
          (k.generator.seed = l.generator.seed ↔ k.path.sum = l.path.sum) ∧
          (k.Close l → k.generator.seed ≠ l.generator.seed)) ∧
      ((ofSeed 42).family [0, 0, 1]).map (fun k => (k.path, k.generator.seed)) =
        [([], 42), ([1], 11400714819323198527), ([2], 4354685564936845396),
          ([1, 1], 4354685564936845396)] := by
  have room : (ofSeed 42).forks.toNat + [0, 0, 1].length < 2 ^ 64 := by decide
  exact ⟨room, seeds_of_family (ofSeed 42) [0, 0, 1] room, by decide⟩

/-- The seeds of a family are not all different: the second fork of a root and the first fork of its
first fork are one generator, and draw the same. -/
theorem forks_coincide :
    [0, 0, 1].length < 2 ^ 64 ∧
      ¬ (((ofSeed 42).family [0, 0, 1]).map (·.generator.seed)).Nodup ∧
      ((ofSeed 42).family [0, 0, 1])[2]?.map Descendant.generator =
        ((ofSeed 42).family [0, 0, 1])[3]?.map Descendant.generator := by
  decide

end Generator

end BoardRules
