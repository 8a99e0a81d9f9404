import Mathlib
import BoardRules.Proofs.Renewal.Draws
import BoardRules.Proofs.Renewal.Loading

/-!
# Renewing a board

A renewed board has drawn texts for the identities of its own, and whatever names one of its pieces
names it by its new name.  If the pieces have different names, then the new names come from the old
ones by a permutation, which leaves all names alone that are neither old nor new
(`exists_perm_map_eq`).  If no drawn text is in use as the name of a piece, then a reference to a
piece that the board does not have is kept (`Snapshot.getD_newName?`), and the permutation describes
what happens to every reference.  Putting the old labels back gives the old board
(`Snapshot.Board.restored_renew`), and since loading does not depend on labels, the two boards load
alike (`Snapshot.Board.renew_rekeys`).
-/

namespace BoardRules

/-! ## From one list to another -/

section Lists

variable {α : Type} [DecidableEq α]

/-- Items without repetition are taken to any other items, place by place, by a function that leaves
everything else alone. -/
theorem exists_map_eq {old new : List α} (length : old.length = new.length) (distinct : old.Nodup) :
    ∃ f : α → α, old.map f = new ∧ ∀ a, a ∉ old → f a = a := by
  induction old generalizing new with
  | nil =>
    obtain rfl := List.length_eq_zero_iff.1 length.symm
    exact ⟨id, rfl, fun _ _ => rfl⟩
  | cons a old ih =>
    obtain ⟨b, new, rfl⟩ := List.exists_cons_of_length_eq_add_one length.symm
    obtain ⟨first, distinct⟩ := List.nodup_cons.1 distinct
    obtain ⟨f, maps, fixes⟩ := ih (Nat.succ.inj length) distinct
    refine ⟨Function.update f a b, ?_, fun c other => ?_⟩
    · have rest : old.map (Function.update f a b) = old.map f :=
        List.map_congr_left fun c listed =>
          Function.update_of_ne (ne_of_mem_of_not_mem listed first) b f
      rw [List.map_cons, Function.update_self, rest, maps]
    · obtain ⟨differs, other⟩ := not_or.1 (mt List.mem_cons.2 other)
      rw [Function.update_of_ne differs, fixes c other]

/-- Items without repetition are exchanged with other items without repetition by a permutation that
leaves everything else alone. -/
theorem exists_perm_map_eq {old new : List α} (length : old.length = new.length)
    (distinct : old.Nodup) (distinct' : new.Nodup) (apart : old.Disjoint new) :
    ∃ e : Equiv.Perm α, old.map e = new ∧ ∀ a, a ∉ old → a ∉ new → e a = a := by
  induction old generalizing new with
  | nil =>
    obtain rfl := List.length_eq_zero_iff.1 length.symm
    exact ⟨1, rfl, fun _ _ _ => rfl⟩
  | cons a old ih =>
    obtain ⟨b, new, rfl⟩ := List.exists_cons_of_length_eq_add_one length.symm
    obtain ⟨first, distinct⟩ := List.nodup_cons.1 distinct
    obtain ⟨first', distinct'⟩ := List.nodup_cons.1 distinct'
    obtain ⟨apartFirst, apart⟩ := List.disjoint_cons_left.1 apart
    obtain ⟨apartFirst', apart⟩ := List.disjoint_cons_right.1 apart
    obtain ⟨_, fresh⟩ := not_or.1 (mt List.mem_cons.2 apartFirst)
    obtain ⟨e, maps, fixes⟩ := ih (Nat.succ.inj length) distinct distinct' apart
    refine ⟨e.trans (Equiv.swap a b), ?_, fun c other other' => ?_⟩
    · have here : e a = a := fixes a first fresh
      have rest : old.map (e.trans (Equiv.swap a b)) = old.map e := by
        refine List.map_congr_left fun c listed => ?_
        have met : e c ∈ new := maps ▸ List.mem_map_of_mem listed
        exact Equiv.swap_apply_of_ne_of_ne (ne_of_mem_of_not_mem met fresh)
          (ne_of_mem_of_not_mem met first')
      rw [List.map_cons, rest, maps, Equiv.trans_apply, here, Equiv.swap_apply_left]
    · obtain ⟨ne, other⟩ := not_or.1 (mt List.mem_cons.2 other)
      obtain ⟨ne', other'⟩ := not_or.1 (mt List.mem_cons.2 other')
      rw [Equiv.trans_apply, fixes c other other', Equiv.swap_apply_of_ne_of_ne ne ne']

end Lists

section Names

variable {names other : PieceId → PieceId} (back : ∀ id, other (names id) = id)

include back

/-- Entries for pieces that were renamed and get their names back. -/
theorem map_fst_map_fst {β : Type} (entries : List (PieceId × β)) :
    (entries.map fun e => (names e.1, e.2)).map (fun e => (other e.1, e.2)) = entries := by
  refine List.map_map.trans (List.map_id'' (fun e => ?_) entries)
  exact congrArg (·, e.2) (back e.1)

/-- Monitors of pieces that were renamed and get their names back. -/
theorem map_rename_map_rename (monitors : List Monitor) :
    (monitors.map (·.rename fun id => some (names id))).map
      (·.rename fun id => some (other id)) = monitors := by
  refine List.map_map.trans (List.map_id'' (fun m => ?_) monitors)
  exact congrArg (fun counters => { m with counters }) (map_fst_map_fst back m.counters)

end Names

namespace Snapshot

/-- If the new pieces have the old names under some renaming that leaves a name alone which no piece
has, then this is how the name is renewed. -/
theorem getD_newName? {old new : List Piece} {names : PieceId → PieceId}
    (renamed : (old.map (·.id)).map names = new.map (·.id)) {id : PieceId}
    (kept : id ∉ old.map (·.id) → names id = id) : (newName? old new id).getD id = names id := by
  have table : ((old.map (·.id)).zip (new.map (·.id))).reverse =
      (old.map (·.id)).reverse.map fun id => (id, names id) := by
    have paired := List.zip_map' (f := fun id : PieceId => id) (g := names) (l := old.map (·.id))
    rw [List.map_id', renamed] at paired
    rw [paired, List.map_reverse]
  unfold newName?
  rw [table]
  by_cases known : id ∈ old.map (·.id)
  · rw [List.lookup_graph names (List.mem_reverse.2 known), Option.getD_some]
  · have missing : ((old.map (·.id)).reverse.map fun id => (id, names id)).lookup id = none := by
      rw [List.lookup_eq_none_iff]
      intro entry listed
      obtain ⟨other, member, rfl⟩ := List.mem_map.1 listed
      exact bne_iff_ne.2 (ne_of_mem_of_not_mem (List.mem_reverse.1 member) known).symm
    rw [missing, Option.getD_none, kept known]

/-- Renewed pieces have their names among the texts of their identities. -/
theorem map_text_sublist_ownTexts (pieces : List Piece) :
    (pieces.map (·.id.text)).Sublist (pieces.flatMap (·.ownTexts)) := by
  induction pieces with
  | nil => exact .slnil
  | cons p rest ih =>
    rw [List.map_cons, List.flatMap_cons]
    exact (ih.trans (List.sublist_append_right _ _)).cons_cons p.id.text

/-- New names that are different, and different from the old ones, come from the old ones by a
permutation of all names. -/
theorem exists_names {old new : List Piece} (length : old.length = new.length)
    (distinct : (old.map (·.id)).Nodup) (different : (new.flatMap (·.ownTexts)).Nodup)
    (unused : ∀ p ∈ old, p.id.text ∉ new.flatMap (·.ownTexts)) :
    ∃ names : Equiv.Perm PieceId, (old.map (·.id)).map names = new.map (·.id) ∧
      ∀ id, id ∉ old.map (·.id) → id.text ∉ new.flatMap (·.ownTexts) → names id = id := by
  have texts := map_text_sublist_ownTexts new
  have named (id : PieceId) (listed : id ∈ new.map (·.id)) :
      id.text ∈ new.flatMap (·.ownTexts) := by
    obtain ⟨p, member, rfl⟩ := List.mem_map.1 listed
    exact texts.subset (List.mem_map_of_mem member)
  have distinct' : (new.map (·.id)).Nodup := by
    have nodup : ((new.map (·.id)).map Id.text).Nodup := by
      rw [List.map_map]
      exact different.sublist texts
    exact nodup.of_map
  have apart : (old.map (·.id)).Disjoint (new.map (·.id)) := by
    intro id known fresh
    obtain ⟨p, member, rfl⟩ := List.mem_map.1 known
    exact unused p member (named p.id fresh)
  have lengths : (old.map (·.id)).length = (new.map (·.id)).length := by
    rw [List.length_map, List.length_map, length]
  obtain ⟨names, maps, fixes⟩ := exists_perm_map_eq lengths distinct distinct' apart
  exact ⟨names, maps, fun id other fresh => fixes id other (mt (named id) fresh)⟩

namespace Board

variable {σ : Type}

/-- A board with other identities, which names pieces by other names wherever it names them. -/
structure Rekeyed (d new : Board) (names : Equiv.Perm PieceId) (old : String → String) : Prop where
  /-- The pieces have the other names. -/
  pieces : new.pieces.map (·.id) = d.pieces.map fun p => names p.id
  /-- So have the pieces that are placed. -/
  state : new.state = d.state.map fun placed => (names placed.1, placed.2)
  /-- So have the pieces that are counted. -/
  monitors : new.monitors = d.monitors.map (·.rename fun id => some (names id))
  /-- So have the members of nations. -/
  leaves : new.nations.flatMap (·.leaves) = (d.nations.flatMap (·.leaves)).map names
  /-- Nothing else has changed: with the old labels this is the old board. -/
  restored : new.relabel ⟨names.symm, old⟩ = d

/-- A board that is the old one with the old labels names pieces by other names only. -/
theorem rekeyed_of_restored {d new : Board} {names : Equiv.Perm PieceId} {old : String → String}
    (restored : new.relabel ⟨names.symm, old⟩ = d) : Rekeyed d new names old := by
  subst restored
  constructor
  case pieces =>
    refine Eq.trans ?_ List.map_map.symm
    exact List.map_congr_left fun p _ => (names.apply_symm_apply p.id).symm
  case state => exact (map_fst_map_fst names.apply_symm_apply new.state).symm
  case monitors => exact (map_rename_map_rename names.apply_symm_apply new.monitors).symm
  case leaves =>
    have leaves : (new.relabel ⟨names.symm, old⟩).nations.flatMap (·.leaves) =
        (new.nations.flatMap (·.leaves)).map names.symm := by
      unfold relabel
      dsimp only
      rw [List.flatMap_map, List.map_flatMap]
      exact List.flatMap_congr fun n _ => NationMember.leavesAll_relabelAll _ n.members
    rw [leaves, List.map_map, names.self_comp_symm, List.map_id]
  case restored => rfl

variable (supply : Supply σ) (d : Board) (s : σ)

/-- The pieces are renewed after the identity of the board. -/
def renewedPieces : List Piece × σ := d.pieces.mapM (·.renew supply) (supply s).2

/-- The draws of a board: its own one, those of its pieces, and those of its nations. -/
theorem drawn_ownTexts :
    supply.drawn d.ownTexts.length s =
      let pieces := d.renewedPieces supply s
      let later := supply.drawn (d.nations.flatMap (·.ownTexts)).length pieces.2
      ((supply s).1 :: (pieces.1.flatMap (·.ownTexts) ++ later.1), later.2) := by
  have pieces := (Piece.renews supply).mapM.drawn d.pieces (supply s).2
  dsimp only
  rw [ownTexts, List.length_cons, Supply.drawn, List.length_append, supply.drawn_add, pieces]
  rfl

variable {d s} {names : Equiv.Perm PieceId}

/-- If the new names come from the old ones by a permutation that leaves all other names in use
alone, then the renewed board names all pieces by their new names. -/
theorem exists_renew_eq
    (renamed : (d.pieces.map (·.id)).map names = (d.renewedPieces supply s).1.map (·.id))
    (kept : ∀ id ∈ d.pieceNames, id ∉ d.pieces.map (·.id) → names id = id) :
    ∃ nations : List Nation,
      supply.drawn (d.nations.flatMap (·.ownTexts)).length (d.renewedPieces supply s).2 =
        (nations.flatMap (·.ownTexts), (d.renew supply s).2) ∧
      (∀ old, (nations.flatMap (·.ownTexts)).map old = d.nations.flatMap (·.ownTexts) →
        nations.map (·.relabel ⟨names.symm, old⟩) = d.nations) ∧
      (d.renew supply s).1 =
        { d with
          id := ⟨(supply s).1⟩
          pieces := (d.renewedPieces supply s).1
          nations
          state := d.state.map fun placed => (names placed.1, placed.2)
          monitors := d.monitors.map (·.rename fun id => some (names id)) } := by
  have new (id : PieceId) (used : id ∈ d.pieceNames) :
      (newName? d.pieces (d.renewedPieces supply s).1 id).getD id = names id :=
    getD_newName? renamed (kept id used)
  have forest : (Forest.ofSnapshot d.nations).rename
      (newName? d.pieces (d.renewedPieces supply s).1) =
        (Forest.ofSnapshot d.nations).rename fun id => some (names id) :=
    Forest.rename_ofSnapshot_congr fun id below =>
      new id (mem_pieceNames.2 (.inr (.inr (.inr below))))
  have state : (d.state.map fun placed =>
      ((newName? d.pieces (d.renewedPieces supply s).1 placed.1).getD placed.1, placed.2)) =
        d.state.map fun placed => (names placed.1, placed.2) := by
    refine List.map_congr_left fun placed listed => congrArg (·, placed.2) (new placed.1 ?_)
    have used : placed.1 ∈ d.state.map Prod.fst := List.mem_map_of_mem listed
    exact mem_pieceNames.2 (.inr (.inl used))
  have monitors : d.monitors.map
      (·.rename (newName? d.pieces (d.renewedPieces supply s).1)) =
        d.monitors.map (·.rename fun id => some (names id)) := by
    refine List.map_congr_left fun m listed => ?_
    refine congrArg (fun counters => { m with counters }) (List.map_congr_left fun c counted => ?_)
    refine congrArg (·, c.2) (new c.1 ?_)
    have used : c.1 ∈ d.monitors.flatMap (·.counters.map Prod.fst) :=
      List.mem_flatMap_of_mem listed (List.mem_map_of_mem counted)
    exact mem_pieceNames.2 (.inr (.inr (.inl used)))
  obtain ⟨nations, laid, drawn, restored⟩ :=
    Forest.exists_ofSnapshot_rename_renew supply names d.nations (d.renewedPieces supply s).2
  rw [← forest] at laid drawn
  refine ⟨nations, drawn, restored, ?_⟩
  rw [← state, ← monitors, ← Forest.toSnapshot_ofSnapshot nations, ← laid]
  rfl

/-- With the old labels the renewed board is the old one. -/
theorem restored_renew {old : String → String}
    (renamed : (d.pieces.map (·.id)).map names = (d.renewedPieces supply s).1.map (·.id))
    (kept : ∀ id ∈ d.pieceNames, id ∉ d.pieces.map (·.id) → names id = id)
    (back : (d.renew supply s).1.ownTexts.map old = d.ownTexts) :
    (d.renew supply s).1.relabel ⟨names.symm, old⟩ = d := by
  obtain ⟨nations, drawn, restored, value⟩ := exists_renew_eq supply renamed kept
  rw [value] at back ⊢
  obtain ⟨own, back⟩ := List.cons.inj back
  rw [List.map_append] at back
  have renews := (Piece.renews supply).mapM
  have length : (((d.renewedPieces supply s).1.flatMap (·.ownTexts)).map old).length =
      (d.pieces.flatMap (·.ownTexts)).length := by
    rw [List.length_map]
    exact renews.length_own d.pieces (supply s).2
  obtain ⟨backPieces, backNations⟩ := List.append_inj back length
  have named : Id.mapText old ⟨(supply s).1⟩ = d.id := congrArg Id.mk own
  have texts : (d.renewedPieces supply s).1.map (·.relabel (.ofTexts old)) = d.pieces :=
    renews.restored d.pieces (supply s).2 old backPieces
  -- the old name of a piece is the one before the permutation
  have labels : (d.renewedPieces supply s).1.map (fun p => names.symm p.id) =
      (d.renewedPieces supply s).1.map fun p => p.id.mapText old := by
    calc (d.renewedPieces supply s).1.map (fun p => names.symm p.id)
        = ((d.renewedPieces supply s).1.map (·.id)).map names.symm := List.map_map.symm
      _ = d.pieces.map (·.id) := by
          rw [← renamed, List.map_map, names.symm_comp_self, List.map_id]
      _ = ((d.renewedPieces supply s).1.map (·.relabel (.ofTexts old))).map (·.id) := by rw [texts]
      _ = (d.renewedPieces supply s).1.map fun p => p.id.mapText old := List.map_map
  have pieces : (d.renewedPieces supply s).1.map (·.relabel ⟨names.symm, old⟩) = d.pieces := by
    refine Eq.trans (List.map_congr_left fun p listed => ?_) texts
    exact congrArg (fun id => { p.relabel (.ofTexts old) with id })
      (List.map_inj_left.1 labels p listed)
  unfold relabel
  dsimp only
  rw [named, pieces, restored old backNations, map_fst_map_fst names.symm_apply_apply,
    map_rename_map_rename names.symm_apply_apply]

/-- Renewing a board whose pieces have different names, with texts that are different and not in use
as names of pieces, draws a text for each of its identities in their order, and names its pieces by
their new names.  The renewed board loads, or is refused, as the board is. -/
theorem renew_rekeys (distinct : (d.pieces.map (·.id)).Nodup)
    (different : (supply.drawn d.ownTexts.length s).1.Nodup)
    (unused : ∀ id ∈ d.pieceNames, id.text ∉ (supply.drawn d.ownTexts.length s).1) :
    supply.drawn d.ownTexts.length s = ((d.renew supply s).1.ownTexts, (d.renew supply s).2) ∧
      ∃ (names : Equiv.Perm PieceId) (old : String → String),
        Rekeyed d (d.renew supply s).1 names old ∧
        (∀ id, id ∉ d.pieces.map (·.id) → id.text ∉ (d.renew supply s).1.ownTexts →
          names id = id) ∧
        (∀ text, text ∉ (d.renew supply s).1.ownTexts → old text = text) ∧
        ∀ registries settings,
          BoardRules.Board.LoadsAlike ⟨names.symm, old⟩
            (BoardRules.Board.load registries settings (d.renew supply s).1)
            (BoardRules.Board.load registries settings d) := by
  have draws := d.drawn_ownTexts supply s
  dsimp only at draws
  have related : List.Forall₂ (fun _ _ => True) (d.renewedPieces supply s).1 d.pieces :=
    forall₂_mapM (fun _ _ => trivial) d.pieces (supply s).2
  -- the texts of the new pieces are among those that are drawn
  have among (text : String) (own : text ∈ (d.renewedPieces supply s).1.flatMap (·.ownTexts)) :
      text ∈ (supply.drawn d.ownTexts.length s).1 := by
    rw [draws]
    exact List.mem_cons_of_mem _ (List.mem_append_left _ own)
  have differentPieces : ((d.renewedPieces supply s).1.flatMap (·.ownTexts)).Nodup := by
    rw [draws] at different
    exact (List.nodup_append.1 different.of_cons).1
  obtain ⟨names, renamed, kept⟩ := exists_names related.length_eq.symm distinct differentPieces
    fun p member own => by
      have used : p.id ∈ d.pieces.map (·.id) := List.mem_map_of_mem member
      exact unused p.id (mem_pieceNames.2 (.inl used)) (among p.id.text own)
  have keptUsed : ∀ id ∈ d.pieceNames, id ∉ d.pieces.map (·.id) → names id = id :=
    fun id used other => kept id other fun own => unused id used (among id.text own)
  obtain ⟨nations, later, -, value⟩ := exists_renew_eq supply renamed keptUsed
  have own : supply.drawn d.ownTexts.length s =
      ((d.renew supply s).1.ownTexts, (d.renew supply s).2) := by
    rw [draws, later, value]
    rfl
  rw [own] at different among
  have length : (d.renew supply s).1.ownTexts.length = d.ownTexts.length := by
    have drawn := supply.length_drawn d.ownTexts.length s
    rw [own] at drawn
    exact drawn
  obtain ⟨old, back, rest⟩ := exists_map_eq length different
  have restored := restored_renew supply renamed keptUsed back
  refine ⟨own, names, old, rekeyed_of_restored restored, ?_, rest, fun registries settings => ?_⟩
  · exact fun id other fresh => kept id other (mt (among id.text) fresh)
  · have alike := BoardRules.Board.load_relabel ⟨names.symm, old⟩ names.symm.injective registries
      settings (d.renew supply s).1
    rw [restored] at alike
    exact alike

end Board

end Snapshot

/-- A fort of white.  The rook has a record of an unknown kind, under the same identity as its
behaviour; the pawn is in a nation below the rook's.  A piece that does not exist shares the square
and the nation of the pawn, and is counted. -/
def fort : Snapshot.Board where
  kind := Board.basicKind
  name := "fort"
  id := ⟨"fort"⟩
  pieces :=
    [⟨"rook", .nil, ⟨"rook"⟩, "", [⟨"wait", .initiative, ⟨"x"⟩, [⟨"wait", ⟨"", ⟨"x"⟩⟩, []⟩]⟩]⟩,
     ⟨"pawn", .nil, ⟨"pawn"⟩, "", [⟨"rest", .passive, ⟨"x"⟩, []⟩]⟩]
  nations :=
    [⟨⟨"castle", ⟨"castle"⟩, -1, "white"⟩,
      [.piece ⟨"rook"⟩, .group ⟨"yard", ⟨"yard"⟩, -1, ""⟩ [.piece ⟨"pawn"⟩, .piece ⟨"ghost"⟩]]⟩]
  players := [{ id := ⟨"white"⟩, seat := ⟨1⟩ }]
  monitors := [{ kind := Monitor.stepKind, counters := [(⟨"ghost"⟩, 2), (⟨"rook"⟩, 1)] }]
  state := [(⟨"rook"⟩, ⟨0, 0⟩), (⟨"pawn"⟩, ⟨1, 0⟩), (⟨"ghost"⟩, ⟨1, 0⟩)]
  size := .standard
  losers := []

/-- The texts that the generator draws for the fort. -/
def newTexts : List String :=
  ["bb43d723-3453-4528-ba29-9b2ed359012b", "31952445-b970-4bb4-a33a-3e09b6b70bba",
   "88db3712-5f1c-4c99-a6fe-99cfa34dff5b", "9bb8f53d-9f63-4315-be0a-6f41630f6bd9",
   "cda80f5c-4a85-4d5d-b725-487edcd56efd", "68b8d074-afc5-4233-bf91-96bc8dd95f62",
   "1935208b-f0a1-4085-ab1f-a3e58fe1de41", "d6c27961-7a6e-486d-b287-e53f552dcb86"]

/-- The fort that the generator renews has the drawn texts, and loads as the fort does. -/
theorem fort_rekeyed :
    (fort.renew Generator.supply (.ofSeed 7)).1.ownTexts = newTexts ∧
      ∃ (names : Equiv.Perm PieceId) (old : String → String),
        Snapshot.Board.Rekeyed fort (fort.renew Generator.supply (.ofSeed 7)).1 names old ∧
        Board.LoadsAlike ⟨names.symm, old⟩
          (Board.load {} {} (fort.renew Generator.supply (.ofSeed 7)).1)
          (Board.load {} {} fort) := by
  have drawn : (Generator.supply.drawn fort.ownTexts.length (.ofSeed 7)).1 = newTexts := by cbv
  have distinct : (fort.pieces.map (·.id)).Nodup := by decide
  have different : (Generator.supply.drawn fort.ownTexts.length (.ofSeed 7)).1.Nodup := by
    rw [drawn]
    decide
  have unused : ∀ id ∈ fort.pieceNames,
      id.text ∉ (Generator.supply.drawn fort.ownTexts.length (.ofSeed 7)).1 := by
    rw [drawn]
    decide
  obtain ⟨own, names, old, rekeyed, -, -, alike⟩ :=
    Snapshot.Board.renew_rekeys Generator.supply distinct different unused
  have texts := congrArg Prod.fst own
  dsimp only at texts
  exact ⟨texts.symm.trans drawn, names, old, rekeyed, alike {} {}⟩

end BoardRules
