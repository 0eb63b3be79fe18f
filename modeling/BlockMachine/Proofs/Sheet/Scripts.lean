import BlockMachine.Proofs.Table
import Mathlib.Data.List.Basic
import Mathlib.Data.List.Induction

/-!
# The scripts of a sheet

A sheet lists its scripts beside its blocks. The list has no id twice and keeps the ids in the order
in which they first became top level (`Sheet.scripts_inOrder`). An id gets on the list when a
top-level block is put on the sheet under it, and nothing takes it off (`Sheet.mem_scripts_iff`): a
block that is replaced by one that is not top level stays listed as a script, and is found by its
new opcode. These ids are the only ones in which the list and the blocks differ.

The module is about `Sheet.insert` and `Sheet.scriptsWith`.

## Results

* `Sheet.scripts_inOrder`, `Sheet.mem_scripts_iff`: the list after any number of blocks.
* `scripts_mirror_blocks`: where list and blocks agree.
* `demoted_hat_stays_listed`: a block that is listed and no longer top level.

Left out is taking blocks off a sheet: no operation does.
-/

namespace BlockMachine

open List

/-- The block created last under an id. -/
def lastCreated (bs : List Block) (id : BlockId) : Option Block :=
  bs.reverse.find? (·.id == id)

/-- The ids of the blocks that are created top level, one entry for each creation. -/
def topIds (bs : List Block) : List BlockId :=
  (bs.filter Block.isTopLevel).map Block.id

/-- The ids are listed in the order of their first entries in `tops`. -/
def InOrder (tops ids : List BlockId) : Prop :=
  ids.Pairwise fun a b => tops.idxOf a < tops.idxOf b

/-- A top-level block was created under the id, and later one that is not top level, which is the
last. -/
def Demoted (bs : List Block) (id : BlockId) : Prop :=
  id ∈ topIds bs ∧ ∃ b, lastCreated bs id = some b ∧ b.isTopLevel = false

/-- The block under the id is top level. -/
def Sheet.IsTop (s : Sheet) (id : BlockId) : Prop :=
  ∃ b, s.block? id = some b ∧ b.isTopLevel = true

section Lists

variable {bs : List Block} {b : Block} {id : BlockId} {tops ids : List BlockId}

theorem mem_topIds : id ∈ topIds bs ↔ ∃ b ∈ bs, b.isTopLevel = true ∧ b.id = id := by
  simp [topIds, and_assoc]

theorem topIds_snoc : topIds (bs ++ [b]) = topIds bs ++ if b.isTopLevel then [b.id] else [] := by
  unfold topIds
  cases h : b.isTopLevel <;> simp [h]

theorem lastCreated_snoc :
    lastCreated (bs ++ [b]) id = if b.id = id then some b else lastCreated bs id := by
  unfold lastCreated
  rw [reverse_append, reverse_singleton, singleton_append]
  by_cases h : b.id = id
  · rw [find?_cons_of_pos (by simpa using h), if_pos h]
  · rw [find?_cons_of_neg (by simpa using h), if_neg h]

/-- A block that was ever created under an id gives a last one. -/
theorem exists_lastCreated (hb : b ∈ bs) :
    ∃ c, lastCreated bs b.id = some c ∧ c ∈ bs ∧ c.id = b.id := by
  have hsome : (lastCreated bs b.id).isSome := by
    rw [lastCreated, find?_isSome]
    exact ⟨b, mem_reverse.mpr hb, beq_self_eq_true _⟩
  obtain ⟨c, hc⟩ := Option.isSome_iff_exists.mp hsome
  exact ⟨c, hc, mem_reverse.mp (mem_of_find?_eq_some hc), by simpa using find?_some hc⟩

theorem InOrder.nodup (h : InOrder tops ids) : ids.Nodup :=
  h.imp fun hlt heq => by
    rw [heq] at hlt
    exact Nat.lt_irrefl _ hlt

theorem InOrder.sublist {ids' : List BlockId} (h : InOrder tops ids) (hsub : ids'.Sublist ids) :
    InOrder tops ids' :=
  List.Pairwise.sublist hsub h

/-- Later entries change nothing for ids that have one. -/
theorem InOrder.append (h : InOrder tops ids) (hmem : ∀ id ∈ ids, id ∈ tops) (more : List BlockId) :
    InOrder (tops ++ more) ids := by
  refine List.Pairwise.imp_of_mem (fun ha hb hlt => ?_) h
  rwa [idxOf_append_of_mem (hmem _ ha), idxOf_append_of_mem (hmem _ hb)]

/-- An id without an entry comes last when it gets one. -/
theorem InOrder.snoc (h : InOrder tops ids) (hmem : ∀ id ∈ ids, id ∈ tops) (hnew : id ∉ tops) :
    InOrder (tops ++ [id]) (ids ++ [id]) := by
  refine pairwise_append.mpr ⟨h.append hmem [id], pairwise_singleton _ _, ?_⟩
  intro a ha c hc
  rw [mem_singleton.mp hc, idxOf_append_of_mem (hmem a ha),
    idxOf_append_of_notMem hnew]
  exact Nat.lt_of_lt_of_le (idxOf_lt_length_of_mem (hmem a ha)) (Nat.le_add_right _ _)

end Lists

namespace Sheet

variable {bs : List Block} {b : Block} {id : BlockId}

theorem ofBlocks_snoc : ofBlocks (bs ++ [b]) = (ofBlocks bs).insert b := by
  unfold ofBlocks
  rw [foldl_append]
  rfl

/-- Of the blocks created under an id the last one is on the sheet. -/
theorem block?_ofBlocks : (ofBlocks bs).block? id = lastCreated bs id := by
  induction bs using reverseRecOn with
  | nil => rfl
  | append_singleton bs b ih => rw [ofBlocks_snoc, block?_insert, lastCreated_snoc, ih]

theorem scripts_insert (s : Sheet) :
    (s.insert b).scripts =
      if b.isTopLevel = true ∧ b.id ∉ s.scripts then s.scripts ++ [b.id] else s.scripts := by
  simp [insert]

/-- An id is listed from its first creation at top level on. -/
theorem mem_scripts_iff : id ∈ (ofBlocks bs).scripts ↔ id ∈ topIds bs := by
  induction bs using reverseRecOn with
  | nil => rfl
  | append_singleton bs b ih =>
    rw [ofBlocks_snoc, topIds_snoc, scripts_insert, mem_append, ← ih]
    by_cases hnew : b.isTopLevel = true ∧ b.id ∉ (ofBlocks bs).scripts
    · rw [if_pos hnew, if_pos hnew.1, mem_append]
    · rw [if_neg hnew]
      refine ⟨.inl, fun h => h.elim (fun h => h) fun h => ?_⟩
      split at h
      · next htop =>
        rw [mem_singleton.mp h]
        by_contra hlisted
        exact hnew ⟨htop, hlisted⟩
      · cases h

theorem scripts_inOrder : InOrder (topIds bs) (ofBlocks bs).scripts := by
  induction bs using reverseRecOn with
  | nil => exact List.Pairwise.nil
  | append_singleton bs b ih =>
    have hmem : ∀ id ∈ (ofBlocks bs).scripts, id ∈ topIds bs := fun id => mem_scripts_iff.mp
    rw [ofBlocks_snoc, topIds_snoc, scripts_insert]
    by_cases hnew : b.isTopLevel = true ∧ b.id ∉ (ofBlocks bs).scripts
    · rw [if_pos hnew, if_pos hnew.1]
      exact ih.snoc hmem fun h => hnew.2 (mem_scripts_iff.mpr h)
    · rw [if_neg hnew]
      exact ih.append hmem _

theorem mem_scriptsWith {opcode : String} :
    id ∈ (ofBlocks bs).scriptsWith opcode ↔
      id ∈ topIds bs ∧ (ofBlocks bs).opcode? id = some opcode := by
  simp [scriptsWith, mem_scripts_iff]

/-- A block that is top level was created so. -/
theorem IsTop.mem_topIds (h : (ofBlocks bs).IsTop id) : id ∈ topIds bs := by
  obtain ⟨b, hb, htop⟩ := h
  rw [block?_ofBlocks] at hb
  refine BlockMachine.mem_topIds.mpr ⟨b, ?_, htop, by simpa using find?_some hb⟩
  exact mem_reverse.mp (mem_of_find?_eq_some hb)

/-- Of the ids that are listed, the demoted ones are those whose block is not top level. -/
theorem demoted_iff : Demoted bs id ↔ id ∈ topIds bs ∧ ¬ (ofBlocks bs).IsTop id := by
  refine and_congr_right fun hmem => ?_
  obtain ⟨b, hb, -, rfl⟩ := BlockMachine.mem_topIds.mp hmem
  obtain ⟨c, hc, -⟩ := exists_lastCreated hb
  simp [IsTop, block?_ofBlocks, hc]

end Sheet

/-- **The list of scripts and the blocks.** However blocks are created and replaced, the list has no
id twice, keeps the ids in the order in which they first became top level, and holds exactly the ids
whose block is top level, up to those that were demoted. The scripts with an opcode are the
top-level blocks that have it, in the same order, exactly when no demoted block has it. -/
theorem scripts_mirror_blocks (bs : List Block) :
    (Sheet.ofBlocks bs).scripts.Nodup ∧ InOrder (topIds bs) (Sheet.ofBlocks bs).scripts ∧
    (∀ id, (Sheet.ofBlocks bs).block? id = lastCreated bs id) ∧
    (∀ id, (id ∈ (Sheet.ofBlocks bs).scripts ↔ (Sheet.ofBlocks bs).IsTop id) ↔ ¬ Demoted bs id) ∧
    ∀ opcode, InOrder (topIds bs) ((Sheet.ofBlocks bs).scriptsWith opcode) ∧
      ((∀ id, id ∈ (Sheet.ofBlocks bs).scriptsWith opcode ↔
          (Sheet.ofBlocks bs).IsTop id ∧ (Sheet.ofBlocks bs).opcode? id = some opcode) ↔
        ∀ id, Demoted bs id → (Sheet.ofBlocks bs).opcode? id ≠ some opcode) := by
  have horder : InOrder (topIds bs) (Sheet.ofBlocks bs).scripts := Sheet.scripts_inOrder
  refine ⟨horder.nodup, horder, fun id => Sheet.block?_ofBlocks, fun id => ?_, fun opcode => ?_⟩
  · rw [Sheet.mem_scripts_iff, Sheet.demoted_iff, not_and_not_right]
    exact ⟨Iff.mp, fun h => ⟨h, Sheet.IsTop.mem_topIds⟩⟩
  · refine ⟨horder.sublist filter_sublist, forall_congr' fun id => ?_⟩
    rw [Sheet.mem_scriptsWith, Sheet.demoted_iff]
    constructor
    · rintro h ⟨hmem, htop⟩ hopcode
      exact htop (h.mp ⟨hmem, hopcode⟩).1
    · intro h
      refine ⟨fun ⟨hmem, hopcode⟩ => ⟨?_, hopcode⟩,
        fun ⟨htop, hopcode⟩ => ⟨htop.mem_topIds, hopcode⟩⟩
      by_contra htop
      exact h ⟨hmem, htop⟩ hopcode

/-- A hat that is replaced by one inside another stack is still listed, and found by its opcode. -/
theorem demoted_hat_stays_listed :
    let bs : List Block :=
      [{ id := "hat", opcode := "event_whenflagclicked", isTopLevel := true },
        { id := "hat", opcode := "event_whenflagclicked", isTopLevel := false }]
    (Sheet.ofBlocks bs).scripts = ["hat"] ∧ ¬ (Sheet.ofBlocks bs).IsTop "hat" ∧
      (Sheet.ofBlocks bs).scriptsWith "event_whenflagclicked" = ["hat"] := by
  refine ⟨rfl, ?_, by decide +kernel⟩
  rintro ⟨b, hb, htop⟩
  rw [Sheet.block?_ofBlocks] at hb
  cases hb
  cases htop

end BlockMachine
