import BlockMachine.Block.Sheet
import BlockMachine.Kit.Args

/-!
# Look-ups in tables

What is found in a table that another one was written over, on a sheet, and in the arguments that a
block has before its inputs are evaluated.
-/

namespace BlockMachine

open List

variable {α β : Type}

namespace Table

theorem getElem?_insert (t : Table α) (k k' : String) (v : α) :
    (t.insert k v)[k']? = if k = k' then some v else t[k']? := by
  rw [Std.TreeMap.getElem?_insert]
  by_cases h : k = k'
  · simp [h]
  · rw [if_neg (by rwa [Std.compare_eq_iff_eq]), if_neg h]

theorem getElem?_erase (t : Table α) (k k' : String) :
    (t.erase k)[k']? = if k = k' then none else t[k']? := by
  rw [Std.TreeMap.getElem?_erase]
  by_cases h : k = k'
  · simp [h]
  · rw [if_neg (by rwa [Std.compare_eq_iff_eq]), if_neg h]

/-- The entry that is written last is found. -/
theorem foldl_insert_getElem? (f : β → α) (entries : List (String × β)) (t : Table α) (k : String)
    (hnodup : (entries.map Prod.fst).Nodup) :
    (entries.foldl (fun t e => t.insert e.1 (f e.2)) t)[k]? =
      ((entries.lookup k).map f).or t[k]? := by
  induction entries generalizing t with
  | nil => simp
  | cons e entries ih =>
    obtain ⟨k', v⟩ := e
    simp only [map_cons, nodup_cons] at hnodup
    rw [foldl_cons, ih _ hnodup.2, getElem?_insert, lookup_cons]
    by_cases h : k' = k
    · subst h
      have hnone : entries.lookup k' = none := by
        rw [lookup_eq_none_iff]
        intro p hp
        rw [bne_iff_ne]
        rintro rfl
        exact hnodup.1 (mem_map_of_mem hp)
      simp [hnone]
    · have h' : (k == k') = false := beq_eq_false_iff_ne.mpr (Ne.symm h)
      simp [h, h']

theorem values_eq {κ : Type} {cmp : κ → κ → Ordering} (t : Std.TreeMap κ α cmp) :
    t.values = t.toList.map Prod.snd := by
  show t.inner.inner.values = (Std.DTreeMap.Internal.Impl.Const.toList t.inner.inner).map Prod.snd
  rw [Std.DTreeMap.Internal.Impl.values_eq_map_snd,
    Std.DTreeMap.Internal.Impl.Const.toList_eq_toListModel_map]
  simp

/-- Tables that agree up to a function list their values in the same order up to that function. -/
theorem values_map_eq {f : α → β} {t t' : Table α} (h : ∀ k : String, t'[k]?.map f = t[k]?.map f) :
    t'.values.map f = t.values.map f := by
  have hequiv : (t'.map fun _ v => f v).Equiv (t.map fun _ v => f v) := by
    refine .of_forall_constGet?_eq fun k => ?_
    rw [Std.TreeMap.getElem?_map, Std.TreeMap.getElem?_map]
    exact h k
  have hlist := hequiv.toList_eq
  rw [Std.TreeMap.toList_map, Std.TreeMap.toList_map] at hlist
  have hvalues := congrArg (map Prod.snd) hlist
  rw [values_eq, values_eq]
  simpa [Function.comp_def] using hvalues

theorem lookup_toList (t : Table α) (k : String) : t.toList.lookup k = t[k]? := by
  cases h : t[k]? with
  | none =>
    rw [lookup_eq_none_iff]
    intro p hp
    rw [bne_iff_ne]
    rintro rfl
    have := Std.TreeMap.mem_toList_iff_getElem?_eq_some.mp hp
    simp [h] at this
  | some v =>
    have hmem := Std.TreeMap.mem_toList_iff_getElem?_eq_some.mpr h
    cases hl : t.toList.lookup k with
    | none =>
      rw [lookup_eq_none_iff] at hl
      simpa using hl _ hmem
    | some w =>
      obtain ⟨l₁, l₂, hsplit, -⟩ := lookup_eq_some_iff.mp hl
      have hw : (k, w) ∈ t.toList := by rw [hsplit]; simp
      have := Std.TreeMap.mem_toList_iff_getElem?_eq_some.mp hw
      rw [h] at this
      exact this.symm

theorem nodup_toList (t : Table α) : (t.toList.map Prod.fst).Nodup := by
  rw [Std.TreeMap.map_fst_toList_eq_keys]
  exact Std.TreeMap.nodup_keys

theorem insertMany_eq_foldl (entries : List (String × α)) (t : Table α) :
    t.insertMany entries = entries.foldl (fun t e => t.insert e.1 e.2) t := by
  induction entries generalizing t with
  | nil => rfl
  | cons e entries ih =>
    rw [foldl_cons]
    exact Std.TreeMap.insertMany_cons.trans (ih _)

/-- A table that is written over another one is found first. -/
theorem getElem?_insertMany_toList (t u : Table α) (k : String) :
    (t.insertMany u.toList)[k]? = u[k]?.or t[k]? := by
  have h := foldl_insert_getElem? id u.toList t k (nodup_toList u)
  rw [lookup_toList, Option.map_id] at h
  rw [insertMany_eq_foldl]
  exact h

/-- In a table of entries with distinct names, an entry is found by its name. -/
theorem getElem?_of (entries : List (String × α)) (k : String)
    (hnodup : (entries.map Prod.fst).Nodup) : (Table.of entries)[k]? = entries.lookup k := by
  have h := foldl_insert_getElem? id entries ∅ k hnodup
  rw [Option.map_id] at h
  rw [Table.of, Std.TreeMap.ofList_eq_insertMany_empty, insertMany_eq_foldl]
  simpa using h

end Table

theorem Sheet.block?_insert (s : Sheet) (b : Block) (id : BlockId) :
    (s.insert b).block? id = if b.id = id then some b else s.block? id :=
  Table.getElem?_insert _ _ _ _

namespace Args

theorem foldl_insertField (entries : List (String × Field)) (args : Args) :
    entries.foldl (fun a e => a.insertField e.1 e.2) args =
      { args with
        values := entries.foldl (fun t e => t.insert e.1 e.2.value) args.values
        fields := entries.foldl (fun t e => t.insert e.1 e.2) args.fields } := by
  induction entries generalizing args with
  | nil => rfl
  | cons e entries ih => exact ih _

variable (opcode : String) (mutation : Option Mutation) (fields : Table Field) (k : String)

theorem values_ofFields :
    (ofFields opcode mutation fields).values[k]? = fields[k]?.map Field.value := by
  rw [ofFields, Std.TreeMap.foldl_eq_foldl_toList, foldl_insertField]
  dsimp only
  rw [Table.foldl_insert_getElem? Field.value _ _ _ (Table.nodup_toList fields),
    Table.lookup_toList]
  simp

theorem fields_ofFields : (ofFields opcode mutation fields).fields[k]? = fields[k]? := by
  rw [ofFields, Std.TreeMap.foldl_eq_foldl_toList, foldl_insertField]
  dsimp only
  have h := Table.foldl_insert_getElem? id fields.toList ∅ k (Table.nodup_toList fields)
  rw [Table.lookup_toList] at h
  simpa using h

@[simp] theorem values_insert (args : Args) (name : String) (v : Value) :
    (args.insert name v).values[k]? = if name = k then some v else args.values[k]? :=
  Table.getElem?_insert _ _ _ _

end Args
end BlockMachine
