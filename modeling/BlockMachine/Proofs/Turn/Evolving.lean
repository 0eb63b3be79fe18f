import BlockMachine.Proofs.Turn.Law

/-!
# What a turn does to the list of threads

Whatever a thread does in its turn, the threads in the list keep their places
(`Machine.evolves_law`): it may stop them, start scripts afresh in their places and add new ones,
and itself it stays the thread it is.
-/

namespace BlockMachine

variable {σ : Type}

namespace Machine

theorem evolves_edgeFires (m : Machine σ) (target : TargetId) (block : BlockId) (value : Bool) :
    m.Evolves (m.edgeFires target block value).2 := by
  unfold edgeFires
  cases m.targets[target]? with
  | none => exact Lasting.refl m
  | some t => exact .of_eq rfl rfl

theorem evolves_addClone? {m m' : Machine σ} {source id : TargetId}
    (h : m.addClone? source = some (id, m')) : m.Evolves m' := by
  obtain ⟨t, -, -, -, -, rfl⟩ := addClone?_some h
  exact .of_eq rfl rfl

theorem evolves_lenient : Lenient (Evolves : Machine σ → Machine σ → Prop) :=
  .of_still fun h => h.toApart.evolves

theorem evolves_law (kit : Kit σ) : Law kit Evolves where
  toLenient := evolves_lenient
  tell _ _ _ := .of_eq rfl rfl
  stopAll := evolves_stopAll
  stopTarget := evolves_stopTarget
  removeTarget := evolves_removeTarget
  edgeFires := evolves_edgeFires
  addClone := evolves_addClone?
  startScript _ hgo := startScript_evolves hgo

end Machine

namespace Turn

variable {s s' : Turn σ} {kit : Kit σ} {fuel : Nat}

theorem execute_evolves (kit : Kit σ) (fuel : Nat) : Exec.Keeps Evolves (execute kit fuel) :=
  execute_along (Machine.evolves_law kit).rule fuel

end Turn

namespace Machine

theorem startHats_evolves (kit : Kit σ) (fuel : Nat) (opcode : String)
    (fields : List (String × String)) (only : Option TargetId) :
    Run.Keeps Evolves (startHats kit.toCatalog (Turn.execute kit fuel) opcode fields only) :=
  startHats_along ((evolves_law kit).startScript fuel (Turn.execute_evolves kit fuel) _) _ _

theorem createClone_evolves (kit : Kit σ) (fuel : Nat) (source : TargetId) :
    Run.Keeps Evolves (createClone kit.toCatalog (Turn.execute kit fuel) source) :=
  createClone_along evolves_addClone?
    ((evolves_law kit).startScript fuel (Turn.execute_evolves kit fuel) _) source

end Machine
end BlockMachine
