import BlockMachine.Project
import BlockMachine.Proofs.Table

/-!
# Projects as they are read

In the targets of a project that was read from a document every variable is kept under its id, and
no list has been shown yet (`Project.fresh_of_decode`).
-/

namespace BlockMachine

variable {j : Json} {t : Target}

/-! ## Documents -/

namespace Json

variable {α σ β : Type} {decode : Json → Decoded α} {x : Decoded α} {b : β}

theorem map_ok {f : α → β} (h : x.map f = .ok b) : ∃ a, x = .ok a ∧ f a = b := by
  cases x with
  | error e => cases h
  | ok a => exact ⟨a, rfl, Except.ok.inj h⟩

theorem bind_ok {f : α → Decoded β} (h : x >>= f = .ok b) : ∃ a, x = .ok a ∧ f a = .ok b := by
  cases x with
  | error e => cases h
  | ok a => exact ⟨a, rfl, h⟩

theorem foldlM_keeps (step : σ → String → Json → Decoded σ) {I : σ → Prop}
    (hstep : ∀ {s s' key value}, step s key value = .ok s' → I s → I s') {init s : σ}
    (hinit : I init) (fields : List (String × Json))
    (h : fields.foldlM (fun s field => step s field.1 field.2) init = .ok s) : I s := by
  induction fields generalizing init with
  | nil =>
    cases h
    exact hinit
  | cons field fields ih =>
    rw [List.foldlM_cons] at h
    obtain ⟨s₁, hs₁, h⟩ := bind_ok h
    exact ih (hstep hs₁ hinit) h

section

variable {step : σ → String → Json → Decoded σ} {I : σ → Prop} {init s : σ}
  (hstep : ∀ {s s' key value}, step s key value = .ok s' → I s → I s') (hinit : I init)

include hstep hinit

/-- What every field keeps holds of what is made of all fields. -/
theorem foldFields_keeps (h : foldFields step init j = .ok s) : I s := by
  cases j with
  | object fields => exact foldlM_keeps step hstep hinit fields h
  | _ => cases h

/-- The same of a record. -/
theorem foldRecord_keeps {names : List String} (h : foldRecord names step init j = .ok s) :
    I s := by
  unfold foldRecord at h
  split at h
  · next items =>
    obtain ⟨s₁, hs₁, h⟩ := bind_ok h
    split at h
    · cases h
      exact foldlM_keeps step hstep hinit (names.zip items) hs₁
    · cases h
  · obtain ⟨⟨s₁, given⟩, hs₁, h⟩ := bind_ok h
    cases h
    refine foldFields_keeps (I := fun p => I p.1) (fun {p p' key value} hp hI => ?_) hinit hs₁
    obtain ⟨s₂, given⟩ := p
    dsimp only at hp
    split at hp
    · cases hp
    · obtain ⟨s', hs', rfl⟩ := map_ok hp
      exact hstep hs' hI

end

theorem asList_ok {items : List α} (h : asList decode j = .ok items) :
    ∀ a ∈ items, ∃ j', decode j' = .ok a := by
  cases j with
  | array js =>
    replace h : js.mapM decode = .ok items := h
    induction js generalizing items with
    | nil =>
      cases h
      simp
    | cons j js ih =>
      rw [List.mapM_cons] at h
      obtain ⟨a, ha, h⟩ := bind_ok h
      obtain ⟨rest, hrest, h⟩ := bind_ok h
      cases h
      exact List.forall_mem_cons.mpr ⟨⟨j, ha⟩, ih hrest⟩
  | _ => cases h

theorem asTable_ok {table : Table α} (h : asTable decode j = .ok table) {k : String} {a : α}
    (ha : table[k]? = some a) : ∃ j', decode j' = .ok a := by
  refine foldFields_keeps (I := fun table : Table α => ∀ {k a}, table[k]? = some a →
    ∃ j', decode j' = .ok a)
    (fun {s s' key value} hstep hs k a ha => ?_) (fun ha => by simp at ha) h ha
  obtain ⟨b, hb, rfl⟩ := map_ok hstep
  rw [Table.getElem?_insert] at ha
  split at ha
  · cases ha
    exact ⟨value, hb⟩
  · exact hs ha

end Json

/-! ## Targets -/

/-- Variables are kept under their ids, and no list has been shown. -/
def Target.Fresh (t : Target) : Prop :=
  ∀ (k : String) (v : Variable), t.vars[k]? = some v → v.id = k ∧
    (v.isList = true → v.isShown = false)

theorem Target.Fresh.addVariable (h : t.Fresh) {v : Variable}
    (hv : v.isList = true → v.isShown = false) :
    (t.addVariable v).Fresh := by
  intro k w hw
  replace hw : (t.vars.insert v.id { v with isLocal := !t.isStage })[k]? = some w := hw
  rw [Table.getElem?_insert] at hw
  split at hw
  · next hk =>
    cases hw
    exact ⟨hk, hv⟩
  · exact h k w hw

namespace Project

variable {make : String → Variable}

/-- All targets are as they were read. -/
def Fresh (project : Project) : Prop := ∀ t ∈ project.targets, t.Fresh

/-- The variables of a table are not shown if they are lists. -/
def Unshown (entries : Table (String → Variable)) : Prop :=
  ∀ (k : String) (make : String → Variable), entries[k]? = some make →
    ∀ id, (make id).isList = true → (make id).isShown = false

theorem fresh_addAll {entries : Table (String → Variable)} (hentries : Unshown entries)
    (ht : t.Fresh) :
    (addAll entries t).Fresh := by
  unfold addAll
  rw [Std.TreeMap.foldl_eq_foldl_toList]
  have hmem : ∀ e ∈ entries.toList, ∀ id, (e.2 id).isList = true → (e.2 id).isShown = false :=
    fun e he => hentries e.1 e.2 (Std.TreeMap.mem_toList_iff_getElem?_eq_some.mp he)
  generalize entries.toList = l at hmem
  induction l generalizing t with
  | nil => exact ht
  | cons e l ih =>
    rw [List.forall_mem_cons] at hmem
    exact ih (ht.addVariable (hmem.1 e.1)) hmem.2

theorem decodeVariable_unshown (h : decodeVariable j = .ok make) (id : String) :
    (make id).isList = false := by
  unfold decodeVariable at h
  split at h
  · obtain ⟨name, -, h⟩ := Json.bind_ok h
    obtain ⟨value, -, h⟩ := Json.bind_ok h
    cases h
    rfl
  · obtain ⟨name, -, h⟩ := Json.bind_ok h
    obtain ⟨value, -, h⟩ := Json.bind_ok h
    obtain ⟨isCloud, -, h⟩ := Json.bind_ok h
    cases h
    rfl
  · cases h

theorem decodeList_unshown (h : decodeList j = .ok make) (id : String) :
    (make id).isShown = false := by
  unfold decodeList at h
  split at h
  · obtain ⟨name, -, h⟩ := Json.bind_ok h
    obtain ⟨items, -, h⟩ := Json.bind_ok h
    cases h
    rfl
  · cases h

theorem decodeMessage_unshown (h : decodeMessage j = .ok make) (id : String) :
    (make id).isList = false := by
  obtain ⟨name, -, rfl⟩ := Json.map_ok h
  rfl

/-- The tables of a draft hold no lists that are shown. -/
structure Draft.Unshown (d : Draft) : Prop where
  vars : Project.Unshown d.vars
  lists : Project.Unshown d.lists
  messages : Project.Unshown d.messages

theorem Draft.Unshown.step {d d' : Draft} {key : String} {value : Json} (hd : d.Unshown)
    (h : d.step key value = .ok d') : d'.Unshown := by
  unfold Draft.step at h
  split at h <;> obtain ⟨x, hx, rfl⟩ := Json.map_ok h
  case h_3 =>
    refine { hd with vars := fun k make hmake id hlist => ?_ }
    obtain ⟨j, hj⟩ := Json.asTable_ok hx hmake
    rw [decodeVariable_unshown hj] at hlist
    cases hlist
  case h_4 =>
    refine { hd with lists := fun k make hmake id _ => ?_ }
    obtain ⟨j, hj⟩ := Json.asTable_ok hx hmake
    exact decodeList_unshown hj id
  case h_5 =>
    refine { hd with messages := fun k make hmake id hlist => ?_ }
    obtain ⟨j, hj⟩ := Json.asTable_ok hx hmake
    rw [decodeMessage_unshown hj] at hlist
    cases hlist
  all_goals exact { hd with }

theorem fresh_of_decodeTarget (h : decodeTarget j = .ok t) : t.Fresh := by
  obtain ⟨d, hd, h⟩ := Json.bind_ok h
  have hunshown : d.Unshown :=
    Json.foldRecord_keeps (fun h hd => hd.step h)
      ⟨fun _ _ h => by simp at h, fun _ _ h => by simp at h, fun _ _ h => by simp at h⟩ hd
  cases htarget : d.target? with
  | none =>
    rw [htarget] at h
    cases h
  | some t' =>
    rw [htarget] at h
    cases h
    obtain ⟨name, -, rfl⟩ := Option.map_eq_some_iff.mp htarget
    refine fresh_addAll hunshown.messages
      (fresh_addAll hunshown.lists (fresh_addAll hunshown.vars ?_))
    intro k v hv
    simp at hv

/-- **A project that was read is fresh.** -/
theorem fresh_of_decode {project : Project} (h : decode j = .ok project) : project.Fresh := by
  obtain ⟨targets, htargets, h⟩ := Json.bind_ok h
  have hfresh : ∀ ts, targets = some ts → ∀ t ∈ ts, Target.Fresh t := by
    refine Json.foldRecord_keeps (I := fun targets => ∀ ts, targets = some ts →
      ∀ t ∈ ts, Target.Fresh t)
      (fun {s s' key value} hstep hs => ?_) (fun ts hts => by cases hts) htargets
    split at hstep
    · obtain ⟨ts, hlist, rfl⟩ := Json.map_ok hstep
      intro ts' hts' t ht
      cases hts'
      obtain ⟨j', hj'⟩ := Json.asList_ok hlist t ht
      exact fresh_of_decodeTarget hj'
    · obtain ⟨u, -, rfl⟩ := Json.map_ok hstep
      exact hs
  cases targets with
  | none => cases h
  | some ts =>
    cases h
    exact hfresh ts rfl

end Project
end BlockMachine
