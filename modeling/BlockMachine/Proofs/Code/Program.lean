import BlockMachine.Proofs.Code.Compiled
import Mathlib.Order.WellFounded

/-!
# Compiled programs

What compilation gives. Every script of a compiled program, down to the branches of its blocks, is
well formed: jumps stay in the code, slots among the locals, and every call finds its body
(`Program.Sound.wellFormed`). Code goes round only through yields: a jump that does not go forward
stands right behind one (`Program.Sound.back`), and so does some call in every circle of calls
(`Program.Sound.no_circle`). The slot of a primitive is written by this one instruction
(`Program.Contains.dest_unique`).
-/

namespace BlockMachine

open List Option

variable {i : Instr Script} {script : Script} {p : Program} {pc t : Nat}

namespace Program

/-- The procedure has a body in the program. -/
def Knows (p : Program) (key : ProcedureKey) : Prop := (p.procedures.lookup key).isSome

/-- The scripts of a program: its own, the bodies of its procedures, and the branches of the blocks
that these call. -/
inductive Contains (p : Program) : Script → Prop
  | script : p.Contains p.script
  | body {key : ProcedureKey} {s : Script} (h : p.procedures.lookup key = some s) : p.Contains s
  | branch {s b : Script} {i : Instr Script} (hs : p.Contains s) (hi : i ∈ s.code.toList)
      (hb : b ∈ i.branches) : p.Contains b

/-- The body of the first procedure calls the second one without a yield right before. -/
def CallsAtOnce (p : Program) (key key' : ProcedureKey) : Prop :=
  ∃ s, p.procedures.lookup key = some s ∧ s.CallsAtOnce key'

/-- What a compiled program is like. -/
structure Sound (p : Program) : Prop where
  mode : p.script.warp = false
  script : p.script.Good p.Knows
  bodies : ∀ key s, p.procedures.lookup key = some s → s.warp = key.warp ∧ s.Good p.Knows
  ordered : WellFounded fun k' k => p.CallsAtOnce k k'

end Program

namespace Draft

variable {d : Draft}

theorem lookup_filterMap {key : ProcedureKey} (l : List (ProcedureKey × Option Script))
    (h : ∀ q ∈ l, q.2.isSome) :
    (l.filterMap fun (key, body) => body.map (key, ·)).lookup key = (l.lookup key).join := by
  induction l with
  | nil => rfl
  | cons q l ih =>
    obtain ⟨k, b⟩ := q
    obtain ⟨s, rfl⟩ := isSome_iff_exists.mp (h _ mem_cons_self)
    have hrest := ih fun q hq => h q (mem_cons_of_mem _ hq)
    change lookup key ((k, s) :: l.filterMap _) = _
    rw [lookup_cons, lookup_cons, hrest]
    split <;> rfl

/-- Once no body is open, the finished ones are the bodies of the program. -/
theorem Sound.lookup_bodies (h : d.Sound) (hopen : ∀ key, ¬ d.Open key) (key : ProcedureKey) :
    d.bodies.lookup key = (d.body? key).join := by
  refine lookup_filterMap _ fun q hq => ?_
  obtain ⟨k, b⟩ := q
  cases b with
  | none => exact absurd (lookup_eq_of_mem h.nodup hq) (hopen k)
  | some s => rfl

/-- The order in which bodies were finished bounds the calls without a yield. -/
theorem Sound.acc (h : d.Sound) (hp : ∀ key, p.procedures.lookup key = (d.body? key).join) :
    ∀ l₂ l₁, d.procedures = l₁ ++ l₂ → ∀ key s, (key, some s) ∈ l₂ →
      Acc (fun k' k => p.CallsAtOnce k k') key := by
  intro l₂
  induction l₂ with
  | nil => intro l₁ _ key s hmem; cases hmem
  | cons q l₂ ih =>
    intro l₁ hsplit key s hmem
    have hrest := ih (l₁ ++ [q]) (by rw [hsplit, append_assoc]; rfl)
    rcases mem_cons.mp hmem with rfl | hmem
    · refine Acc.intro key fun k' hk' => ?_
      obtain ⟨s', hs', hcall⟩ := hk'
      have hs : d.body? key = some (some s) :=
        lookup_eq_of_mem h.nodup (by rw [hsplit]; exact mem_append_right _ mem_cons_self)
      rw [hp, hs] at hs'
      cases hs'
      have hord := h.ordered
      rw [hsplit] at hord
      obtain ⟨b, hb⟩ := hord.of_split hcall
      exact hrest k' b hb
    · exact hrest key s hmem

end Draft

namespace Sheet

variable {σ : Type}

variable {s : Sheet} {catalog : Catalog σ} {top : BlockId} {p : Program}

/-- The draft that a compiled program comes from. -/
theorem compile_ok (h : s.compile catalog top = .ok p) :
    ∃ d : Draft, s.compileDraft catalog top = .ok (p.script, d) ∧ p.script.Fits d false ∧ d.Sound ∧
      (∀ key, ¬ d.Open key) ∧ p.procedures = d.bodies := by
  unfold compile at h
  cases hdraft : s.compileDraft catalog top with
  | error f =>
    rw [hdraft] at h
    cases h
  | ok r =>
    rw [hdraft] at h
    cases h
    unfold compileDraft at hdraft
    split at hdraft
    · cases hdraft
    · obtain ⟨hext, hfits⟩ := Context.script_fits (Descent.ofDepth_sound _) hdraft
      refine ⟨r.2, rfl, hfits, hext.sound ⟨nodup_nil, (by intro _ _ h; cases h), trivial⟩,
        fun key hopen => ?_, rfl⟩
      have := (hext.opened key).mp hopen
      cases this

/-- **Compilation gives sound programs**, whatever the blocks and the catalog are. -/
theorem compile_sound (h : s.compile catalog top = .ok p) : p.Sound := by
  obtain ⟨d, -, hfits, hsound, hopen, hbodies⟩ := compile_ok h
  have hlookup : ∀ key, p.procedures.lookup key = (d.body? key).join :=
    fun key => hbodies ▸ hsound.lookup_bodies hopen key
  have hknows : ∀ key, d.Knows key → p.Knows key := by
    intro key hk
    rcases Draft.knows_iff.mp hk with ho | ⟨b, hb⟩
    · exact absurd ho (hopen key)
    · rw [Program.Knows, hlookup, hb]
      rfl
  refine ⟨hfits.mode, hfits.good.mono hknows, fun key b hb => ?_, ⟨fun key => ?_⟩⟩
  · rw [hlookup, join_eq_some_iff] at hb
    obtain ⟨hwarp, hg, -⟩ := hsound.good key b hb
    exact ⟨hwarp, hg.mono hknows⟩
  · cases hb : (d.body? key).join with
    | some b =>
      exact hsound.acc hlookup _ [] rfl key b (mem_of_lookup (join_eq_some_iff.mp hb))
    | none =>
      refine Acc.intro key fun k' ⟨b, hb', _⟩ => ?_
      rw [hlookup, hb] at hb'
      cases hb'

/-- The scripts of a compiled program keep their slots apart. -/
theorem compile_owned (h : s.compile catalog top = .ok p) (hs : p.Contains script) :
    script.Owned := by
  obtain ⟨d, -, hfits, hsound, hopen, hbodies⟩ := compile_ok h
  induction hs with
  | script => exact hfits.owned
  | body hbody =>
    rw [hbodies, hsound.lookup_bodies hopen, join_eq_some_iff] at hbody
    exact (hsound.good _ _ hbody).2.2
  | branch _ hi hb ih =>
    cases ih with
    | intro _ branches => exact branches _ hi _ hb

end Sheet

/-! ## The scripts of a sound program -/

/-- Jumps stay in the code, slots among the locals of the script, and calls find their body. -/
structure Script.WellFormed (p : Program) (s : Script) : Prop where
  targets : ∀ i ∈ s.code.toList, ∀ t, i.target? = some t → t ≤ s.code.size
  slots : ∀ i ∈ s.code.toList, ∀ n ∈ i.slots, n < s.locals
  calls : ∀ i ∈ s.code.toList, ∀ key, i.callee? = some key → ∃ b, p.procedures.lookup key = some b

/-- The instruction at the index stands right behind a yield. -/
def Script.BehindYield (s : Script) (pc : Nat) : Prop :=
  (s.code.toList.take pc).getLast?.any Instr.isYield = true

/-- What is known of the instruction at an index. -/
theorem Script.Good.placed {known : ProcedureKey → Prop} {s : Script} (h : s.Good known)
    (hi : s.code.toList[pc]? = some i) :
    Placed (Landing 0 s.code.toList) s.locals known (fun _ => True) s.warp
      (s.code.toList.take pc).getLast? pc i := by
  cases h with
  | intro placed _ _ => simpa using along_get placed hi

namespace Program.Sound

variable {p : Program} {s : Script}

theorem good (h : p.Sound) (hs : p.Contains s) : s.Good p.Knows := by
  induction hs with
  | script => exact h.script
  | body hkey => exact (h.bodies _ _ hkey).2
  | branch _ hi hb ih =>
    cases ih with
    | intro _ _ branches => exact branches _ hi _ hb

theorem wellFormed (h : p.Sound) (hs : p.Contains s) : s.WellFormed p := by
  have hplaced : ∀ i ∈ s.code.toList, ∃ prev pc, Placed (Landing 0 s.code.toList) s.locals p.Knows
      (fun _ => True) s.warp prev pc i := by
    intro i hi
    obtain ⟨pc, hpc⟩ := mem_iff_getElem?.mp hi
    exact ⟨_, _, (h.good hs).placed hpc⟩
  refine ⟨fun i hi t ht => ?_, fun i hi => ?_, fun i hi key hkey => ?_⟩
  all_goals obtain ⟨prev, pc, hp⟩ := hplaced i hi
  · simpa using (hp.lands t ht).le
  · exact hp.slots
  · exact isSome_iff_exists.mp (hp.known key hkey)

/-- A jump that does not go forward stands right behind a yield. -/
theorem back (h : p.Sound) (hs : p.Contains s) (hi : s.code.toList[pc]? = some i)
    (ht : i.target? = some t) (hle : t ≤ pc) : s.BehindYield pc :=
  ((h.good hs).placed hi).back t ht hle

/-- No jump lands right behind a yield. -/
theorem lands (h : p.Sound) (hs : p.Contains s) (hi : s.code.toList[pc]? = some i)
    (ht : i.target? = some t) :
    t ≤ s.code.size ∧ ¬ s.BehindYield t := by
  obtain ⟨l, r, hsplit, rfl, hl⟩ := ((h.good hs).placed hi).lands t ht
  unfold Script.BehindYield
  rw [← Array.length_toList, hsplit, Nat.zero_add, take_left, hl, length_append]
  simp

/-- Every circle of calls among the bodies has a call right behind a yield. -/
theorem no_circle (h : p.Sound) (key : ProcedureKey) :
    ¬ Relation.TransGen p.CallsAtOnce key key := by
  intro hcircle
  exact h.ordered.transGen.irrefl.irrefl key (Relation.transGen_swap.mpr hcircle)

end Program.Sound

/-- **The slot of a primitive is written by no other instruction.** -/
theorem Program.Contains.dest_unique {σ : Type} {s : Sheet} {catalog : Catalog σ} {top : BlockId}
    (h : s.compile catalog top = .ok p) (hs : p.Contains script) {pc' n : Nat}
    {call : PrimitiveCall Script} (hcall : script.code[pc]? = some (.primitive call))
    (hdest : call.dest = some n) (hi : script.code[pc']? = some i) (hi' : i.dest? = some n) :
    pc' = pc := by
  cases Sheet.compile_owned h hs with
  | intro alone _ =>
    rw [← Array.getElem?_toList] at hcall hi
    obtain ⟨hlt, hcall⟩ := List.getElem?_eq_some_iff.mp hcall
    obtain ⟨hlt', hi⟩ := List.getElem?_eq_some_iff.mp hi
    rw [pairwise_iff_getElem] at alone
    rcases Nat.lt_trichotomy pc' pc with hpc | hpc | hpc
    · have := alone pc' pc hlt' hlt hpc n (by rw [hi, hi']) (by rw [hcall]; exact hdest)
      rw [hcall] at this
      cases this.2
    · exact hpc
    · have := alone pc pc' hlt hlt' hpc n (by rw [hcall]; exact hdest) (by rw [hi, hi'])
      rw [hcall] at this
      cases this.1

end BlockMachine
