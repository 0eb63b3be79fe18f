import BlockMachine.Proofs.Code.Lowering

/-!
# The code of a whole script

Each lowering keeps code well placed, given that the descent for the parts of a block does; by
induction on the depth so does the descent itself, and with it the compilation of a script.
-/

namespace BlockMachine

open List Compile

variable {σ : Type} {ctx : Context σ} {D : Descent σ} {warp : Bool} {pc : Nat} (hD : D.Sound)

include hD

/-! ## Reporters -/

namespace Reporter

theorem unary_reads (b : Block) (name : String) {f : Operand → Operand}
    (hf : ∀ o, ∀ n ∈ (f o).slots, n ∈ o.slots) :
    Reads Operand.slots ctx.warp (unary ctx D b name f) := by
  intro d code o d' h
  simp only [unary, bind_ok, pure_ok, Prod.mk.injEq] at h
  obtain ⟨⟨pre, o'⟩, d₁, ho, ⟨rfl, rfl⟩, rfl⟩ := h
  obtain ⟨hpre, hslots⟩ := Context.input_reads hD b name _ _ _ _ ho
  exact ⟨hpre, fun n hn => hslots n (hf o' n hn)⟩

theorem binary_reads (b : Block) (first second : String) {f : Operand → Operand → Operand}
    (hf : ∀ x y, ∀ n ∈ (f x y).slots, n ∈ x.slots ∨ n ∈ y.slots) :
    Reads Operand.slots ctx.warp (binary ctx D b first second f) := by
  intro d code o d' h
  simp only [binary, bind_ok, pure_ok, Prod.mk.injEq] at h
  obtain ⟨⟨pre, x⟩, d₁, hx, ⟨pre', y⟩, d₂, hy, ⟨rfl, rfl⟩, rfl⟩ := h
  obtain ⟨hpre, hslots⟩ := Context.input_reads hD b first _ _ _ _ hx
  obtain ⟨hpre', hslots'⟩ := Context.input_reads hD b second _ _ _ _ hy
  refine ⟨fun pc => (hpre pc).append (hpre' _), fun n hn => (hpre' 0).slots hslots hslots' n ?_⟩
  exact mem_append.mpr (hf x y n hn)

open Operand in
/-- The operand of a reporter reads the slots of the operands that it is made of. -/
theorem lower_reads (b : Block) (r : Reporter) :
    Reads Operand.slots ctx.warp (r.lower ctx D b) := by
  cases r
  all_goals rw [lower]
  case var | listText | listLength | timer => exact reads_pure rfl
  case argument default =>
    refine reads_pure ?_
    split <;> rfl
  case listItem | listPosition | listContains =>
    refine unary_reads hD b _ fun o n hn => ?_
    exact hn
  case not =>
    refine unary_reads hD b _ fun o n hn => ?_
    have hn := mem_slots_folded hn
    exact mem_slots_asBool hn
  case length =>
    refine unary_reads hD b _ fun o n hn => ?_
    have hn := mem_slots_folded hn
    exact mem_slots_asText hn
  case round =>
    refine unary_reads hD b _ fun o n hn => ?_
    have hn := mem_slots_folded hn
    exact mem_slots_asNumber hn
  case math =>
    refine unary_reads hD b _ fun o n hn => ?_
    cases hf : MathFunction.ofName? (b.fieldText "OPERATOR") with
    | some f =>
      rw [hf] at hn
      have hn := mem_slots_folded hn
      exact mem_slots_asNumber hn
    | none =>
      rw [hf] at hn
      cases hn
  case random =>
    refine binary_reads hD b _ _ fun x y n hn => ?_
    exact mem_append.mp hn
  case arithmetic op =>
    refine binary_reads hD b _ _ fun x y n hn => ?_
    exact (mem_append.mp (mem_slots_folded hn)).imp mem_slots_asNumber mem_slots_asNumber
  case compare op =>
    refine binary_reads hD b _ _ fun x y n hn => ?_
    unfold compared at hn
    split at hn
    · exact (mem_append.mp (mem_slots_folded hn)).imp mem_slots_asRawNumber
        mem_slots_asRawNumber
    · exact mem_append.mp (mem_slots_folded hn)
  case and | or =>
    refine binary_reads hD b _ _ fun x y n hn => ?_
    exact (mem_append.mp (mem_slots_folded hn)).imp mem_slots_asBool mem_slots_asBool
  case join | includes =>
    refine binary_reads hD b _ _ fun x y n hn => ?_
    exact (mem_append.mp (mem_slots_folded hn)).imp mem_slots_asText mem_slots_asText
  case letter =>
    refine binary_reads hD b _ _ fun x y n hn => ?_
    exact (mem_append.mp (mem_slots_folded hn)).imp mem_slots_asNumber mem_slots_asText

end Reporter

/-! ## Statements -/

omit hD in
theorem Context.loopYield_isYield : ctx.loopYield.isYield = true := by
  unfold loopYield
  split <;> rfl

omit hD in
theorem lays_nil : Lays warp pc (pure []) := lays_pure fun _ => .nil

omit hD in
/-- Code that is a single plain instruction without slots. -/
theorem lays_one {i : Instr Script} (hi : i.Plain none)
    (hdest : i.dest? = none) (hs : i.slots = []) :
    Lays warp pc (pure [i]) :=
  lays_pure fun _ => .one hi hdest (by simp [hs])

namespace Statement

variable {pc : Nat} {b : Block}

theorem simple_lays {name : String} {f : Operand → Instr Script} (hf : ∀ o, (f o).Plain none)
    (hdest : ∀ o, (f o).dest? = none) (hs : ∀ o, ∀ n ∈ (f o).slots, n ∈ o.slots) :
    Lays ctx.warp pc (simple ctx D b name f) := by
  intro d code d' h
  simp only [simple, bind_ok, pure_ok] at h
  obtain ⟨⟨pre, o⟩, d₁, ho, rfl, rfl⟩ := h
  obtain ⟨hpre, hslots⟩ := Context.input_reads hD b name _ _ _ _ ho
  exact (hpre pc).append (.one (hf o) (hdest o) fun n hn => hslots n (hs o n hn))

theorem placing_lays {f : VarRef → Expr → Expr → Instr Script} (hf : ∀ v x y, (f v x y).Plain none)
    (hdest : ∀ v x y, (f v x y).dest? = none) (hs : ∀ v x y, (f v x y).slots = x.slots ++ y.slots) :
    Lays ctx.warp pc (placing ctx D b f) := by
  intro d code d' h
  simp only [placing, bind_ok, pure_ok] at h
  obtain ⟨⟨pre, x⟩, d₁, hx, ⟨pre', y⟩, d₂, hy, rfl, rfl⟩ := h
  obtain ⟨hpre, hslots⟩ := Context.input_reads hD b _ _ _ _ _ hx
  obtain ⟨hpre', hslots'⟩ := Context.input_reads hD b _ _ _ _ _ hy
  refine ((hpre pc).append (hpre' _)).append (.one (hf ..) (hdest ..) ?_)
  rw [hs]
  exact (hpre' 0).slots hslots hslots'

/-- A loop whose test does nothing but leave it, over slots that were taken before. -/
theorem loop_lies {pre : Code} {back : Nat} {exit : Nat → Instr Script} {d d₁ d' : Draft}
    {code : Code} (h : loop ctx D b pc pre back exit d₁ = .ok (code, d'))
    (hpre : Lies ctx.warp pc d pre d₁) (hback : Landing pc pre back)
    (hexit : ∀ t, (exit t).Plain (some t)) (hown : ∀ t, Owned d.locals d₁.locals (pre ++ [exit t]))
    (hs : ∀ t, ∀ n ∈ (exit t).slots, n < d₁.locals) :
    Lies ctx.warp pc d code d' := by
  simp only [loop, bind_ok, pure_ok] at h
  obtain ⟨body, d₂, hbody, rfl, rfl⟩ := h
  exact hpre.loop hback (hD.stack ctx _ _ _ _ _ hbody) (hexit _) (hown _)
    (hs _) Context.loopYield_isYield

theorem bindings_reads (ps : List ((String × String) × Option Value)) :
    Reads argumentSlots ctx.warp (bindings ctx D b ps) := by
  induction ps with
  | nil => exact reads_pure rfl
  | cons p ps ih =>
    obtain ⟨⟨id, name⟩, default?⟩ := p
    intro d code args d' h
    unfold bindings at h
    cases hid : b.inputBlock? id with
    | none =>
      simp only [hid, bind_ok, pure_ok, Prod.mk.injEq] at h
      obtain ⟨_, _, ⟨rfl, rfl⟩, ⟨code', args'⟩, d₂, hrest, ⟨rfl, rfl⟩, rfl⟩ := h
      exact ih d code' args' d₂ hrest
    | some block =>
      simp only [hid, bind_ok, pure_ok, Prod.mk.injEq] at h
      obtain ⟨⟨pre, o⟩, d₁, ho, _, _, ⟨rfl, rfl⟩, ⟨code', args'⟩, d₂, hrest, ⟨rfl, rfl⟩, rfl⟩ := h
      obtain ⟨hpre, hslots⟩ := Context.input_reads hD b id _ _ _ _ ho
      obtain ⟨hcode, hslots'⟩ := ih _ _ _ _ hrest
      exact ⟨fun pc => (hpre pc).append (hcode _), (hcode 0).slots hslots hslots'⟩

/-- A call yields first in warp mode, and where the body of the procedure is still open. -/
theorem calling_lays : Lays ctx.warp pc (calling ctx D b) := by
  intro d code d' h
  unfold calling at h
  cases hp : b.proccode? with
  | none =>
    simp only [hp] at h
    exact lays_one (i := .nop _) ⟨rfl, rfl, rfl, rfl⟩ rfl rfl _ _ _ h
  | some proccode =>
    cases hs : ctx.sheet.signature? proccode with
    | error e =>
      simp only [hp, hs, bind_ok, fail_ok] at h
      obtain ⟨_, _, ⟨⟩, -⟩ := h
    | ok s =>
      simp only [hp, hs, bind_ok, pure_ok] at h
      obtain ⟨_, _, ⟨rfl, rfl⟩, r, d₁, hproc, h⟩ := h
      obtain ⟨hext, hknown⟩ := Context.procedure_knows hD hproc
      have hmet : ∀ pc, Lies ctx.warp pc d [] d₁ := fun _ => ⟨hext, .nil, .nil⟩
      cases r with
      | none => exact (hmet pc).append (lays_one (i := .nop _) ⟨rfl, rfl, rfl, rfl⟩ rfl rfl _ _ _ h)
      | some key =>
        simp only [bind_ok, get_ok, pure_ok] at h
        obtain ⟨⟨code', args⟩, d₂, hargs, _, _, ⟨rfl, rfl⟩, rfl, rfl⟩ := h
        obtain ⟨hcode, hslots⟩ := bindings_reads hD _ _ _ _ _ hargs
        obtain ⟨hk, hmode⟩ := hknown key rfl
        have hk := (hcode pc).ext.knows hk
        have hpause : ∀ pause : Code, pause = [.yield] ∨ pause = [.yieldIfNeeded] ∨
            pause = [] ∧ d₂.Finished key →
              Lies ctx.warp (pc + code'.length) d₂ (pause ++ [.call key args]) d₂ :=
          fun pause h => ⟨.refl _, .call hk hmode hslots h, by
            rcases h with rfl | rfl | ⟨rfl, -⟩
            · exact .cons rfl (.cons rfl .nil)
            · exact .cons rfl (.cons rfl .nil)
            · exact .cons rfl .nil⟩
        rw [append_assoc]
        refine (hmet pc).append ((hcode pc).append (hpause _ ?_))
        rcases Draft.knows_iff.mp hk with ho | ⟨s, hf⟩
        · rw [Draft.Open] at ho
          cases ctx.warp <;> simp [ho]
        · cases ctx.warp <;> simp [hf, Draft.Finished]

/-- The code of a statement lies well. -/
theorem lower_lays (s : Statement) : Lays ctx.warp pc (s.lower ctx D pc b) := by
  cases s
  all_goals rw [lower]
  case setVariable | addToList | deleteOfList =>
    exact simple_lays hD (fun _ => ⟨rfl, rfl, rfl, rfl⟩) (fun _ => rfl) fun _ _ hn => hn
  case changeVariable | wait =>
    exact simple_lays hD (fun _ => ⟨rfl, rfl, rfl, rfl⟩) (fun _ => rfl) fun _ _ =>
      Operand.mem_slots_asNumber
  case insertAtList | replaceInList =>
    exact placing_lays hD (fun _ _ _ => ⟨rfl, rfl, rfl, rfl⟩) (fun _ _ _ => rfl) fun _ _ _ => rfl
  case clearList => exact lays_one ⟨rfl, rfl, rfl, rfl⟩ rfl rfl
  case stop =>
    split
    · exact lays_one ⟨rfl, rfl, rfl, rfl⟩ rfl rfl
    · exact lays_one ⟨rfl, rfl, rfl, rfl⟩ rfl rfl
  case allAtOnce => exact hD.stack ctx pc _
  case call => exact calling_lays hD
  case forever =>
    intro d code d' h
    simp only [bind_ok, pure_ok] at h
    obtain ⟨body, d₁, hbody, rfl, rfl⟩ := h
    have hlies := hD.stack ctx _ _ _ _ _ hbody
    exact ⟨hlies.ext, hlies.laid.endless Context.loopYield_isYield,
      hlies.owned.append (Lies.round_owned _ Context.loopYield_isYield) hlies.ext.locals
        (Nat.le_refl _)⟩
  case ifThen =>
    intro d code d' h
    simp only [bind_ok] at h
    obtain ⟨⟨pre, o⟩, d₁, ho, h⟩ := h
    obtain ⟨hpre, hslots⟩ := Context.input_reads hD b _ _ _ _ _ ho
    cases hc : o.expr.const? with
    | some v =>
      cases hv : v.toBool with
      | false =>
        simp only [hc, hv, Bool.false_eq_true, if_false, pure_ok] at h
        obtain ⟨rfl, rfl⟩ := h
        exact hpre pc
      | true =>
        simp only [hc, hv, if_true, bind_ok, pure_ok] at h
        obtain ⟨body, d₂, hbody, rfl, rfl⟩ := h
        exact (hpre pc).append (hD.stack ctx _ _ _ _ _ hbody)
    | none =>
      simp only [hc, bind_ok, pure_ok] at h
      obtain ⟨body, d₂, hbody, rfl, rfl⟩ := h
      refine (hpre pc).append
        ((hD.stack ctx _ _ _ _ _ hbody).guard ⟨rfl, rfl, rfl, rfl⟩ rfl fun n hn => ?_)
      exact hslots n (Operand.mem_slots_asBool hn)
  case ifElse =>
    intro d code d' h
    simp only [bind_ok, pure_ok] at h
    obtain ⟨⟨pre, o⟩, d₁, ho, body, d₂, hbody, body', d₃, hbody', rfl, rfl⟩ := h
    obtain ⟨hpre, hslots⟩ := Context.input_reads hD b _ _ _ _ _ ho
    have h₂ := hD.stack ctx _ _ _ _ _ hbody
    have h₃ := hD.stack ctx _ _ _ _ _ hbody'
    have hext := h₂.ext.trans h₃.ext
    rw [append_assoc]
    refine (hpre pc).append ⟨hext, (h₂.laid.mono h₃.ext).either rfl h₃.laid ⟨rfl, rfl, rfl, rfl⟩
      fun n hn => Nat.lt_of_lt_of_le (hslots n (Operand.mem_slots_asBool hn)) hext.locals, ?_⟩
    exact (Owned.cons rfl h₂.owned).append (.cons rfl h₃.owned) h₂.ext.locals h₃.ext.locals
  case repeatTimes =>
    intro d code d' h
    simp only [bind_ok, newSlot_ok] at h
    obtain ⟨⟨pre, o⟩, d₁, ho, _, _, ⟨rfl, rfl⟩, h⟩ := h
    obtain ⟨hpre, hslots⟩ := Context.input_reads hD b _ _ _ _ _ ho
    have hcount : ∀ t, Owned d.locals (d₁.locals + 1)
        (pre ++ [.repeatInit d₁.locals o.asNumber] ++ [.repeatTest d₁.locals t]) := fun t => by
      simpa using (hpre pc).owned.append (.counter d₁.locals t o.asNumber) (hpre pc).ext.locals
        (Nat.le_succ _)
    have hinit : Lies ctx.warp pc d (pre ++ [.repeatInit d₁.locals o.asNumber])
        { d₁ with locals := d₁.locals + 1 } := by
      refine (hpre pc).append ⟨Draft.extends_newSlot, .one rfl rfl rfl (fun n hn => ?_)
        (fun b hb => by cases hb), .one ?_⟩
      · rcases mem_cons.mp hn with rfl | hn
        · exact Nat.lt_succ_self _
        · exact Nat.lt_succ_of_lt (hslots n (Operand.mem_slots_asNumber hn))
      · rintro _ ⟨⟩
        exact ⟨Nat.le_refl _, Nat.lt_succ_self _⟩
    have hback : Landing pc (pre ++ [.repeatInit d₁.locals o.asNumber]) (pc + pre.length + 1) :=
      ⟨_, [], (append_nil _).symm, by simp [Nat.add_assoc], hinit.laid.settled⟩
    exact loop_lies hD h hinit hback (fun _ => ⟨rfl, rfl, rfl, rfl⟩) hcount (by simp [Instr.slots])
  case repeatUntil | repeatWhile =>
    intro d code d' h
    simp only [bind_ok] at h
    obtain ⟨⟨pre, o⟩, d₁, ho, h⟩ := h
    obtain ⟨hpre, hslots⟩ := Context.input_reads hD b _ _ _ _ _ ho
    exact loop_lies hD h (hpre pc) landing_start (fun _ => ⟨rfl, rfl, rfl, rfl⟩)
      (fun _ => (hpre pc).owned.append (.cons rfl .nil) (hpre pc).ext.locals (Nat.le_refl _))
      fun _ n hn => hslots n (Operand.mem_slots_asBool hn)
  case waitUntil =>
    intro d code d' h
    simp only [bind_ok, pure_ok] at h
    obtain ⟨⟨pre, o⟩, d₁, ho, rfl, rfl⟩ := h
    obtain ⟨hpre, hslots⟩ := Context.input_reads hD b _ _ _ _ _ ho
    have hloop := (hpre pc).loop (i := .jumpIf o.asBool (pc + pre.length + 3)) landing_start .nil
      ⟨rfl, rfl, rfl, rfl⟩
        ((hpre pc).owned.append (.cons rfl .nil) (hpre pc).ext.locals (Nat.le_refl _))
      (fun n hn => hslots n (Operand.mem_slots_asBool hn)) ctx.loopYield_isYield
    simpa using hloop

end Statement

/-! ## Stacks, and the whole script -/

namespace Context

theorem reporterWith_reads (b : Block) : Reads Operand.slots ctx.warp (ctx.reporterWith D b) := by
  unfold reporterWith
  cases literal? b with
  | some v => exact reads_pure rfl
  | none =>
    cases ctx.catalog.lowering? b.opcode with
    | some l =>
      cases l with
      | reporter r => exact Reporter.lower_reads hD b r
      | statement s => exact fun _ _ _ _ h => (fail_ok.mp h).elim
    | none =>
      cases ctx.catalog.hasPrimitive b.opcode with
      | true =>
        intro d code o d' h
        simp only [if_true, bind_ok, newSlot_ok, pure_ok, Prod.mk.injEq] at h
        obtain ⟨_, _, ⟨rfl, rfl⟩, code', d₂, hcall, ⟨rfl, rfl⟩, rfl⟩ := h
        obtain ⟨hlies, hlt⟩ := primitiveCall_lies hD b (some d.locals) hcall Draft.extends_newSlot
          (by rintro _ ⟨⟩; exact ⟨Nat.le_refl _, Nat.lt_succ_self _⟩)
        exact ⟨hlies, forall_mem_singleton.mpr (hlt _ rfl)⟩
      | false =>
        cases b.soleField? with
        | some f => exact reads_pure rfl
        | none => exact fun _ _ _ _ h => (fail_ok.mp h).elim

theorem statementWith_lays (pc : Nat) (b : Block) :
    Lays ctx.warp pc (ctx.statementWith D pc b) := by
  unfold statementWith
  cases ctx.catalog.lowering? b.opcode with
  | some l =>
    cases l with
    | statement s => exact Statement.lower_lays hD s
    | reporter r =>
      intro d code d' h
      simp only [bind_ok, pure_ok] at h
      obtain ⟨⟨code', o⟩, d₁, hr, rfl, rfl⟩ := h
      exact (Reporter.lower_reads hD b r _ _ _ _ hr).1 pc
  | none =>
    cases ctx.catalog.hasPrimitive b.opcode with
    | true => exact fun d code d' h => (primitiveCall_lies hD b none h (.refl d) (by simp)).1 pc
    | false =>
      cases ctx.catalog.isHat b.opcode with
      | true => exact lays_nil
      | false => exact fun _ _ _ h => (fail_ok.mp h).elim

theorem stackWith_lays (pc : Nat) (first : Option BlockId) :
    Lays ctx.warp pc (ctx.stackWith D pc first) := by
  cases first with
  | none => exact lays_nil
  | some id =>
    intro d code d' h
    simp only [stackWith, bind_ok, block_ok, pure_ok] at h
    obtain ⟨b, _, ⟨-, rfl⟩, code', d₁, hcode, rest, d₂, hrest, rfl, rfl⟩ := h
    exact (statementWith_lays hD pc b _ _ _ hcode).append (hD.stack ctx _ _ _ _ _ hrest)

end Context

omit hD in
/-- However deep it goes, the descent keeps code well placed. -/
theorem Descent.ofDepth_sound (depth : Nat) : (Descent.ofDepth depth : Descent σ).Sound := by
  induction depth with
  | zero => exact ⟨fun _ _ _ _ _ _ h => (fail_ok.mp h).elim,
      fun _ _ _ _ _ _ h => (fail_ok.mp h).elim⟩
  | succ depth ih => exact ⟨fun _ pc first => Context.stackWith_lays ih pc first,
      fun _ b => Context.reporterWith_reads ih b⟩

end BlockMachine
