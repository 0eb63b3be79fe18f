import BlockMachine.Proofs.Code.Slots

/-!
# The bodies of a compilation in progress

A draft lists the procedures that were met, the one met or finished last in front. A body is open
while it is compiled. Compiling a piece of code leaves the open bodies open and the finished ones
finished, and opens none that it does not finish (`Draft.Extends`). So when the body of a procedure
is finished, whatever it calls without a yield right before stands behind it in the list: that is
the order in which bodies were finished (`Ordered`), and such calls never go round in a circle.
-/

namespace BlockMachine

open List

variable {key : ProcedureKey} {l : List (ProcedureKey × Option Script)} {s : Script}

namespace Draft

/-- The procedure was met. -/
def Knows (d : Draft) (key : ProcedureKey) : Prop := (d.body? key).isSome

/-- The body of the procedure is compiled. -/
def Finished (d : Draft) (key : ProcedureKey) : Prop := ∃ s, d.body? key = some (some s)

/-- The body of the procedure is being compiled. -/
def Open (d : Draft) (key : ProcedureKey) : Prop := d.body? key = some none

variable {d d' : Draft} {key k : ProcedureKey}

theorem Finished.knows (h : d.Finished key) : d.Knows key := by
  obtain ⟨s, h⟩ := h
  simp [Knows, h]

theorem knows_iff : d.Knows key ↔ d.Open key ∨ d.Finished key := by
  unfold Knows Open Finished
  cases d.body? key with
  | none => simp
  | some b => cases b <;> simp

theorem lookup_filter_ne (l : List (ProcedureKey × Option Script)) (h : k ≠ key) :
    (l.filter (·.1 != key)).lookup k = l.lookup k := by
  induction l with
  | nil => rfl
  | cons p l ih =>
    obtain ⟨q, b⟩ := p
    by_cases hq : q = key
    · subst hq
      rw [filter_cons_of_neg (by simp), ih, lookup_cons, beq_eq_false_iff_ne.mpr h]
    · rw [filter_cons_of_pos (by simpa using hq), lookup_cons, lookup_cons, ih]

theorem body?_setBody (b : Option Script) :
    (d.setBody key b).body? k = if k = key then some b else d.body? k := by
  unfold body? setBody
  rw [lookup_cons]
  by_cases h : k = key
  · rw [if_pos h, h, beq_self_eq_true]
  · rw [if_neg h, beq_eq_false_iff_ne.mpr h]
    exact lookup_filter_ne _ h

end Draft

/-- A script that may stand in a draft: it is good, in the given mode, keeps its slots apart, and
calls at once only what is finished. -/
structure Script.Fits (d : Draft) (warp : Bool) (s : Script) : Prop where
  mode : s.warp = warp
  good : s.Good d.Knows
  atOnce : ∀ key, s.CallsAtOnce key → d.Finished key
  owned : s.Owned

/-! ## The order of the bodies -/

/-- What a finished body calls without a yield is finished and stands behind it. -/
def Ordered : List (ProcedureKey × Option Script) → Prop
  | [] => True
  | (_, none) :: rest => Ordered rest
  | (_, some s) :: rest =>
    (∀ key, s.CallsAtOnce key → ∃ b, (key, some b) ∈ rest) ∧ Ordered rest

/-- An open body may be taken out. -/
theorem ordered_filter (hkey : ∀ b, (key, b) ∈ l → b = none) (h : Ordered l) :
    Ordered (l.filter (·.1 != key)) := by
  induction l with
  | nil => exact h
  | cons p l ih =>
    obtain ⟨q, b⟩ := p
    have hrest : ∀ b, (key, b) ∈ l → b = none := fun b hb => hkey b (mem_cons_of_mem _ hb)
    cases b with
    | none =>
      have := ih hrest h
      by_cases hq : q = key
      · rwa [filter_cons_of_neg (by simp [hq])]
      · rwa [filter_cons_of_pos (by simpa using hq)]
    | some s =>
      have hq : q ≠ key := by
        rintro rfl
        cases hkey _ mem_cons_self
      rw [filter_cons_of_pos (by simpa using hq)]
      refine ⟨fun k hk => ?_, ih hrest h.2⟩
      obtain ⟨b, hb⟩ := h.1 k hk
      have hne : k ≠ key := by
        rintro rfl
        cases hrest _ hb
      exact ⟨b, mem_filter.mpr ⟨hb, by simpa using hne⟩⟩

theorem Ordered.of_split {l₁ l₂ : List (ProcedureKey × Option Script)} {k : ProcedureKey}
    (h : Ordered (l₁ ++ (key, some s) :: l₂)) (hk : s.CallsAtOnce k) : ∃ b, (k, some b) ∈ l₂ := by
  induction l₁ with
  | nil => exact h.1 k hk
  | cons p l₁ ih =>
    obtain ⟨q, b⟩ := p
    cases b with
    | none => exact ih h
    | some s => exact ih h.2

theorem lookup_eq_of_mem {b : Option Script} (hn : (l.map Prod.fst).Nodup) (h : (key, b) ∈ l) :
    l.lookup key = some b := by
  induction l with
  | nil => cases h
  | cons p l ih =>
    obtain ⟨q, c⟩ := p
    rw [map_cons, nodup_cons] at hn
    rw [lookup_cons]
    rcases mem_cons.mp h with heq | hmem
    · cases heq
      rw [beq_self_eq_true]
    · have hne : key ≠ q := by
        rintro rfl
        exact hn.1 (mem_map.mpr ⟨(key, b), hmem, rfl⟩)
      rw [beq_eq_false_iff_ne.mpr hne]
      exact ih hn.2 hmem

theorem mem_of_lookup {β : Type} {l : List (ProcedureKey × β)} {b : β} (h : l.lookup key = some b) :
    (key, b) ∈ l := by
  induction l with
  | nil => cases h
  | cons p l ih =>
    obtain ⟨q, c⟩ := p
    rw [lookup_cons] at h
    cases hq : key == q with
    | true =>
      rw [hq] at h
      cases h
      rw [eq_of_beq hq]
      exact mem_cons_self
    | false =>
      rw [hq] at h
      exact mem_cons_of_mem _ (ih h)

namespace Draft

variable {d d' d'' : Draft} {key k : ProcedureKey}

/-- The bodies compiled so far are good, keep their slots apart, stand in the mode of their key, and
are listed in the order in which they were finished. -/
structure Sound (d : Draft) : Prop where
  nodup : (d.procedures.map Prod.fst).Nodup
  good : ∀ key s, d.body? key = some (some s) → s.warp = key.warp ∧ s.Good d.Knows ∧ s.Owned
  ordered : Ordered d.procedures

/-- What compiling a piece of code does to a draft. -/
structure Extends (d d' : Draft) : Prop where
  locals : d.locals ≤ d'.locals
  opened : ∀ key, d'.Open key ↔ d.Open key
  finished : ∀ key, d.Finished key → d'.Finished key
  sound : d.Sound → d'.Sound

theorem Extends.refl (d : Draft) : d.Extends d :=
  ⟨Nat.le_refl _, fun _ => Iff.rfl, fun _ => id, id⟩

theorem Extends.trans (h : d.Extends d') (h' : d'.Extends d'') : d.Extends d'' :=
  ⟨Nat.le_trans h.locals h'.locals, fun key => (h'.opened key).trans (h.opened key),
    fun key hk => h'.finished key (h.finished key hk), fun hs => h'.sound (h.sound hs)⟩

theorem Extends.knows (h : d.Extends d') (hk : d.Knows key) : d'.Knows key := by
  rcases knows_iff.mp hk with ho | hf
  · exact knows_iff.mpr (.inl ((h.opened key).mpr ho))
  · exact (h.finished key hf).knows

theorem Sound.of_locals (h : d.Sound) (n : Nat) : ({ d with locals := n } : Draft).Sound :=
  ⟨h.nodup, h.good, h.ordered⟩

theorem extends_newSlot : d.Extends { d with locals := d.locals + 1 } :=
  ⟨Nat.le_succ _, fun _ => Iff.rfl, fun _ => id, fun h => h.of_locals _⟩

/-- A script of its own has slots of its own. -/
theorem Extends.inner (h : ({ d with locals := 0 } : Draft).Extends d') :
    d.Extends { d' with locals := d.locals } :=
  ⟨Nat.le_refl _, h.opened, h.finished, fun hs => (h.sound (hs.of_locals 0)).of_locals _⟩

theorem nodup_setBody (hn : (d.procedures.map Prod.fst).Nodup) (b : Option Script) :
    ((d.setBody key b).procedures.map Prod.fst).Nodup := by
  unfold setBody
  rw [map_cons, nodup_cons]
  constructor
  · intro hmem
    obtain ⟨p, hp, heq⟩ := mem_map.mp hmem
    have := (mem_filter.mp hp).2
    simp [heq] at this
  · exact hn.sublist (filter_sublist.map Prod.fst)

/-- Opening a body that was not met keeps a draft sound. -/
theorem Sound.openBody (h : d.Sound) (hnew : d.body? key = none) : (d.setBody key none).Sound where
  nodup := nodup_setBody h.nodup none
  good q s hq := by
    rw [body?_setBody] at hq
    by_cases hne : q = key
    · rw [if_pos hne] at hq
      cases hq
    · rw [if_neg hne] at hq
      obtain ⟨hw, hg, howned⟩ := h.good q s hq
      refine ⟨hw, hg.mono fun k hk => ?_, howned⟩
      unfold Knows at *
      rw [body?_setBody]
      split
      · rfl
      · exact hk
  ordered := by
    show Ordered (d.procedures.filter (·.1 != key))
    refine ordered_filter (fun b hb => ?_) h.ordered
    have := lookup_eq_of_mem h.nodup hb
    unfold body? at hnew
    rw [hnew] at this
    cases this

/-- Finishing an open body keeps a draft sound, if the body fits. -/
theorem Sound.closeBody (h : d.Sound) (ho : d.Open key) (hs : s.Fits d key.warp) :
    (d.setBody key (some s)).Sound where
  nodup := nodup_setBody h.nodup (some s)
  good q b hq := by
    have hknows : ∀ k, d.Knows k → (d.setBody key (some s)).Knows k := by
      intro k hk
      unfold Knows at *
      rw [body?_setBody]
      split
      · rfl
      · exact hk
    rw [body?_setBody] at hq
    by_cases hne : q = key
    · rw [if_pos hne] at hq
      cases hq
      rw [hne]
      exact ⟨hs.mode, hs.good.mono hknows, hs.owned⟩
    · rw [if_neg hne] at hq
      obtain ⟨hw', hg', howned⟩ := h.good q b hq
      exact ⟨hw', hg'.mono hknows, howned⟩
  ordered := by
    refine ⟨fun k hk => ?_, ordered_filter (fun b hb => ?_) h.ordered⟩
    · obtain ⟨b, hb⟩ := hs.atOnce k hk
      refine ⟨b, mem_filter.mpr ⟨mem_of_lookup hb, ?_⟩⟩
      have hne : k ≠ key := by
        rintro rfl
        rw [ho] at hb
        cases hb
      simpa using hne
    · have := lookup_eq_of_mem h.nodup hb
      unfold Open body? at ho
      rw [ho] at this
      exact (Option.some.inj this).symm

/-- Compiling the body of a procedure that was not met before. -/
theorem Extends.procedure (hnew : d.body? key = none) (h : (d.setBody key none).Extends d')
    (hs : s.Fits d' key.warp) : d.Extends (d'.setBody key (some s)) where
  locals := h.locals
  opened k := by
    unfold Open
    rw [body?_setBody]
    by_cases hk : k = key
    · rw [if_pos hk, hk, hnew]
      simp
    · rw [if_neg hk]
      have := h.opened k
      unfold Open at this
      rwa [body?_setBody, if_neg hk] at this
  finished k hk := by
    obtain ⟨b, hb⟩ := hk
    have hne : k ≠ key := by
      rintro rfl
      rw [hnew] at hb
      cases hb
    have hfin : (d.setBody key none).Finished k := ⟨b, by rw [body?_setBody, if_neg hne, hb]⟩
    obtain ⟨b', hb'⟩ := h.finished k hfin
    exact ⟨b', by rw [body?_setBody, if_neg hne, hb']⟩
  sound hd := by
    have hopen : d'.Open key := (h.opened key).mpr (by unfold Open; rw [body?_setBody, if_pos rfl])
    exact (h.sound (hd.openBody hnew)).closeBody hopen hs

end Draft
end BlockMachine
