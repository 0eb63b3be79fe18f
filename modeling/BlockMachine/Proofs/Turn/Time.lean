import BlockMachine.Proofs.Machine.Aside

/-!
# The time of a turn

A thread in warp mode goes on until the clock, which is read at every point where other threads may
run, is past the start of the measured time by more than the budget. `Turn.Elapses s n` says that
the `n`th reading from now is, so that at most `n` more readings find that there is time left.
-/

namespace BlockMachine

/-- The clock after a number of readings. -/
def Clock.after (c : Clock) : Nat → Clock
  | 0 => c
  | n + 1 => c.read.2.after n

namespace Turn

variable {σ : Type} {s s' s'' : Turn σ}

/-- The `n`th reading of the clock from now is past the start of the measured time by more than the
budget. Where the time is not measured yet, the second reading will be its start. -/
def Elapses (s : Turn σ) (n : Nat) : Prop :=
  match s.thread.warpStart with
  | some start => (s.machine.clock.after n).time - start > s.machine.settings.warpTime
  | none =>
    (s.machine.clock.after (n + 2)).time - (s.machine.clock.after 1).time >
      s.machine.settings.warpTime

/-- There is no more time left than before. -/
def Within (s s' : Turn σ) : Prop :=
  ∀ n, s.Elapses n → ∃ n' ≤ n, s'.Elapses n'

/-- There is less time left than before. -/
def Spends (s s' : Turn σ) : Prop :=
  ∀ n, s.Elapses n → ∃ n' < n, s'.Elapses n'

instance : Lasting (Within : Turn σ → Turn σ → Prop) where
  refl _ n h := ⟨n, Nat.le_refl n, h⟩
  trans h h' n hn := by
    obtain ⟨n₁, hle, hn₁⟩ := h n hn
    obtain ⟨n₂, hle', hn₂⟩ := h' n₁ hn₁
    exact ⟨n₂, Nat.le_trans hle' hle, hn₂⟩

theorem Spends.within (h : s.Spends s') : s.Within s' := by
  intro n hn
  obtain ⟨n', hlt, hn'⟩ := h n hn
  exact ⟨n', Nat.le_of_lt hlt, hn'⟩

theorem Within.andSpends (h : s.Within s') (h' : s'.Spends s'') : s.Spends s'' := by
  intro n hn
  obtain ⟨n₁, hle, hn₁⟩ := h n hn
  obtain ⟨n₂, hlt, hn₂⟩ := h' n₁ hn₁
  exact ⟨n₂, Nat.lt_of_lt_of_le hlt hle, hn₂⟩

/-- The time left depends on nothing but the clock, the budget and the start. -/
theorem within_of_eq (hc : s'.machine.clock = s.machine.clock)
    (hb : s'.machine.settings = s.machine.settings)
    (hw : s'.thread.warpStart = s.thread.warpStart) : s.Within s' := by
  intro n hn
  refine ⟨n, Nat.le_refl n, ?_⟩
  unfold Elapses at *
  rwa [hc, hb, hw]

theorem Aside.within (h : s.Aside s') : s.Within s' :=
  within_of_eq h.machine.clock h.machine.settings (by rw [h.thread])

/-- Beginning to measure the time leaves as much of it. -/
theorem startWarp_within (s : Turn σ) : s.Within s.startWarp := by
  unfold startWarp
  split
  · rename_i h
    intro n hn
    refine ⟨n, Nat.le_refl n, ?_⟩
    have hnone : s.thread.warpStart = none := by simpa using (Bool.and_eq_true_iff.mp h).2
    unfold Elapses at *
    rw [hnone] at hn
    exact hn
  · exact Lasting.refl s

theorem startWarp_thread (s : Turn σ) :
    s.startWarp.thread = { s.thread with warpStart := s.startWarp.thread.warpStart } := by
  unfold startWarp
  split <;> rfl

/-- A reading that finds time left takes a reading from the time left. -/
theorem warpExpired_some {expired : Bool} (h : s.warpExpired = (expired, s')) :
    s'.thread = s.thread ∧ s'.machine.threads = s.machine.threads ∧
      (expired = false → s.Spends s') := by
  unfold warpExpired at h
  cases hw : s.thread.warpStart with
  | none =>
    rw [hw] at h
    cases h
    exact ⟨rfl, rfl, by simp⟩
  | some start =>
    rw [hw] at h
    cases h
    refine ⟨rfl, rfl, fun hleft n hn => ?_⟩
    unfold Elapses at hn ⊢
    rw [hw] at hn
    simp only [hw]
    cases n with
    | zero => exact absurd hn (by simpa [Clock.after] using hleft)
    | succ n => exact ⟨n, Nat.lt_succ_self n, hn⟩

theorem goesOn_some {goes : Bool} (h : s.goesOn = (goes, s')) :
    s'.thread = s.thread ∧ s'.machine.threads = s.machine.threads ∧
      (goes = true → s.Spends s') := by
  unfold goesOn at h
  split at h
  · rcases he : s.warpExpired with ⟨expired, s₁⟩
    rw [he] at h
    cases h
    obtain ⟨ht, hm, hs⟩ := warpExpired_some he
    exact ⟨ht, hm, fun hg => hs (by simpa using hg)⟩
  · cases h
    exact ⟨rfl, rfl, by simp⟩

open Exec

theorem yieldPoint_eq (s : Turn σ) :
    yieldPoint s = some (.ok (if s.goesOn.1 then .go else .pause), s.goesOn.2) := rfl

/-- At a yield point the thread stays as it is, and it goes on only with less time left. -/
theorem yieldPoint_some {r : Except BlockError Flow} (h : yieldPoint s = some (r, s')) :
    s'.thread = s.thread ∧ s'.machine.threads = s.machine.threads ∧
      (r = .ok .pause ∨ r = .ok .go ∧ s.Spends s') := by
  rcases hg : s.goesOn with ⟨goes, s₁⟩
  obtain ⟨ht, hm, hs⟩ := goesOn_some hg
  rw [yieldPoint_eq, hg] at h
  cases h
  refine ⟨ht, hm, ?_⟩
  cases goes with
  | true => exact .inr ⟨rfl, hs rfl⟩
  | false => exact .inl rfl

end Turn
end BlockMachine
