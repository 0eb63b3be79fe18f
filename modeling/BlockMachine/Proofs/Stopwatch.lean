import BlockMachine.Stopwatch
import Mathlib.MeasureTheory.Measure.Lebesgue.Basic
import Mathlib.MeasureTheory.Measure.Real

/-!
# What the project timer counts

The stopwatch holds two numbers. Whatever it was asked before, their distance is the length of the
time since the last reset in which it was not paused (`Counts`), and this is what it reports
(`timer_counts_unpaused_time`). Times are exact here.

The module is about `Stopwatch.query?`, over real numbers.

## Results

* `Counts`: the invariant, kept by every question that is asked.
* `timer_counts_unpaused_time`: the reading after any questions in the order of time.

Left out are the rounding of doubles and times that go back.
-/

namespace BlockMachine.Stopwatch

open MeasureTheory

/-- A question by name and the time at which it is asked. -/
structure Query where
  name : String
  time : ℝ

variable {past : List Query} {q : Query} {w : Stopwatch ℝ} {t now : ℝ} {b : Bool}

/-- The stopwatch after a question; one that it does not know changes nothing. -/
noncomputable def ask (w : Stopwatch ℝ) (q : Query) : Stopwatch ℝ :=
  ((w.query? q.name q.time).map Prod.snd).getD w

/-- A new stopwatch after questions. -/
noncomputable def after (past : List Query) : Stopwatch ℝ :=
  past.foldl ask new

/-! ## The time that counts -/

/-- The time of the last reset, zero before the first one. -/
def lastReset (past : List Query) : ℝ :=
  past.foldl (fun start q => if q.name = "resetProjectTimer" then q.time else start) 0

/-- Whether the last pause or resume up to a time was a pause. -/
def PausedAt (past : List Query) (t : ℝ) : Prop :=
  past.foldl (fun paused q =>
    q.time ≤ t ∧ q.name = "pause" ∨ paused ∧ ¬ (q.time ≤ t ∧ q.name = "resume")) False

/-- The time from the last reset on without the pauses. -/
def unpaused (past : List Query) (now : ℝ) : Set ℝ :=
  {t | lastReset past ≤ t ∧ t < now ∧ ¬ PausedAt past t}

theorem lastReset_snoc :
    lastReset (past ++ [q]) = if q.name = "resetProjectTimer" then q.time else lastReset past := by
  simp [lastReset]

theorem pausedAt_snoc : PausedAt (past ++ [q]) t ↔
    q.time ≤ t ∧ q.name = "pause" ∨ PausedAt past t ∧ ¬ (q.time ≤ t ∧ q.name = "resume") := by
  simp [PausedAt]

/-- The times of the questions do not decrease, from time zero up to `now`. -/
inductive InOrder : List Query → ℝ → Prop
  | start {now : ℝ} (h : 0 ≤ now) : InOrder [] now
  | ask {past : List Query} {q : Query} {now : ℝ} (h : InOrder past q.time) (hq : q.time ≤ now) :
      InOrder (past ++ [q]) now

/-! ## The invariant -/

/-- From a time on, the distance of the two numbers is the length of the time that counts. -/
structure Counts (past : List Query) (w : Stopwatch ℝ) (last : ℝ) : Prop where
  reset : lastReset past ≤ last
  paused : ∀ t, last ≤ t → (PausedAt past t ↔ w.pausedAt.isSome = true)
  length : ∀ now, last ≤ now → volume.real (unpaused past now) = w.pausedAt.getD now - w.start

theorem Counts.mono {last : ℝ} (h : Counts past w last) (hle : last ≤ now) : Counts past w now where
  reset := h.reset.trans hle
  paused t ht := h.paused t (hle.trans ht)
  length t ht := h.length t (hle.trans ht)

/-- The time from a question on counts as a whole or not at all if nothing is asked after it. -/
theorem rest_eq (hpaused : ∀ t, q.time ≤ t → (PausedAt past t ↔ b = true)) :
    {t | q.time ≤ t ∧ t < now ∧ ¬ PausedAt past t} = if b then ∅ else Set.Ico q.time now := by
  cases b with
  | true =>
    exact Set.eq_empty_of_forall_notMem fun t ⟨hle, _, hnot⟩ => hnot ((hpaused t hle).mpr rfl)
  | false =>
    exact Set.ext fun t => ⟨fun ⟨hle, hlt, _⟩ => ⟨hle, hlt⟩, fun ⟨hle, hlt⟩ =>
      ⟨hle, hlt, fun h => Bool.false_ne_true ((hpaused t hle).mp h)⟩⟩

theorem length_rest (hnow : q.time ≤ now) :
    volume.real (if b then ∅ else Set.Ico q.time now) = if b then 0 else now - q.time := by
  cases b with
  | true => exact measureReal_empty
  | false => exact Real.volume_real_Ico_of_le hnow

/-- A question that is no reset cuts the time in two: what counts before it is as it was. -/
theorem length_snoc (hname : q.name ≠ "resetProjectTimer") (hreset : lastReset past ≤ q.time)
    (hpaused : ∀ t, q.time ≤ t → (PausedAt (past ++ [q]) t ↔ b = true)) (hnow : q.time ≤ now) :
    volume.real (unpaused (past ++ [q]) now) =
      volume.real (unpaused past q.time) + if b then 0 else now - q.time := by
  have hsplit : unpaused (past ++ [q]) now =
      unpaused past q.time ∪ {t | q.time ≤ t ∧ t < now ∧ ¬ PausedAt (past ++ [q]) t} := by
    ext t
    unfold unpaused
    rw [lastReset_snoc, if_neg hname]
    by_cases ht : q.time ≤ t
    · simp [ht, hreset.trans ht]
    · have hlt := not_le.mp ht
      simp [pausedAt_snoc, ht, hlt, hlt.trans_le hnow]
  have hbounds : unpaused past q.time ⊆ Set.Ico (lastReset past) q.time :=
    fun t ht => ⟨ht.1, ht.2.1⟩
  have hfinite := measure_ne_top_of_subset hbounds (μ := volume) measure_Ico_lt_top.ne
  have hapart : Disjoint (unpaused past q.time) (Set.Ici q.time) :=
    Set.disjoint_left.mpr fun t ht ht' => not_lt.mpr ht' ht.2.1
  rw [hsplit, rest_eq hpaused, ← length_rest hnow]
  refine measureReal_union ?_ ?_ hfinite ?_ <;> cases b <;> simp
  exact hapart.mono_right Set.Ico_subset_Ici_self

section

variable (h : Counts past w q.time)

include h

/-- What a question that is no reset has to do to the two numbers. -/
theorem Counts.snoc {w' : Stopwatch ℝ} (hname : q.name ≠ "resetProjectTimer")
    (hpaused : ∀ t, q.time ≤ t → (PausedAt (past ++ [q]) t ↔ w'.pausedAt.isSome = true))
    (hlength : ∀ now, w.pausedAt.getD
      q.time - w.start + (if w'.pausedAt.isSome then 0 else now - q.time) =
      w'.pausedAt.getD now - w'.start) :
    Counts (past ++ [q]) w' q.time where
  reset := by
    rw [lastReset_snoc, if_neg hname]
    exact h.reset
  paused := hpaused
  length now hnow := by
    rw [length_snoc hname h.reset hpaused hnow, h.length _ le_rfl, hlength]

theorem Counts.restart (hname : q.name = "resetProjectTimer") :
    Counts (past ++ [q]) (w.restart q.time) q.time := by
  have hreset : lastReset (past ++ [q]) = q.time := by rw [lastReset_snoc, if_pos hname]
  have hpaused : ∀ t, q.time ≤ t → (PausedAt (past ++ [q]) t ↔ w.pausedAt.isSome = true) :=
    fun t ht => by
    simp [pausedAt_snoc, hname, h.paused t ht]
  refine ⟨hreset.le, fun t ht => ?_, fun now hnow => ?_⟩
  · rw [hpaused t ht, Stopwatch.restart, Option.isSome_map]
  · unfold unpaused
    rw [hreset, rest_eq hpaused, length_rest hnow]
    cases hw : w.pausedAt <;> simp [Stopwatch.restart, hw]

theorem Counts.same (hreset : q.name ≠ "resetProjectTimer") (hpause : q.name ≠ "pause")
    (hresume : q.name ≠ "resume") : Counts (past ++ [q]) w q.time := by
  refine h.snoc hreset (fun t ht => ?_) fun now => ?_
  · simp [pausedAt_snoc, hpause, hresume, h.paused t ht]
  · cases w.pausedAt <;> simp

theorem Counts.ask : Counts (past ++ [q]) (w.ask q) q.time := by
  unfold Stopwatch.ask query?
  split
  · next hname => exact h.same (by simp [hname]) (by simp [hname]) (by simp [hname])
  · next hname => exact h.restart hname
  · next hname =>
    refine h.snoc (by simp [hname]) (fun t ht => ?_) fun now => ?_
    · simp [pausedAt_snoc, hname, ht, pause]
    · simp [pause]
  · next hname =>
    refine h.snoc (by simp [hname]) (fun t ht => ?_) fun now => ?_
    · cases hw : w.pausedAt <;> simp [pausedAt_snoc, hname, ht, resume, hw]
    · cases hw : w.pausedAt <;> simp [resume, hw]
      ring
  · next hreset hpause hresume => exact h.same hreset hpause hresume

end

theorem counts_after (h : InOrder past now) : Counts past (after past) now := by
  induction h with
  | start h =>
    refine ⟨h, fun t _ => by simp [PausedAt, after, new], fun t ht => ?_⟩
    have hall : unpaused [] t = Set.Ico 0 t := by
      ext
      simp [unpaused, lastReset, PausedAt]
    rw [hall, Real.volume_real_Ico_of_le (h.trans ht)]
    rfl
  | @ask past q now _ hq ih =>
    have hstep := ih.ask.mono hq
    unfold after at hstep ⊢
    rwa [List.foldl_append]

/-- **The project timer counts unpaused time.** Whatever a new stopwatch was asked, at times that do
not decrease, it reports the length of the time since the last reset in which it was not paused, in
seconds; and a question of another name is refused. -/
theorem timer_counts_unpaused_time (h : InOrder past now) :
    (after past).query? "projectTimer" now =
        some (some (volume.real (unpaused past now) / 1000), after past) ∧
      ∀ name, name ∉ ["projectTimer", "resetProjectTimer", "pause", "resume"] →
        (after past).query? name now = none := by
  refine ⟨?_, fun name hname => ?_⟩
  · show some (some ((after past).seconds now), after past) = _
    rw [(counts_after h).length now le_rfl]
    rfl
  · unfold query?
    split <;> simp_all

/-- A pause that is asked for twice, with an unknown question in it, leaves two of six seconds. -/
theorem paused_timer_counts_two_seconds :
    let past := [⟨"pause", 1000⟩, ⟨"rewind", 1500⟩, ⟨"pause", 2000⟩, ⟨"resume", 5000⟩]
    InOrder past 6000 ∧ volume.real (unpaused past 6000) / 1000 = 2 ∧
      (after past).query? "projectTimer" 6000 =
        some (some (volume.real (unpaused past 6000) / 1000), after past) := by
  intro past
  have horder : InOrder past 6000 :=
    @InOrder.ask [_, _, _] _ _ (@InOrder.ask [_, _] _ _ (@InOrder.ask [_] _ _ (@InOrder.ask [] _ _
      (.start (by norm_num)) (by norm_num)) (by norm_num)) (by norm_num)) (by norm_num)
  have hreading := (timer_counts_unpaused_time horder).1
  have hafter : after past = ⟨0 + (5000 - 1000), none⟩ := rfl
  refine ⟨horder, ?_, hreading⟩
  rw [hafter] at hreading
  have hseconds := congrArg Prod.fst (Option.some.inj hreading)
  rw [← Option.some.inj hseconds]
  norm_num [seconds]

end BlockMachine.Stopwatch
