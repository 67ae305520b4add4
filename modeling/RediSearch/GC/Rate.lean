import RediSearch.GC.Reach
import Mathlib.Algebra.Order.Archimedean.Basic

/-!
# The collector's frequency and counters over runs of the world

`GC/Collector.lean` states the collector's frequency and cycle counters as a machine of their
own (`gcStep`): a pass that runs ends with `endPass` on its removals, a deletion hint raises
the frequency. This module connects that machine to the passes of the world model
(`PeriodicCallback` with its three collectors, the host steps at their yields, and passes that
throw or are cut off).

The collectors never write the collector's frequency, counters or loading flag (the numeric
collector writes only its collection states), so a pass either leaves the frequency and the
counters as they were (it was skipped while the host loads, or it threw or was cut off) or
moves them as `endPass` does on some removal count (`PeriodicCallback_rate`). Every run of
world events is therefore simulated by a run of the collector machine with one input per pass
that ran to its end (`gcEvents_refine_collector`), and the band invariant `GcInv` holds along
every run of the world (`gc_band_over_world_runs`). Over runs of passes of one kind the
frequency reaches its bound and stays there (`hz_settles`). What `FT.INFO` reports of the collector
(`RenderStats`) is then in range along every run: a frequency in the band and an
effective-cycles rate in `[0, 1]` (`RenderStats_in_band`).
-/

namespace RediSearch

open GarbageCollector

/-- What `GetInterval` and the cycle counters of `RenderStats` read: the frequency and the
counters. -/
def GarbageCollector.rate (g : GarbageCollector) : ℚ × GcStats := (g.hz, g.stats)

section Rate

variable (B : HzBounds)

/-- The end of a pass reads only the frequency and the counters. -/
theorem endPass_rate_congr {g g' : GarbageCollector} (h : g.rate = g'.rate) (n : Nat) :
    (endPass B g n).rate = (endPass B g' n).rate := by
  simp only [rate, Prod.mk.injEq] at h
  simp [rate, endPass, h.1, h.2]

/-- A pass that runs is an `endPass` on the collector, whatever its loading flag was. -/
theorem gcStep_periodic_false_rate (g : GarbageCollector) (n : Nat) :
    (gcStep B g (.periodic false n)).rate = (endPass B g n).rate := by
  simp [gcStep, rate, endPass]

/-- Runs of passes that run read only the frequency and the counters of where they start. -/
theorem gcRun_periodic_rate_congr {g g' : GarbageCollector} (h : g.rate = g'.rate) :
    ∀ ns : List Nat, (gcRun B g (ns.map (.periodic false))).rate =
      (gcRun B g' (ns.map (.periodic false))).rate
  | [] => h
  | n :: ns => by
    simp only [List.map_cons, gcRun, List.foldl_cons]
    refine gcRun_periodic_rate_congr ?_ ns
    rw [gcStep_periodic_false_rate, gcStep_periodic_false_rate, endPass_rate_congr B h]

/-- The band invariant reads only the frequency and the counters. -/
theorem GcInv.of_rate {g g' : GarbageCollector} (h : GcInv B g) (he : g'.rate = g.rate) :
    GcInv B g' := by
  simp only [rate, Prod.mk.injEq] at he
  simpa only [GcInv, he.1, he.2] using h

end Rate

/-! ## The frequency settles

`PeriodicCallback` moves `hz` by a factor at the end of every pass that runs: `1.2` after one that
removed records, clamped to `GC_MAX_HZ`, and `0.99` after one that did not, clamped to
`GC_MIN_HZ`. Over a run of passes of one kind the clamps compose into one, and the frequency
reaches its bound after finitely many passes and stays there. -/

section Settles

variable (B : HzBounds)

theorem gcRun_periodic_append (g : GarbageCollector) (ns : List Nat) (t : Nat) :
    gcRun B g ((ns ++ [t]).map (.periodic false)) =
      endPass B { gcRun B g (ns.map (.periodic false)) with rdbPossiblyLoading := false } t := by
  simp [gcRun_append, gcRun, gcStep]

/-- Passes that remove nothing slow the collector by 1% each, down to `GC_MIN_HZ`. -/
theorem hz_idle_run (g : GarbageCollector) (h : B.GC_MIN_HZ ≤ g.hz) (n : Nat) :
    (gcRun B g ((List.replicate n 0).map (.periodic false))).hz =
      max (g.hz * (99 / 100) ^ n) B.GC_MIN_HZ := by
  induction n with
  | zero => simp [gcRun, max_eq_left h]
  | succ n ih =>
    have hmin : B.GC_MIN_HZ * (99 / 100) ≤ B.GC_MIN_HZ := by linarith [B.min_pos]
    rw [List.replicate_succ', gcRun_periodic_append]
    simp only [endPass, lt_irrefl, if_false, ih, max_mul_of_nonneg _ _ (by norm_num : (0 : ℚ) ≤ 99 / 100),
      pow_succ, mul_assoc, max_assoc, max_eq_right hmin]

/-- Passes that each remove something speed the collector up by 20% each, up to
`GC_MAX_HZ`. -/
theorem hz_busy_run (g : GarbageCollector) (h : g.hz ≤ B.GC_MAX_HZ) (ns : List Nat)
    (hns : ∀ t ∈ ns, 0 < t) :
    (gcRun B g (ns.map (.periodic false))).hz = min (g.hz * (6 / 5) ^ ns.length) B.GC_MAX_HZ := by
  induction ns using List.reverseRecOn with
  | nil => simp [gcRun, min_eq_left h]
  | append_singleton ns t ih =>
    have hmax : B.GC_MAX_HZ ≤ B.GC_MAX_HZ * (6 / 5) := by linarith [B.min_pos, B.min_le_max]
    have ht : 0 < t := hns t (by simp)
    rw [gcRun_periodic_append]
    simp only [endPass, ht, if_true, ih fun t ht => hns t (by simp [ht]),
      min_mul_of_nonneg _ _ (by norm_num : (0 : ℚ) ≤ 6 / 5), List.length_append,
      List.length_singleton, pow_succ, mul_assoc, min_assoc, min_eq_right hmax]

/-- From a collector in its band there is a number of passes `N` such that every run of at
least `N` passes that removed nothing leaves it at `GC_MIN_HZ`, and every run of at least `N`
passes that each removed something leaves it at `GC_MAX_HZ`. -/
theorem hz_settles (g : GarbageCollector) (h : GcInv B g) :
    ∃ N, ∀ ns : List Nat, N ≤ ns.length →
      ((∀ t ∈ ns, t = 0) → (gcRun B g (ns.map (.periodic false))).hz = B.GC_MIN_HZ) ∧
      ((∀ t ∈ ns, 0 < t) → (gcRun B g (ns.map (.periodic false))).hz = B.GC_MAX_HZ) := by
  have hpos := h.hz_pos
  obtain ⟨N₁, hN₁⟩ := exists_pow_lt_of_lt_one (div_pos B.min_pos hpos)
    (by norm_num : (99 / 100 : ℚ) < 1)
  obtain ⟨N₂, hN₂⟩ := pow_unbounded_of_one_lt (B.GC_MAX_HZ / g.hz) (by norm_num : (1 : ℚ) < 6 / 5)
  refine ⟨max N₁ N₂, fun ns hlen => ⟨fun h0 => ?_, fun hp => ?_⟩⟩
  · -- `hz * 0.99 ^ n` has fallen below `GC_MIN_HZ`
    have hlt : (99 / 100 : ℚ) ^ ns.length * g.hz < B.GC_MIN_HZ := (lt_div_iff₀ hpos).1 <|
      (pow_le_pow_of_le_one (by norm_num) (by norm_num) (le_of_max_le_left hlen)).trans_lt hN₁
    rw [List.eq_replicate_iff.2 ⟨rfl, h0⟩, hz_idle_run B g h.1, max_eq_right (by linarith)]
  · -- `hz * 1.2 ^ n` has risen above `GC_MAX_HZ`
    have hlt : B.GC_MAX_HZ < (6 / 5 : ℚ) ^ ns.length * g.hz := (div_lt_iff₀ hpos).1 <|
      hN₂.trans_le (pow_le_pow_right₀ (by norm_num) (le_of_max_le_right hlen))
    rw [hz_busy_run B g h.2.1 ns hp, min_eq_right (by linarith)]

theorem hz_settles_new :
    GcInv defaultHzBounds (new (.index "idx") 10 1 0) ∧
    ∃ N, ∀ ns : List Nat, N ≤ ns.length →
      ((∀ t ∈ ns, t = 0) → (gcRun defaultHzBounds (new (.index "idx") 10 1 0)
        (ns.map (.periodic false))).hz = defaultHzBounds.GC_MIN_HZ) ∧
      ((∀ t ∈ ns, 0 < t) → (gcRun defaultHzBounds (new (.index "idx") 10 1 0)
        (ns.map (.periodic false))).hz = defaultHzBounds.GC_MAX_HZ) :=
  have h : GcInv defaultHzBounds (new (.index "idx") 10 1 0) := by
    norm_num [GcInv, new, defaultHzBounds]
  ⟨h, hz_settles defaultHzBounds _ h⟩

end Settles

/-! ## The collectors leave the frequency and the counters alone -/

section Collectors

variable (cap scan : Nat)

theorem termLoop_gc (name term : String) :
    ∀ fuel blockNum total (w : GcWorld), (termLoop cap scan name term fuel blockNum total w).1.gc = w.gc
  | 0, _, _, _ => rfl
  | fuel + 1, blockNum, total, w => by
    simp only [termLoop]
    generalize w.ks.openInvIdx (.term name term) = p
    generalize p.2.Repair (p.1.docsOf name) blockNum scan = R
    split_ifs
    · rfl
    · simp
    · exact (termLoop_gc name term fuel _ _ _).trans (by simp)

theorem tagLoop_gc (name : String) (k : Key) (value : String) :
    ∀ fuel ident blockNum total (w : GcWorld),
      (tagLoop cap scan name k value fuel ident blockNum total w).1.gc = w.gc
  | 0, _, _, _, _ => rfl
  | fuel + 1, ident, blockNum, total, w => by
    simp only [tagLoop, GcWorld.ks_record]
    generalize repairTagValue scan w.ks k value ident (w.ks.docsOf name) blockNum = R
    split_ifs
    · rfl
    · simp
    · split
      · simp
      · split
        · simp
        · exact (tagLoop_gc name k value fuel _ _ _ _).trans (by simp)

theorem numLoop_gc (name : String) (k : Key) (g : NumericFieldGC) (fuel ident blockNum total : Nat)
    (w : GcWorld) : (numLoop cap scan name k g fuel ident blockNum total w).1.gc = w.gc :=
  numLoop_preserves cap scan (·.gc = w.gc) name k g (fun _ _ _ h _ => h)
    (fun w' h => (gc_yield cap w').trans h) (fun _ h => h) fuel ident blockNum total w rfl

theorem CollectRandomTerm_gc (fuel : Nat) (ch : GcChoices) (w : GcWorld) :
    (CollectRandomTerm cap scan fuel ch w).1.gc = w.gc :=
  CollectRandomTerm_preserves cap scan (·.gc = w.gc) rfl rfl fun _ _ =>
    termLoop_gc cap scan _ _ fuel 0 0 w

theorem CollectTagIndex_gc (fuel : Nat) (ch : GcChoices) (w : GcWorld) :
    (CollectTagIndex cap scan fuel ch w).1.gc = w.gc :=
  CollectTagIndex_preserves cap scan (·.gc = w.gc) rfl rfl fun _ _ _ _ =>
    tagLoop_gc cap scan _ _ _ fuel _ 0 0 w

/-- The numeric collector writes only its collection states. -/
theorem CollectNumericIndex_rate (fuel : Nat) (ch : GcChoices) (w : GcWorld) :
    (CollectNumericIndex cap scan fuel ch w).1.gc.rate = w.gc.rate :=
  CollectNumericIndex_preserves cap scan (·.gc.rate = w.gc.rate) rfl rfl (fun _ _ _ _ _ => rfl)
    fun _ _ _ _ _ hw =>
      (congrArg GarbageCollector.rate (numLoop_gc cap scan _ _ _ fuel _ 0 0 _)).trans hw

end Collectors

/-! ## Passes and runs of the world -/

section Runs

variable (cap scan : Nat) (B : HzBounds)

/-- A pass leaves the frequency and the counters as they were (it was skipped while the host
loads, or a collector threw or was cut off), or moves them as `endPass` does on some removal
count: whatever the collectors remove and whatever the host does at their yields. -/
theorem PeriodicCallback_rate (fuel : Nat) (loading : Bool) (ch : GcChoices) (w : GcWorld) :
    (PeriodicCallback cap scan B fuel loading ch w).1.gc.rate = w.gc.rate ∨
      ∃ n, (PeriodicCallback cap scan B fuel loading ch w).1.gc.rate = (endPass B w.gc n).rate := by
  have after : ∀ {α : Type} {f : GcWorld → GcWorld × α}, (∀ w, (f w).1.gc.rate = w.gc.rate) →
      ∀ w w' (x : α), f w = (w', x) → w'.gc.rate = w.gc.rate := by
    intro _ _ hf w _ _ he
    simpa [he] using hf w
  have hT := after fun w => congrArg GarbageCollector.rate (CollectRandomTerm_gc cap scan fuel ch w)
  have hN := after (CollectNumericIndex_rate cap scan fuel ch)
  have hG := after fun w => congrArg GarbageCollector.rate (CollectTagIndex_gc cap scan fuel ch w)
  unfold PeriodicCallback
  split_ifs
  · exact .inl rfl
  dsimp only
  -- a pass cut off or left by an exception keeps the rate of the world it stopped in
  split
  next _ he => exact .inl ((hT _ _ _ he).trans rfl)
  next _ _ he => exact .inl ((hT _ _ _ he).trans rfl)
  next _ he => exact .inl ((hT _ _ _ he).trans rfl)
  next w₁ _ he₁ =>
  have h₁ : w₁.gc.rate = w.gc.rate := (hT _ _ _ he₁).trans rfl
  split
  next _ he => exact .inl ((hN _ _ _ he).trans h₁)
  next _ _ he => exact .inl ((hN _ _ _ he).trans h₁)
  next _ he => exact .inl ((hN _ _ _ he).trans h₁)
  next w₂ _ he₂ =>
  have h₂ : w₂.gc.rate = w.gc.rate := (hN _ _ _ he₂).trans h₁
  split
  next _ he => exact .inl ((hG _ _ _ he).trans h₂)
  next _ _ he => exact .inl ((hG _ _ _ he).trans h₂)
  next _ he => exact .inl ((hG _ _ _ he).trans h₂)
  next _ _ he₃ => exact .inr ⟨_, endPass_rate_congr B ((hG _ _ _ he₃).trans h₂) _⟩

theorem gcEventStep_rate (w : GcWorld) (e : GcEvent) :
    (gcEventStep cap scan B w e).gc.rate = w.gc.rate ∨
      ∃ n, (gcEventStep cap scan B w e).gc.rate = (endPass B w.gc n).rate := by
  cases e with
  | pass fuel loading ch steps => exact PeriodicCallback_rate cap scan B fuel loading ch _
  | host h => exact .inl rfl

/-- Steps of events, one after another, move the frequency and the counters as a run of
`gcStep` with at most one pass per event. -/
theorem gcEventSteps_rate (w : GcWorld) (evs : List GcEvent) :
    ∃ ns : List Nat, ns.length ≤ evs.length ∧
      (evs.foldl (gcEventStep cap scan B) w).gc.rate = (gcRun B w.gc (ns.map (.periodic false))).rate := by
  induction evs generalizing w with
  | nil => exact ⟨[], le_rfl, rfl⟩
  | cons e evs ih =>
    obtain ⟨ns, hlen, hrun⟩ := ih (gcEventStep cap scan B w e)
    rcases gcEventStep_rate cap scan B w e with h | ⟨n, h⟩
    · exact ⟨ns, by simp only [List.length_cons]; omega,
        hrun.trans (gcRun_periodic_rate_congr B h ns)⟩
    · refine ⟨n :: ns, by simp only [List.length_cons]; omega, hrun.trans ?_⟩
      exact gcRun_periodic_rate_congr B (h.trans (gcStep_periodic_false_rate B w.gc n).symm) ns

/-- The world refines the collector machine: after every run of passes and host steps, the
frequency and the counters are those of a run of `gcStep` from the same collector with one
pass per world pass that ran to its end. -/
theorem gcEvents_refine_collector (w : GcWorld) (evs : List GcEvent) :
    ∃ ns : List Nat, ns.length ≤ evs.length ∧
      (runGcEvents cap scan B w evs).gc.rate = (gcRun B w.gc (ns.map (.periodic false))).rate := by
  obtain ⟨pre, hpre, hrun⟩ := runSteps_eq_prefix _ w evs
  obtain ⟨ns, hlen, hns⟩ := gcEventSteps_rate cap scan B w pre
  exact ⟨ns, hlen.trans hpre.length_le, (congrArg (·.gc.rate) hrun).trans hns⟩

theorem gcEventStep_gcInv {w : GcWorld} (h : GcInv B w.gc) (e : GcEvent) :
    GcInv B (gcEventStep cap scan B w e).gc := by
  rcases gcEventStep_rate cap scan B w e with he | ⟨n, he⟩
  · exact h.of_rate B he
  · exact (gcStep_inv h (.periodic false n)).of_rate B
      (he.trans (gcStep_periodic_false_rate B w.gc n).symm)

theorem runGcEvents_gcInv (evs : List GcEvent) (w : GcWorld) (h : GcInv B w.gc) :
    GcInv B (runGcEvents cap scan B w evs).gc :=
  runGcEvents_preserves cap scan B (fun w => GcInv B w.gc) (fun _ e _ h => gcEventStep_gcInv cap scan B h e)
    w h

/-- Along every run of passes and host steps, from a collector in its band: the frequency
stays in `[GC_MIN_HZ, GC_MAX_HZ]`, there are no more effective cycles than cycles, and
`GetInterval` is the period `1 / hz` cut down to whole nanoseconds. -/
theorem gc_band_over_world_runs (w : GcWorld) (evs : List GcEvent) (h : GcInv B w.gc) :
    GcInv B (runGcEvents cap scan B w evs).gc ∧
      (GetInterval (runGcEvents cap scan B w evs).gc).Truncates (runGcEvents cap scan B w evs).gc.hz :=
  have hinv := runGcEvents_gcInv cap scan B evs w h
  ⟨hinv, hzToTimeSpec_truncates hinv.hz_pos⟩

theorem gc_band_over_world_runs_gcWorld :
    GcInv defaultHzBounds (gcWorld 1).gc ∧
    GcInv defaultHzBounds (runGcEvents 100 1 defaultHzBounds (gcWorld 1)
      [.pass 10 false ⟨none, 0, 0, 0⟩ [], .host .skip, .pass 10 true ⟨none, 0, 0, 0⟩ []]).gc ∧
    (GetInterval (runGcEvents 100 1 defaultHzBounds (gcWorld 1)
      [.pass 10 false ⟨none, 0, 0, 0⟩ [], .host .skip, .pass 10 true ⟨none, 0, 0, 0⟩ []]).gc).Truncates
      (runGcEvents 100 1 defaultHzBounds (gcWorld 1)
        [.pass 10 false ⟨none, 0, 0, 0⟩ [], .host .skip, .pass 10 true ⟨none, 0, 0, 0⟩ []]).gc.hz :=
  have h : GcInv defaultHzBounds (gcWorld 1).gc := by
    norm_num [GcInv, gcWorld, defaultHzBounds]
  ⟨h, gc_band_over_world_runs 100 1 defaultHzBounds (gcWorld 1) _ h⟩

/-! ## What `FT.INFO` reports -/

/-- The effective cycles over the cycles, as `RenderStats` sends it:
`(double)stats.effectiveCycles / (double)(stats.numCycles ? stats.numCycles : 1)`. -/
def GcStats.cyclesRate (s : GcStats) : ℚ :=
  (s.effectiveCycles : ℚ) / ((if s.numCycles ≠ 0 then s.numCycles else 1 : Nat) : ℚ)

/-- With no more effective cycles than cycles the rate is a fraction, `0` before the first
cycle. -/
theorem GcStats.cyclesRate_mem {s : GcStats} (h : s.effectiveCycles ≤ s.numCycles) :
    0 ≤ s.cyclesRate ∧ s.cyclesRate ≤ 1 := by
  refine ⟨by unfold GcStats.cyclesRate; positivity, ?_⟩
  unfold GcStats.cyclesRate
  split_ifs with hn
  · exact div_le_one_of_le₀ (by exact_mod_cast h) (Nat.cast_nonneg _)
  · have h0 : s.effectiveCycles = 0 := by omega
    simp [h0]

/-- `GarbageCollector::RenderStats`: the reply to `FT.INFO`, each key with its value sent as a
double (the array's length `n` counts the keys and the values). `bytes_collected` reads
`stats.totalCollected`, which no modelled function keeps: it is the argument. -/
def GarbageCollector.RenderStats (g : GarbageCollector) (totalCollected : ℚ) :
    List (String × ℚ) :=
  [("current_hz", g.hz), ("bytes_collected", totalCollected),
    ("effectiv_cycles_rate", g.stats.cyclesRate)]

/-- A collector in its band reports a frequency in the band and a rate that is a fraction. -/
theorem GcInv.RenderStats_mem {g : GarbageCollector} (h : GcInv B g) (totalCollected : ℚ) :
    ∀ p ∈ g.RenderStats totalCollected,
      (p.1 = "current_hz" → B.GC_MIN_HZ ≤ p.2 ∧ p.2 ≤ B.GC_MAX_HZ) ∧
      (p.1 = "effectiv_cycles_rate" → 0 ≤ p.2 ∧ p.2 ≤ 1) := by
  simp only [GarbageCollector.RenderStats, List.mem_cons, List.mem_singleton, List.not_mem_nil,
    or_false]
  rintro p (rfl | rfl | rfl) <;> dsimp only
  · exact ⟨fun _ => ⟨h.1, h.2.1⟩, fun he => absurd he (by decide)⟩
  · exact ⟨fun he => absurd he (by decide), fun he => absurd he (by decide)⟩
  · exact ⟨fun he => absurd he (by decide), fun _ => GcStats.cyclesRate_mem h.2.2⟩

/-- Along every run of passes and host steps, from a collector in its band, `FT.INFO` reports
a frequency in `[GC_MIN_HZ, GC_MAX_HZ]` and an effective-cycles rate in `[0, 1]`, whatever
it reports as collected. -/
theorem RenderStats_in_band (w : GcWorld) (evs : List GcEvent) (h : GcInv B w.gc)
    (totalCollected : ℚ) :
    ∀ p ∈ (runGcEvents cap scan B w evs).gc.RenderStats totalCollected,
      (p.1 = "current_hz" → B.GC_MIN_HZ ≤ p.2 ∧ p.2 ≤ B.GC_MAX_HZ) ∧
      (p.1 = "effectiv_cycles_rate" → 0 ≤ p.2 ∧ p.2 ≤ 1) :=
  GcInv.RenderStats_mem B (runGcEvents_gcInv cap scan B evs w h) totalCollected

theorem RenderStats_in_band_gcWorld :
    GcInv defaultHzBounds (gcWorld 1).gc ∧
    ∀ p ∈ (runGcEvents 100 1 defaultHzBounds (gcWorld 1)
        [.pass 10 false ⟨none, 0, 0, 0⟩ [], .host .skip, .pass 10 true ⟨none, 0, 0, 0⟩ []]).gc.RenderStats 0,
      (p.1 = "current_hz" → defaultHzBounds.GC_MIN_HZ ≤ p.2 ∧ p.2 ≤ defaultHzBounds.GC_MAX_HZ) ∧
      (p.1 = "effectiv_cycles_rate" → 0 ≤ p.2 ∧ p.2 ≤ 1) :=
  have h : GcInv defaultHzBounds (gcWorld 1).gc := by
    norm_num [GcInv, gcWorld, defaultHzBounds]
  ⟨h, RenderStats_in_band 100 1 defaultHzBounds (gcWorld 1) _ h 0⟩

end Runs

end RediSearch
