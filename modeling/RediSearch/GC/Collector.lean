import RediSearch.Index.Store
import Mathlib.Algebra.Order.Field.Rat
import Mathlib.Data.Rat.Floor
import Mathlib.Tactic.Linarith
import Mathlib.Tactic.NormNum

/-!
# The garbage collector's own state

A `GarbageCollector` keeps the key of its index, the `uniqueId` it checks the index against,
its frequency `hz`, its cycle counters, whether the host may still be loading a snapshot,
and one `NumericFieldGC` per numeric field it has visited.

Its frequency moves only at the end of a pass and on a deletion hint: up by 1.2 after a pass
that removed records, down by 0.99 after one that did not, up by 1.5 on `OnDelete`, each
clamped on one side to `[GC_MIN_HZ, GC_MAX_HZ]`. `hz` is a `float` in the sources; it is
modelled over the rationals. The bounds are the configuration's (`HzBounds`), which the
sources do not define.

`hz_run` shows that a collector built in the band stays in it, whatever the sequence of
passes and hints, and `GetInterval_run` that the `timespec` `GetInterval` makes of its `hz` is
then the period `1 / hz` cut down to whole nanoseconds.
-/

namespace RediSearch

/-- `GC_MIN_HZ` and `GC_MAX_HZ`. Modelled from the spec: a positive band. -/
structure HzBounds where
  GC_MIN_HZ : ℚ
  GC_MAX_HZ : ℚ
  min_pos : 0 < GC_MIN_HZ
  min_le_max : GC_MIN_HZ ≤ GC_MAX_HZ

/-- The collector's cycle counters. -/
structure GcStats where
  numCycles : Nat
  effectiveCycles : Nat
  deriving DecidableEq, Repr

/-- `NumericFieldGC`: the tree a numeric field's collection last ran on, by identity, the
`revisionId` it had then, and the range identities its `gcIterator` has still to visit. -/
structure NumericFieldGC where
  rt : Nat
  revisionId : Nat
  gcIterator : List Nat
  deriving DecidableEq, Repr

/-- `struct timespec`. -/
structure TimeSpec where
  tv_sec : Int
  tv_nsec : Int
  deriving DecidableEq, Repr

/-- `hzToTimeSpec(hz)`: `floor(1.0 / hz)` seconds and `floor(1000000000.0 / hz) % 1000000000L`
nanoseconds; `%` on a `long` truncates toward zero. -/
def hzToTimeSpec (hz : ℚ) : TimeSpec :=
  ⟨⌊1 / hz⌋, ⌊1000000000 / hz⌋.tmod 1000000000⟩

/-- `t` is the period `1 / hz` cut down to whole nanoseconds. -/
def TimeSpec.Truncates (t : TimeSpec) (hz : ℚ) : Prop :=
  0 ≤ t.tv_nsec ∧ t.tv_nsec < 1000000000 ∧
    ((t.tv_sec * 1000000000 + t.tv_nsec : ℤ) : ℚ) ≤ 1000000000 / hz ∧
    1000000000 / hz < ((t.tv_sec * 1000000000 + t.tv_nsec : ℤ) : ℚ) + 1

/-- For a positive frequency, the seconds are the nanoseconds' quotient by `10^9` and the
nanoseconds their remainder: the timespec is `1 / hz` cut down to whole nanoseconds. -/
theorem hzToTimeSpec_truncates {hz : ℚ} (h : 0 < hz) : (hzToTimeSpec hz).Truncates hz := by
  obtain ⟨N, hN⟩ : ∃ N, ⌊(1000000000 : ℚ) / hz⌋ = N := ⟨_, rfl⟩
  have hlo : (N : ℚ) ≤ 1000000000 / hz := hN ▸ Int.floor_le _
  have hhi : 1000000000 / hz < (N : ℚ) + 1 := hN ▸ Int.lt_floor_add_one _
  have hN0 : 0 ≤ N := hN ▸ Int.floor_nonneg.2 (by positivity)
  have hr0 := Int.emod_nonneg N (by norm_num : (1000000000 : ℤ) ≠ 0)
  have hr1 := Int.emod_lt_of_pos N (by norm_num : (0 : ℤ) < 1000000000)
  have hqr : N / 1000000000 * 1000000000 + N % 1000000000 = N := by
    rw [add_comm, mul_comm, Int.emod_add_ediv]
  -- the seconds are the quotient of the nanoseconds by `10^9`
  have hsec : ⌊1 / hz⌋ = N / 1000000000 := by
    have hr0' : (0 : ℚ) ≤ (N % 1000000000 : ℤ) := by exact_mod_cast hr0
    have hr1' : ((N % 1000000000 : ℤ) : ℚ) + 1 ≤ 1000000000 := by exact_mod_cast hr1
    have hq : ((N / 1000000000 : ℤ) : ℚ) * 1000000000 + (N % 1000000000 : ℤ) = N := by
      exact_mod_cast hqr
    have hdiv : (1000000000 : ℚ) / hz = 1000000000 * (1 / hz) := by ring
    rw [Int.floor_eq_iff]
    constructor <;> linarith
  have hns : N.tmod 1000000000 = N % 1000000000 := Int.tmod_eq_emod hN0 (by norm_num)
  simp only [TimeSpec.Truncates, hzToTimeSpec, hsec, hN, hns, hqr]
  exact ⟨hr0, hr1, hlo, hhi⟩

/-- `GarbageCollector`. -/
structure GarbageCollector where
  keyName : Key
  hz : ℚ
  stats : GcStats
  rdbPossiblyLoading : Bool
  specUniqueId : Nat
  numericGC : List NumericFieldGC

namespace GarbageCollector

/-- `GarbageCollector::GarbageCollector(k, initialHZ, specUniqueId)`. The body's
`specUniqueId = specUniqueId` assigns the parameter to itself: the member keeps `unset`,
whatever the class's initializer or the allocation left in it. -/
def new (k : Key) (initialHZ : ℚ) (_specUniqueId : Nat) (unset : Nat) : GarbageCollector :=
  ⟨k, initialHZ, ⟨0, 0⟩, true, unset, []⟩

variable (B : HzBounds)

/-- `GarbageCollector::OnDelete()`. -/
def OnDelete (g : GarbageCollector) : GarbageCollector :=
  { g with hz := min (g.hz * (3 / 2)) B.GC_MAX_HZ }

/-- The end of a pass of `PeriodicCallback` that removed `totalRemoved` records. -/
def endPass (g : GarbageCollector) (totalRemoved : Nat) : GarbageCollector :=
  { g with
    stats := ⟨g.stats.numCycles + 1,
      g.stats.effectiveCycles + if 0 < totalRemoved then 1 else 0⟩
    hz := if 0 < totalRemoved then min (g.hz * (6 / 5)) B.GC_MAX_HZ
      else max (g.hz * (99 / 100)) B.GC_MIN_HZ }

/-- `GarbageCollector::GetInterval()`. -/
def GetInterval (g : GarbageCollector) : TimeSpec := hzToTimeSpec g.hz

end GarbageCollector

/-! ## The rate over runs -/

/-- What happens to a collector between two observations: a call of `PeriodicCallback`,
which asks whether the host is loading a snapshot and, when it runs the collectors, gets
their removals; or a call of `OnDelete`. -/
inductive GcInput
  | periodic (loading : Bool) (totalRemoved : Nat)
  | onDelete
  deriving DecidableEq, Repr

open GarbageCollector

variable (B : HzBounds)

/-- One input on the collector's own state. `PeriodicCallback` skips the pass while the host
loads a snapshot, as long as it has not yet seen it not loading. -/
def gcStep (g : GarbageCollector) : GcInput → GarbageCollector
  | .periodic loading total =>
    if g.rdbPossiblyLoading && loading then g
    else endPass B { g with rdbPossiblyLoading := false } total
  | .onDelete => OnDelete B g

/-- A run of inputs. -/
def gcRun (g : GarbageCollector) (xs : List GcInput) : GarbageCollector := xs.foldl (gcStep B) g

/-- The collector invariant: `hz` in the band, at most as many effective cycles as cycles. -/
def GcInv (g : GarbageCollector) : Prop :=
  B.GC_MIN_HZ ≤ g.hz ∧ g.hz ≤ B.GC_MAX_HZ ∧ g.stats.effectiveCycles ≤ g.stats.numCycles

variable {B}

theorem GcInv.hz_pos {g : GarbageCollector} (h : GcInv B g) : 0 < g.hz :=
  lt_of_lt_of_le B.min_pos h.1

theorem gcStep_inv {g : GarbageCollector} (h : GcInv B g) (x : GcInput) :
    GcInv B (gcStep B g x) := by
  obtain ⟨hlo, hhi, hc⟩ := h
  have hpos : 0 < g.hz := lt_of_lt_of_le B.min_pos hlo
  cases x with
  | onDelete =>
    refine ⟨le_min ?_ B.min_le_max, min_le_right _ _, hc⟩
    linarith
  | periodic loading total =>
    simp only [gcStep]
    split_ifs
    · exact ⟨hlo, hhi, hc⟩
    · refine ⟨?_, ?_, ?_⟩ <;> simp only [endPass]
      · split_ifs
        · exact le_min (by linarith) B.min_le_max
        · exact le_max_right _ _
      · split_ifs
        · exact min_le_right _ _
        · exact max_le (by linarith) B.min_le_max
      · split_ifs <;> omega

theorem gcStep_rdb {g : GarbageCollector} (x : GcInput) (h : g.rdbPossiblyLoading = false) :
    (gcStep B g x).rdbPossiblyLoading = false := by
  cases x <;> simp [gcStep, h, endPass, OnDelete]

theorem gcRun_inv {g : GarbageCollector} (h : GcInv B g) (xs : List GcInput) :
    GcInv B (gcRun B g xs) := by
  induction xs generalizing g with
  | nil => exact h
  | cons x xs ih => exact ih (gcStep_inv h x)

theorem gcRun_rdb {g : GarbageCollector} (xs : List GcInput) (h : g.rdbPossiblyLoading = false) :
    (gcRun B g xs).rdbPossiblyLoading = false := by
  induction xs generalizing g with
  | nil => exact h
  | cons x xs ih => exact ih (gcStep_rdb x h)

theorem gcRun_append (g : GarbageCollector) (xs ys : List GcInput) :
    gcRun B g (xs ++ ys) = gcRun B (gcRun B g xs) ys := List.foldl_append _ _ _ _

/-- `GC_MIN_HZ = 1`, `GC_MAX_HZ = 100`. -/
def defaultHzBounds : HzBounds := ⟨1, 100, by norm_num, by norm_num⟩

/-- A collector built with `GC_MIN_HZ ≤ initialHZ ≤ GC_MAX_HZ` keeps, after every sequence of
passes and deletion hints, its frequency in the band (so `GetInterval` divides by a positive
`hz`) and no more effective cycles than cycles; once it has seen the host not loading, it never
asks again. -/
theorem hz_run (k : Key) (initialHZ : ℚ) (uid unset : Nat)
    (hlo : B.GC_MIN_HZ ≤ initialHZ) (hhi : initialHZ ≤ B.GC_MAX_HZ) (xs : List GcInput) :
    GcInv B (gcRun B (new k initialHZ uid unset) xs) ∧
    0 < (gcRun B (new k initialHZ uid unset) xs).hz ∧
    ∀ ys, (gcRun B (new k initialHZ uid unset) xs).rdbPossiblyLoading = false →
      (gcRun B (new k initialHZ uid unset) (xs ++ ys)).rdbPossiblyLoading = false := by
  have hinv := gcRun_inv (B := B) (g := new k initialHZ uid unset) ⟨hlo, hhi, le_rfl⟩ xs
  refine ⟨hinv, hinv.hz_pos, fun ys h => ?_⟩
  rw [gcRun_append]
  exact gcRun_rdb ys h

theorem hz_run_default :
    defaultHzBounds.GC_MIN_HZ ≤ 10 ∧ (10 : ℚ) ≤ defaultHzBounds.GC_MAX_HZ ∧
    GcInv defaultHzBounds (gcRun defaultHzBounds (new (.index "idx") 10 1 0)
      [.periodic true 0, .onDelete, .periodic false 3, .periodic true 0]) ∧
    0 < (gcRun defaultHzBounds (new (.index "idx") 10 1 0)
      [.periodic true 0, .onDelete, .periodic false 3, .periodic true 0]).hz ∧
    ∀ ys, (gcRun defaultHzBounds (new (.index "idx") 10 1 0)
        [.periodic true 0, .onDelete, .periodic false 3, .periodic true 0]).rdbPossiblyLoading =
          false →
      (gcRun defaultHzBounds (new (.index "idx") 10 1 0)
        ([.periodic true 0, .onDelete, .periodic false 3, .periodic true 0] ++ ys)).rdbPossiblyLoading =
          false :=
  have hlo : defaultHzBounds.GC_MIN_HZ ≤ 10 := by norm_num [defaultHzBounds]
  have hhi : (10 : ℚ) ≤ defaultHzBounds.GC_MAX_HZ := by norm_num [defaultHzBounds]
  ⟨hlo, hhi, hz_run (.index "idx") 10 1 0 hlo hhi _⟩

/-- At every point of a run of a collector built in the band, `GetInterval` is the period
`1 / hz` cut down to whole nanoseconds. -/
theorem GetInterval_run (k : Key) (initialHZ : ℚ) (uid unset : Nat)
    (hlo : B.GC_MIN_HZ ≤ initialHZ) (hhi : initialHZ ≤ B.GC_MAX_HZ) (xs : List GcInput) :
    (GetInterval (gcRun B (new k initialHZ uid unset) xs)).Truncates
      (gcRun B (new k initialHZ uid unset) xs).hz :=
  hzToTimeSpec_truncates (gcRun_inv (g := new k initialHZ uid unset) ⟨hlo, hhi, le_rfl⟩ xs).hz_pos

theorem GetInterval_run_default :
    defaultHzBounds.GC_MIN_HZ ≤ 10 ∧ (10 : ℚ) ≤ defaultHzBounds.GC_MAX_HZ ∧
    (GetInterval (gcRun defaultHzBounds (new (.index "idx") 10 1 0)
      [.periodic false 0, .onDelete, .periodic false 3])).Truncates
      (gcRun defaultHzBounds (new (.index "idx") 10 1 0)
        [.periodic false 0, .onDelete, .periodic false 3]).hz :=
  have hlo : defaultHzBounds.GC_MIN_HZ ≤ 10 := by norm_num [defaultHzBounds]
  have hhi : (10 : ℚ) ≤ defaultHzBounds.GC_MAX_HZ := by norm_num [defaultHzBounds]
  ⟨hlo, hhi, GetInterval_run (.index "idx") 10 1 0 hlo hhi _⟩

end RediSearch
