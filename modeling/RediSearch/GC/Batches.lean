import RediSearch.GC.Pass

/-!
# The repair loops, batch by batch

Each collector repairs its posting list `gcScanSize` blocks at a time: `Repair` from block
`blockNum` returns the block to go on from, `0` once it reached the end, and the loop yields
between two batches. Over a list of `n` blocks, with `scan ≥ 1`, the batches to make are
`max(1, ⌈n / scan⌉)`, from blocks `0`, `scan`, `2 * scan`, … (`batchStarts`), and they
partition the blocks (`batchStarts_partition`).

The loop of `CollectRandomTerm` makes exactly these batches, one call of `Repair` each, when
nothing happens at its yields and the index keeps its `uniqueId`, and it ends with every block
holding only live documents (`termLoop_covers_once`). The loops of `CollectTagIndex` and
`CollectNumericIndex` do not: their refresh at the first yield is on the field's key
(`GC/Pass.lean`), so they stop after one batch whatever the list's length
(`tagLoop_one_batch`, `numLoop_one_batch`), and the blocks past the first batch are never
repaired.
-/

namespace RediSearch

/-! ## Batches -/

section Batches

variable (scan : Nat)

/-- The number of batches over `n` blocks, `scan` at a time: `max(1, ⌈n / scan⌉)`. -/
def batchCount (n : Nat) : Nat := max 1 ((n + scan - 1) / scan)

/-- The block each batch over `n` blocks starts at: `0`, `scan`, `2 * scan`, …, one per
batch. -/
def batchStarts (n : Nat) : List Nat := (List.range (batchCount scan n)).map (· * scan)

/-- `Repair` on each batch in turn, from the blocks they start at: the posting list left and
the entries collected. -/
def repairBatches (docs : DocTable) : InvertedIndex → List Nat → InvertedIndex × Nat
  | ix, [] => (ix, 0)
  | ix, b :: bs =>
    let r := ix.Repair docs b scan
    let rest := repairBatches docs r.1 bs
    (rest.1, r.2.2 + rest.2)

variable {scan}

/-- A batch that does not reach the end of the blocks is followed by another. -/
theorem batch_continues (hs : 0 < scan) (j n : Nat) :
    j * scan + scan < n ↔ j + 1 < batchCount scan n := by
  have key : j + 2 ≤ (n + scan - 1) / scan ↔ j * scan + scan < n := by
    rw [Nat.le_div_iff_mul_le hs, Nat.add_mul, Nat.two_mul]
    omega
  unfold batchCount
  omega

/-- The batches reach the end of the blocks. -/
theorem le_batchCount_mul (hs : 0 < scan) (n : Nat) : n ≤ batchCount scan n * scan := by
  have h₁ := Nat.div_add_mod (n + scan - 1) scan
  have h₂ := Nat.mod_lt (n + scan - 1) hs
  have h₃ : (n + scan - 1) / scan * scan ≤ batchCount scan n * scan :=
    Nat.mul_le_mul_right _ (le_max_right _ _)
  rw [Nat.mul_comm] at h₁
  omega

theorem mem_batchStarts {n s : Nat} :
    s ∈ batchStarts scan n ↔ ∃ j < batchCount scan n, j * scan = s := by
  simp [batchStarts]

/-- The batches partition the blocks: every block is in exactly one batch, and every batch
starts at a block, unless there is none. -/
theorem batchStarts_partition (hs : 0 < scan) (n : Nat) :
    (∀ i < n, ∃! s, s ∈ batchStarts scan n ∧ s ≤ i ∧ i < s + scan) ∧
    ∀ s ∈ batchStarts scan n, s < n ∨ n = 0 := by
  refine ⟨fun i hi => ⟨i / scan * scan, ⟨mem_batchStarts.2 ⟨i / scan, ?_, rfl⟩,
    Nat.div_mul_le_self i scan, Nat.lt_div_mul_add hs⟩, ?_⟩, fun s h => ?_⟩
  · -- block `i` is in batch `i / scan`, one of the first `batchCount`
    have h : i / scan + 1 ≤ (n + scan - 1) / scan := by
      rw [Nat.le_div_iff_mul_le hs, Nat.add_one_mul]
      have := Nat.div_mul_le_self i scan
      omega
    unfold batchCount
    omega
  · rintro s ⟨hm, hle, hlt⟩
    obtain ⟨j, -, rfl⟩ := mem_batchStarts.1 hm
    rw [Nat.div_eq_of_lt_le hle (by rwa [Nat.add_one_mul])]
  · obtain ⟨j, hj, rfl⟩ := mem_batchStarts.1 h
    cases j with
    | zero => omega
    | succ j =>
      have := (batch_continues hs j n).2 hj
      rw [Nat.add_one_mul]
      omega

end Batches

namespace InvertedIndex

variable (ix : InvertedIndex) (docs : DocTable)

@[simp] theorem length_Repair (b l : Nat) :
    (ix.Repair docs b l).1.blocks.length = ix.blocks.length := by
  simp [Repair]

theorem next_Repair (b l : Nat) :
    (ix.Repair docs b l).2.1 = if b + l < ix.blocks.length then b + l else 0 := rfl

/-- A batch of no block changes nothing. -/
theorem Repair_zero (b : Nat) : (ix.Repair docs b 0).1 = ix := by
  obtain ⟨ident, blocks⟩ := ix
  simp only [Repair, mk.injEq, true_and]
  refine List.ext_getElem (by simp) fun i _ _ => ?_
  simp

/-- A batch after the blocks already repaired extends them: `Repair` touches no block outside
its batch. -/
theorem Repair_after (a l : Nat) :
    ((ix.Repair docs 0 a).1.Repair docs a l).1 = (ix.Repair docs 0 (a + l)).1 := by
  simp only [Repair, mk.injEq, true_and]
  refine List.ext_getElem (by simp) fun i _ _ => ?_
  simp only [List.getElem_map, List.getElem_enum]
  split_ifs <;> first | rfl | omega

/-- A batch over all the blocks leaves only live documents in each. -/
theorem Repair_all {l : Nat} (h : ix.blocks.length ≤ l) :
    (ix.Repair docs 0 l).1 = ⟨ix.ident, ix.blocks.map (·.filter docs.isLive)⟩ := by
  simp only [Repair, mk.injEq, true_and]
  refine List.ext_getElem (by simp) fun i hi _ => ?_
  simp only [List.length_map, List.enum_length] at hi
  simp [show i < l by omega]

end InvertedIndex

section Batches

variable {scan : Nat} (docs : DocTable)

/-- The batches from the `j`-th on, on a list whose first `j` batches are repaired, repair it
up to the end of the last of them. -/
theorem repairBatches_range' :
    ∀ (m j : Nat) (ix : InvertedIndex),
      (repairBatches scan docs (ix.Repair docs 0 (j * scan)).1
        ((List.range' j m).map (· * scan))).1 = (ix.Repair docs 0 ((j + m) * scan)).1
  | 0, _, _ => rfl
  | m + 1, j, ix => by
    simp only [List.range'_succ, List.map_cons, repairBatches, InvertedIndex.Repair_after]
    rw [← Nat.add_one_mul, repairBatches_range' m (j + 1) ix, Nat.add_right_comm, Nat.add_assoc]

/-- All the batches leave only live documents in every block. -/
theorem repairBatches_all (hs : 0 < scan) (ix : InvertedIndex) :
    (repairBatches scan docs ix (batchStarts scan ix.blocks.length)).1 =
      ⟨ix.ident, ix.blocks.map (·.filter docs.isLive)⟩ := by
  have h := @repairBatches_range' scan docs (batchCount scan ix.blocks.length) 0 ix
  rw [Nat.zero_mul, InvertedIndex.Repair_zero, Nat.zero_add,
    InvertedIndex.Repair_all _ _ (le_batchCount_mul hs _)] at h
  rwa [batchStarts, List.range_eq_range']

end Batches

/-! ## The loop of `CollectRandomTerm` -/

theorem docsOf_updateStats (name : String) (c : Nat) (ks : Keyspace) (n : String) :
    (updateStats name c ks).docsOf n = ks.docsOf n := by
  unfold updateStats Keyspace.modifyIndex Keyspace.docsOf
  by_cases h : n = name
  · subst h
    cases ks.indexes n <;> simp
  · simp [Function.update_noteq h]

/-- `updateStats` changes only the counter of an index, not its `uniqueId`. -/
theorem specLost_updateStats (w : GcWorld) (name : String) (c : Nat) (ks : Keyspace) (k : Key) :
    ({ w with ks := updateStats name c ks } : GcWorld).specLost k =
      ({ w with ks := ks } : GcWorld).specLost k := by
  cases k with
  | index n =>
    simp only [GcWorld.specLost, resolveSpec, updateStats, Keyspace.modifyIndex]
    by_cases h : n = name
    · subst h
      cases ks.indexes n <;> simp
    · simp [Function.update_noteq h]
  | term => rfl
  | field => rfl

@[simp] theorem repairs_yield (cap : Nat) (w : GcWorld) : (w.yield cap).repairs = w.repairs := by
  unfold GcWorld.yield
  split <;> rfl

@[simp] theorem status_yield (cap : Nat) (w : GcWorld) : (w.yield cap).status = w.status := by
  unfold GcWorld.yield
  split <;> rfl

/-- What holds at each batch of `CollectRandomTerm`'s loop over an index nobody touches: the
host does nothing at the yields, the index under the collector's key keeps its `uniqueId`, the
term's posting list is `ix`, and the documents are `docs`. -/
structure Steady (name term : String) (docs : DocTable) (w : GcWorld) (ix : InvertedIndex) :
    Prop where
  host : w.host = []
  spec : w.specLost w.gc.keyName = false
  list : w.ks.invIdx (.term name term) = some ix
  docs : w.ks.docsOf name = docs

variable (cap scan : Nat)

section TermLoop

variable {name term : String} {docs : DocTable} {w : GcWorld} {ix : InvertedIndex}

/-- One batch on a steady world: `Repair` from `blockNum`, recorded; the world stays steady,
with the repaired list, and the loop goes on from the block `Repair` returned, unless that is
`0`. -/
theorem termLoop_succ (h : Steady name term docs w ix) (fuel blockNum total : Nat) :
    ∃ w', Steady name term docs w' (ix.Repair docs blockNum scan).1 ∧ w'.status = w.status ∧
      w'.repairs.map (·.1) = w.repairs.map (·.1) ++ [.term (.term name term) ix.ident] ∧
      termLoop cap scan name term (fuel + 1) blockNum total w =
        if (ix.Repair docs blockNum scan).2.1 = 0 then
          (w', .done (total + (ix.Repair docs blockNum scan).2.2))
        else termLoop cap scan name term fuel (ix.Repair docs blockNum scan).2.1
          (total + (ix.Repair docs blockNum scan).2.2) w' := by
  have hs : Steady name term docs
      { w with
        ks := updateStats name (ix.Repair docs blockNum scan).2.2
          (w.ks.setInvIdx (.term name term) (ix.Repair docs blockNum scan).1)
        repairs := w.repairs ++ [(.term (.term name term) ix.ident, w.ks)] }
      (ix.Repair docs blockNum scan).1 :=
    ⟨h.host, (specLost_updateStats w _ _ _ _).trans h.spec, by simp [updateStats,
      Keyspace.modifyIndex], (docsOf_updateStats _ _ _ _).trans h.docs⟩
  refine ⟨_, hs, rfl, by simp, ?_⟩
  simp only [termLoop, Keyspace.openInvIdx, h.list, GcWorld.record, h.docs]
  generalize ix.Repair docs blockNum scan = R at hs
  obtain ⟨ix', next, c⟩ := R
  simp only [GcWorld.yield_of_host cap hs.host, hs.spec]
  rfl

/-- From the `j`-th batch on, with fuel for the batches left, the loop makes them all, one
call of `Repair` each, and ends `done` with what they collected. -/
theorem termLoop_run (hs : 0 < scan) (n : Nat) :
    ∀ (fuel j total : Nat) (w : GcWorld) (ix : InvertedIndex), Steady name term docs w ix →
      ix.blocks.length = n → j < batchCount scan n → batchCount scan n ≤ j + fuel →
      ∃ w', termLoop cap scan name term fuel (j * scan) total w =
          (w', .done (total + (repairBatches scan docs ix
            ((List.range' j (batchCount scan n - j)).map (· * scan))).2)) ∧
        Steady name term docs w' (repairBatches scan docs ix
            ((List.range' j (batchCount scan n - j)).map (· * scan))).1 ∧
        w'.status = w.status ∧
        w'.repairs.map (·.1) = w.repairs.map (·.1) ++
          List.replicate (batchCount scan n - j) (.term (.term name term) ix.ident)
  | 0, _, _, _, _, _, _, hj, hf => absurd hf (by omega)
  | fuel + 1, j, total, w, ix, h, hn, hj, hf => by
    obtain ⟨w₁, h₁, hst, hrep, heq⟩ := termLoop_succ cap scan h fuel (j * scan) total
    obtain ⟨m, hm⟩ : ∃ m, batchCount scan n - j = m + 1 := ⟨_, (Nat.succ_pred_eq_of_pos
      (by omega)).symm⟩
    rw [heq, hm, List.range'_succ, List.map_cons, List.replicate_succ,
      InvertedIndex.next_Repair, hn]
    by_cases hc : j * scan + scan < n
    · -- another batch follows, from the next multiple of `scan`
      have hj' := (batch_continues hs j n).1 hc
      obtain ⟨w', h₂, h₃, h₄, h₅⟩ := termLoop_run hs n fuel (j + 1)
        (total + (ix.Repair docs (j * scan) scan).2.2) w₁ _ h₁
        (by rw [InvertedIndex.length_Repair, hn]) hj' (by omega)
      have hm' : batchCount scan n - (j + 1) = m := by omega
      rw [Nat.add_one_mul] at h₂
      rw [hm'] at h₂ h₃ h₅
      refine ⟨w', ?_, h₃, h₄.trans hst, ?_⟩
      · rw [if_pos hc, if_neg (by omega), h₂, Nat.add_assoc]
        rfl
      · simp [h₅, hrep]
    · -- this batch is the last
      have hm0 : m = 0 := by have := (batch_continues hs j n).not.1 hc; omega
      subst hm0
      refine ⟨w₁, ?_, h₁, hst, by simpa using hrep⟩
      rw [if_neg hc, if_pos rfl]
      rfl

end TermLoop

/-- Index `idx` of `gcKs`, whose document 1 was deleted and document 2 is live, with posting
lists of two blocks, `[2]` then `[1]`: the posting list of the term `hello`, the price range
and the tag value `red`. -/
def batchKs : Keyspace :=
  { gcKs with
    invIdx := fun k => if k = .term "idx" "hello" then some ⟨14, [[2], [1]]⟩ else none
    numIdx := fun k => if k = .field "idx" "price" .NUMERIC then
      some ⟨10, 0, [⟨11, [[2], [1]]⟩], List.cons_ne_nil _ _, fun _ => 0, 2⟩ else none
    tagIdx := fun k => if k = .field "idx" "tags" .TAG then
      some ⟨12, [("red", ⟨13, [[2], [1]]⟩)]⟩ else none }

/-- The collector of `idx` with its `specUniqueId` right, on `batchKs`. -/
def batchWorld : GcWorld := { gcWorld 1 with ks := batchKs }

/-- Over a term's posting list of `n` blocks, with `scan ≥ 1`, nothing happening at the
yields, the index keeping its `uniqueId`, and fuel for the batches: the batches partition the
blocks, and the loop of `CollectRandomTerm` makes them in order, one call of `Repair` each,
`max(1, ⌈n / scan⌉)` calls in all; it ends `done` with what they collected, every block
holding only live documents. -/
theorem termLoop_covers_once (name term : String) (w : GcWorld) (ix : InvertedIndex)
    (fuel : Nat) (hs : 0 < scan) (hhost : w.host = []) (hspec : w.specLost w.gc.keyName = false)
    (hix : w.ks.invIdx (.term name term) = some ix)
    (hfuel : batchCount scan ix.blocks.length ≤ fuel) :
    (∀ i < ix.blocks.length, ∃! s, s ∈ batchStarts scan ix.blocks.length ∧ s ≤ i ∧ i < s + scan) ∧
    ∃ w', termLoop cap scan name term fuel 0 0 w = (w', .done (repairBatches scan
        (w.ks.docsOf name) ix (batchStarts scan ix.blocks.length)).2) ∧
      w'.ks.invIdx (.term name term) =
        some ⟨ix.ident, ix.blocks.map (·.filter (w.ks.docsOf name).isLive)⟩ ∧
      w'.status = w.status ∧
      w'.repairs.map (·.1) = w.repairs.map (·.1) ++
        List.replicate (batchCount scan ix.blocks.length) (.term (.term name term) ix.ident) := by
  obtain ⟨w', h₁, h₂, h₃, h₄⟩ := termLoop_run cap scan hs ix.blocks.length fuel 0 0 w ix
    ⟨hhost, hspec, hix, rfl⟩ rfl (lt_max_of_lt_left Nat.one_pos) (by omega)
  simp only [Nat.sub_zero, Nat.zero_mul, Nat.zero_add, ← List.range_eq_range'] at h₁ h₂ h₄
  rw [← batchStarts] at h₁ h₂
  exact ⟨(batchStarts_partition hs _).1, w', h₁, h₂.list.trans (by rw [repairBatches_all _ hs]),
    h₃, h₄⟩

/-- The term `hello` of `batchWorld`, two blocks, one at a time: two calls of `Repair`, and
document 1 gone from the second block. -/
theorem termLoop_covers_once_hello :
    (∀ i < 2, ∃! s, s ∈ batchStarts 1 2 ∧ s ≤ i ∧ i < s + 1) ∧
    ∃ w', termLoop 100 1 "idx" "hello" 2 0 0 batchWorld = (w', .done (repairBatches 1
        (batchWorld.ks.docsOf "idx") ⟨14, [[2], [1]]⟩ (batchStarts 1 2)).2) ∧
      w'.ks.invIdx (.term "idx" "hello") =
        some ⟨14, [[2], [1]].map (·.filter (batchWorld.ks.docsOf "idx").isLive)⟩ ∧
      w'.status = batchWorld.status ∧
      w'.repairs.map (·.1) = batchWorld.repairs.map (·.1) ++
        List.replicate (batchCount 1 2) (.term (.term "idx" "hello") 14) :=
  termLoop_covers_once 100 1 "idx" "hello" batchWorld ⟨14, [[2], [1]]⟩ 2 Nat.one_pos rfl
    (by decide) rfl (by decide)

/-! ## The loops of `CollectTagIndex` and `CollectNumericIndex` -/

/-- A search context on a field's key holds no index. -/
@[simp] theorem specLost_field (w : GcWorld) (index field : String) (t : FieldTypes) :
    w.specLost (.field index field t) = true := rfl

section FieldLoops

variable (name index field : String) (t : FieldTypes) (fuel ident blockNum total : Nat)
  (w : GcWorld)

/-- A range that is no longer a node of the collection's tree: the loop reads freed memory. -/
theorem numLoop_of_not_live (g : NumericFieldGC) (k : Key)
    (hl : ¬RangeLive w.ks k g.rt ident) :
    numLoop cap scan name k g (fuel + 1) ident blockNum total w = (w, .useAfterFree) := by
  simp only [numLoop, hl, if_false]

/-- The world the numeric loop on a field's key leaves when nothing happens at the yield: its
one batch recorded and counted, and the index reported invalid unless the batch reached the end
of the range. -/
theorem numLoop_field_world (g : NumericFieldGC) (hhost : w.host = [])
    (hl : RangeLive w.ks (.field index field t) g.rt ident) :
    (numLoop cap scan name (.field index field t) g (fuel + 1) ident blockNum total w).1 =
      { w with
        ks := updateStats name (repairRange scan w.ks (.field index field t) g.rt ident
          (w.ks.docsOf name) blockNum).2.2 (repairRange scan w.ks (.field index field t) g.rt
            ident (w.ks.docsOf name) blockNum).1
        repairs := w.repairs ++ [(.numeric (.field index field t) g.rt g.revisionId ident, w.ks)]
        status := if (repairRange scan w.ks (.field index field t) g.rt ident (w.ks.docsOf name)
          blockNum).2.1 = 0 then w.status else .INVALID } := by
  simp only [numLoop, hl, if_true, GcWorld.record, specLost_field]
  generalize repairRange scan w.ks _ g.rt ident _ blockNum = R
  obtain ⟨ks, next, c⟩ := R
  by_cases h0 : next = 0
  · simp [h0]
  · simp [h0, GcWorld.yield, hhost, GcWorld.invalid]

end FieldLoops

/-- On `batchWorld`, one block at a time, the tag value `red` and the price range take two
batches each, but `CollectTagIndex` and `CollectNumericIndex` make one call of `Repair` each and
report the index invalid: document 1, deleted, stays in the second block of both. The term
`hello`, in the same two blocks, gets its two calls. -/
theorem field_loops_stop_after_one_batch :
    batchCount 1 2 = 2 ∧
    (CollectTagIndex 100 1 10 ⟨none, 0, 0, 0⟩ batchWorld).2 = .done 0 ∧
    (CollectTagIndex 100 1 10 ⟨none, 0, 0, 0⟩ batchWorld).1.status = .INVALID ∧
    (CollectTagIndex 100 1 10 ⟨none, 0, 0, 0⟩ batchWorld).1.repairs.length = 1 ∧
    ((CollectTagIndex 100 1 10 ⟨none, 0, 0, 0⟩ batchWorld).1.ks.tagIdx
      (.field "idx" "tags" .TAG)).map (·.values) = some [("red", ⟨13, [[2], [1]]⟩)] ∧
    (CollectNumericIndex 100 1 10 ⟨none, 0, 0, 0⟩ batchWorld).2 = .done 0 ∧
    (CollectNumericIndex 100 1 10 ⟨none, 0, 0, 0⟩ batchWorld).1.status = .INVALID ∧
    (CollectNumericIndex 100 1 10 ⟨none, 0, 0, 0⟩ batchWorld).1.repairs.length = 1 ∧
    ((CollectNumericIndex 100 1 10 ⟨none, 0, 0, 0⟩ batchWorld).1.ks.numIdx
      (.field "idx" "price" .NUMERIC)).map (·.ranges) = some [⟨11, [[2], [1]]⟩] ∧
    (CollectRandomTerm 100 1 10 ⟨some "hello", 0, 0, 0⟩ batchWorld).1.repairs.length = 2 ∧
    (CollectRandomTerm 100 1 10 ⟨some "hello", 0, 0, 0⟩ batchWorld).1.ks.invIdx
      (.term "idx" "hello") = some ⟨14, [[2], []]⟩ := by
  decide

end RediSearch
