import RediSearch.GC.Safety

/-!
# What the field collectors never reach

The loops of `CollectTagIndex` and `CollectNumericIndex` start every pass at block `0` and stop
after their first batch (`GC/Batches.lean`): after a batch that does not reach the end they
refresh the search context on the field's key, which holds no index. So they repair the first
`gcScanSize` blocks of a tag value's posting list, or of a numeric range, and never a block
after them. Over every run of passes, with the host doing nothing at their yields, the blocks of
every tag value and every range from `gcScanSize` on stay as they were
(`passes_keep_field_tails`): an entry of a deleted document there is never collected. The term
collector goes on to the end of its list (`termLoop_covers_once`).
-/

namespace RediSearch

/-- A posting list's identity, and its blocks from `scan` on. -/
def InvertedIndex.tail (scan : Nat) (ix : InvertedIndex) : Nat × List (List Nat) :=
  (ix.ident, ix.blocks.drop scan)

/-- A first batch leaves the blocks after it alone. -/
theorem InvertedIndex.tail_Repair (ix : InvertedIndex) (docs : DocTable) (scan : Nat) :
    (ix.Repair docs 0 scan).1.tail scan = ix.tail scan := by
  simp only [InvertedIndex.tail, InvertedIndex.Repair, Prod.mk.injEq, true_and]
  refine List.ext_getElem (by simp) fun i _ _ => ?_
  simp only [List.getElem_drop, List.getElem_map, List.getElem_enum]
  split_ifs <;> first | rfl | omega

/-- From `ks` to `ks'` every tree and every tag index stayed, with the same ranges and tag
values, each with the same blocks from `scan` on. -/
structure TailsKept (scan : Nat) (ks ks' : Keyspace) : Prop where
  ranges : ∀ k t, ks.numIdx k = some t →
    ∃ t', ks'.numIdx k = some t' ∧ t'.ranges.map (·.tail scan) = t.ranges.map (·.tail scan)
  values : ∀ k t, ks.tagIdx k = some t →
    ∃ t', ks'.tagIdx k = some t' ∧
      t'.values.map (fun v => (v.1, v.2.tail scan)) = t.values.map (fun v => (v.1, v.2.tail scan))

namespace TailsKept

variable {scan : Nat} {ks ks₁ ks₂ : Keyspace}

theorem refl (scan : Nat) (ks : Keyspace) : TailsKept scan ks ks :=
  ⟨fun _ t h => ⟨t, h, rfl⟩, fun _ t h => ⟨t, h, rfl⟩⟩

theorem trans (h₁ : TailsKept scan ks ks₁) (h₂ : TailsKept scan ks₁ ks₂) : TailsKept scan ks ks₂ :=
  ⟨fun k t h => by
    obtain ⟨t₁, ht₁, he₁⟩ := h₁.ranges k t h
    obtain ⟨t₂, ht₂, he₂⟩ := h₂.ranges k t₁ ht₁
    exact ⟨t₂, ht₂, he₂.trans he₁⟩,
  fun k t h => by
    obtain ⟨t₁, ht₁, he₁⟩ := h₁.values k t h
    obtain ⟨t₂, ht₂, he₂⟩ := h₂.values k t₁ ht₁
    exact ⟨t₂, ht₂, he₂.trans he₁⟩⟩

/-- A change that leaves the trees and the tag indexes alone. -/
theorem of_trees (hn : ks₁.numIdx = ks.numIdx) (ht : ks₁.tagIdx = ks.tagIdx) :
    TailsKept scan ks ks₁ :=
  ⟨fun _ t h => ⟨t, hn ▸ h, rfl⟩, fun _ t h => ⟨t, ht ▸ h, rfl⟩⟩

end TailsKept

section Operations

variable (scan : Nat) (ks : Keyspace) (k : Key)

/-- Opening a field's tree creates one only where there is none. -/
theorem tails_OpenNumericIndex : TailsKept scan ks (OpenNumericIndex ks k).1 := by
  unfold OpenNumericIndex
  split
  · exact .refl scan ks
  · rename_i hnone
    refine ⟨fun k' t h => ⟨t, ?_, rfl⟩, fun k' t h => ⟨t, h, rfl⟩⟩
    have hk : k' ≠ k := fun he => by rw [he, hnone] at h; cases h
    simpa [Function.update_noteq hk] using h

theorem tails_buildNumericGC (ix : IndexState) :
    ∀ (fss : List FieldSpec) (ks : Keyspace), TailsKept scan ks (buildNumericGC ix fss ks).1
  | [], ks => .refl scan ks
  | fs :: fss, ks => by
    have ho := tails_OpenNumericIndex scan ks (GetFormattedKey ix fs .NUMERIC)
    simp only [buildNumericGC]
    generalize OpenNumericIndex ks (GetFormattedKey ix fs .NUMERIC) = p at ho ⊢
    exact ho.trans (tails_buildNumericGC ix fss p.1)

variable {ks} (hwf : PostingsWf ks) (docs : DocTable)

include hwf

/-- A first batch on a range of a tree whose ranges have distinct identities keeps every
range's blocks after the batch. -/
theorem tails_repairRange (rt ident : Nat) :
    TailsKept scan ks (repairRange scan ks k rt ident docs 0).1 := by
  unfold repairRange
  split
  · exact .refl scan ks
  · rename_i t ht
    split_ifs
    · exact .refl scan ks
    refine ⟨fun k' t₀ h₀ => ?_, fun k' t₀ h₀ => ⟨t₀, h₀, rfl⟩⟩
    by_cases hk : k' = k
    · subst hk
      rw [ht, Option.some_inj] at h₀
      subst h₀
      refine ⟨(t.repair scan ident docs 0).1, by simp, ?_⟩
      unfold NumericRangeTree.repair
      split
      · rfl
      · next r hr =>
        have hr₁ := List.mem_of_find?_eq_some hr
        have hid : r.ident = ident := by simpa using List.find?_some hr
        simp only [List.map_map]
        refine List.map_congr_left fun x hx => ?_
        dsimp only [Function.comp]
        split_ifs with hx'
        · obtain rfl : x = r := List.inj_on_of_nodup_map (hwf.ranges k' _ ht) hx hr₁
            (hx'.trans hid.symm)
          exact InvertedIndex.tail_Repair x docs scan
        · rfl
    · exact ⟨t₀, by simpa [Function.update_noteq hk] using h₀, rfl⟩

/-- A first batch on a tag value of a tag index that holds each value once keeps every value's
blocks after the batch. -/
theorem tails_repairTagValue (value : String) (ident : Nat) :
    TailsKept scan ks (repairTagValue scan ks k value ident docs 0).1 := by
  unfold repairTagValue
  split
  · exact .refl scan ks
  · rename_i t ht
    refine ⟨fun k' t₀ h₀ => ⟨t₀, h₀, rfl⟩, fun k' t₀ h₀ => ?_⟩
    by_cases hk : k' = k
    · subst hk
      rw [ht, Option.some_inj] at h₀
      subst h₀
      refine ⟨(t.repair scan value ident docs 0).1, by simp, ?_⟩
      unfold TagIndex.repair
      split
      · rfl
      · next v iv hv =>
        have hv₁ := List.mem_of_find?_eq_some hv
        have hval : v = value ∧ iv.ident = ident := by simpa using List.find?_some hv
        simp only [List.map_map]
        refine List.map_congr_left fun x hx => ?_
        dsimp only [Function.comp]
        split_ifs with hx'
        · obtain rfl : x = (v, iv) := List.inj_on_of_nodup_map (hwf.values k' _ ht) hx hv₁
            (hx'.1.trans hval.1.symm)
          simp only [InvertedIndex.tail_Repair iv docs scan]
        · rfl
    · exact ⟨t₀, by simpa [Function.update_noteq hk] using h₀, rfl⟩

end Operations

/-! ## Passes -/

/-- A world partway through passes that started on `ks₀`: the host does nothing at the yields,
the posting lists the collectors find by identity are told apart, and the blocks of every range
and tag value from `scan` on are as they were in `ks₀`. -/
structure KeepsTails (scan : Nat) (ks₀ : Keyspace) (w : GcWorld) : Prop where
  host : w.host = []
  wf : PostingsWf w.ks
  tails : TailsKept scan ks₀ w.ks

namespace KeepsTails

variable {scan : Nat} {ks₀ : Keyspace} {w w' : GcWorld}

theorem invalid (h : KeepsTails scan ks₀ w) : KeepsTails scan ks₀ w.invalid := ⟨h.host, h.wf, h.tails⟩

/-- A step that leaves the trees and the tag indexes alone. -/
theorem of_trees (h : KeepsTails scan ks₀ w) (hh : w'.host = []) (hn : w'.ks.numIdx = w.ks.numIdx)
    (ht : w'.ks.tagIdx = w.ks.tagIdx) : KeepsTails scan ks₀ w' :=
  ⟨hh, ⟨hn ▸ h.wf.ranges, ht ▸ h.wf.values⟩, h.tails.trans (.of_trees hn ht)⟩

end KeepsTails

variable (cap scan : Nat)

section Loops

variable {name : String} {ks₀ : Keyspace}

theorem termLoop_keepsTails (term : String) :
    ∀ fuel blockNum total (w : GcWorld), KeepsTails scan ks₀ w →
      KeepsTails scan ks₀ (termLoop cap scan name term fuel blockNum total w).1
  | 0, _, _, _, h => h
  | fuel + 1, blockNum, total, w, h => by
    have hn := w.ks.openInvIdx_numIdx (.term name term)
    have ht := w.ks.openInvIdx_tagIdx (.term name term)
    simp only [termLoop]
    generalize w.ks.openInvIdx (.term name term) = p at hn ht ⊢
    generalize p.2.Repair (p.1.docsOf name) blockNum scan = R
    have hw : KeepsTails scan ks₀ { ({ w with ks := p.1 }).record (.term (.term name term) p.2.ident)
        with ks := updateStats name R.2.2 (p.1.setInvIdx (.term name term) R.1) } :=
      h.of_trees h.host hn ht
    rw [GcWorld.yield_of_host cap hw.host]
    split_ifs
    · exact hw
    · exact hw.invalid
    · exact termLoop_keepsTails term fuel _ _ _ hw

variable {index field : String} {t : FieldTypes} (hk : index = name)

include hk

/-- The loop of `CollectTagIndex` on a field's key, from block `0`: one batch. -/
theorem tagLoop_keepsTails (value : String) (fuel ident total : Nat) {w : GcWorld}
    (h : KeepsTails scan ks₀ w) :
    KeepsTails scan ks₀ (tagLoop cap scan name (.field index field t) value fuel ident 0 total w).1 := by
  cases fuel with
  | zero => exact h
  | succ fuel =>
    have hR := dropsDead_repairTagValue w.ks h.wf scan 0 (k := .field index field t) hk value
      ident
    have hT := tails_repairTagValue scan (.field index field t) h.wf (w.ks.docsOf name) value ident
    simp only [tagLoop, GcWorld.ks_record, specLost_field, if_true]
    generalize repairTagValue scan w.ks _ value ident (w.ks.docsOf name) 0 = R at hR hT ⊢
    have hw : KeepsTails scan ks₀ { w.record (.tag (.field index field t) value ident) with
        ks := updateStats name R.2.2 R.1 } :=
      ⟨h.host, ⟨hR.wf.ranges, hR.wf.values⟩, h.tails.trans (hT.trans (.of_trees rfl rfl))⟩
    rw [GcWorld.yield_of_host cap hw.host]
    split_ifs
    · exact hw
    · exact hw.invalid

/-- The loop of `CollectNumericIndex` on a field's key, from block `0`: one batch. -/
theorem numLoop_keepsTails (g : NumericFieldGC) (fuel ident total : Nat) {w : GcWorld}
    (h : KeepsTails scan ks₀ w) :
    KeepsTails scan ks₀ (numLoop cap scan name (.field index field t) g fuel ident 0 total w).1 := by
  cases fuel with
  | zero => exact h
  | succ fuel =>
    have hR := dropsDead_repairRange w.ks h.wf scan 0 (k := .field index field t) hk g.rt ident
    have hT := tails_repairRange scan (.field index field t) h.wf (w.ks.docsOf name) g.rt ident
    simp only [numLoop, GcWorld.ks_record, specLost_field, if_true]
    generalize repairRange scan w.ks _ g.rt ident (w.ks.docsOf name) 0 = R at hR hT ⊢
    have hw : KeepsTails scan ks₀ { w.record (.numeric (.field index field t) g.rt g.revisionId ident)
        with ks := updateStats name R.2.2 R.1 } :=
      ⟨h.host, ⟨hR.wf.ranges, hR.wf.values⟩, h.tails.trans (hT.trans (.of_trees rfl rfl))⟩
    rw [GcWorld.yield_of_host cap hw.host]
    split_ifs
    · exact hw
    · exact hw.invalid
    · exact h

end Loops

section Collectors

variable {ks₀ : Keyspace} (fuel : Nat) (ch : GcChoices) {w : GcWorld}

theorem CollectRandomTerm_keepsTails (h : KeepsTails scan ks₀ w) :
    KeepsTails scan ks₀ (CollectRandomTerm cap scan fuel ch w).1 :=
  CollectRandomTerm_preserves cap scan _ h h.invalid fun _ _ =>
    termLoop_keepsTails cap scan _ fuel 0 0 w h

theorem CollectTagIndex_keepsTails (h : KeepsTails scan ks₀ w) :
    KeepsTails scan ks₀ (CollectTagIndex cap scan fuel ch w).1 :=
  CollectTagIndex_preserves cap scan _ h h.invalid fun _ _ _ _ =>
    tagLoop_keepsTails cap scan rfl _ fuel _ 0 h

theorem CollectNumericIndex_keepsTails (h : KeepsTails scan ks₀ w) :
    KeepsTails scan ks₀ (CollectNumericIndex cap scan fuel ch w).1 := by
  refine CollectNumericIndex_preserves cap scan _ h h.invalid (fun ix _ _ ks₁ hks => ?_)
    fun _ _ _ _ _ hw => numLoop_keepsTails cap scan rfl _ fuel _ 0 hw
  -- the collection states built, or kept, then the field's tree opened
  have hs : DropsDead w.ks ks₁ ∧ TailsKept scan w.ks ks₁ := by
    rcases hks with rfl | rfl
    · exact ⟨.refl h.wf, .refl scan _⟩
    · exact ⟨dropsDead_buildNumericGC ix _ w.ks h.wf, tails_buildNumericGC scan ix _ w.ks⟩
  exact ⟨h.host, (dropsDead_OpenNumericIndex ks₁ hs.1.wf _).wf,
    h.tails.trans (hs.2.trans (tails_OpenNumericIndex scan ks₁ _))⟩

variable (B : HzBounds) (loading : Bool)

theorem PeriodicCallback_keepsTails (h : KeepsTails scan ks₀ w) :
    KeepsTails scan ks₀ (PeriodicCallback cap scan B fuel loading ch w).1 :=
  PeriodicCallback_preserves cap scan B (KeepsTails scan ks₀) h ⟨h.host, h.wf, h.tails⟩
    (fun _ => CollectRandomTerm_keepsTails cap scan fuel ch)
    (fun _ => CollectNumericIndex_keepsTails cap scan fuel ch)
    (fun _ => CollectTagIndex_keepsTails cap scan fuel ch) fun _ _ hw => ⟨hw.host, hw.wf, hw.tails⟩

end Collectors

variable (B : HzBounds)

theorem runPasses_keepsTails {ks₀ : Keyspace} (ps : List (Nat × Bool × GcChoices)) (w : GcWorld)
    (hwf : PostingsWf w.ks) (h : TailsKept scan ks₀ w.ks) :
    TailsKept scan ks₀ (runPasses cap scan B w ps).ks :=
  (runPasses_preserves cap scan B (fun w => PostingsWf w.ks ∧ TailsKept scan ks₀ w.ks)
    (fun w p h =>
      have hp := PeriodicCallback_keepsTails cap scan p.1 p.2.2 B p.2.1 (w := { w with host := [] })
        ⟨rfl, h.1, h.2⟩
      ⟨hp.wf, hp.tails⟩) ps w ⟨hwf, h⟩).2

/-- The price tree of `batchKs` has one range, and its tag index one value. -/
theorem batchKs_postingsWf : PostingsWf batchKs := by
  refine ⟨fun k t h => ?_, fun k t h => ?_⟩ <;> simp only [batchKs] at h <;> split_ifs at h <;>
    cases h
  · exact List.nodup_singleton _
  · exact List.nodup_singleton _

/-- Whatever passes a collector runs, when no host step comes at their yields, the blocks of
every tag value's posting list and of every numeric range from the `gcScanSize`-th on stay as
they were, and so do the tag values and ranges themselves: `CollectTagIndex` and
`CollectNumericIndex` repair only the first `gcScanSize` blocks, and an entry of a deleted
document after them is never collected. This needs the posting lists the collectors find by
identity told apart at the start. -/
theorem passes_keep_field_tails (w : GcWorld) (hwf : PostingsWf w.ks)
    (ps : List (Nat × Bool × GcChoices)) : TailsKept scan w.ks (runPasses cap scan B w ps).ks :=
  runPasses_keepsTails cap scan B ps w hwf (.refl scan w.ks)

/-- Three passes over `batchWorld`, one block at a time: the second blocks of the price range
and of the tag value `red` keep document 1, which was deleted. -/
theorem passes_keep_field_tails_batchWorld :
    PostingsWf batchWorld.ks ∧
      TailsKept 1 batchWorld.ks (runPasses 100 1 defaultHzBounds batchWorld
        [(10, false, ⟨none, 0, 0, 0⟩), (10, false, ⟨none, 0, 0, 0⟩),
         (10, false, ⟨none, 0, 0, 0⟩)]).ks :=
  ⟨batchKs_postingsWf, passes_keep_field_tails 100 1 defaultHzBounds batchWorld batchKs_postingsWf _⟩

end RediSearch
