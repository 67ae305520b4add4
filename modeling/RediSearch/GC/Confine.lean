import RediSearch.GC.Pass

/-!
# What a pass of one index's collector touches

A collector works on the index registered under its `keyName`: it resolves its search context
there, and every key it opens (`Key.term` of a term, `GetFormattedKey` of a field) is made of
that index's name. So a pass that meets no host step at its yields changes only the posting
lists, trees and tag indexes of its own index's keys and its own index's counter: every other
index, every key of another index, the geo indexes and the stored hashes are as they were
(`passes_touch_only`). This needs the index registered under the collector's name to carry that
name, as `createIndex` registers it; a pass keeps it so.
-/

namespace RediSearch

/-- The index a key belongs to. -/
def Key.owner : Key → String
  | .index n => n
  | .term n _ => n
  | .field n _ _ => n

/-- `ks'` holds what `ks` holds outside index `name`: the other indexes, the posting lists,
trees and tag indexes of the keys of other indexes, and all geo indexes and stored hashes. -/
structure TouchesOnly (name : String) (ks ks' : Keyspace) : Prop where
  indexes : ∀ n, n ≠ name → ks'.indexes n = ks.indexes n
  invIdx : ∀ k : Key, k.owner ≠ name → ks'.invIdx k = ks.invIdx k
  numIdx : ∀ k : Key, k.owner ≠ name → ks'.numIdx k = ks.numIdx k
  tagIdx : ∀ k : Key, k.owner ≠ name → ks'.tagIdx k = ks.tagIdx k
  geoIdx : ks'.geoIdx = ks.geoIdx
  hashes : ks'.hashes = ks.hashes

/-- The index registered under `name`, if any, is named `name`. -/
def Named (name : String) (ks : Keyspace) : Prop :=
  ∀ ix, ks.indexes name = some ix → ix.name = name

section Operations

variable {name : String} {ks ks₁ ks₂ : Keyspace}

theorem TouchesOnly.refl (ks : Keyspace) : TouchesOnly name ks ks :=
  ⟨fun _ _ => rfl, fun _ _ => rfl, fun _ _ => rfl, fun _ _ => rfl, rfl, rfl⟩

theorem TouchesOnly.trans (h₁ : TouchesOnly name ks ks₁) (h₂ : TouchesOnly name ks₁ ks₂) :
    TouchesOnly name ks ks₂ :=
  ⟨fun n hn => (h₂.indexes n hn).trans (h₁.indexes n hn),
    fun k hk => (h₂.invIdx k hk).trans (h₁.invIdx k hk),
    fun k hk => (h₂.numIdx k hk).trans (h₁.numIdx k hk),
    fun k hk => (h₂.tagIdx k hk).trans (h₁.tagIdx k hk), h₂.geoIdx.trans h₁.geoIdx,
    h₂.hashes.trans h₁.hashes⟩

theorem Named.of_indexes (h : Named name ks) (he : ks₁.indexes = ks.indexes) : Named name ks₁ :=
  fun ix hix => h ix (he ▸ hix)

/-- `updateStats` changes only the counter of the index. -/
theorem named_updateStats (h : Named name ks) (c : Nat) : Named name (updateStats name c ks) := by
  intro ix hix
  simp only [updateStats, Keyspace.modifyIndex, Function.update_same, Option.map_eq_some'] at hix
  obtain ⟨ix₀, h₀, rfl⟩ := hix
  exact h ix₀ h₀

variable (ks) {k : Key}

theorem touchesOnly_setInvIdx (hk : k.owner = name) (ix : InvertedIndex) :
    TouchesOnly name ks (ks.setInvIdx k ix) :=
  ⟨fun _ _ => rfl, fun k' hk' => Function.update_noteq (show k' ≠ k from fun e => hk' (e ▸ hk)) _ _,
    fun _ _ => rfl, fun _ _ => rfl, rfl, rfl⟩

theorem touchesOnly_setNumIdx (hk : k.owner = name) (t : NumericRangeTree) :
    TouchesOnly name ks (ks.setNumIdx k t) :=
  ⟨fun _ _ => rfl, fun _ _ => rfl, fun k' hk' => Function.update_noteq (show k' ≠ k from fun e => hk' (e ▸ hk)) _ _,
    fun _ _ => rfl, rfl, rfl⟩

theorem touchesOnly_setTagIdx (hk : k.owner = name) (t : TagIndex) :
    TouchesOnly name ks (ks.setTagIdx k t) :=
  ⟨fun _ _ => rfl, fun _ _ => rfl, fun _ _ => rfl,
    fun k' hk' => Function.update_noteq (show k' ≠ k from fun e => hk' (e ▸ hk)) _ _, rfl, rfl⟩

theorem touchesOnly_nextIdent (n : Nat) : TouchesOnly name ks { ks with nextIdent := n } :=
  ⟨fun _ _ => rfl, fun _ _ => rfl, fun _ _ => rfl, fun _ _ => rfl, rfl, rfl⟩

theorem touchesOnly_updateStats (c : Nat) : TouchesOnly name ks (updateStats name c ks) :=
  ⟨fun _ hn => Function.update_noteq hn _ _, fun _ _ => rfl, fun _ _ => rfl, fun _ _ => rfl, rfl,
    rfl⟩

theorem touchesOnly_openInvIdx (hk : k.owner = name) : TouchesOnly name ks (ks.openInvIdx k).1 := by
  unfold Keyspace.openInvIdx
  split
  · exact TouchesOnly.refl ks
  · exact (touchesOnly_setInvIdx ks hk _).trans (touchesOnly_nextIdent _ _)

theorem touchesOnly_OpenNumericIndex (hk : k.owner = name) :
    TouchesOnly name ks (OpenNumericIndex ks k).1 := by
  unfold OpenNumericIndex
  split
  · exact TouchesOnly.refl ks
  · exact (touchesOnly_setNumIdx ks hk _).trans (touchesOnly_nextIdent _ _)

variable (scan : Nat) (docs : DocTable) (blockNum : Nat)

/-- A repair of a range writes back only the tree it repaired. -/
theorem repairRange_touches (hk : k.owner = name) (rt ident : Nat) :
    TouchesOnly name ks (repairRange scan ks k rt ident docs blockNum).1 ∧
      (repairRange scan ks k rt ident docs blockNum).1.indexes = ks.indexes := by
  unfold repairRange
  split
  · exact ⟨TouchesOnly.refl ks, rfl⟩
  · rename_i t _
    split_ifs
    · exact ⟨TouchesOnly.refl ks, rfl⟩
    · obtain ⟨t', next, collected⟩ := t.repair scan ident docs blockNum
      exact ⟨touchesOnly_setNumIdx ks hk t', rfl⟩

/-- A repair of a tag value's posting list writes back only the tag index it repaired. -/
theorem repairTagValue_touches (hk : k.owner = name) (value : String) (ident : Nat) :
    TouchesOnly name ks (repairTagValue scan ks k value ident docs blockNum).1 ∧
      (repairTagValue scan ks k value ident docs blockNum).1.indexes = ks.indexes := by
  unfold repairTagValue
  split
  · exact ⟨TouchesOnly.refl ks, rfl⟩
  · rename_i t _
    obtain ⟨t', next, collected⟩ := t.repair scan value ident docs blockNum
    exact ⟨touchesOnly_setTagIdx ks hk t', rfl⟩

/-- The trees `buildNumericGC` opens are those of the index's own fields. -/
theorem buildNumericGC_touches {ix : IndexState} (hname : ix.name = name) :
    ∀ (fss : List FieldSpec) (ks : Keyspace), TouchesOnly name ks (buildNumericGC ix fss ks).1 ∧
      (buildNumericGC ix fss ks).1.indexes = ks.indexes
  | [], ks => ⟨TouchesOnly.refl ks, rfl⟩
  | fs :: fss, ks => by
    have ho := touchesOnly_OpenNumericIndex ks (k := GetFormattedKey ix fs .NUMERIC) hname
    have hi := OpenNumericIndex_indexes ks (GetFormattedKey ix fs .NUMERIC)
    simp only [buildNumericGC]
    generalize OpenNumericIndex ks (GetFormattedKey ix fs .NUMERIC) = p at ho hi ⊢
    have ih := buildNumericGC_touches hname fss p.1
    generalize buildNumericGC ix fss p.1 = q at ih ⊢
    exact ⟨ho.trans ih.1, ih.2.trans hi⟩

end Operations

/-! ## Passes -/

/-- A world of the collector of index `name` partway through passes that started on `ks₀`:
nothing outside `name` has changed, the index registered as `name` is named so, the host does
nothing at the yields, and the collector is `name`'s. -/
structure Confined (name : String) (ks₀ : Keyspace) (w : GcWorld) : Prop where
  touches : TouchesOnly name ks₀ w.ks
  named : Named name w.ks
  host : w.host = []
  key : w.gc.keyName = .index name

namespace Confined

variable {name : String} {ks₀ : Keyspace} {w : GcWorld}

theorem invalid (h : Confined name ks₀ w) : Confined name ks₀ w.invalid :=
  ⟨h.touches, h.named, h.host, h.key⟩

/-- The index the collector's search context resolves to is `name`'s. -/
theorem resolve (h : Confined name ks₀ w) {ix : IndexState}
    (hix : resolveSpec w.ks w.gc.keyName = some ix) : ix.name = name := by
  rw [h.key] at hix
  exact h.named ix hix

/-- A batch: a change that touches only `name` and keeps the indexes, then `updateStats`. -/
theorem batch (h : Confined name ks₀ w) {ks : Keyspace} (ht : TouchesOnly name w.ks ks)
    (hi : ks.indexes = w.ks.indexes) (c : Nat) :
    TouchesOnly name ks₀ (updateStats name c ks) ∧ Named name (updateStats name c ks) :=
  ⟨h.touches.trans (ht.trans (touchesOnly_updateStats ks c)), named_updateStats (h.named.of_indexes hi) c⟩

end Confined

variable (cap scan : Nat)

section Loops

variable {name : String} {ks₀ : Keyspace}

theorem termLoop_confined (term : String) :
    ∀ fuel blockNum total (w : GcWorld), Confined name ks₀ w →
      Confined name ks₀ (termLoop cap scan name term fuel blockNum total w).1
  | 0, _, _, _, h => h
  | fuel + 1, blockNum, total, w, h => by
    have hk : (Key.term name term).owner = name := rfl
    have ho := touchesOnly_openInvIdx w.ks hk
    have hi := w.ks.openInvIdx_indexes (.term name term)
    simp only [termLoop]
    generalize w.ks.openInvIdx (.term name term) = p at ho hi ⊢
    generalize p.2.Repair (p.1.docsOf name) blockNum scan = R
    have hb := h.batch (ho.trans (touchesOnly_setInvIdx p.1 hk R.1)) hi R.2.2
    have hw : Confined name ks₀ { ({ w with ks := p.1 }).record (.term (.term name term) p.2.ident)
        with ks := updateStats name R.2.2 (p.1.setInvIdx (.term name term) R.1) } :=
      ⟨hb.1, hb.2, h.host, h.key⟩
    rw [GcWorld.yield_of_host cap hw.host]
    split_ifs
    · exact hw
    · exact hw.invalid
    · exact termLoop_confined term fuel _ _ _ hw

theorem tagLoop_confined {k : Key} (hk : k.owner = name) (value : String) :
    ∀ fuel ident blockNum total (w : GcWorld), Confined name ks₀ w →
      Confined name ks₀ (tagLoop cap scan name k value fuel ident blockNum total w).1
  | 0, _, _, _, _, h => h
  | fuel + 1, ident, blockNum, total, w, h => by
    have hR := repairTagValue_touches w.ks scan (w.ks.docsOf name) blockNum hk value ident
    simp only [tagLoop, GcWorld.ks_record]
    generalize repairTagValue scan w.ks k value ident (w.ks.docsOf name) blockNum = R at hR ⊢
    have hb := h.batch hR.1 hR.2 R.2.2
    have hw : Confined name ks₀ { w.record (.tag k value ident) with
        ks := updateStats name R.2.2 R.1 } := ⟨hb.1, hb.2, h.host, h.key⟩
    rw [GcWorld.yield_of_host cap hw.host]
    split_ifs
    · exact hw
    · exact hw.invalid
    · split
      · exact hw
      · split
        · exact hw
        · exact tagLoop_confined hk value fuel _ _ _ _ hw

theorem numLoop_confined {k : Key} (hk : k.owner = name) (g : NumericFieldGC) :
    ∀ fuel ident blockNum total (w : GcWorld), Confined name ks₀ w →
      Confined name ks₀ (numLoop cap scan name k g fuel ident blockNum total w).1
  | 0, _, _, _, _, h => h
  | fuel, ident, blockNum, total, w, h =>
    numLoop_preserves cap scan (Confined name ks₀) name k g (fun w ident blockNum h _ =>
      have hR := repairRange_touches w.ks scan (w.ks.docsOf name) blockNum hk g.rt ident
      have hb := h.batch hR.1 hR.2 _
      ⟨hb.1, hb.2, h.host, h.key⟩)
      (fun _ h => (GcWorld.yield_of_host cap h.host).symm ▸ h) (fun _ h => h.invalid)
      fuel ident blockNum total w h

end Loops

section Collectors

variable {name : String} {ks₀ : Keyspace}

theorem CollectRandomTerm_confined (fuel : Nat) (ch : GcChoices) (w : GcWorld)
    (h : Confined name ks₀ w) : Confined name ks₀ (CollectRandomTerm cap scan fuel ch w).1 := by
  unfold CollectRandomTerm
  split
  · exact h.invalid
  · rename_i ix hix
    have hname := h.resolve hix
    split_ifs
    · exact h.invalid
    · split
      · exact h
      · subst hname
        exact termLoop_confined cap scan _ fuel 0 0 w h

theorem CollectTagIndex_confined (fuel : Nat) (ch : GcChoices) (w : GcWorld)
    (h : Confined name ks₀ w) : Confined name ks₀ (CollectTagIndex cap scan fuel ch w).1 := by
  unfold CollectTagIndex
  split
  · exact h.invalid
  · rename_i ix hix
    have hname := h.resolve hix
    split_ifs
    · exact h.invalid
    dsimp only
    split
    · exact h
    · split
      · exact h
      · split
        · exact h
        · subst hname
          exact tagLoop_confined cap scan (k := GetFormattedKey ix _ .TAG) rfl _ fuel _ 0 0 w h

theorem CollectNumericIndex_confined (fuel : Nat) (ch : GcChoices) (w : GcWorld)
    (h : Confined name ks₀ w) : Confined name ks₀ (CollectNumericIndex cap scan fuel ch w).1 := by
  unfold CollectNumericIndex
  split
  · exact h.invalid
  · rename_i ix hix
    have hname := h.resolve hix
    split_ifs
    · exact h.invalid
    dsimp only
    split_ifs
    · exact h
    · exact h
    have hs : TouchesOnly name w.ks (numericStates ix (ix.spec.fields.filter (·.types.numeric)) w).1 ∧
        (numericStates ix (ix.spec.fields.filter (·.types.numeric)) w).1.indexes = w.ks.indexes := by
      unfold numericStates
      split_ifs
      · exact buildNumericGC_touches hname _ w.ks
      · exact ⟨TouchesOnly.refl _, rfl⟩
    generalize numericStates ix _ w = S at hs ⊢
    obtain ⟨ks₁, gcs⟩ := S
    dsimp only at hs ⊢
    generalize hk : GetFormattedKey ix _ .NUMERIC = k
    have hk : k.owner = name := hk ▸ hname
    have ho := touchesOnly_OpenNumericIndex ks₁ hk
    have hi := OpenNumericIndex_indexes ks₁ k
    generalize OpenNumericIndex ks₁ k = q at ho hi ⊢
    obtain ⟨ks₂, rt⟩ := q
    have hw : Confined name ks₀ { w with ks := ks₂, gc := { w.gc with numericGC := gcs } } :=
      ⟨h.touches.trans (hs.1.trans ho), h.named.of_indexes (hi.trans hs.2), h.host, h.key⟩
    split
    · exact hw
    · split
      · exact ⟨hw.touches, hw.named, h.host, h.key⟩
      · exact ⟨hw.touches, hw.named, h.host, h.key⟩
      · subst hname
        exact numLoop_confined cap scan hk _ fuel _ 0 0 _ ⟨hw.touches, hw.named, h.host, h.key⟩

variable (B : HzBounds)

theorem PeriodicCallback_confined (fuel : Nat) (loading : Bool) (ch : GcChoices) (w : GcWorld)
    (h : Confined name ks₀ w) : Confined name ks₀ (PeriodicCallback cap scan B fuel loading ch w).1 :=
  PeriodicCallback_preserves cap scan B (Confined name ks₀) h ⟨h.touches, h.named, h.host, h.key⟩
    (CollectRandomTerm_confined cap scan fuel ch) (CollectNumericIndex_confined cap scan fuel ch)
    (CollectTagIndex_confined cap scan fuel ch) fun _ _ hw => ⟨hw.touches, hw.named, hw.host, hw.key⟩

end Collectors

/-! ## Runs of passes -/

variable (B : HzBounds)

/-- Passes of one collector, one after another, each meeting no host step at its yields,
until one reads freed memory. -/
def runPasses (w : GcWorld) (ps : List (Nat × Bool × GcChoices)) : GcWorld :=
  runSteps (fun w p =>
    let r := PeriodicCallback cap scan B p.1 p.2.1 p.2.2 { w with host := [] }
    (r.1, r.2.crashed)) w ps

/-- What every pass keeps, from any world, when no host step comes at its yields, a run of
passes keeps. -/
theorem runPasses_preserves (I : GcWorld → Prop)
    (h : ∀ w (p : Nat × Bool × GcChoices), I w →
      I (PeriodicCallback cap scan B p.1 p.2.1 p.2.2 { w with host := [] }).1)
    (ps : List (Nat × Bool × GcChoices)) (w : GcWorld) (hw : I w) : I (runPasses cap scan B w ps) :=
  runSteps_preserves I (fun w p _ hw => h w p hw) w hw

theorem runPasses_confined {name : String} {ks₀ : Keyspace} (ps : List (Nat × Bool × GcChoices))
    (w : GcWorld) (h : Confined name ks₀ { w with host := [] }) :
    Confined name ks₀ { runPasses cap scan B w ps with host := [] } :=
  runPasses_preserves cap scan B (fun w => Confined name ks₀ { w with host := [] })
    (fun _ p h => have hp := PeriodicCallback_confined cap scan B p.1 p.2.1 p.2.2 _ h
      ⟨hp.touches, hp.named, rfl, hp.key⟩) ps w h

/-- Whatever passes the collector of index `name` runs, when no host step comes at their
yields, nothing outside index `name` changes: no other index, no posting list, tree or tag
index of another index's keys, no geo index and no stored hash. -/
theorem passes_touch_only (name : String) (w : GcWorld) (hkey : w.gc.keyName = .index name)
    (hnamed : Named name w.ks) (ps : List (Nat × Bool × GcChoices)) :
    TouchesOnly name w.ks (runPasses cap scan B w ps).ks :=
  (runPasses_confined cap scan B ps w ⟨TouchesOnly.refl _, hnamed, rfl, hkey⟩).touches

theorem passes_touch_only_gcWorld :
    (gcWorld 1).gc.keyName = .index "idx" ∧ Named "idx" (gcWorld 1).ks ∧
    TouchesOnly "idx" (gcWorld 1).ks
      (runPasses 100 1 defaultHzBounds (gcWorld 1) [(100, false, ⟨none, 0, 0, 0⟩)]).ks :=
  have hnamed : Named "idx" (gcWorld 1).ks := fun ix hix => by
    simp only [gcWorld, gcKs, if_true, Option.some.injEq] at hix
    exact hix ▸ rfl
  ⟨rfl, hnamed, passes_touch_only 100 1 defaultHzBounds "idx" (gcWorld 1) rfl hnamed _⟩

end RediSearch
