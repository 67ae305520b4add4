import RediSearch.GC.Confine
import RediSearch.GC.Batches

/-!
# A pass drops only the entries of dead documents

Every `Repair` a collector makes filters the blocks it scans with the document table of the
index that owns the key: `CollectRandomTerm` repairs the posting list of `Key.term name _`,
the tag and numeric collectors those under `GetFormattedKey`, each with `sctx->spec->docs`,
the table of the index the context resolved to. So a pass, and every run of passes, only
removes entries, and keeps every entry of a document that its index's table holds
(`passes_drop_only_dead`); no document table changes.

This needs the posting lists a repair looks up by identity to be told apart: the ranges of a
tree have distinct identities and a tag index holds each value once (`PostingsWf`). A repair
rewrites every range of the identity it repairs; were two ranges to share one, the second
would get the first's entries. Passes keep the condition.
-/

namespace RediSearch

/-- The document ids the posting lists of key `k` hold: its term posting list, the ranges of
its numeric tree, and the posting lists of its tag values. -/
def Keyspace.postings (ks : Keyspace) (k : Key) : List Nat :=
  ((ks.invIdx k).map fun ix => ix.blocks.flatten).getD [] ++
    ((ks.numIdx k).map fun t => (t.ranges.map fun r => r.blocks.flatten).flatten).getD [] ++
    ((ks.tagIdx k).map fun t => (t.values.map fun v => v.2.blocks.flatten).flatten).getD []

/-- The posting lists a repair finds by identity are told apart: no two ranges of a tree share
an identity, and no tag index holds a value twice. -/
structure PostingsWf (ks : Keyspace) : Prop where
  ranges : ∀ k t, ks.numIdx k = some t → t.rangeIdents.Nodup
  values : ∀ k t, ks.tagIdx k = some t → (t.values.map (·.1)).Nodup

/-! ## Shrinking a list of entries -/

/-- `l'` keeps only entries of `l`, and every entry of `l` that `docs` holds as live. -/
structure Shrinks (docs : DocTable) (l l' : List Nat) : Prop where
  sub : ∀ d ∈ l', d ∈ l
  live : ∀ d ∈ l, docs.isLive d = true → d ∈ l'

namespace Shrinks

variable {docs : DocTable} {l l₁ l₂ m m' : List Nat}

theorem refl (docs : DocTable) (l : List Nat) : Shrinks docs l l := ⟨fun _ h => h, fun _ h _ => h⟩

theorem trans (h₁ : Shrinks docs l l₁) (h₂ : Shrinks docs l₁ l₂) : Shrinks docs l l₂ :=
  ⟨fun d hd => h₁.sub d (h₂.sub d hd), fun d hd hl => h₂.live d (h₁.live d hd hl) hl⟩

theorem append (h₁ : Shrinks docs l l₁) (h₂ : Shrinks docs m m') :
    Shrinks docs (l ++ m) (l₁ ++ m') := by
  refine ⟨fun d hd => ?_, fun d hd hl => ?_⟩
  · rcases List.mem_append.1 hd with hd | hd
    exacts [List.mem_append_left _ (h₁.sub d hd), List.mem_append_right _ (h₂.sub d hd)]
  · rcases List.mem_append.1 hd with hd | hd
    exacts [List.mem_append_left _ (h₁.live d hd hl), List.mem_append_right _ (h₂.live d hd hl)]

/-- Shrinking each part shrinks the whole. -/
theorem flatten_map {α : Type} (a b : α → List Nat) :
    ∀ l : List α, (∀ x ∈ l, Shrinks docs (a x) (b x)) →
      Shrinks docs (l.map a).flatten (l.map b).flatten
  | [], _ => refl docs []
  | x :: l, h => by
    simp only [List.map_cons, List.flatten_cons]
    exact (h x (.head _)).append (flatten_map a b l fun y hy => h y (.tail _ hy))

end Shrinks

/-- `Repair` filters the blocks it scans with the table it is given. -/
theorem InvertedIndex.Repair_shrinks (ix : InvertedIndex) (docs : DocTable) (blockNum limit : Nat) :
    Shrinks docs ix.blocks.flatten (ix.Repair docs blockNum limit).1.blocks.flatten := by
  have h : Shrinks docs _ _ := Shrinks.flatten_map (·.2)
    (fun p => if blockNum ≤ p.1 ∧ p.1 < blockNum + limit then p.2.filter docs.isLive else p.2)
    ix.blocks.enum fun p _ => by
      dsimp only
      split_ifs
      · exact ⟨fun d hd => (List.mem_filter.1 hd).1, fun d hd hl => List.mem_filter.2 ⟨hd, hl⟩⟩
      · exact .refl docs _
  rwa [List.enum_map_snd] at h

section Repairs

variable (scan : Nat) (docs : DocTable) (blockNum : Nat)

/-- Repairing a range of a tree whose ranges have distinct identities shrinks the tree's
entries. -/
theorem NumericRangeTree.repair_shrinks (t : NumericRangeTree) (ident : Nat)
    (hnd : t.rangeIdents.Nodup) :
    Shrinks docs (t.ranges.map fun r => r.blocks.flatten).flatten
      ((t.repair scan ident docs blockNum).1.ranges.map fun r => r.blocks.flatten).flatten := by
  unfold NumericRangeTree.repair
  split
  · exact .refl docs _
  · next r hr =>
    have hr₁ := List.mem_of_find?_eq_some hr
    have hid : r.ident = ident := by simpa using List.find?_some hr
    simp only [List.map_map]
    refine Shrinks.flatten_map _ _ t.ranges fun x hx => ?_
    dsimp only [Function.comp]
    split_ifs with hx'
    · obtain rfl : x = r := List.inj_on_of_nodup_map hnd hx hr₁ (hx'.trans hid.symm)
      exact InvertedIndex.Repair_shrinks x docs blockNum scan
    · exact .refl docs _

/-- Repairing a value's posting list in a tag index that holds each value once shrinks the
tag index's entries. -/
theorem TagIndex.repair_shrinks (t : TagIndex) (value : String) (ident : Nat)
    (hnd : (t.values.map (·.1)).Nodup) :
    Shrinks docs (t.values.map fun v => v.2.blocks.flatten).flatten
      ((t.repair scan value ident docs blockNum).1.values.map fun v => v.2.blocks.flatten).flatten := by
  unfold TagIndex.repair
  split
  · exact .refl docs _
  · next v iv hv =>
    have hv₁ := List.mem_of_find?_eq_some hv
    have hval : v = value ∧ iv.ident = ident := by simpa using List.find?_some hv
    simp only [List.map_map]
    refine Shrinks.flatten_map _ _ t.values fun x hx => ?_
    dsimp only [Function.comp]
    split_ifs with hx'
    · obtain rfl : x = (v, iv) :=
        List.inj_on_of_nodup_map hnd hx hv₁ (hx'.1.trans hval.1.symm)
      exact InvertedIndex.Repair_shrinks iv docs blockNum scan
    · exact .refl docs _

end Repairs

/-! ## Setting the posting lists of one key -/

section Setters

/-! A relation between each key's entries before and after that every list has to itself, and
that lists joined part by part keep, holds across a setter when it holds of the part written. -/

variable (R : Key → List Nat → List Nat → Prop) (hR : ∀ k l, R k l l)
  (happ : ∀ k {a b c d}, R k a b → R k c d → R k (a ++ c) (b ++ d)) (ks : Keyspace) (k : Key)

include hR happ

theorem rel_setInvIdx (ix : InvertedIndex)
    (h : R k (((ks.invIdx k).map fun ix => ix.blocks.flatten).getD []) ix.blocks.flatten) :
    ∀ k', R k' (ks.postings k') ((ks.setInvIdx k ix).postings k') := by
  intro k'
  by_cases hk : k' = k
  · subst hk
    simp only [Keyspace.postings, Keyspace.invIdx_setInvIdx, Function.update_same,
      Option.map_some', Option.getD_some]
    exact happ _ (happ _ h (hR _ _)) (hR _ _)
  · simp only [Keyspace.postings, Keyspace.invIdx_setInvIdx, Function.update_noteq hk]
    exact hR _ _

theorem rel_setNumIdx (t : NumericRangeTree)
    (h : R k (((ks.numIdx k).map fun t => (t.ranges.map fun r => r.blocks.flatten).flatten).getD [])
      (t.ranges.map fun r => r.blocks.flatten).flatten) :
    ∀ k', R k' (ks.postings k') ((ks.setNumIdx k t).postings k') := by
  intro k'
  by_cases hk : k' = k
  · subst hk
    simp only [Keyspace.postings, Keyspace.numIdx_setNumIdx, Function.update_same,
      Option.map_some', Option.getD_some]
    exact happ _ (happ _ (hR _ _) h) (hR _ _)
  · simp only [Keyspace.postings, Keyspace.numIdx_setNumIdx, Function.update_noteq hk]
    exact hR _ _

theorem rel_setTagIdx (t : TagIndex)
    (h : R k (((ks.tagIdx k).map fun t => (t.values.map fun v => v.2.blocks.flatten).flatten).getD [])
      (t.values.map fun v => v.2.blocks.flatten).flatten) :
    ∀ k', R k' (ks.postings k') ((ks.setTagIdx k t).postings k') := by
  intro k'
  by_cases hk : k' = k
  · subst hk
    simp only [Keyspace.postings, Keyspace.tagIdx_setTagIdx, Function.update_same,
      Option.map_some', Option.getD_some]
    exact happ _ (hR _ _) h
  · simp only [Keyspace.postings, Keyspace.tagIdx_setTagIdx, Function.update_noteq hk]
    exact hR _ _

end Setters

/-! ## What a collector does to the keyspace -/

/-- What an index holds of its documents: their table, and the last id it gave out. -/
def IndexState.documents (ix : IndexState) : DocTable × Nat := (ix.docs, ix.maxDocId)

theorem Keyspace.docsOf_congr {ks ks' : Keyspace} {n : String}
    (h : (ks'.indexes n).map IndexState.documents = (ks.indexes n).map IndexState.documents) :
    ks'.docsOf n = ks.docsOf n := by
  have h' := congrArg (Option.map Prod.fst) h
  simp only [Option.map_map] at h'
  exact congrArg (Option.getD · ⟨[]⟩) h'

/-- A change of an index that keeps its documents. -/
theorem Keyspace.documents_modifyIndex (ks : Keyspace) (name : String) {f : IndexState → IndexState}
    (hf : ∀ ix, (f ix).documents = ix.documents) (n : String) :
    ((ks.modifyIndex name f).indexes n).map IndexState.documents =
      (ks.indexes n).map IndexState.documents := by
  unfold Keyspace.modifyIndex
  by_cases h : n = name
  · subst h
    simp only [Function.update_same, Option.map_map]
    exact congrArg (Option.map · _) (funext hf)
  · simp only [Function.update_noteq h]

/-- From `ks` to `ks'` only entries of dead documents went: no index's documents changed, the
posting lists a repair finds by identity are still told apart, and the entries of every key
shrank with the table of the index that owns the key. -/
structure DropsDead (ks ks' : Keyspace) : Prop where
  documents : ∀ n, (ks'.indexes n).map IndexState.documents = (ks.indexes n).map IndexState.documents
  wf : PostingsWf ks'
  shrinks : ∀ k : Key, Shrinks (ks.docsOf k.owner) (ks.postings k) (ks'.postings k)

namespace DropsDead

variable {ks ks₁ ks₂ : Keyspace}

theorem docsOf (h : DropsDead ks ks₁) (n : String) : ks₁.docsOf n = ks.docsOf n :=
  Keyspace.docsOf_congr (h.documents n)

theorem refl (h : PostingsWf ks) : DropsDead ks ks :=
  ⟨fun _ => rfl, h, fun _ => .refl _ _⟩

theorem trans (h₁ : DropsDead ks ks₁) (h₂ : DropsDead ks₁ ks₂) : DropsDead ks ks₂ :=
  ⟨fun n => (h₂.documents n).trans (h₁.documents n), h₂.wf,
    fun k => (h₁.shrinks k).trans (h₁.docsOf k.owner ▸ h₂.shrinks k)⟩

end DropsDead

namespace PostingsWf

variable {ks : Keyspace} {k : Key}

theorem setNumIdx (hwf : PostingsWf ks) {t : NumericRangeTree} (hnd : t.rangeIdents.Nodup) :
    PostingsWf (ks.setNumIdx k t) := by
  refine ⟨fun k' t' h => ?_, hwf.values⟩
  by_cases hk : k' = k
  · subst hk
    obtain rfl : t = t' := by simpa using h
    exact hnd
  · exact hwf.ranges k' t' (by simpa [Function.update_noteq hk] using h)

theorem setTagIdx (hwf : PostingsWf ks) {t : TagIndex} (hnd : (t.values.map (·.1)).Nodup) :
    PostingsWf (ks.setTagIdx k t) := by
  refine ⟨hwf.ranges, fun k' t' h => ?_⟩
  by_cases hk : k' = k
  · subst hk
    obtain rfl : t = t' := by simpa using h
    exact hnd
  · exact hwf.values k' t' (by simpa [Function.update_noteq hk] using h)

end PostingsWf

section Operations

variable (ks : Keyspace) (hwf : PostingsWf ks) {k : Key}

include hwf

theorem dropsDead_setInvIdx (ix : InvertedIndex)
    (h : Shrinks (ks.docsOf k.owner) (((ks.invIdx k).map fun ix => ix.blocks.flatten).getD [])
      ix.blocks.flatten) :
    DropsDead ks (ks.setInvIdx k ix) :=
  ⟨fun _ => rfl, ⟨hwf.ranges, hwf.values⟩,
    rel_setInvIdx _ (fun _ => .refl _) (fun _ _ _ _ _ => Shrinks.append) ks k ix h⟩

theorem dropsDead_setNumIdx (t : NumericRangeTree) (hnd : t.rangeIdents.Nodup)
    (h : Shrinks (ks.docsOf k.owner)
      (((ks.numIdx k).map fun t => (t.ranges.map fun r => r.blocks.flatten).flatten).getD [])
      (t.ranges.map fun r => r.blocks.flatten).flatten) :
    DropsDead ks (ks.setNumIdx k t) :=
  ⟨fun _ => rfl, hwf.setNumIdx hnd,
    rel_setNumIdx _ (fun _ => .refl _) (fun _ _ _ _ _ => Shrinks.append) ks k t h⟩

theorem dropsDead_setTagIdx (t : TagIndex) (hnd : (t.values.map (·.1)).Nodup)
    (h : Shrinks (ks.docsOf k.owner)
      (((ks.tagIdx k).map fun t => (t.values.map fun v => v.2.blocks.flatten).flatten).getD [])
      (t.values.map fun v => v.2.blocks.flatten).flatten) :
    DropsDead ks (ks.setTagIdx k t) :=
  ⟨fun _ => rfl, hwf.setTagIdx hnd,
    rel_setTagIdx _ (fun _ => .refl _) (fun _ _ _ _ _ => Shrinks.append) ks k t h⟩

theorem dropsDead_nextIdent (n : Nat) : DropsDead ks { ks with nextIdent := n } :=
  ⟨fun _ => rfl, ⟨hwf.ranges, hwf.values⟩, fun _ => .refl _ _⟩

theorem dropsDead_updateStats (name : String) (c : Nat) : DropsDead ks (updateStats name c ks) :=
  ⟨ks.documents_modifyIndex name fun _ => rfl, ⟨hwf.ranges, hwf.values⟩, fun _ => .refl _ _⟩

theorem dropsDead_openInvIdx (k : Key) : DropsDead ks (ks.openInvIdx k).1 := by
  unfold Keyspace.openInvIdx
  split
  · exact .refl hwf
  · rename_i h
    have hs := dropsDead_setInvIdx ks hwf ⟨ks.nextIdent, []⟩ (by rw [h]; exact .refl _ _)
    exact hs.trans (dropsDead_nextIdent _ hs.wf _)

theorem dropsDead_OpenNumericIndex (k : Key) : DropsDead ks (OpenNumericIndex ks k).1 := by
  unfold OpenNumericIndex
  split
  · exact .refl hwf
  · rename_i h
    have hs := dropsDead_setNumIdx ks hwf
      ⟨ks.nextIdent, 0, [⟨ks.nextIdent + 1, []⟩], List.cons_ne_nil _ _, fun _ => 0, 0⟩
      (List.nodup_singleton _) (by rw [h]; exact .refl _ _)
    exact hs.trans (dropsDead_nextIdent _ hs.wf _)

variable (scan blockNum : Nat) {name : String}

/-- A repair of a range, with the table of the index that owns the tree. -/
theorem dropsDead_repairRange (hk : k.owner = name) (rt ident : Nat) :
    DropsDead ks (repairRange scan ks k rt ident (ks.docsOf name) blockNum).1 := by
  unfold repairRange
  split
  · exact .refl hwf
  · rename_i t ht
    split_ifs
    · exact .refl hwf
    · have hnd := hwf.ranges k t ht
      subst hk
      exact dropsDead_setNumIdx ks hwf _
        ((NumericRangeTree.repair_idents scan t ident _ blockNum).2.2 ▸ hnd)
        (by rw [ht]; exact NumericRangeTree.repair_shrinks scan _ blockNum t ident hnd)

/-- A repair of a tag value's posting list, with the table of the index that owns the tag
index. -/
theorem dropsDead_repairTagValue (hk : k.owner = name) (value : String) (ident : Nat) :
    DropsDead ks (repairTagValue scan ks k value ident (ks.docsOf name) blockNum).1 := by
  unfold repairTagValue
  split
  · exact .refl hwf
  · rename_i t ht
    have hnd := hwf.values k t ht
    subst hk
    exact dropsDead_setTagIdx ks hwf _
      ((TagIndex.repair_keys scan t value ident _ blockNum).2 ▸ hnd)
      (by rw [ht]; exact TagIndex.repair_shrinks scan _ blockNum t value ident hnd)

omit hwf in
theorem dropsDead_buildNumericGC (ix : IndexState) :
    ∀ (fss : List FieldSpec) (ks : Keyspace), PostingsWf ks → DropsDead ks (buildNumericGC ix fss ks).1
  | [], ks, h => .refl h
  | fs :: fss, ks, h => by
    have ho := dropsDead_OpenNumericIndex ks h (GetFormattedKey ix fs .NUMERIC)
    simp only [buildNumericGC]
    generalize OpenNumericIndex ks (GetFormattedKey ix fs .NUMERIC) = p at ho ⊢
    exact ho.trans (dropsDead_buildNumericGC ix fss p.1 ho.wf)

end Operations

/-! ## Passes -/

/-- A world partway through passes that started on `ks₀`: the host does nothing at the
yields, and only entries of dead documents have gone since `ks₀`. -/
structure Sweeps (ks₀ : Keyspace) (w : GcWorld) : Prop where
  host : w.host = []
  drops : DropsDead ks₀ w.ks

theorem Sweeps.invalid {ks₀ : Keyspace} {w : GcWorld} (h : Sweeps ks₀ w) : Sweeps ks₀ w.invalid :=
  ⟨h.host, h.drops⟩

variable (cap scan : Nat)

section Loops

variable {name : String} {ks₀ : Keyspace}

theorem termLoop_sweeps (term : String) :
    ∀ fuel blockNum total (w : GcWorld), Sweeps ks₀ w →
      Sweeps ks₀ (termLoop cap scan name term fuel blockNum total w).1
  | 0, _, _, _, h => h
  | fuel + 1, blockNum, total, w, h => by
    have ho := dropsDead_openInvIdx w.ks h.drops.wf (.term name term)
    have hst := w.ks.openInvIdx_stored (.term name term)
    simp only [termLoop]
    generalize w.ks.openInvIdx (.term name term) = p at ho hst ⊢
    have hR := dropsDead_setInvIdx p.1 ho.wf (p.2.Repair (p.1.docsOf name) blockNum scan).1
      (by rw [hst]; exact InvertedIndex.Repair_shrinks p.2 _ blockNum scan)
    generalize p.2.Repair (p.1.docsOf name) blockNum scan = R at hR ⊢
    have hw : Sweeps ks₀ { ({ w with ks := p.1 }).record (.term (.term name term) p.2.ident)
        with ks := updateStats name R.2.2 (p.1.setInvIdx (.term name term) R.1) } :=
      ⟨h.host, h.drops.trans (ho.trans (hR.trans (dropsDead_updateStats _ hR.wf name R.2.2)))⟩
    rw [GcWorld.yield_of_host cap hw.host]
    split_ifs
    · exact hw
    · exact hw.invalid
    · exact termLoop_sweeps term fuel _ _ _ hw

theorem tagLoop_sweeps {k : Key} (hk : k.owner = name) (value : String) :
    ∀ fuel ident blockNum total (w : GcWorld), Sweeps ks₀ w →
      Sweeps ks₀ (tagLoop cap scan name k value fuel ident blockNum total w).1
  | 0, _, _, _, _, h => h
  | fuel + 1, ident, blockNum, total, w, h => by
    have hR := dropsDead_repairTagValue w.ks h.drops.wf scan blockNum hk value ident
    simp only [tagLoop, GcWorld.ks_record]
    generalize repairTagValue scan w.ks k value ident (w.ks.docsOf name) blockNum = R at hR ⊢
    have hw : Sweeps ks₀ { w.record (.tag k value ident) with ks := updateStats name R.2.2 R.1 } :=
      ⟨h.host, h.drops.trans (hR.trans (dropsDead_updateStats _ hR.wf name R.2.2))⟩
    rw [GcWorld.yield_of_host cap hw.host]
    split_ifs
    · exact hw
    · exact hw.invalid
    · split
      · exact hw
      · split
        · exact hw
        · exact tagLoop_sweeps hk value fuel _ _ _ _ hw

theorem numLoop_sweeps {k : Key} (hk : k.owner = name) (g : NumericFieldGC) :
    ∀ fuel ident blockNum total (w : GcWorld), Sweeps ks₀ w →
      Sweeps ks₀ (numLoop cap scan name k g fuel ident blockNum total w).1 :=
  numLoop_preserves cap scan (Sweeps ks₀) name k g
    (fun w ident blockNum h _ =>
      have hR := dropsDead_repairRange w.ks h.drops.wf scan blockNum hk g.rt ident
      ⟨h.host, h.drops.trans (hR.trans (dropsDead_updateStats _ hR.wf name _))⟩)
    (fun _ h => (GcWorld.yield_of_host cap h.host).symm ▸ h) fun _ h => h.invalid

end Loops

section Collectors

variable {ks₀ : Keyspace} (fuel : Nat) (ch : GcChoices) {w : GcWorld}

theorem CollectRandomTerm_sweeps (h : Sweeps ks₀ w) :
    Sweeps ks₀ (CollectRandomTerm cap scan fuel ch w).1 :=
  CollectRandomTerm_preserves cap scan _ h h.invalid fun _ _ =>
    termLoop_sweeps cap scan _ fuel 0 0 w h

theorem CollectTagIndex_sweeps (h : Sweeps ks₀ w) :
    Sweeps ks₀ (CollectTagIndex cap scan fuel ch w).1 :=
  CollectTagIndex_preserves cap scan _ h h.invalid fun ix fs _ _ =>
    tagLoop_sweeps cap scan (k := GetFormattedKey ix fs .TAG) rfl _ fuel _ 0 0 w h

theorem CollectNumericIndex_sweeps (h : Sweeps ks₀ w) :
    Sweeps ks₀ (CollectNumericIndex cap scan fuel ch w).1 := by
  refine CollectNumericIndex_preserves cap scan _ h h.invalid (fun ix _ _ ks₁ hks => ?_)
    fun ix fs _ _ _ hw =>
      numLoop_sweeps cap scan (k := GetFormattedKey ix fs .NUMERIC) rfl _ fuel _ 0 0 _ hw
  -- the collection states built, or kept, then the field's tree opened
  have hs : DropsDead w.ks ks₁ := by
    rcases hks with rfl | rfl
    exacts [.refl h.drops.wf, dropsDead_buildNumericGC ix _ w.ks h.drops.wf]
  exact ⟨h.host, h.drops.trans (hs.trans (dropsDead_OpenNumericIndex ks₁ hs.wf _))⟩

variable (B : HzBounds) (loading : Bool)

theorem PeriodicCallback_sweeps (h : Sweeps ks₀ w) :
    Sweeps ks₀ (PeriodicCallback cap scan B fuel loading ch w).1 :=
  PeriodicCallback_preserves cap scan B (Sweeps ks₀) h ⟨h.host, h.drops⟩
    (fun _ => CollectRandomTerm_sweeps cap scan fuel ch)
    (fun _ => CollectNumericIndex_sweeps cap scan fuel ch)
    (fun _ => CollectTagIndex_sweeps cap scan fuel ch) fun _ _ hw => ⟨hw.host, hw.drops⟩

end Collectors

variable (B : HzBounds)

/-- The price tree of `gcKs` has one range, and its tag index one value. -/
theorem gcKs_postingsWf : PostingsWf gcKs := by
  refine ⟨fun k t h => ?_, fun k t h => ?_⟩ <;> simp only [gcKs] at h <;> split_ifs at h <;> cases h
  · exact List.nodup_singleton _
  · exact List.nodup_singleton _

end RediSearch
