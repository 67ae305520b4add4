import RediSearch.System.Retention
import RediSearch.GC.Reach

/-!
# A pass while the host acts at its yields

Between two batches a collector yields, and the host may change the keyspace: add documents
to posting lists, trees and tag indexes, delete documents and keys, split a tree's ranges,
drop and create indexes (`HostStep`). Every repair reads the document table as the keyspace
has it at that moment, so a pass moves the keyspace along an interleaving (`Interleaves`): the
host steps it met, in the order it met them, with steps between them that only drop entries of
documents the owning index's table does not hold at that moment (`DropsDead`). So does every
run of passes and host steps (`gc_runs_interleave_host`).

The repairs find posting lists by identity, so these must stay told apart while the host
splits ranges: the host gives new ranges identities past every one allocated (`RangesFresh`).
-/

namespace RediSearch

/-- Every range of every tree has an identity allocated before `nextIdent`. -/
def RangesFresh (ks : Keyspace) : Prop :=
  ∀ k t, ks.numIdx k = some t → ∀ r ∈ t.rangeIdents, r < ks.nextIdent

namespace RangesFresh

variable {ks ks' : Keyspace}

/-- A change that allocates nothing behind `nextIdent`: each tree it holds is one held before,
or one whose ranges' identities are allocated. -/
theorem update (h : RangesFresh ks) (hn : ks.nextIdent ≤ ks'.nextIdent)
    (hk : ∀ k t, ks'.numIdx k = some t →
      ks.numIdx k = some t ∨ ∀ r ∈ t.rangeIdents, r < ks'.nextIdent) :
    RangesFresh ks' := fun k t ht r hr =>
  (hk k t ht).elim (fun h' => Nat.lt_of_lt_of_le (h k t h' r hr) hn) (fun h' => h' r hr)

theorem of_numIdx (h : RangesFresh ks) (hn : ks.nextIdent ≤ ks'.nextIdent)
    (he : ks'.numIdx = ks.numIdx) : RangesFresh ks' :=
  h.update hn fun _ _ ht => .inl (he ▸ ht)

/-- Setting a tree whose ranges' identities are allocated before `n`, with `nextIdent := n`. -/
theorem setNumIdx (h : RangesFresh ks) {k : Key} {t : NumericRangeTree} {n : Nat}
    (hn : ks.nextIdent ≤ n) (ht : ∀ r ∈ t.rangeIdents, r < n) :
    RangesFresh { ks.setNumIdx k t with nextIdent := n } :=
  h.update hn fun k' t' h' => by
    by_cases hk : k' = k
    · subst hk
      obtain rfl : t = t' := by simpa using h'
      exact .inr ht
    · exact .inl (by simpa [Function.update_noteq hk] using h')

end RangesFresh

/-! ## The collector's operations allocate nothing behind `nextIdent` -/

section Operations

variable (ks : Keyspace) (hfr : RangesFresh ks) {k : Key}

include hfr

theorem fresh_openInvIdx (k : Key) : RangesFresh (ks.openInvIdx k).1 :=
  hfr.of_numIdx (ks.openInvIdx_nextIdent k) (ks.openInvIdx_numIdx k)

theorem fresh_OpenNumericIndex (k : Key) : RangesFresh (OpenNumericIndex ks k).1 := by
  unfold OpenNumericIndex
  split
  · exact hfr
  · refine hfr.setNumIdx (by omega) fun r hr => ?_
    simp only [NumericRangeTree.rangeIdents, List.map_cons, List.map_nil,
      List.mem_singleton] at hr
    omega

theorem fresh_repairRange (scan : Nat) (rt ident : Nat) (docs : DocTable) (blockNum : Nat) :
    RangesFresh (repairRange scan ks k rt ident docs blockNum).1 := by
  unfold repairRange
  split
  · exact hfr
  · rename_i t ht
    split_ifs
    · exact hfr
    · exact hfr.setNumIdx (n := ks.nextIdent) le_rfl
        ((NumericRangeTree.repair_idents scan t ident docs blockNum).2.2 ▸ hfr k t ht)

theorem fresh_repairTagValue (scan : Nat) (value : String) (ident : Nat) (docs : DocTable)
    (blockNum : Nat) : RangesFresh (repairTagValue scan ks k value ident docs blockNum).1 := by
  unfold repairTagValue
  split
  · exact hfr
  · exact hfr.of_numIdx le_rfl rfl

omit hfr in
theorem fresh_buildNumericGC (ix : IndexState) :
    ∀ (fss : List FieldSpec) (ks : Keyspace), RangesFresh ks →
      RangesFresh (buildNumericGC ix fss ks).1
  | [], _, h => h
  | fs :: fss, ks, h => by
    have ho := fresh_OpenNumericIndex ks h (GetFormattedKey ix fs .NUMERIC)
    simp only [buildNumericGC]
    generalize OpenNumericIndex ks (GetFormattedKey ix fs .NUMERIC) = p at ho ⊢
    exact fresh_buildNumericGC ix fss p.1 ho

end Operations

/-! ## The host keeps the posting lists told apart -/

/-- Splitting a range into two of new identities keeps the identities of a tree distinct. -/
theorem splitRanges_nodup {rs : List InvertedIndex} {i n fresh : Nat} {r : InvertedIndex}
    (hnd : (rs.map (·.ident)).Nodup) (hf : ∀ x ∈ rs, x.ident < fresh) :
    ((splitRanges rs i n fresh r).map (·.ident)).Nodup := by
  have hsub : (rs.take i ++ rs.drop (i + 1)).Sublist rs :=
    List.eraseIdx_eq_take_drop_succ rs i ▸ List.eraseIdx_sublist rs i
  have hrest := hnd.sublist (hsub.map (·.ident))
  have hout : ∀ x ∈ (rs.take i ++ rs.drop (i + 1)).map (·.ident), x < fresh := fun x hx => by
    obtain ⟨y, hy, rfl⟩ := List.mem_map.1 hx
    exact hf y (hsub.subset hy)
  have hperm : ((splitRanges rs i n fresh r).map (·.ident)).Perm
      (fresh :: (fresh + 1) :: (rs.take i ++ rs.drop (i + 1)).map (·.ident)) := by
    simp only [splitRanges, List.map_append, List.map_cons, List.map_nil]
    exact List.perm_append_comm.append_right _ |>.trans (by simp)
  refine hperm.nodup_iff.2 (List.nodup_cons.2 ⟨?_, List.nodup_cons.2 ⟨?_, hrest⟩⟩)
  · simp only [List.mem_cons, not_or]
    exact ⟨by omega, fun h => absurd (hout _ h) (lt_irrefl _)⟩
  · exact fun h => absurd (hout _ h) (by omega)

variable (cap : Nat)

/-- A host step keeps the posting lists told apart and allocates nothing behind `nextIdent`. -/
theorem HostStep.apply_wf (h : HostStep) {ks : Keyspace} (hwf : PostingsWf ks)
    (hfr : RangesFresh ks) : PostingsWf (h.apply cap ks) ∧ RangesFresh (h.apply cap ks) := by
  cases h with
  | skip => exact ⟨hwf, hfr⟩
  | dropIndex name => exact ⟨⟨hwf.ranges, hwf.values⟩, hfr⟩
  | createIndex name spec => exact ⟨⟨hwf.ranges, hwf.values⟩, hfr.of_numIdx (Nat.le_succ _) rfl⟩
  | deleteDoc name docId => exact ⟨⟨hwf.ranges, hwf.values⟩, hfr⟩
  | deleteKey k =>
    -- what a key holds after the deletion it held before
    have back : ∀ {β : Type} (f : Key → Option β) k' b, Function.update f k none k' = some b →
        f k' = some b := fun f k' b h' => by
      by_cases hk : k' = k
      · subst hk
        simp at h'
      · rwa [Function.update_noteq hk] at h'
    exact ⟨⟨fun k' t h' => hwf.ranges k' t (back ks.numIdx k' t h'),
      fun k' t h' => hwf.values k' t (back ks.tagIdx k' t h')⟩,
      hfr.update le_rfl fun k' t h' => .inl (back ks.numIdx k' t h')⟩
  | addNumeric k docId v =>
    have ho := adds_OpenNumericIndex ks hwf k
    have hfo := fresh_OpenNumericIndex ks hfr k
    have hst := OpenNumericIndex_stored ks k
    simp only [apply]
    generalize OpenNumericIndex ks k = p at ho hfo hst ⊢
    refine ⟨ho.wf.setNumIdx ?_, hfo.setNumIdx (n := p.1.nextIdent) le_rfl ?_⟩ <;>
      rw [NumericRangeTree.rangeIdents_Add]
    exacts [ho.wf.ranges k p.2 hst, hfo k p.2 hst]
  | splitNumeric k i n =>
    simp only [apply]
    split
    · exact ⟨hwf, hfr⟩
    · rename_i t ht
      split
      · exact ⟨hwf, hfr⟩
      · have hlt : ∀ x ∈ t.ranges, x.ident < ks.nextIdent := fun x hx =>
          hfr k t ht _ (List.mem_map_of_mem _ hx)
        refine ⟨⟨(hwf.setNumIdx ?_).ranges, hwf.values⟩, hfr.setNumIdx (by omega) fun r hr => ?_⟩
        · exact splitRanges_nodup (hwf.ranges k t ht) hlt
        simp only [NumericRangeTree.rangeIdents, splitRanges, List.map_append, List.map_cons,
          List.map_nil, List.mem_append, List.mem_cons, List.mem_map] at hr
        rcases hr with (⟨x, hx, rfl⟩ | rfl | rfl | h) | ⟨x, hx, rfl⟩
        · exact Nat.lt_of_lt_of_le (hlt x (List.mem_of_mem_take hx)) (by omega)
        · omega
        · omega
        · exact absurd h (List.not_mem_nil _)
        · exact Nat.lt_of_lt_of_le (hlt x (List.mem_of_mem_drop hx)) (by omega)
  | addTag k value docId =>
    have ho := adds_TagIndexOpen ks hwf k true
    have hfo : RangesFresh (TagIndexOpen ks k true).1 :=
      hfr.of_numIdx (TagIndexOpen_nextIdent ks k true) (TagIndexOpen_numIdx ks k true)
    simp only [apply]
    split
    · next ks₁ t heq =>
      rw [heq] at ho hfo
      have hs := ho.wf.setTagIdx (k := k) (TagIndex.indexOne_entries
        (ho.wf.values k t (TagIndexOpen_stored heq)) cap ks₁.nextIdent docId value).2
      exact ⟨⟨hs.ranges, hs.values⟩, hfo.of_numIdx (Nat.le_succ _) rfl⟩
    · next ks₁ heq =>
      rw [heq] at ho hfo
      exact ⟨ho.wf, hfo⟩
  | removeTagValue k value =>
    simp only [apply]
    split
    · exact ⟨hwf, hfr⟩
    · rename_i t ht
      exact ⟨hwf.setTagIdx ((hwf.values k t ht).sublist ((List.filter_sublist _).map _)),
        hfr.of_numIdx le_rfl rfl⟩
  | addTerm k docId =>
    have ho := adds_openInvIdx ks hwf k
    have hst := ks.openInvIdx_stored k
    simp only [apply]
    generalize hp : ks.openInvIdx k = p at ho hst ⊢
    have hs := adds_setInvIdx p.1 ho.wf (p.2.add cap docId)
      (by rw [hst]; exact InvertedIndex.flatten_subset_add cap p.2 docId)
    exact ⟨hs.wf, (hp ▸ fresh_openInvIdx ks hfr k).of_numIdx le_rfl rfl⟩
  | reuseNumeric k =>
    simp only [apply]
    split
    · exact ⟨hwf, hfr⟩
    · refine ⟨⟨(hwf.setNumIdx ?_).ranges, hwf.values⟩, hfr.setNumIdx (by omega) fun r hr => ?_⟩
      · exact List.nodup_singleton _
      simp only [NumericRangeTree.rangeIdents, List.map_cons, List.map_nil,
        List.mem_singleton] at hr
      omega

/-! ## What the host does to the documents -/

/-- Whether a host step works on the indexes themselves. -/
def HostStep.onIndexes : HostStep → Bool
  | .dropIndex _ | .createIndex _ _ | .deleteDoc _ _ => true
  | _ => false

/-- A host step on posting lists, trees or tag indexes leaves the indexes alone. -/
theorem HostStep.indexes_apply (h : HostStep) (hi : h.onIndexes = false) (ks : Keyspace) :
    (h.apply cap ks).indexes = ks.indexes := by
  cases h <;> simp only [onIndexes, Bool.true_eq_false] at hi <;> simp only [apply]
  case addNumeric k docId v => exact OpenNumericIndex_indexes ks k
  case addTerm k docId => exact ks.openInvIdx_indexes k
  case addTag k value docId =>
    have h := TagIndexOpen_indexes ks k true
    split <;> rename_i heq <;> rw [heq] at h <;> exact h
  all_goals repeat' split
  all_goals rfl

/-- What a host step does to the documents of the indexes depends on those documents alone. -/
theorem HostStep.documents_apply (h : HostStep) {ks ks' : Keyspace}
    (he : ∀ n, (ks.indexes n).map IndexState.documents = (ks'.indexes n).map IndexState.documents)
    (n : String) : ((h.apply cap ks).indexes n).map IndexState.documents =
      ((h.apply cap ks').indexes n).map IndexState.documents := by
  cases hi : h.onIndexes
  · rw [h.indexes_apply cap hi, h.indexes_apply cap hi]
    exact he n
  cases h with
  | dropIndex name | createIndex name _ =>
    simp only [apply, Function.update_apply]
    split_ifs
    · rfl
    · exact he n
  | deleteDoc name docId =>
    simp only [apply, Keyspace.modifyIndex, Function.update_apply]
    split_ifs
    · have hf : (IndexState.documents ∘ fun ix : IndexState => { ix with docs := ix.docs.delete docId }) =
          (fun p : DocTable × Nat => (p.1.delete docId, p.2)) ∘ IndexState.documents := rfl
      rw [Option.map_map, Option.map_map, hf, ← Option.map_map, ← Option.map_map, he]
    · exact he n
  | _ => simp [onIndexes] at hi

/-! ## Interleavings -/

/-- The keyspace `ks` is reached from `ks₀` by the host steps `hs`, in order, with steps
between them that only drop entries of dead documents. -/
inductive Interleaves (ks₀ : Keyspace) : List HostStep → Keyspace → Prop
  | start : Interleaves ks₀ [] ks₀
  | drop {hs : List HostStep} {ks ks' : Keyspace} :
    Interleaves ks₀ hs ks → DropsDead ks ks' → Interleaves ks₀ hs ks'
  | host {hs : List HostStep} {ks : Keyspace} (h : HostStep) :
    Interleaves ks₀ hs ks → Interleaves ks₀ (hs ++ [h]) (h.apply cap ks)

namespace Interleaves

variable {cap} {ks₀ ks₁ ks₂ : Keyspace} {hs hs' : List HostStep}

theorem trans (h₁ : Interleaves cap ks₀ hs ks₁) (h₂ : Interleaves cap ks₁ hs' ks₂) :
    Interleaves cap ks₀ (hs ++ hs') ks₂ := by
  induction h₂ with
  | start => simpa using h₁
  | drop _ hd ih => exact ih.drop hd
  | host h _ ih => simpa only [List.append_assoc] using ih.host h

/-- Along an interleaving, the indexes' documents are those the host's steps give on their
own. -/
theorem documents (h : Interleaves cap ks₀ hs ks₁) (n : String) :
    (ks₁.indexes n).map IndexState.documents =
      ((hs.foldl (fun ks s => s.apply cap ks) ks₀).indexes n).map IndexState.documents := by
  induction h generalizing n with
  | start => rfl
  | drop _ hd ih => exact (hd.documents n).trans (ih n)
  | host s _ ih =>
    simp only [List.foldl_append, List.foldl_cons, List.foldl_nil]
    exact s.documents_apply cap ih n

end Interleaves

/-! ## A pass -/

/-- A world partway through a pass that started on `ks₀` with the host steps `hs₀` to come at
its yields: the posting lists are told apart, every range's identity is allocated, and the
keyspace is reached from `ks₀` by the steps the host took, with only entries of dead documents
dropped between them. -/
structure Interleaved (ks₀ : Keyspace) (hs₀ : List HostStep) (w : GcWorld) : Prop where
  wf : PostingsWf w.ks
  fresh : RangesFresh w.ks
  trace : ∃ used, hs₀ = used ++ w.host ∧ Interleaves cap ks₀ used w.ks

namespace Interleaved

variable {cap} {ks₀ : Keyspace} {hs₀ : List HostStep} {w w' : GcWorld}

theorem invalid (h : Interleaved cap ks₀ hs₀ w) : Interleaved cap ks₀ hs₀ w.invalid :=
  ⟨h.wf, h.fresh, h.trace⟩

/-- A step of the collector that only drops entries of dead documents. -/
theorem drop (h : Interleaved cap ks₀ hs₀ w) (hd : DropsDead w.ks w'.ks)
    (hfr : RangesFresh w'.ks) (hh : w'.host = w.host) : Interleaved cap ks₀ hs₀ w' :=
  ⟨hd.wf, hfr, h.trace.imp fun _ ⟨he, ht⟩ => ⟨hh ▸ he, ht.drop hd⟩⟩

/-- A yield: the host takes its next step. -/
theorem yield (h : Interleaved cap ks₀ hs₀ w) : Interleaved cap ks₀ hs₀ (w.yield cap) := by
  unfold GcWorld.yield
  split
  · exact h
  · rename_i s rest hw
    obtain ⟨used, he, ht⟩ := h.trace
    have hs := s.apply_wf cap h.wf h.fresh
    exact ⟨hs.1, hs.2, used ++ [s], by rw [he, hw]; simp, ht.host s⟩

end Interleaved

variable (scan : Nat)

section Loops

variable {name : String} {ks₀ : Keyspace} {hs₀ : List HostStep}

theorem termLoop_interleaved (term : String) :
    ∀ fuel blockNum total (w : GcWorld), Interleaved cap ks₀ hs₀ w →
      Interleaved cap ks₀ hs₀ (termLoop cap scan name term fuel blockNum total w).1
  | 0, _, _, _, h => h
  | fuel + 1, blockNum, total, w, h => by
    have ho := dropsDead_openInvIdx w.ks h.wf (.term name term)
    have hfo := fresh_openInvIdx w.ks h.fresh (.term name term)
    have hst := w.ks.openInvIdx_stored (.term name term)
    simp only [termLoop]
    generalize w.ks.openInvIdx (.term name term) = p at ho hfo hst ⊢
    have hR := dropsDead_setInvIdx p.1 ho.wf (p.2.Repair (p.1.docsOf name) blockNum scan).1
      (by rw [hst]; exact InvertedIndex.Repair_shrinks p.2 _ blockNum scan)
    generalize p.2.Repair (p.1.docsOf name) blockNum scan = R at hR ⊢
    have hw : Interleaved cap ks₀ hs₀ { ({ w with ks := p.1 }).record (.term (.term name term) p.2.ident)
        with ks := updateStats name R.2.2 (p.1.setInvIdx (.term name term) R.1) } :=
      h.drop (ho.trans (hR.trans (dropsDead_updateStats _ hR.wf name R.2.2)))
        (hfo.of_numIdx le_rfl rfl) rfl
    split_ifs
    · exact hw
    · exact hw.yield.invalid
    · exact termLoop_interleaved term fuel _ _ _ hw.yield

theorem tagLoop_interleaved {k : Key} (hk : k.owner = name) (value : String) :
    ∀ fuel ident blockNum total (w : GcWorld), Interleaved cap ks₀ hs₀ w →
      Interleaved cap ks₀ hs₀ (tagLoop cap scan name k value fuel ident blockNum total w).1
  | 0, _, _, _, _, h => h
  | fuel + 1, ident, blockNum, total, w, h => by
    have hR := dropsDead_repairTagValue w.ks h.wf scan blockNum hk value ident
    have hfR := fresh_repairTagValue w.ks h.fresh (k := k) scan value ident (w.ks.docsOf name)
      blockNum
    simp only [tagLoop, GcWorld.ks_record]
    generalize repairTagValue scan w.ks k value ident (w.ks.docsOf name) blockNum = R at hR hfR ⊢
    have hw : Interleaved cap ks₀ hs₀
        { w.record (.tag k value ident) with ks := updateStats name R.2.2 R.1 } :=
      h.drop (hR.trans (dropsDead_updateStats _ hR.wf name R.2.2)) (hfR.of_numIdx le_rfl rfl) rfl
    split_ifs
    · exact hw
    · exact hw.yield.invalid
    · split
      · exact hw.yield
      · split
        · exact hw.yield
        · exact tagLoop_interleaved hk value fuel _ _ _ _ hw.yield

theorem numLoop_interleaved {k : Key} (hk : k.owner = name) (g : NumericFieldGC) :
    ∀ fuel ident blockNum total (w : GcWorld), Interleaved cap ks₀ hs₀ w →
      Interleaved cap ks₀ hs₀ (numLoop cap scan name k g fuel ident blockNum total w).1 :=
  numLoop_preserves cap scan (Interleaved cap ks₀ hs₀) name k g
    (fun w ident blockNum h _ =>
      have hR := dropsDead_repairRange w.ks h.wf scan blockNum hk g.rt ident
      h.drop (hR.trans (dropsDead_updateStats _ hR.wf name _))
        ((fresh_repairRange w.ks h.fresh (k := k) scan g.rt ident (w.ks.docsOf name)
          blockNum).of_numIdx le_rfl rfl) rfl)
    (fun _ h => h.yield) fun _ h => h.invalid

end Loops

section Collectors

variable {ks₀ : Keyspace} {hs₀ : List HostStep} (fuel : Nat) (ch : GcChoices) {w : GcWorld}

theorem CollectRandomTerm_interleaved (h : Interleaved cap ks₀ hs₀ w) :
    Interleaved cap ks₀ hs₀ (CollectRandomTerm cap scan fuel ch w).1 :=
  CollectRandomTerm_preserves cap scan _ h h.invalid fun _ _ =>
    termLoop_interleaved cap scan _ fuel 0 0 w h

theorem CollectTagIndex_interleaved (h : Interleaved cap ks₀ hs₀ w) :
    Interleaved cap ks₀ hs₀ (CollectTagIndex cap scan fuel ch w).1 :=
  CollectTagIndex_preserves cap scan _ h h.invalid fun ix fs _ _ =>
    tagLoop_interleaved cap scan (k := GetFormattedKey ix fs .TAG) rfl _ fuel _ 0 0 w h

theorem CollectNumericIndex_interleaved (h : Interleaved cap ks₀ hs₀ w) :
    Interleaved cap ks₀ hs₀ (CollectNumericIndex cap scan fuel ch w).1 := by
  refine CollectNumericIndex_preserves cap scan _ h h.invalid (fun ix _ _ ks₁ hks => ?_)
    fun ix fs _ _ _ hw =>
      numLoop_interleaved cap scan (k := GetFormattedKey ix fs .NUMERIC) rfl _ fuel _ 0 0 _ hw
  -- the collection states built, or kept, then the field's tree opened
  have hs : DropsDead w.ks ks₁ ∧ RangesFresh ks₁ := by
    rcases hks with rfl | rfl
    · exact ⟨.refl h.wf, h.fresh⟩
    · exact ⟨dropsDead_buildNumericGC ix _ w.ks h.wf, fresh_buildNumericGC ix _ w.ks h.fresh⟩
  exact h.drop (hs.1.trans (dropsDead_OpenNumericIndex ks₁ hs.1.wf _))
    (fresh_OpenNumericIndex ks₁ hs.2 _) rfl

variable (B : HzBounds) (loading : Bool)

theorem PeriodicCallback_interleaved (h : Interleaved cap ks₀ hs₀ w) :
    Interleaved cap ks₀ hs₀ (PeriodicCallback cap scan B fuel loading ch w).1 :=
  PeriodicCallback_preserves cap scan B (Interleaved cap ks₀ hs₀) h ⟨h.wf, h.fresh, h.trace⟩
    (fun _ => CollectRandomTerm_interleaved cap scan fuel ch)
    (fun _ => CollectNumericIndex_interleaved cap scan fuel ch)
    (fun _ => CollectTagIndex_interleaved cap scan fuel ch) fun _ _ hw => ⟨hw.wf, hw.fresh, hw.trace⟩

end Collectors

/-! ## Runs of passes and host steps -/

/-- The host steps an event offers: those at the yields of a pass, or the one it is. -/
def GcEvent.offered : GcEvent → List HostStep
  | .pass _ _ _ steps => steps
  | .host h => [h]

/-- The keyspace `ks` is reached from `ks₀` by some of the host steps `offered`, in order, with
only entries of dead documents dropped between them; its posting lists are told apart and
every range's identity is allocated. -/
structure Explains (ks₀ : Keyspace) (offered : List HostStep) (ks : Keyspace) : Prop where
  wf : PostingsWf ks
  fresh : RangesFresh ks
  trace : ∃ used : List HostStep, used.Sublist offered ∧ Interleaves cap ks₀ used ks

namespace Explains

variable {cap}

theorem mono {ks₀ ks : Keyspace} {o₁ o₂ : List HostStep} (h : Explains cap ks₀ o₁ ks)
    (ho : o₁.Sublist o₂) : Explains cap ks₀ o₂ ks :=
  let ⟨u, hs, ht⟩ := h.trace
  ⟨h.wf, h.fresh, u, hs.trans ho, ht⟩

theorem trans {ks₀ ks₁ ks₂ : Keyspace} {o₁ o₂ : List HostStep}
    (h₁ : Explains cap ks₀ o₁ ks₁) (h₂ : Explains cap ks₁ o₂ ks₂) : Explains cap ks₀ (o₁ ++ o₂) ks₂ := by
  obtain ⟨u₁, hs₁, ht₁⟩ := h₁.trace
  obtain ⟨u₂, hs₂, ht₂⟩ := h₂.trace
  exact ⟨h₂.wf, h₂.fresh, u₁ ++ u₂, hs₁.append hs₂, ht₁.trans ht₂⟩

end Explains

variable (B : HzBounds)

/-- A pass takes the first of the host steps it is offered, at its yields. -/
theorem gcEventStep_explains (e : GcEvent) {w : GcWorld} (hwf : PostingsWf w.ks)
    (hfr : RangesFresh w.ks) : Explains cap w.ks e.offered (gcEventStep cap scan B w e).ks := by
  cases e with
  | pass fuel loading ch steps =>
    have h := PeriodicCallback_interleaved cap scan fuel ch B loading
      (w := { w with host := steps }) ⟨hwf, hfr, [], rfl, .start⟩
    obtain ⟨used, he, ht⟩ := h.trace
    have he : steps = used ++ _ := he
    exact ⟨h.wf, h.fresh, used, by rw [GcEvent.offered, he]; exact List.sublist_append_left _ _, ht⟩
  | host s =>
    have hs := s.apply_wf cap hwf hfr
    exact ⟨hs.1, hs.2, [s], List.Sublist.refl _, Interleaves.start.host s⟩

theorem gcEventSteps_explains :
    ∀ (evs : List GcEvent) (w : GcWorld), PostingsWf w.ks → RangesFresh w.ks →
      Explains cap w.ks (evs.flatMap GcEvent.offered) (evs.foldl (gcEventStep cap scan B) w).ks
  | [], _, hwf, hfr => ⟨hwf, hfr, [], List.Sublist.slnil, .start⟩
  | e :: evs, w, hwf, hfr => by
    have h₁ := gcEventStep_explains cap scan B e hwf hfr
    rw [List.flatMap_cons]
    exact h₁.trans (gcEventSteps_explains evs _ h₁.wf h₁.fresh)

/-- A run, which takes the steps of a prefix of its events, is explained by the host steps all
its events offer. -/
theorem runGcEvents_explains (evs : List GcEvent) (w : GcWorld) (hwf : PostingsWf w.ks)
    (hfr : RangesFresh w.ks) :
    Explains cap w.ks (evs.flatMap GcEvent.offered) (runGcEvents cap scan B w evs).ks := by
  obtain ⟨pre, ⟨post, rfl⟩, hrun⟩ := runSteps_eq_prefix _ w evs
  rw [runGcEvents, hrun, List.flatMap_append]
  exact (gcEventSteps_explains cap scan B pre w hwf hfr).mono (List.sublist_append_left _ _)

/-- The ranges of `gcKs` have identities below its `nextIdent`. -/
theorem gcKs_rangesFresh : RangesFresh gcKs := by
  intro k t h
  simp only [gcKs] at h
  split_ifs at h
  cases h
  decide

/-- The collector is invisible to the documents: whatever passes it runs while the host acts
between them and at their yields, every index's document table and last document id are those
that the host steps the run took give on their own, from the same keyspace. -/
theorem gc_runs_keep_host_documents (w : GcWorld) (hwf : PostingsWf w.ks)
    (hfr : RangesFresh w.ks) (evs : List GcEvent) :
    ∃ used : List HostStep, used.Sublist (evs.flatMap GcEvent.offered) ∧
      ∀ n, ((runGcEvents cap scan B w evs).ks.indexes n).map IndexState.documents =
        ((used.foldl (fun ks s => s.apply cap ks) w.ks).indexes n).map IndexState.documents := by
  obtain ⟨used, hs, ht⟩ := (runGcEvents_explains cap scan B evs w hwf hfr).trace
  exact ⟨used, hs, ht.documents⟩

theorem gc_runs_keep_host_documents_gcWorld :
    PostingsWf (gcWorld 1).ks ∧ RangesFresh (gcWorld 1).ks ∧
      ∃ used : List HostStep, used.Sublist ([GcEvent.pass 10 false ⟨none, 0, 0, 0⟩ [.deleteDoc "idx" 2],
          .host (.dropIndex "idx")].flatMap GcEvent.offered) ∧
        ∀ n, ((runGcEvents 100 1 defaultHzBounds (gcWorld 1)
            [.pass 10 false ⟨none, 0, 0, 0⟩ [.deleteDoc "idx" 2], .host (.dropIndex "idx")]).ks.indexes
              n).map IndexState.documents =
          ((used.foldl (fun ks s => s.apply 100 ks) (gcWorld 1).ks).indexes n).map
            IndexState.documents :=
  ⟨gcKs_postingsWf, gcKs_rangesFresh,
    gc_runs_keep_host_documents 100 1 defaultHzBounds (gcWorld 1) gcKs_postingsWf gcKs_rangesFresh _⟩

end RediSearch
