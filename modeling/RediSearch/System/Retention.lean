import RediSearch.GC.Safety
import RediSearch.GC.Records

/-!
# Entries of live documents are never lost

On an index, ingests, deletions of documents and passes of a collector interleave
(`runCounter`). An ingest only adds entries, and publishes its document under a new id, past
every id the index gave out before; a deletion only takes a document out of its table; a pass
only drops entries of documents that are not live (`GC/Safety.lean`). So an entry whose
document is live at the end of a run was never taken out (`live_entries_kept`): a document
once dead stays dead, since its id was given out, and while it is live no event drops its
entries.

`Retains` says once what every event keeps; each kind of event keeps it, and the run follows
by induction over the events.
-/

namespace RediSearch

/-- Index `n`, when registered, has given out document id `d`. -/
def Issued (n : String) (d : Nat) (ks : Keyspace) : Prop :=
  ∀ ix, ks.indexes n = some ix → d ≤ ix.maxDocId

/-- Document `d` of index `n` is dead for good: not live in the table, and its id given out,
so that no new document gets it. -/
structure Dead (n : String) (d : Nat) (ks : Keyspace) : Prop where
  dead : (ks.docsOf n).isLive d = false
  issued : Issued n d ks

section Documents

variable {ks ks' : Keyspace} {n : String} {d : Nat}
  (h : (ks'.indexes n).map IndexState.documents = (ks.indexes n).map IndexState.documents)

include h

theorem Issued.of_documents (hi : Issued n d ks) : Issued n d ks' := fun ix' hix' => by
  rw [hix', Option.map_some'] at h
  obtain ⟨ix, hix, he⟩ := Option.map_eq_some'.1 h.symm
  exact (hi ix hix).trans_eq (congrArg Prod.snd he)

theorem Dead.of_documents (hd : Dead n d ks) : Dead n d ks' :=
  ⟨(Keyspace.docsOf_congr h).symm ▸ hd.dead, hd.issued.of_documents h⟩

end Documents

/-- What an event keeps, from `ks` to `ks'`: the posting lists stay told apart, an id an index
gave out stays given out, a dead document stays dead, and every entry of a document live in
the table of the key's index stays. -/
structure Retains (ks ks' : Keyspace) : Prop where
  wf : PostingsWf ks'
  issued : ∀ n d, Issued n d ks → Issued n d ks'
  dead : ∀ n d, Dead n d ks → Dead n d ks'
  keeps : ∀ k, ∀ d ∈ ks.postings k, (ks.docsOf k.owner).isLive d = true → d ∈ ks'.postings k

theorem Retains.refl {ks : Keyspace} (h : PostingsWf ks) : Retains ks ks :=
  ⟨h, fun _ _ => id, fun _ _ => id, fun _ _ hd _ => hd⟩

theorem DropsDead.retains {ks ks' : Keyspace} (h : DropsDead ks ks') : Retains ks ks' :=
  ⟨h.wf, fun n _ => Issued.of_documents (h.documents n), fun n _ => Dead.of_documents (h.documents n),
    fun k d hd hl => (h.shrinks k).live d hd hl⟩

/-- A change of one index that gives out no id it gave out before and brings no dead document
back. -/
theorem retains_modifyIndex {ks : Keyspace} (hwf : PostingsWf ks) (name : String)
    (f : IndexState → IndexState)
    (hf : ∀ ix, ks.indexes name = some ix → ∀ d, d ≤ ix.maxDocId →
      d ≤ (f ix).maxDocId ∧ (ix.docs.isLive d = false → (f ix).docs.isLive d = false)) :
    Retains ks (ks.modifyIndex name f) := by
  refine ⟨⟨hwf.ranges, hwf.values⟩, fun n d hi => ?_, fun n d hd => ?_, fun _ _ hd _ => hd⟩
  all_goals by_cases hn : n = name
  · subst hn
    intro ix' hix'
    simp only [Keyspace.modifyIndex, Function.update_same, Option.map_eq_some'] at hix'
    obtain ⟨ix, hix, rfl⟩ := hix'
    exact (hf ix hix d (hi ix hix)).1
  · intro ix' hix'
    exact hi ix' (by simpa [Keyspace.modifyIndex, Function.update_noteq hn] using hix')
  · subst hn
    refine ⟨?_, fun ix' hix' => ?_⟩
    · have hl := hd.dead
      simp only [Keyspace.docsOf, Keyspace.modifyIndex, Function.update_same, Option.map_map] at hl ⊢
      cases hix : ks.indexes n with
      | none => rfl
      | some ix =>
        rw [hix] at hl
        exact (hf ix hix d (hd.issued ix hix)).2 hl
    · simp only [Keyspace.modifyIndex, Function.update_same, Option.map_eq_some'] at hix'
      obtain ⟨ix, hix, rfl⟩ := hix'
      exact (hf ix hix d (hd.issued ix hix)).1
  · refine ⟨?_, fun ix' hix' => hd.issued ix' ?_⟩
    · simpa [Keyspace.docsOf, Keyspace.modifyIndex, Function.update_noteq hn] using hd.dead
    · simpa [Keyspace.modifyIndex, Function.update_noteq hn] using hix'

/-! ## An ingest only adds -/

theorem subset_append_append {a b c d : List Nat} (h₁ : a ⊆ b) (h₂ : c ⊆ d) : a ++ c ⊆ b ++ d :=
  List.append_subset.2 ⟨h₁.trans (List.subset_append_left _ _), h₂.trans (List.subset_append_right _ _)⟩

/-- Growing each part grows the whole. -/
theorem flatten_map_subset {α : Type} {a b : α → List Nat} {l : List α} (h : ∀ x ∈ l, a x ⊆ b x) :
    (l.map a).flatten ⊆ (l.map b).flatten := by
  intro d hd
  simp only [List.mem_flatten, List.mem_map] at hd ⊢
  obtain ⟨_, ⟨x, hx, rfl⟩, hd⟩ := hd
  exact ⟨b x, ⟨x, hx, rfl⟩, h x hx hd⟩

/-- Growing one part grows the whole. -/
theorem flatten_map_modify_subset {α : Type} (g : α → List Nat) (f : α → α)
    (hf : ∀ a, g a ⊆ g (f a)) :
    ∀ (n : Nat) (l : List α), (l.map g).flatten ⊆ ((l.modify f n).map g).flatten
  | _, [] => by simp
  | 0, a :: l => by
    rw [List.modify_zero_cons, List.map_cons, List.map_cons, List.flatten_cons, List.flatten_cons]
    exact subset_append_append (hf a) (List.Subset.refl _)
  | n + 1, a :: l => by
    rw [List.modify_succ_cons, List.map_cons, List.map_cons, List.flatten_cons, List.flatten_cons]
    exact subset_append_append (List.Subset.refl _) (flatten_map_modify_subset g f hf n l)

/-- `add` appends the document to the entries. -/
theorem InvertedIndex.flatten_add (cap : Nat) (ix : InvertedIndex) (docId : Nat) :
    (ix.add cap docId).blocks.flatten = ix.blocks.flatten ++ [docId] := by
  rcases ix with ⟨id, blocks⟩
  unfold InvertedIndex.add
  cases h : blocks.getLast? with
  | none => simp [List.getLast?_eq_none_iff.1 h]
  | some b =>
    obtain ⟨bs, rfl⟩ : ∃ bs, blocks = bs ++ [b] :=
      ⟨blocks.dropLast, (List.dropLast_append_getLast? _ h).symm⟩
    simp only []
    split_ifs <;> simp

theorem InvertedIndex.flatten_subset_add (cap : Nat) (ix : InvertedIndex) (docId : Nat) :
    ix.blocks.flatten ⊆ (ix.add cap docId).blocks.flatten := by
  rw [InvertedIndex.flatten_add]
  exact List.subset_append_left _ _

theorem NumericRangeTree.entries_subset_Add (cap : Nat) (t : NumericRangeTree) (docId : Nat)
    (v : Double) :
    (t.ranges.map fun r => r.blocks.flatten).flatten ⊆
      ((t.Add cap docId v).ranges.map fun r => r.blocks.flatten).flatten :=
  flatten_map_modify_subset _ _ (fun r => InvertedIndex.flatten_subset_add cap r docId) _ _

/-- Indexing a tag in a tag index that holds each value once keeps every entry. -/
theorem TagIndex.entries_subset_indexOne {t : TagIndex} (hnd : (t.values.map (·.1)).Nodup)
    (cap fresh docId : Nat) (tag : String) :
    (t.values.map fun v => v.2.blocks.flatten).flatten ⊆
      ((TagIndex.indexOne cap fresh t docId tag).values.map fun v => v.2.blocks.flatten).flatten := by
  unfold TagIndex.indexOne
  split
  · next ix hix =>
    simp only [List.map_map]
    refine flatten_map_subset fun x hx => ?_
    dsimp only [Function.comp]
    split_ifs with hx'
    · obtain rfl : x = (tag, ix) := List.inj_on_of_nodup_map hnd hx (TagIndex.mem_of_Find hix) hx'
      exact InvertedIndex.flatten_subset_add cap ix docId
    · exact List.Subset.refl _
  · simp only [List.map_append, List.flatten_append]
    exact List.subset_append_left _ _

theorem TagIndex.entries_subset_Index {t : TagIndex} (hnd : (t.values.map (·.1)).Nodup)
    (cap fresh : Nat) (tags : List String) (docId : Nat) :
    (t.values.map fun v => v.2.blocks.flatten).flatten ⊆
      ((TagIndex.Index cap fresh t tags docId).values.map fun v => v.2.blocks.flatten).flatten := by
  suffices ∀ (tags : List String) (s : Nat) (t : TagIndex), (t.values.map (·.1)).Nodup →
      (t.values.map fun v => v.2.blocks.flatten).flatten ⊆
        (((tags.enumFrom s).foldl (fun t p => TagIndex.indexOne cap (fresh + p.1) t docId p.2)
          t).values.map fun v => v.2.blocks.flatten).flatten from this tags 0 t hnd
  intro tags
  induction tags with
  | nil => exact fun _ _ _ => List.Subset.refl _
  | cons tag tags ih =>
    intro s t h
    simp only [List.enumFrom_cons, List.foldl_cons]
    exact (TagIndex.entries_subset_indexOne h cap (fresh + s) docId tag).trans
      (ih (s + 1) _ (TagIndex.indexOne_entries h cap (fresh + s) docId tag).2)

/-- From `ks` to `ks'` only entries were added: no index's documents changed, every entry
stays, and the posting lists stay told apart. -/
structure Adds (ks ks' : Keyspace) : Prop where
  documents : ∀ n, (ks'.indexes n).map IndexState.documents = (ks.indexes n).map IndexState.documents
  wf : PostingsWf ks'
  grows : ∀ k, ks.postings k ⊆ ks'.postings k

namespace Adds

variable {ks ks₁ ks₂ : Keyspace}

theorem refl (h : PostingsWf ks) : Adds ks ks := ⟨fun _ => rfl, h, fun _ => List.Subset.refl _⟩

theorem trans (h₁ : Adds ks ks₁) (h₂ : Adds ks₁ ks₂) : Adds ks ks₂ :=
  ⟨fun n => (h₂.documents n).trans (h₁.documents n), h₂.wf, fun k => (h₁.grows k).trans (h₂.grows k)⟩

theorem retains (h : Adds ks ks₁) : Retains ks ks₁ :=
  ⟨h.wf, fun n _ => Issued.of_documents (h.documents n), fun n _ => Dead.of_documents (h.documents n),
    fun k _ hd _ => h.grows k hd⟩

end Adds

theorem TagIndexOpen_stored {ks ks' : Keyspace} {k : Key} {create : Bool} {t : TagIndex}
    (h : TagIndexOpen ks k create = (ks', some t)) : ks'.tagIdx k = some t := by
  unfold TagIndexOpen at h
  split at h
  · cases h
    assumption
  · split_ifs at h
    · cases h
      simp
    · cases h

section Operations

variable (ks : Keyspace) (hwf : PostingsWf ks) {k : Key}

include hwf

theorem adds_setInvIdx (ix : InvertedIndex)
    (h : ((ks.invIdx k).map fun ix => ix.blocks.flatten).getD [] ⊆ ix.blocks.flatten) :
    Adds ks (ks.setInvIdx k ix) :=
  ⟨fun _ => rfl, ⟨hwf.ranges, hwf.values⟩,
    rel_setInvIdx (fun _ l l' => l ⊆ l') (fun _ => List.Subset.refl) (fun _ _ _ _ _ => subset_append_append)
      ks k ix h⟩

theorem adds_setNumIdx (t : NumericRangeTree) (hnd : t.rangeIdents.Nodup)
    (h : ((ks.numIdx k).map fun t => (t.ranges.map fun r => r.blocks.flatten).flatten).getD [] ⊆
      (t.ranges.map fun r => r.blocks.flatten).flatten) :
    Adds ks (ks.setNumIdx k t) :=
  ⟨fun _ => rfl, hwf.setNumIdx hnd,
    rel_setNumIdx (fun _ l l' => l ⊆ l') (fun _ => List.Subset.refl) (fun _ _ _ _ _ => subset_append_append)
      ks k t h⟩

theorem adds_setTagIdx (t : TagIndex) (hnd : (t.values.map (·.1)).Nodup)
    (h : ((ks.tagIdx k).map fun t => (t.values.map fun v => v.2.blocks.flatten).flatten).getD [] ⊆
      (t.values.map fun v => v.2.blocks.flatten).flatten) :
    Adds ks (ks.setTagIdx k t) :=
  ⟨fun _ => rfl, hwf.setTagIdx hnd,
    rel_setTagIdx (fun _ l l' => l ⊆ l') (fun _ => List.Subset.refl) (fun _ _ _ _ _ => subset_append_append)
      ks k t h⟩

theorem adds_nextIdent (n : Nat) : Adds ks { ks with nextIdent := n } :=
  ⟨fun _ => rfl, ⟨hwf.ranges, hwf.values⟩, fun _ => List.Subset.refl _⟩

theorem adds_countRecord (name : String) : Adds ks (ks.modifyIndex name IndexState.countRecord) :=
  ⟨ks.documents_modifyIndex name fun _ => rfl, ⟨hwf.ranges, hwf.values⟩, fun _ => List.Subset.refl _⟩

theorem adds_geoIdx (g : Key → List (Nat × Double × Double)) : Adds ks { ks with geoIdx := g } :=
  ⟨fun _ => rfl, ⟨hwf.ranges, hwf.values⟩, fun _ => List.Subset.refl _⟩

theorem adds_openInvIdx (k : Key) : Adds ks (ks.openInvIdx k).1 := by
  unfold Keyspace.openInvIdx
  split
  · exact .refl hwf
  · rename_i h
    have hs := adds_setInvIdx ks hwf ⟨ks.nextIdent, []⟩ (by rw [h]; exact List.Subset.refl _)
    exact hs.trans (adds_nextIdent _ hs.wf _)

theorem adds_OpenNumericIndex (k : Key) : Adds ks (OpenNumericIndex ks k).1 := by
  unfold OpenNumericIndex
  split
  · exact .refl hwf
  · rename_i h
    have hs := adds_setNumIdx ks hwf
      ⟨ks.nextIdent, 0, [⟨ks.nextIdent + 1, []⟩], List.cons_ne_nil _ _, fun _ => 0, 0⟩
      (List.nodup_singleton _) (by rw [h]; exact List.Subset.refl _)
    exact hs.trans (adds_nextIdent _ hs.wf _)

theorem adds_TagIndexOpen (k : Key) (create : Bool) : Adds ks (TagIndexOpen ks k create).1 := by
  unfold TagIndexOpen
  split
  · exact .refl hwf
  · rename_i h
    split_ifs
    · have hs := adds_setTagIdx ks hwf ⟨ks.nextIdent, []⟩ List.nodup_nil
        (by rw [h]; exact List.Subset.refl _)
      exact hs.trans (adds_nextIdent _ hs.wf _)
    · exact .refl hwf

end Operations

section Indexers

variable (P : Parsers) (cap : Nat) (name : String) (docId : Nat) (fs : FieldSpec)
  (fd : FieldIndexerData)

theorem numericIndexer_adds (ks : Keyspace) (hwf : PostingsWf ks) :
    Adds ks (numericIndexer cap name docId fs fd ks).1 := by
  have ho := adds_OpenNumericIndex ks hwf (.field name fs.name .NUMERIC)
  have hst := OpenNumericIndex_stored ks (.field name fs.name .NUMERIC)
  unfold numericIndexer
  dsimp only
  generalize OpenNumericIndex ks (.field name fs.name .NUMERIC) = p at ho hst ⊢
  have hs := adds_setNumIdx p.1 ho.wf (p.2.Add cap docId fd.numeric)
    ((NumericRangeTree.rangeIdents_Add cap p.2 docId fd.numeric).symm ▸ ho.wf.ranges _ p.2 hst)
    (by rw [hst]; exact NumericRangeTree.entries_subset_Add cap p.2 docId fd.numeric)
  exact ho.trans (hs.trans (adds_countRecord _ hs.wf name))

theorem tagIndexer_adds (ks : Keyspace) (hwf : PostingsWf ks) :
    Adds ks (tagIndexer cap name docId fs fd ks).1 := by
  have ho := adds_TagIndexOpen ks hwf (.field name fs.name .TAG) true
  unfold tagIndexer
  dsimp only
  split
  · next heq =>
    rw [heq] at ho
    exact ho
  · next ks₁ t heq =>
    rw [heq] at ho
    have hst := TagIndexOpen_stored heq
    have hnd := ho.wf.values _ t hst
    have hs := adds_setTagIdx ks₁ ho.wf (t.Index cap ks₁.nextIdent fd.tags docId)
      (TagIndex.Index_entries hnd cap ks₁.nextIdent fd.tags docId).2
      (by rw [hst]; exact TagIndex.entries_subset_Index hnd cap ks₁.nextIdent fd.tags docId)
    have hn := adds_nextIdent _ hs.wf (ks₁.nextIdent + fd.tags.length)
    exact ho.trans ((hs.trans hn).trans (adds_countRecord _ hn.wf name))

theorem geoIndexer_adds (ks : Keyspace) (hwf : PostingsWf ks) :
    Adds ks (geoIndexer P name docId fs fd ks).1 := by
  unfold geoIndexer
  split
  · exact adds_geoIdx ks hwf _
  · exact .refl hwf

theorem bulkIndexer_adds (t : FieldTypes) (ks : Keyspace) (hwf : PostingsWf ks) :
    Adds ks (bulkIndexer P cap name docId fs fd t ks).1 := by
  unfold bulkIndexer
  split_ifs
  · exact tagIndexer_adds cap name docId fs fd ks hwf
  · exact numericIndexer_adds cap name docId fs fd ks hwf
  · exact geoIndexer_adds P name docId fs fd ks hwf
  · exact .refl hwf

/-- The indexers of `IndexBulkData::Add`, type after type, only add. -/
theorem bulkFold_adds (ff : DocumentField) : ∀ (ts : List FieldTypes) (r : IndexerResult),
    PostingsWf r.1 → Adds r.1 (ts.foldl (fun r t => if r.2.isNone ∧ ff.CheckIdx t then
      bulkIndexer P cap name docId fs fd t r.1 else r) r).1
  | [], _, hwf => .refl hwf
  | t :: ts, r, hwf => by
    rw [List.foldl_cons]
    split_ifs
    · have hb := bulkIndexer_adds P cap name docId fs fd t r.1 hwf
      exact hb.trans (bulkFold_adds ff ts _ hb.wf)
    · exact bulkFold_adds ff ts r hwf

theorem IndexBulkDataAdd_adds (ff : DocumentField) (ks : Keyspace) (hwf : PostingsWf ks) :
    Adds ks (IndexBulkDataAdd P cap name docId ff fs fd ks).1 :=
  bulkFold_adds P cap name docId fs fd ff _ (ks, none) hwf

theorem bulkFieldsFrom_adds (c : AddDocumentCtx) :
    ∀ (i : Nat) (ffs : List DocumentField) (ks : Keyspace), PostingsWf ks →
      Adds ks (bulkFieldsFrom P cap name docId c i ffs ks).1
  | _, [], _, hwf => .refl hwf
  | i, ff :: ffs, ks, hwf => by
    unfold bulkFieldsFrom
    dsimp only
    split_ifs
    · exact bulkFieldsFrom_adds c (i + 1) ffs ks hwf
    · have hb := IndexBulkDataAdd_adds P cap name docId (c.fspecs.getD i .empty) (c.fdata i) ff ks hwf
      unfold continueBulk
      split
      · next heq =>
        rw [heq] at hb
        exact hb.trans (bulkFieldsFrom_adds c (i + 1) ffs _ hb.wf)
      · next heq => exact heq ▸ hb

theorem mergeTerms_adds : ∀ (terms : List String) (ks : Keyspace), PostingsWf ks →
    Adds ks (mergeTerms cap name docId terms ks)
  | [], _, hwf => .refl hwf
  | term :: terms, ks, hwf => by
    have ho := adds_openInvIdx ks hwf (.term name term)
    have hst := ks.openInvIdx_stored (.term name term)
    simp only [mergeTerms]
    generalize ks.openInvIdx (.term name term) = p at ho hst ⊢
    have hs := adds_setInvIdx p.1 ho.wf (p.2.add cap docId)
      (by rw [hst]; exact InvertedIndex.flatten_subset_add cap p.2 docId)
    have hc := adds_countRecord _ hs.wf name
    exact ho.trans ((hs.trans hc).trans (mergeTerms_adds terms _ hc.wf))

end Indexers

/-! ## An ingest -/

section Ingest

variable (P : Parsers) (cap : Nat)

/-- Publishing the document under the id after the last one the index gave out: no given id
comes back. -/
theorem retains_publish {ks ks₁ : Keyspace} {name : String} {ix : IndexState}
    (hix : ks.indexes name = some ix) (h : Adds ks ks₁) (c : AddDocumentCtx) :
    Retains ks (ks₁.modifyIndex name (publish (ix.maxDocId + 1) c)) := by
  have hp := retains_modifyIndex h.wf name (publish (ix.maxDocId + 1) c) fun ix₁ hix₁ d hd => by
    have he := h.documents name
    rw [hix₁, hix, Option.map_some', Option.map_some', Option.some_inj] at he
    have hmax : ix₁.maxDocId = ix.maxDocId := congrArg Prod.snd he
    refine ⟨by simp only [publish]; omega, fun hl => ?_⟩
    simp only [publish, DocTable.isLive, List.any_append, List.any_cons, List.any_nil,
      Bool.or_false, Bool.or_eq_false_iff, decide_eq_false_iff_not]
    exact ⟨List.any_eq_false.2 fun x hx => List.any_eq_false.1 hl x (List.mem_filter.1 hx).1,
      by omega⟩
  exact ⟨hp.wf, fun n d hi => hp.issued n d (h.retains.issued n d hi),
    fun n d hd => hp.dead n d (h.retains.dead n d hd), fun k d hd _ => h.grows k hd⟩

theorem indexerAdd_retains (w : World) (hwf : PostingsWf w.ks) :
    Retains w.ks (indexerAdd P cap w).ks := by
  have hks := World.ks_access w
  unfold indexerAdd
  generalize w.access = v at hks ⊢
  rw [← hks] at hwf ⊢
  dsimp only
  split
  · rw [ks_Finish]
    exact .refl hwf
  · next ix hix =>
    have hb := bulkFieldsFrom_adds P cap v.name (ix.maxDocId + 1) v.ctx 0 v.ctx.doc.fields v.ks hwf
    split
    · next ks _ _ heq =>
      rw [heq] at hb
      rw [ks_Finish, World.ks_setCtx]
      unfold World.setKs
      split
      · exact .refl hwf
      · exact hb.retains
    · next ks heq =>
      rw [heq] at hb
      rw [ks_Finish]
      unfold World.setKs
      split
      · exact .refl hwf
      · exact retains_publish hix (hb.trans (mergeTerms_adds cap v.name _ _ ks hb.wf)) v.ctx

theorem runAddToIndexes_retains (w : World) (hwf : PostingsWf w.ks) :
    Retains w.ks (runAddToIndexes P cap w).ks := by
  have hks := World.ks_access w
  unfold runAddToIndexes
  generalize w.access = v at hks ⊢
  rw [← hks] at hwf ⊢
  dsimp only
  split_ifs
  · exact .refl hwf
  split
  · have h := indexerAdd_retains P cap (({ v with ctx := (AddToIndexes P v.ctx).ctx }).emit .indexerAdd)
      (by rwa [World.ks_emit])
    rwa [World.ks_emit] at h
  · rw [ks_Finish]
    exact .refl hwf
  · rw [World.ks_halt]
    exact .refl hwf

end Ingest

/-! ## Runs -/

variable (P : Parsers) (cap scan : Nat) (B : HzBounds)

theorem deleteDoc_retains {ks : Keyspace} (hwf : PostingsWf ks) (name : String) (docId : Nat) :
    Retains ks ((HostStep.deleteDoc name docId).apply cap ks) :=
  retains_modifyIndex hwf name _ fun _ _ _ hd => ⟨hd, fun hl => List.any_eq_false.2 fun x hx =>
    List.any_eq_false.1 hl x (List.mem_filter.1 hx).1⟩

theorem counterStep_retains (name : String) {w : GcWorld} (hwf : PostingsWf w.ks) (e : CounterEvent) :
    Retains w.ks (counterStep P cap scan B name w e).ks := by
  cases e with
  | ingest c => exact runAddToIndexes_retains P cap ⟨w.ks, name, c, true, false, []⟩ hwf
  | delete docId => exact deleteDoc_retains cap hwf name docId
  | pass fuel loading ch =>
    exact (PeriodicCallback_sweeps cap scan fuel ch B loading (w := { w with host := [] })
      ⟨rfl, .refl hwf⟩).drops.retains

/-- Along a run, an issued document's entry stays while the document is live, and a dead
document stays dead. -/
theorem runCounter_keeps (name : String) {k : Key} {d : Nat} (evs : List CounterEvent)
    (w : GcWorld) (hwf : PostingsWf w.ks) (hi : Issued k.owner d w.ks) (hd : d ∈ w.ks.postings k)
    (hl : ((runCounter P cap scan B name w evs).ks.docsOf k.owner).isLive d = true) :
    d ∈ (runCounter P cap scan B name w evs).ks.postings k := by
  have hrun := @runSteps_preserves _ _
    (fun w e => (counterStep P cap scan B name w e, counterCrashes cap scan B w e))
    (fun w : GcWorld => PostingsWf w.ks ∧
      (Issued k.owner d w.ks ∧ d ∈ w.ks.postings k ∨ Dead k.owner d w.ks)) evs
    (fun w e _ h => by
      have hs := counterStep_retains P cap scan B name h.1 e
      refine ⟨hs.wf, ?_⟩
      rcases h.2 with ⟨hi, hd⟩ | hdead
      · cases hlive : (w.ks.docsOf k.owner).isLive d
        · exact .inr (hs.dead _ _ ⟨hlive, hi⟩)
        · exact .inl ⟨hs.issued _ _ hi, hs.keeps k d hd hlive⟩
      · exact .inr (hs.dead _ _ hdead)) w ⟨hwf, .inl ⟨hi, hd⟩⟩
  rcases hrun.2 with ⟨-, h⟩ | hdead
  · exact h
  · exact nomatch hl.symm.trans hdead.dead

/-- Through every run of ingests, deletions of documents and collector passes on an index,
from a keyspace whose posting lists the collectors find by identity are told apart, an entry
of a document whose id the key's index had given out stays as long as the document is live:
if it is live at the end, its entry is there. -/
theorem live_entries_kept (name : String) (w : GcWorld) (hwf : PostingsWf w.ks)
    (evs : List CounterEvent) (k : Key) (d : Nat) (hi : Issued k.owner d w.ks)
    (hd : d ∈ w.ks.postings k)
    (hl : ((runCounter P cap scan B name w evs).ks.docsOf k.owner).isLive d = true) :
    d ∈ (runCounter P cap scan B name w evs).ks.postings k :=
  runCounter_keeps P cap scan B name evs w hwf hi hd hl

theorem live_entries_kept_gcWorld :
    PostingsWf (gcWorld 1).ks ∧ Issued "idx" 2 (gcWorld 1).ks ∧
      2 ∈ (gcWorld 1).ks.postings (.field "idx" "price" .NUMERIC) ∧
      ((runCounter sampleParsers 100 1 defaultHzBounds "idx" (gcWorld 1)
        [.ingest (gcDocCtx "doc3" [textField "price" "9.99"]), .pass 10 false ⟨none, 0, 0, 0⟩,
          .delete 1]).ks.docsOf "idx").isLive 2 = true ∧
      2 ∈ (runCounter sampleParsers 100 1 defaultHzBounds "idx" (gcWorld 1)
        [.ingest (gcDocCtx "doc3" [textField "price" "9.99"]), .pass 10 false ⟨none, 0, 0, 0⟩,
          .delete 1]).ks.postings (.field "idx" "price" .NUMERIC) :=
  have hi : Issued "idx" 2 (gcWorld 1).ks := fun ix h => by
    simp only [gcWorld, gcKs, if_true, Option.some.injEq] at h
    subst h
    exact le_rfl
  have hd : 2 ∈ (gcWorld 1).ks.postings (.field "idx" "price" .NUMERIC) := by decide
  have hl : ((runCounter sampleParsers 100 1 defaultHzBounds "idx" (gcWorld 1)
      [.ingest (gcDocCtx "doc3" [textField "price" "9.99"]), .pass 10 false ⟨none, 0, 0, 0⟩,
        .delete 1]).ks.docsOf "idx").isLive 2 = true := by decide
  ⟨gcKs_postingsWf, hi, hd, hl, live_entries_kept sampleParsers 100 1 defaultHzBounds "idx" (gcWorld 1)
    gcKs_postingsWf _ (.field "idx" "price" .NUMERIC) 2 hi hd hl⟩

end RediSearch
