import RediSearch.System.Retention
import RediSearch.System.Isolation

/-!
# A published document stays findable

An ingest that publishes its document has put it, under the id `maxDocId + 1`, in the posting
list of each term of its forward index (`mergeTerms`), in the tree of each field the bulk
indexer indexed as NUMERIC, and in the tag index of each field it indexed as TAG with a tag
(`IndexBulkData::Add`): the indexer publishes only when no bulk indexer failed. The document
stays findable there for as long as it is live, whatever ingests, deletions and collector
passes come after (`published_document_found`), by the run lemma of `System/Retention.lean`.

`Findable` states what the ingest indexed; the proof goes indexer by indexer, then through
`IndexBulkData::Add`, the fields, the terms and the run.
-/

namespace RediSearch

/-- The indexer of type `t` puts an entry in the posting lists: NUMERIC always, TAG when the
field has a tag. -/
def PostsEntry (t : FieldTypes) (fd : FieldIndexerData) : Prop :=
  t = .NUMERIC ∨ (t = .TAG ∧ fd.tags ≠ [])

theorem PostsEntry.mem_types {t : FieldTypes} {fd : FieldIndexerData} (hp : PostsEntry t fd) :
    t ∈ [FieldTypes.FULLTEXT, .NUMERIC, .GEO, .TAG] := by
  rcases hp with rfl | ⟨rfl, -⟩ <;> decide

/-- Document `docId` of index `name`, indexed from context `c`, is in the posting list of
each term of the forward index, and under the key of each field the bulk indexer indexed as
a type that puts an entry. -/
structure Findable (name : String) (c : AddDocumentCtx) (docId : Nat) (ks : Keyspace) : Prop where
  terms : ∀ p ∈ c.fwIdx, docId ∈ ks.postings (.term name p.2)
  fields : ∀ i ff t, c.doc.fields.get? i = some ff → (c.fspecs.getD i .empty).name ≠ "" →
    ff.indexAs.any = true → ff.CheckIdx t = true → PostsEntry t (c.fdata i) →
    docId ∈ ks.postings (.field name (c.fspecs.getD i .empty).name t)

/-! ## Entries of one key -/

namespace Keyspace

variable {ks : Keyspace} {k : Key} {d : Nat}

theorem mem_postings_of_invIdx {ix : InvertedIndex} (h : ks.invIdx k = some ix)
    (hd : d ∈ ix.blocks.flatten) : d ∈ ks.postings k := by
  simp only [postings, h, Option.map_some', Option.getD_some]
  exact List.mem_append_left _ (List.mem_append_left _ hd)

theorem mem_postings_of_numIdx {t : NumericRangeTree} (h : ks.numIdx k = some t)
    (hd : d ∈ (t.ranges.map fun r => r.blocks.flatten).flatten) : d ∈ ks.postings k := by
  simp only [postings, h, Option.map_some', Option.getD_some]
  exact List.mem_append_left _ (List.mem_append_right _ hd)

theorem mem_postings_of_tagIdx {t : TagIndex} (h : ks.tagIdx k = some t)
    (hd : d ∈ (t.values.map fun v => v.2.blocks.flatten).flatten) : d ∈ ks.postings k := by
  simp only [postings, h, Option.map_some', Option.getD_some]
  exact List.mem_append_right _ hd

end Keyspace

theorem mem_flatten_map_modify {α : Type} (g : α → List Nat) (f : α → α) {x : Nat}
    (hf : ∀ a, x ∈ g (f a)) : ∀ (n : Nat) (l : List α), n < l.length →
      x ∈ ((l.modify f n).map g).flatten
  | _, [], h => absurd h (Nat.not_lt_zero _)
  | 0, a :: l, _ => by
    rw [List.modify_zero_cons, List.map_cons, List.flatten_cons]
    exact List.mem_append_left _ (hf a)
  | n + 1, a :: l, h => by
    rw [List.modify_succ_cons, List.map_cons, List.flatten_cons]
    exact List.mem_append_right _ (mem_flatten_map_modify g f hf n l (Nat.lt_of_succ_lt_succ h))

theorem InvertedIndex.mem_add (cap : Nat) (ix : InvertedIndex) (docId : Nat) :
    docId ∈ (ix.add cap docId).blocks.flatten := by
  rw [InvertedIndex.flatten_add]
  exact List.mem_append_right _ (List.mem_singleton_self _)

/-- `NumericRangeTree::Add` puts the document in the range of its value's leaf. -/
theorem NumericRangeTree.mem_Add (cap : Nat) (t : NumericRangeTree) (docId : Nat) (v : Double) :
    docId ∈ ((t.Add cap docId v).ranges.map fun r => r.blocks.flatten).flatten :=
  mem_flatten_map_modify _ _ (fun r => InvertedIndex.mem_add cap r docId) _ _
    (Nat.mod_lt _ (List.length_pos.2 t.ranges_ne))

/-- Indexing a tag puts the document in the tag's posting list. -/
theorem TagIndex.mem_indexOne (cap fresh : Nat) (t : TagIndex) (docId : Nat) (tag : String) :
    docId ∈ ((TagIndex.indexOne cap fresh t docId tag).values.map
      fun v => v.2.blocks.flatten).flatten := by
  unfold TagIndex.indexOne
  split
  · next ix hix =>
    refine List.mem_flatten.2 ⟨_, List.mem_map.2 ⟨(tag, ix.add cap docId), ?_, rfl⟩,
      InvertedIndex.mem_add cap ix docId⟩
    exact List.mem_map.2 ⟨(tag, ix), TagIndex.mem_of_Find hix, by simp⟩
  · simp only [List.map_append, List.flatten_append]
    exact List.mem_append_right _ (by simpa using InvertedIndex.mem_add cap _ docId)

theorem TagIndex.mem_Index {t : TagIndex} (hnd : (t.values.map (·.1)).Nodup) (cap fresh : Nat)
    {tags : List String} (htags : tags ≠ []) (docId : Nat) :
    docId ∈ ((TagIndex.Index cap fresh t tags docId).values.map
      fun v => v.2.blocks.flatten).flatten := by
  suffices ∀ (tags : List String) (s : Nat) (t : TagIndex), (t.values.map (·.1)).Nodup →
      (docId ∈ (t.values.map fun v => v.2.blocks.flatten).flatten ∨ tags ≠ []) →
      docId ∈ (((tags.enumFrom s).foldl (fun t p => TagIndex.indexOne cap (fresh + p.1) t docId p.2)
        t).values.map fun v => v.2.blocks.flatten).flatten from this tags 0 t hnd (.inr htags)
  intro tags
  induction tags with
  | nil => exact fun _ _ _ h => h.resolve_right fun h' => h' rfl
  | cons tag tags ih =>
    intro s t h _
    simp only [List.enumFrom_cons, List.foldl_cons]
    exact ih (s + 1) _ (TagIndex.indexOne_entries h cap (fresh + s) docId tag).2
      (.inl (TagIndex.mem_indexOne cap (fresh + s) t docId tag))

/-! ## The indexers -/

section Indexers

variable (P : Parsers) (cap : Nat) (name : String) (docId : Nat) (fs : FieldSpec)
  (fd : FieldIndexerData)

/-- An indexer of a type that puts an entry, when it does not fail, puts the document under the
field's key. -/
theorem bulkIndexer_posts (t : FieldTypes) (ks : Keyspace) (hwf : PostingsWf ks)
    (hn : (bulkIndexer P cap name docId fs fd t ks).2 = none) (hp : PostsEntry t fd) :
    docId ∈ (bulkIndexer P cap name docId fs fd t ks).1.postings (.field name fs.name t) := by
  rcases hp with rfl | ⟨rfl, htags⟩
  · simp only [bulkIndexer, if_neg (by decide : FieldTypes.NUMERIC ≠ .TAG), if_pos rfl,
      numericIndexer]
    generalize OpenNumericIndex ks (.field name fs.name .NUMERIC) = p
    exact Keyspace.mem_postings_of_numIdx (by simp) (NumericRangeTree.mem_Add cap p.2 docId fd.numeric)
  · have ho := adds_TagIndexOpen ks hwf (.field name fs.name .TAG) true
    rw [bulkIndexer, if_pos rfl] at hn ⊢
    unfold tagIndexer at hn ⊢
    dsimp only at hn ⊢
    generalize hT : TagIndexOpen ks (.field name fs.name .TAG) true = T at ho hn ⊢
    obtain ⟨ks₁, _ | t⟩ := T
    · exact nomatch hn
    · have hnd := ho.wf.values _ t (TagIndexOpen_stored hT)
      exact Keyspace.mem_postings_of_tagIdx (by simp [Keyspace.modifyIndex])
        (TagIndex.mem_Index hnd cap ks₁.nextIdent htags docId)

/-- When `IndexBulkData::Add` does not fail, each type of the field that puts an entry has put
the document under the field's key. -/
theorem bulkFold_posts (ff : DocumentField) : ∀ (ts : List FieldTypes) (r : IndexerResult),
    PostingsWf r.1 →
    (ts.foldl (fun r t => if r.2.isNone ∧ ff.CheckIdx t then
      bulkIndexer P cap name docId fs fd t r.1 else r) r).2 = none →
    r.2 = none ∧ ∀ t ∈ ts, ff.CheckIdx t = true → PostsEntry t fd →
      docId ∈ (ts.foldl (fun r t => if r.2.isNone ∧ ff.CheckIdx t then
        bulkIndexer P cap name docId fs fd t r.1 else r) r).1.postings (.field name fs.name t)
  | [], _, _, hn => ⟨hn, fun _ h => absurd h (List.not_mem_nil _)⟩
  | t :: ts, r, hwf, hn => by
    rw [List.foldl_cons] at hn ⊢
    by_cases hc : r.2.isNone ∧ ff.CheckIdx t
    · rw [if_pos hc] at hn ⊢
      have hb := bulkIndexer_adds P cap name docId fs fd t r.1 hwf
      obtain ⟨hn₁, ih⟩ := bulkFold_posts ff ts _ hb.wf hn
      refine ⟨Option.isNone_iff_eq_none.1 hc.1, fun t' ht' hct hp => ?_⟩
      rcases List.mem_cons.1 ht' with rfl | ht'
      · exact (bulkFold_adds P cap name docId fs fd ff ts _ hb.wf).grows _
          (bulkIndexer_posts P cap name docId fs fd t' r.1 hwf hn₁ hp)
      · exact ih t' ht' hct hp
    · rw [if_neg hc] at hn ⊢
      obtain ⟨hn₁, ih⟩ := bulkFold_posts ff ts r hwf hn
      refine ⟨hn₁, fun t' ht' hct hp => ?_⟩
      rcases List.mem_cons.1 ht' with rfl | ht'
      · exact absurd ⟨Option.isNone_iff_eq_none.2 hn₁, hct⟩ hc
      · exact ih t' ht' hct hp

theorem IndexBulkDataAdd_posts (ff : DocumentField) (ks : Keyspace) (hwf : PostingsWf ks)
    (hn : (IndexBulkDataAdd P cap name docId ff fs fd ks).2 = none) {t : FieldTypes}
    (hct : ff.CheckIdx t = true) (hp : PostsEntry t fd) :
    docId ∈ (IndexBulkDataAdd P cap name docId ff fs fd ks).1.postings (.field name fs.name t) :=
  (bulkFold_posts P cap name docId fs fd ff _ (ks, none) hwf hn).2 t hp.mem_types hct hp

/-- When the bulk indexers of a document's fields do not fail, every field they index has put
the document under its key. -/
theorem bulkFieldsFrom_posts (c : AddDocumentCtx) : ∀ (i : Nat) (ffs : List DocumentField)
    (ks : Keyspace), PostingsWf ks → (bulkFieldsFrom P cap name docId c i ffs ks).2 = none →
    ∀ j ff t, ffs.get? j = some ff → (c.fspecs.getD (i + j) .empty).name ≠ "" →
      ff.indexAs.any = true → ff.CheckIdx t = true → PostsEntry t (c.fdata (i + j)) →
      docId ∈ (bulkFieldsFrom P cap name docId c i ffs ks).1.postings
        (.field name (c.fspecs.getD (i + j) .empty).name t)
  | _, [], _, _, _, _, _, _, h, _, _, _, _ => nomatch h
  | i, ff :: ffs, ks, hwf, hn, j, ff', t, hj, hname, hany, hct, hp => by
    unfold bulkFieldsFrom at hn ⊢
    dsimp only at hn ⊢
    split_ifs at hn ⊢ with hskip
    · cases j with
      | zero =>
        obtain rfl := Option.some.inj hj
        rcases hskip with h | h
        · exact absurd h hname
        · exact nomatch h.symm.trans hany
      | succ j =>
        rw [show i + (j + 1) = i + 1 + j by omega] at hname hp ⊢
        exact bulkFieldsFrom_posts c (i + 1) ffs ks hwf hn j ff' t hj hname hany hct hp
    · have hb := IndexBulkDataAdd_adds P cap name docId (c.fspecs.getD i .empty) (c.fdata i) ff ks hwf
      have hpost := IndexBulkDataAdd_posts P cap name docId (c.fspecs.getD i .empty) (c.fdata i) ff ks hwf
      unfold continueBulk at hn ⊢
      generalize IndexBulkDataAdd P cap name docId ff (c.fspecs.getD i .empty) (c.fdata i) ks = R
        at hb hn hpost ⊢
      obtain ⟨ks₁, e⟩ := R
      cases e with
      | some _ => exact nomatch hn
      | none =>
        cases j with
        | zero =>
          obtain rfl := Option.some.inj hj
          exact (bulkFieldsFrom_adds P cap name docId c (i + 1) ffs ks₁ hb.wf).grows _
            (hpost rfl hct hp)
        | succ j =>
          rw [show i + (j + 1) = i + 1 + j by omega] at hname hp ⊢
          exact bulkFieldsFrom_posts c (i + 1) ffs ks₁ hb.wf hn j ff' t hj hname hany hct hp

/-- Merging the forward index puts the document in the posting list of each term. -/
theorem mergeTerms_posts : ∀ (terms : List String) (ks : Keyspace), PostingsWf ks →
    ∀ t ∈ terms, docId ∈ (mergeTerms cap name docId terms ks).postings (.term name t)
  | [], _, _, _, h => absurd h (List.not_mem_nil _)
  | term :: terms, ks, hwf, t, ht => by
    have ho := adds_openInvIdx ks hwf (.term name term)
    have hst := ks.openInvIdx_stored (.term name term)
    simp only [mergeTerms]
    generalize ks.openInvIdx (.term name term) = p at ho hst ⊢
    have hs := adds_setInvIdx p.1 ho.wf (p.2.add cap docId)
      (by rw [hst]; exact InvertedIndex.flatten_subset_add cap p.2 docId)
    have hc := adds_countRecord _ hs.wf name
    rcases List.mem_cons.1 ht with rfl | ht
    · exact (mergeTerms_adds cap name docId terms _ hc.wf).grows _
        (Keyspace.mem_postings_of_invIdx (k := .term name t) (by simp [Keyspace.modifyIndex])
          (InvertedIndex.mem_add cap p.2 docId))
    · exact mergeTerms_posts terms _ hc.wf t ht

end Indexers

/-! ## An ingest that publishes its document -/

section Ingest

variable (P : Parsers) (cap : Nat)

theorem indexerAdd_findable (u : World) (hwf : PostingsWf u.ks) {ix : IndexState}
    (hix : u.ks.indexes u.name = some ix)
    (hfresh : (u.ks.docsOf u.name).isLive (ix.maxDocId + 1) = false)
    (hpub : ((indexerAdd P cap u).ks.docsOf u.name).isLive (ix.maxDocId + 1) = true) :
    Issued u.name (ix.maxDocId + 1) (indexerAdd P cap u).ks ∧
      Findable u.name u.ctx (ix.maxDocId + 1) (indexerAdd P cap u).ks := by
  have hks := World.ks_access u
  have hname := World.name_access u
  have hctx := World.ctx_access u
  unfold indexerAdd at hpub ⊢
  generalize u.access = v at hks hname hctx hpub ⊢
  rw [← hks] at hwf
  rw [← hks, ← hname] at hix hfresh
  rw [← hname] at hpub ⊢
  rw [← hctx]
  dsimp only at hpub ⊢
  -- every path but the publishing one leaves the document table as it was
  have hstale : ∀ {ks₁ : Keyspace}, ks₁.docsOf v.name = v.ks.docsOf v.name →
      (ks₁.docsOf v.name).isLive (ix.maxDocId + 1) = true → False := fun he h => by
    rw [he, hfresh] at h
    exact nomatch h
  simp only [hix] at hpub ⊢
  have hb := bulkFieldsFrom_adds P cap v.name (ix.maxDocId + 1) v.ctx 0 v.ctx.doc.fields v.ks hwf
  have hbp := bulkFieldsFrom_posts P cap v.name (ix.maxDocId + 1) v.ctx 0 v.ctx.doc.fields v.ks hwf
  generalize bulkFieldsFrom P cap v.name (ix.maxDocId + 1) v.ctx 0 v.ctx.doc.fields v.ks = R
    at hb hbp hpub ⊢
  obtain ⟨ks₁, _ | e⟩ := R
  · -- no bulk indexer failed: the document is published
    dsimp only at hpub ⊢
    rw [ks_Finish] at hpub ⊢
    unfold World.setKs at hpub ⊢
    by_cases hh : v.halted = true
    · rw [if_pos hh] at hpub
      exact (hstale rfl hpub).elim
    rw [if_neg hh]
    have hm := mergeTerms_adds cap v.name (ix.maxDocId + 1) (v.ctx.fwIdx.map (·.2)).dedup ks₁ hb.wf
    refine ⟨fun ix₁ h => ?_, ⟨fun p hp => ?_, fun i ff t hi hn ha hct hpe => ?_⟩⟩
    · simp only [Keyspace.modifyIndex, Function.update_same, Option.map_eq_some'] at h
      obtain ⟨_, _, rfl⟩ := h
      exact le_rfl
    · exact mergeTerms_posts cap v.name _ _ ks₁ hb.wf p.2
        (List.mem_dedup.2 (List.mem_map_of_mem _ hp))
    · have h := hbp rfl i ff t (by simpa using hi) (by simpa using hn) ha hct (by simpa using hpe)
      simp only [Nat.zero_add] at h
      exact hm.grows _ h
  · rw [ks_Finish, World.ks_setCtx] at hpub
    unfold World.setKs at hpub
    split at hpub
    · exact (hstale rfl hpub).elim
    · exact (hstale (Keyspace.docsOf_congr (hb.documents _)) hpub).elim

theorem runAddToIndexes_findable (w : World) (hwf : PostingsWf w.ks) {ix : IndexState}
    (hix : w.ks.indexes w.name = some ix)
    (hfresh : (w.ks.docsOf w.name).isLive (ix.maxDocId + 1) = false)
    (hpub : ((runAddToIndexes P cap w).ks.docsOf w.name).isLive (ix.maxDocId + 1) = true) :
    Issued w.name (ix.maxDocId + 1) (runAddToIndexes P cap w).ks ∧
      Findable w.name (AddToIndexes P w.ctx).ctx (ix.maxDocId + 1) (runAddToIndexes P cap w).ks := by
  have hks := World.ks_access w
  have hname := World.name_access w
  have hctx := World.ctx_access w
  unfold runAddToIndexes at hpub ⊢
  generalize w.access = v at hks hname hctx hpub ⊢
  rw [← hks] at hwf
  rw [← hks, ← hname] at hix hfresh
  rw [← hname] at hpub ⊢
  rw [← hctx]
  dsimp only at hpub ⊢
  have hstale : (v.ks.docsOf v.name).isLive (ix.maxDocId + 1) = true → False := fun h => by
    rw [hfresh] at h
    exact nomatch h
  split_ifs at hpub ⊢
  · exact (hstale hpub).elim
  cases hout : (AddToIndexes P v.ctx).outcome <;> simp only [hout] at hpub ⊢
  · have h := indexerAdd_findable P cap (({ v with ctx := (AddToIndexes P v.ctx).ctx }).emit .indexerAdd)
      (by simpa using hwf) (by simpa using hix) (by simpa using hfresh) (by simpa using hpub)
    simpa using h
  · rw [ks_Finish] at hpub
    exact (hstale hpub).elim
  · rw [World.ks_halt] at hpub
    exact (hstale hpub).elim

end Ingest

/-! ## Runs -/

variable (P : Parsers) (cap scan : Nat) (B : HzBounds)

/-- A document an ingest published, under the id after the last one its index gave out, is
found through every run of ingests, deletions of documents and collector passes that follows,
as long as it is live: in the posting list of each of its terms, in the tree of each field it
was indexed in as NUMERIC, and in the tag index of each field it was indexed in as TAG with a
tag. -/
theorem published_document_found (name : String) (w : GcWorld) (hwf : PostingsWf w.ks)
    {ix : IndexState} (hix : w.ks.indexes name = some ix)
    (hfresh : (w.ks.docsOf name).isLive (ix.maxDocId + 1) = false) (c : AddDocumentCtx)
    (evs : List CounterEvent)
    (hpub : ((runCounter P cap scan B name w [.ingest c]).ks.docsOf name).isLive
      (ix.maxDocId + 1) = true)
    (hl : ((runCounter P cap scan B name w (.ingest c :: evs)).ks.docsOf name).isLive
      (ix.maxDocId + 1) = true) :
    Findable name (AddToIndexes P c).ctx (ix.maxDocId + 1)
      (runCounter P cap scan B name w (.ingest c :: evs)).ks := by
  obtain ⟨hi, hf⟩ := runAddToIndexes_findable P cap ⟨w.ks, name, c, true, false, []⟩ hwf hix hfresh hpub
  have hs := counterStep_retains P cap scan B name hwf (.ingest c)
  exact ⟨fun p hp => runCounter_keeps P cap scan B name evs _ hs.wf hi (hf.terms p hp) hl,
    fun i ff t h₁ h₂ h₃ h₄ h₅ =>
      runCounter_keeps P cap scan B name evs _ hs.wf hi (hf.fields i ff t h₁ h₂ h₃ h₄ h₅) hl⟩

theorem published_document_found_gcWorld :
    PostingsWf (gcWorld 1).ks ∧
      (gcWorld 1).ks.indexes "idx" =
        some ⟨"idx", 1, gcSpec, ⟨[⟨2, "doc2", ⟨0⟩, none, none⟩]⟩, 2, 4⟩ ∧
      ((gcWorld 1).ks.docsOf "idx").isLive 3 = false ∧
      ((runCounter sampleParsers 100 1 defaultHzBounds "idx" (gcWorld 1)
        [.ingest (gcDocCtx "doc3" [textField "price" "9.99", textField "tags" "blue"])]).ks.docsOf
          "idx").isLive 3 = true ∧
      ((runCounter sampleParsers 100 1 defaultHzBounds "idx" (gcWorld 1)
        [.ingest (gcDocCtx "doc3" [textField "price" "9.99", textField "tags" "blue"]),
          .pass 10 false ⟨none, 0, 0, 0⟩, .delete 2]).ks.docsOf "idx").isLive 3 = true ∧
      Findable "idx" (AddToIndexes sampleParsers
          (gcDocCtx "doc3" [textField "price" "9.99", textField "tags" "blue"])).ctx 3
        (runCounter sampleParsers 100 1 defaultHzBounds "idx" (gcWorld 1)
          [.ingest (gcDocCtx "doc3" [textField "price" "9.99", textField "tags" "blue"]),
            .pass 10 false ⟨none, 0, 0, 0⟩, .delete 2]).ks :=
  have hix : (gcWorld 1).ks.indexes "idx" =
      some ⟨"idx", 1, gcSpec, ⟨[⟨2, "doc2", ⟨0⟩, none, none⟩]⟩, 2, 4⟩ := by
    simp [gcWorld, gcKs]
  have hfresh : ((gcWorld 1).ks.docsOf "idx").isLive 3 = false := by decide
  have hpub : ((runCounter sampleParsers 100 1 defaultHzBounds "idx" (gcWorld 1)
      [.ingest (gcDocCtx "doc3" [textField "price" "9.99", textField "tags" "blue"])]).ks.docsOf
        "idx").isLive 3 = true := by decide
  have hl : ((runCounter sampleParsers 100 1 defaultHzBounds "idx" (gcWorld 1)
      [.ingest (gcDocCtx "doc3" [textField "price" "9.99", textField "tags" "blue"]),
        .pass 10 false ⟨none, 0, 0, 0⟩, .delete 2]).ks.docsOf "idx").isLive 3 = true := by decide
  ⟨gcKs_postingsWf, hix, hfresh, hpub, hl,
    published_document_found sampleParsers 100 1 defaultHzBounds "idx" (gcWorld 1) gcKs_postingsWf
      hix hfresh _ _ hpub hl⟩

end RediSearch
