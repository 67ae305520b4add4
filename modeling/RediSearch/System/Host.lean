import RediSearch.System.Concurrent
import RediSearch.System.Isolation

/-!
# The host: ingests, its own steps, and collector passes

The host runs, in any order, ingests (`Submit` on a context into an index, PARTIAL or not), its
own steps (`HostStep`: a document deleted, an index dropped or created, a range split, ...),
and passes of an index's collector that meet host steps at their yields (`runHost`). A run
stops at a pass that reads freed memory, where the process's behaviour stops being defined.

Its keyspace stays well formed along every run (`KeyspaceWf`): the posting lists the
collectors find by identity are told apart, every range's identity is allocated, and every
index's document table is well formed (`DocTable.Wf`): no two documents share an id or a key,
and every id is one the index gave out. So looking a key up in a table and then its id, as
`UpdateNoIndex` and the reload of `ReplaceMerge` do, finds the document of that key
(`DocTable.Wf.Get_GetId`).

A table changes only by a publish, which deletes the document of the key and adds one under
the id after the last one given out (`DocTable.Wf.publish`), by an update of a document's
metadata that keeps its id and key (`DocTable.Wf.of_lists`), and by a deletion; a collector
pass changes no table (`Interleaves.documents`).
-/

namespace RediSearch

/-! ## Document tables -/

/-- A document table is well formed under the last id `maxDocId` its index gave out: no two
documents share an id or a key, and every id was given out, none of them `0`. -/
structure DocTable.Wf (t : DocTable) (maxDocId : Nat) : Prop where
  ids : (t.docs.map (·.id)).Nodup
  keys : (t.docs.map (·.key)).Nodup
  issued : ∀ i ∈ t.docs.map (·.id), 0 < i ∧ i ≤ maxDocId

instance (t : DocTable) (maxDocId : Nat) : Decidable (t.Wf maxDocId) :=
  decidable_of_iff ((t.docs.map (·.id)).Nodup ∧ (t.docs.map (·.key)).Nodup ∧
      ∀ i ∈ t.docs.map (·.id), 0 < i ∧ i ≤ maxDocId)
    ⟨fun ⟨h₁, h₂, h₃⟩ => ⟨h₁, h₂, h₃⟩, fun h => ⟨h.ids, h.keys, h.issued⟩⟩

/-- The first element of a list of distinct images that has the image of `a` is `a`. -/
theorem find?_of_nodup_map {α β : Type} [DecidableEq β] {f : α → β} :
    ∀ {l : List α} {a : α}, (l.map f).Nodup → a ∈ l → l.find? (fun x => f x = f a) = some a
  | x :: l, a, hnd, ha => by
    rw [List.map_cons, List.nodup_cons] at hnd
    rw [List.find?_cons]
    by_cases hx : f x = f a
    · simp only [hx, decide_True]
      rcases List.mem_cons.1 ha with rfl | ha
      · rfl
      · exact absurd (hx ▸ List.mem_map_of_mem f ha) hnd.1
    · simp only [hx, decide_False]
      exact find?_of_nodup_map hnd.2 (List.mem_cons.1 ha |>.resolve_left fun h => hx (h ▸ rfl))

namespace DocTable.Wf

variable {t t' : DocTable} {m : Nat}

/-- Whether a table is well formed depends on its ids and keys alone. -/
theorem of_lists (h : t.Wf m) (hi : t'.docs.map (·.id) = t.docs.map (·.id))
    (hk : t'.docs.map (·.key) = t.docs.map (·.key)) : t'.Wf m :=
  ⟨hi ▸ h.ids, hk ▸ h.keys, hi ▸ h.issued⟩

theorem mono (h : t.Wf m) {m' : Nat} (hm : m ≤ m') : t.Wf m' :=
  ⟨h.ids, h.keys, fun i hi => ⟨(h.issued i hi).1, (h.issued i hi).2.trans hm⟩⟩

theorem of_sublist (h : t.Wf m) (hs : t'.docs.Sublist t.docs) : t'.Wf m :=
  ⟨h.ids.sublist (hs.map _), h.keys.sublist (hs.map _),
    fun i hi => h.issued i ((hs.map _).subset hi)⟩

theorem empty (m : Nat) : DocTable.Wf ⟨[]⟩ m :=
  ⟨List.nodup_nil, List.nodup_nil, fun _ h => absurd h (List.not_mem_nil _)⟩

theorem delete (h : t.Wf m) (id : Nat) : (t.delete id).Wf m :=
  h.of_sublist (List.filter_sublist _)

/-- Publishing a document under the id after the last one given out, with the document of its
key deleted. -/
theorem publish (h : t.Wf m) (md : DocumentMetadata) (hid : md.id = m + 1) :
    DocTable.Wf ⟨t.docs.filter (·.key ≠ md.key) ++ [md]⟩ (m + 1) := by
  have hs : DocTable.Wf ⟨t.docs.filter (·.key ≠ md.key)⟩ (m + 1) :=
    (h.of_sublist (List.filter_sublist _)).mono (Nat.le_succ m)
  refine ⟨?_, ?_, ?_⟩ <;> simp only [List.map_append, List.map_cons, List.map_nil]
  · refine List.nodup_append.2 ⟨hs.ids, List.nodup_singleton _, fun i hi hi' => ?_⟩
    rw [List.mem_singleton.1 hi'] at hi
    exact absurd (h.issued _ ((List.filter_sublist _).map _ |>.subset hi)).2 (by omega)
  · refine List.nodup_append.2 ⟨hs.keys, List.nodup_singleton _, fun k hk hk' => ?_⟩
    obtain ⟨x, hx, rfl⟩ := List.mem_map.1 hk
    exact absurd (List.mem_singleton.1 hk') (by simpa using (List.mem_filter.1 hx).2)
  · intro i hi
    rcases List.mem_append.1 hi with hi | hi
    · exact hs.issued i hi
    · rw [List.mem_singleton.1 hi]
      omega

/-- Looking up the key of a document, then the id found, gives back the document. -/
theorem Get_GetId (h : t.Wf m) {md : DocumentMetadata} (hmd : md ∈ t.docs) :
    t.Get (t.GetId md.key) = some md := by
  have hpos := (h.issued md.id (List.mem_map_of_mem _ hmd)).1
  simp only [DocTable.GetId, find?_of_nodup_map h.keys hmd, Option.map_some', Option.getD_some,
    DocTable.Get, Nat.pos_iff_ne_zero.1 hpos, if_false]
  exact find?_of_nodup_map h.ids hmd

/-- Replacing the metadata of a document by metadata of the same id and key. -/
theorem update (h : t.Wf m) {id : Nat} {md md' : DocumentMetadata} (hget : t.Get id = some md)
    (hid : md'.id = md.id) (hkey : md'.key = md.key) : (t.update id md').Wf m := by
  have hfind : t.docs.find? (·.id = id) = some md := by
    unfold DocTable.Get at hget
    split_ifs at hget
    exact hget
  have hmem := List.mem_of_find?_eq_some hfind
  have hmid : md.id = id := by simpa using List.find?_some hfind
  -- the only document of that id is `md`
  have honly : ∀ x ∈ t.docs, x.id = id → x = md := fun x hx hx' =>
    List.inj_on_of_nodup_map h.ids hx hmem (hx'.trans hmid.symm)
  refine h.of_lists ?_ ?_ <;> simp only [DocTable.update, List.map_map] <;>
    refine List.map_congr_left fun x hx => ?_ <;> by_cases hx' : x.id = id <;>
    simp only [Function.comp, hx', if_true, if_false]
  · rw [hid, hmid]
  · rw [hkey, honly x hx hx']

end DocTable.Wf

/-! ## Keyspaces -/

/-- Every registered index's document table is well formed. -/
def TablesWf (ks : Keyspace) : Prop :=
  ∀ n ix, ks.indexes n = some ix → ix.docs.Wf ix.maxDocId

namespace TablesWf

variable {ks ks' : Keyspace}

/-- Whether the tables are well formed depends on the indexes' documents alone. -/
theorem of_documents (h : TablesWf ks)
    (he : ∀ n, (ks'.indexes n).map IndexState.documents = (ks.indexes n).map IndexState.documents) :
    TablesWf ks' := fun n ix' hix' => by
  have he := he n
  rw [hix', Option.map_some'] at he
  obtain ⟨ix, hix, hd⟩ := Option.map_eq_some'.1 he.symm
  have hd : ix.docs = ix'.docs ∧ ix.maxDocId = ix'.maxDocId := Prod.mk.inj hd
  exact hd.1 ▸ hd.2 ▸ h n ix hix

theorem modifyIndex (h : TablesWf ks) (name : String) {f : IndexState → IndexState}
    (hf : ∀ ix, ks.indexes name = some ix → ix.docs.Wf ix.maxDocId → (f ix).docs.Wf (f ix).maxDocId) :
    TablesWf (ks.modifyIndex name f) := fun n ix' hix' => by
  simp only [Keyspace.modifyIndex, Function.update_apply] at hix'
  split_ifs at hix' with hn
  · subst hn
    obtain ⟨ix, hix, rfl⟩ := Option.map_eq_some'.1 hix'
    exact hf ix hix (h n ix hix)
  · exact h n ix' hix'

/-- A publish under the id after the last one the index gave out. -/
theorem publish (h : TablesWf ks) {name : String} {m : Nat}
    (hm : ∀ ix, ks.indexes name = some ix → ix.maxDocId = m) (c : AddDocumentCtx) :
    TablesWf (ks.modifyIndex name (publish (m + 1) c)) :=
  h.modifyIndex name fun ix hix hwf =>
    have hwf : ix.docs.Wf m := hm ix hix ▸ hwf
    hwf.publish ⟨m + 1, c.doc.docKey, c.doc.score, c.doc.payload, c.sv⟩ rfl

variable (cap : Nat)

theorem apply (h : TablesWf ks) (s : HostStep) : TablesWf (s.apply cap ks) := by
  cases hi : s.onIndexes
  · exact fun n ix hix => h n ix (s.indexes_apply cap hi ks ▸ hix)
  cases s with
  | dropIndex name =>
    intro n ix hix
    simp only [HostStep.apply, Function.update_apply] at hix
    split_ifs at hix
    exact h n ix hix
  | createIndex name _ =>
    intro n ix hix
    simp only [HostStep.apply, Function.update_apply] at hix
    split_ifs at hix
    · cases hix
      exact .empty 0
    · exact h n ix hix
  | deleteDoc name docId => exact h.modifyIndex name fun _ _ hwf => hwf.delete docId
  | _ => simp [HostStep.onIndexes] at hi

end TablesWf

/-- A keyspace the host keeps: the posting lists the collectors find by identity are told
apart, every range's identity is allocated, and every document table is well formed. -/
structure KeyspaceWf (ks : Keyspace) : Prop where
  postings : PostingsWf ks
  fresh : RangesFresh ks
  tables : TablesWf ks

theorem KeyspaceWf.modifyIndex {ks : Keyspace} (h : KeyspaceWf ks) (name : String)
    {f : IndexState → IndexState}
    (hf : ∀ ix, ks.indexes name = some ix → ix.docs.Wf ix.maxDocId → (f ix).docs.Wf (f ix).maxDocId) :
    KeyspaceWf (ks.modifyIndex name f) :=
  ⟨⟨h.postings.ranges, h.postings.values⟩, h.fresh.of_numIdx le_rfl rfl, h.tables.modifyIndex name hf⟩

variable (cap : Nat)

theorem KeyspaceWf.apply {ks : Keyspace} (h : KeyspaceWf ks) (s : HostStep) :
    KeyspaceWf (s.apply cap ks) :=
  have hs := s.apply_wf cap h.postings h.fresh
  ⟨hs.1, hs.2, h.tables.apply cap s⟩

/-- Along an interleaving the tables stay well formed. -/
theorem Interleaves.tables {ks₀ ks : Keyspace} {hs : List HostStep}
    (h : Interleaves cap ks₀ hs ks) (h₀ : TablesWf ks₀) : TablesWf ks := by
  induction h with
  | start => exact h₀
  | drop _ hd ih => exact ih.of_documents hd.documents
  | host s _ ih => exact ih.apply cap s

/-! ## An ingest allocates no range identity behind `nextIdent` -/

section Indexers

variable (P : Parsers) (name : String) (docId : Nat) (fs : FieldSpec) (fd : FieldIndexerData)

theorem numericIndexer_fresh (ks : Keyspace) (h : RangesFresh ks) :
    RangesFresh (numericIndexer cap name docId fs fd ks).1 := by
  have ho := fresh_OpenNumericIndex ks h (.field name fs.name .NUMERIC)
  have hst := OpenNumericIndex_stored ks (.field name fs.name .NUMERIC)
  unfold numericIndexer
  dsimp only
  generalize OpenNumericIndex ks (.field name fs.name .NUMERIC) = p at ho hst ⊢
  refine (ho.setNumIdx (n := p.1.nextIdent) le_rfl ?_).of_numIdx le_rfl rfl
  rw [NumericRangeTree.rangeIdents_Add]
  exact ho _ p.2 hst

theorem tagIndexer_fresh (ks : Keyspace) (h : RangesFresh ks) :
    RangesFresh (tagIndexer cap name docId fs fd ks).1 := by
  have ho : RangesFresh (TagIndexOpen ks (.field name fs.name .TAG) true).1 :=
    h.of_numIdx (TagIndexOpen_nextIdent ..) (TagIndexOpen_numIdx ..)
  unfold tagIndexer
  dsimp only
  split
  · next heq =>
    rw [heq] at ho
    exact ho
  · next ks₁ t heq =>
    rw [heq] at ho
    exact ho.of_numIdx (Nat.le_add_right _ _) rfl

theorem bulkIndexer_fresh (t : FieldTypes) (ks : Keyspace) (h : RangesFresh ks) :
    RangesFresh (bulkIndexer P cap name docId fs fd t ks).1 := by
  unfold bulkIndexer geoIndexer
  split_ifs
  · exact tagIndexer_fresh cap name docId fs fd ks h
  · exact numericIndexer_fresh cap name docId fs fd ks h
  · split
    · exact h.of_numIdx le_rfl rfl
    · exact h
  · exact h

theorem IndexBulkDataAdd_fresh (ff : DocumentField) (ks : Keyspace) (h : RangesFresh ks) :
    RangesFresh (IndexBulkDataAdd P cap name docId ff fs fd ks).1 := by
  unfold IndexBulkDataAdd
  generalize [FieldTypes.FULLTEXT, .NUMERIC, .GEO, .TAG] = ts
  replace h : RangesFresh ((ks, none) : IndexerResult).1 := h
  generalize ((ks, none) : IndexerResult) = r at h ⊢
  induction ts generalizing r with
  | nil => exact h
  | cons t ts ih =>
    rw [List.foldl_cons]
    split_ifs
    · exact ih _ (bulkIndexer_fresh cap P name docId fs fd t r.1 h)
    · exact ih r h

theorem bulkFieldsFrom_fresh (c : AddDocumentCtx) :
    ∀ (i : Nat) (ffs : List DocumentField) (ks : Keyspace), RangesFresh ks →
      RangesFresh (bulkFieldsFrom P cap name docId c i ffs ks).1
  | _, [], _, h => h
  | i, ff :: ffs, ks, h => by
    unfold bulkFieldsFrom
    dsimp only
    split_ifs
    · exact bulkFieldsFrom_fresh c (i + 1) ffs ks h
    · have hb := IndexBulkDataAdd_fresh cap P name docId (c.fspecs.getD i .empty) (c.fdata i) ff ks h
      unfold continueBulk
      split
      · next heq =>
        rw [heq] at hb
        exact bulkFieldsFrom_fresh c (i + 1) ffs _ hb
      · next heq => exact heq ▸ hb

theorem mergeTerms_fresh : ∀ (terms : List String) (ks : Keyspace), RangesFresh ks →
    RangesFresh (mergeTerms cap name docId terms ks)
  | [], _, h => h
  | term :: terms, ks, h => by
    have ho := fresh_openInvIdx ks h (.term name term)
    simp only [mergeTerms]
    generalize ks.openInvIdx (.term name term) = p at ho ⊢
    exact mergeTerms_fresh terms _ (ho.of_numIdx le_rfl rfl)

end Indexers

/-! ## Every path of `Submit` keeps the keyspace well formed -/

section Ingest

variable (P : Parsers)

theorem indexerAdd_wf (w : World) (h : KeyspaceWf w.ks) : KeyspaceWf (indexerAdd P cap w).ks := by
  have hks := World.ks_access w
  unfold indexerAdd
  generalize w.access = v at hks ⊢
  rw [← hks] at h
  dsimp only
  split
  · rwa [ks_Finish]
  · next ix hix =>
    have hb := bulkFieldsFrom_adds P cap v.name (ix.maxDocId + 1) v.ctx 0 v.ctx.doc.fields v.ks
      h.postings
    have hbf := bulkFieldsFrom_fresh cap P v.name (ix.maxDocId + 1) v.ctx 0 v.ctx.doc.fields v.ks
      h.fresh
    split
    · next ks _ _ heq =>
      rw [heq] at hb hbf
      rw [ks_Finish, World.ks_setCtx]
      unfold World.setKs
      split
      · exact h
      · exact ⟨hb.wf, hbf, h.tables.of_documents hb.documents⟩
    · next ks heq =>
      rw [heq] at hb hbf
      rw [ks_Finish]
      unfold World.setKs
      split
      · exact h
      · have hm := hb.trans (mergeTerms_adds cap v.name (ix.maxDocId + 1)
          (v.ctx.fwIdx.map (·.2)).dedup ks hb.wf)
        refine ⟨⟨hm.wf.ranges, hm.wf.values⟩, (mergeTerms_fresh cap v.name _ _ ks hbf).of_numIdx
          le_rfl rfl, (h.tables.of_documents hm.documents).publish (fun ix₁ hix₁ => ?_) v.ctx⟩
        have he := hm.documents v.name
        rw [hix₁, hix, Option.map_some', Option.map_some', Option.some_inj] at he
        exact congrArg Prod.snd he

theorem runAddToIndexes_wf (w : World) (h : KeyspaceWf w.ks) :
    KeyspaceWf (runAddToIndexes P cap w).ks := by
  have hks := World.ks_access w
  unfold runAddToIndexes
  generalize w.access = v at hks ⊢
  rw [← hks] at h
  dsimp only
  split_ifs
  · exact h
  split
  · exact indexerAdd_wf cap P _ (by rwa [World.ks_emit])
  · rwa [ks_Finish]
  · rwa [World.ks_halt]

theorem submitIndex_wf (w : World) (h : KeyspaceWf w.ks) : KeyspaceWf (submitIndex P cap w).ks := by
  have hks := World.ks_access w
  unfold submitIndex
  generalize w.access = v at hks ⊢
  rw [← hks] at h
  dsimp only
  split_ifs
  · exact h
  · exact runAddToIndexes_wf cap P _ (by rwa [World.ks_emit])
  · exact runAddToIndexes_wf cap P _ h

theorem ks_ReplaceMerge (w : World) : (ReplaceMerge w).2.ks = w.ks := by
  unfold ReplaceMerge
  dsimp only
  split_ifs
  · exact World.ks_access w
  split
  · simp
  · generalize SetDocument _ _ _ _ = R
    obtain ⟨_, c, d'⟩ := R
    exact World.ks_access w

/-- One iteration of the sortable loop keeps the document's id and key. -/
theorem sortField_sameDoc {sp : IndexSpec} {dd : List Nat} {f : DocumentField}
    {md : DocumentMetadata} :
    (∀ {dd' md'}, sortField P sp dd f md = .ok (dd', md') → md'.id = md.id ∧ md'.key = md.key) ∧
    ∀ {s md'}, sortField P sp dd f md = .error (s, md') → md'.id = md.id ∧ md'.key = md.key := by
  refine ⟨fun h => ?_, fun h => ?_⟩
  · unfold sortField at h
    split at h
    · cases h
      exact ⟨rfl, rfl⟩
    · split_ifs at h <;> (try split at h) <;> (try split at h) <;> cases h <;> exact ⟨rfl, rfl⟩
  · rcases sortField_error P h with ⟨rfl, -⟩ | rfl <;> exact ⟨rfl, rfl⟩

/-- The sortable loop keeps the document's id and key, however it ends. -/
theorem sortFields_sameDoc {sp : IndexSpec} (fs : List DocumentField) :
    ∀ (dd : List Nat) (md : DocumentMetadata),
      (∀ {dd' md'}, sortFields P sp dd fs md = .ok (dd', md') → md'.id = md.id ∧ md'.key = md.key) ∧
      ∀ {s rest md'}, sortFields P sp dd fs md = .error (s, rest, md') →
        md'.id = md.id ∧ md'.key = md.key := by
  induction fs with
  | nil =>
    intro dd md
    unfold sortFields
    refine ⟨fun h => ?_, fun h => ?_⟩
    · cases h
      exact ⟨rfl, rfl⟩
    · cases h
  | cons f fs ih =>
    intro dd md
    unfold sortFields
    split
    · next s md₁ hf =>
      refine ⟨fun h => ?_, fun h => ?_⟩
      · cases h
      · cases h
        exact (sortField_sameDoc P).2 hf
    · next dd₁ md₁ hf =>
      have h₁ := (sortField_sameDoc P).1 hf
      exact ⟨fun h => ((ih dd₁ md₁).1 h).imp (·.trans h₁.1) (·.trans h₁.2),
        fun h => ((ih dd₁ md₁).2 h).imp (·.trans h₁.1) (·.trans h₁.2)⟩

theorem UpdateNoIndex_wf (w : World) (h : KeyspaceWf w.ks) : KeyspaceWf (UpdateNoIndex P w).ks := by
  have hks := World.ks_access w
  have hname := World.name_access w
  unfold UpdateNoIndex
  generalize w.access = v at hks hname ⊢
  rw [← hks] at h
  dsimp only
  split_ifs
  · exact h
  split
  · rwa [World.ks_halt]
  · next ix hix =>
    have hu : (if ix.docs.GetId v.ctx.doc.docKey = 0 then bail v "Couldn't load old document"
        else v).ks = v.ks ∧ (if ix.docs.GetId v.ctx.doc.docKey = 0 then
          bail v "Couldn't load old document" else v).name = v.name := by
      split_ifs <;> simp
    generalize (if ix.docs.GetId v.ctx.doc.docKey = 0 then
      bail v "Couldn't load old document" else v) = u at hu ⊢
    -- the metadata written back is of the document found, under its id and key
    have hmd : ∀ {md md'}, ix.docs.Get (ix.docs.GetId v.ctx.doc.docKey) = some md →
        md'.id = md.id → md'.key = md.key →
        KeyspaceWf (u.setKs (·.setMd u.name (ix.docs.GetId v.ctx.doc.docKey) md')).ks := by
      intro md md' hget hid hkey
      unfold World.setKs
      split
      · exact hu.1 ▸ h
      · rw [hu.1, hu.2]
        exact h.modifyIndex v.name fun ix₁ hix₁ hwf => by
          rw [hix, Option.some_inj] at hix₁
          subst hix₁
          exact hwf.update hget hid hkey
    split
    · rwa [World.ks_access, ks_bail, hu.1]
    · next md hget =>
      split_ifs
      · split
        · next heq =>
          have hs := (sortFields_sameDoc P _ _ _).1 heq
          exact hmd hget hs.1 hs.2
        · next heq =>
          have hs := (sortFields_sameDoc P _ _ _).2 heq
          rw [ks_afterStop]
          exact hmd hget hs.1 hs.2
      · exact hmd hget rfl rfl

/-- Every path of `Submit`, PARTIAL or not, keeps the keyspace well formed. -/
theorem Submit_wf (w : World) (partialUpdate : Bool) (h : KeyspaceWf w.ks) :
    KeyspaceWf (Submit P cap w partialUpdate).ks := by
  have hp : KeyspaceWf (handlePartialUpdate P w).2.ks := by
    have hks := World.ks_access w
    unfold handlePartialUpdate
    generalize w.access = v at hks ⊢
    rw [← hks] at h
    dsimp only
    split_ifs
    · exact h
    · rwa [ks_ReplaceMerge]
    · exact UpdateNoIndex_wf P v h
  unfold Submit
  split
  · split
    · next heq =>
      rw [heq] at hp
      exact hp
    · next w' heq =>
      rw [heq] at hp
      exact submitIndex_wf cap P w' hp
  · exact submitIndex_wf cap P w h

end Ingest

/-! ## The host's runs -/

/-- What the host does: an ingest (`Submit` on a context into an index, PARTIAL or not), a step
of its own, or a pass of an index's collector that meets the given host steps at its yields. -/
inductive HostEvent
  | submit (name : String) (ctx : AddDocumentCtx) (partialUpdate : Bool)
  | step (s : HostStep)
  | pass (name : String) (fuel : Nat) (loading : Bool) (ch : GcChoices) (steps : List HostStep)

section Runs

variable (P : Parsers) (scan : Nat) (B : HzBounds)

/-- One event of the host. -/
def hostStep (s : Sys) : HostEvent → Sys
  | .submit name c partialUpdate =>
    { s with ks := (Submit P cap ⟨s.ks, name, c, true, false, []⟩ partialUpdate).ks }
  | .step h => { s with ks := h.apply cap s.ks }
  | .pass name fuel loading ch steps =>
    let w := (PeriodicCallback cap scan B fuel loading ch ⟨s.ks, s.gc name, .OK, steps, []⟩).1
    ⟨w.ks, Function.update s.gc name w.gc⟩

/-- Whether an event reads freed memory: a pass that does. -/
def hostCrashes (s : Sys) : HostEvent → Bool
  | .pass name fuel loading ch steps =>
    (PeriodicCallback cap scan B fuel loading ch ⟨s.ks, s.gc name, .OK, steps, []⟩).2.crashed
  | _ => false

/-- A run of events, in any order; it stops at a pass that reads freed memory. -/
def runHost (s : Sys) (evs : List HostEvent) : Sys :=
  runSteps (fun s e => (hostStep cap P scan B s e, hostCrashes cap scan B s e)) s evs

theorem hostStep_wf {s : Sys} (h : KeyspaceWf s.ks) (e : HostEvent) :
    KeyspaceWf (hostStep cap P scan B s e).ks := by
  cases e with
  | submit name c p => exact Submit_wf cap P _ p h
  | step st => exact h.apply cap st
  | pass name fuel loading ch steps =>
    have hp := PeriodicCallback_interleaved cap scan fuel ch B loading
      (w := ⟨s.ks, s.gc name, .OK, steps, []⟩) ⟨h.postings, h.fresh, [], rfl, .start⟩
    obtain ⟨_, -, ht⟩ := hp.trace
    exact ⟨hp.wf, hp.fresh, ht.tables cap h.tables⟩

theorem runHost_wf (evs : List HostEvent) (s : Sys) (h : KeyspaceWf s.ks) :
    KeyspaceWf (runHost cap P scan B s evs).ks :=
  runSteps_preserves (fun s : Sys => KeyspaceWf s.ks) (fun _ e _ h => hostStep_wf cap P scan B h e) s h

/-- The widget index's keyspace is well formed: no tree or tag index, and one document. -/
theorem widgetKs_wf : KeyspaceWf widgetKs := by
  refine ⟨⟨(fun _ _ h => nomatch h), (fun _ _ h => nomatch h)⟩, (fun _ _ h => nomatch h),
    fun n ix h => ?_⟩
  simp only [widgetKs] at h
  split_ifs at h
  cases h
  decide

/-- Along every run of the host, its ingests, its own steps and its collectors' passes in any
order, with host steps at the passes' yields, every index's document table stays well formed:
no two documents share an id or a key, and every id is one the index gave out, none of them
`0`. This needs the keyspace well formed at the start. -/
theorem host_tables_wf (s : Sys) (h : KeyspaceWf s.ks) (evs : List HostEvent) :
    ∀ n ix, (runHost cap P scan B s evs).ks.indexes n = some ix → ix.docs.Wf ix.maxDocId :=
  (runHost_wf cap P scan B evs s h).tables

/-- A `PARTIAL` price update of `doc1`, its deletion, and a pass of the widget index's collector
that meets the creation of an index at its first yield. -/
theorem host_tables_wf_widget :
    KeyspaceWf widgetSys.ks ∧
      ∀ n ix, (runHost 100 sampleParsers 1 defaultHzBounds widgetSys
          [.submit "idx" priceUpdate.ctx true, .step (.deleteDoc "idx" 1),
           .pass "idx" 10 false ⟨none, 0, 0, 0⟩ [.createIndex "other" widgetSpec]]).ks.indexes n =
          some ix → ix.docs.Wf ix.maxDocId :=
  ⟨widgetKs_wf, host_tables_wf 100 sampleParsers 1 defaultHzBounds widgetSys widgetKs_wf _⟩

/-- Along every run of the host, looking up the key of any document of an index's table, and
then the id found, as `UpdateNoIndex` does, gives back that document's metadata. -/
theorem host_lookup_finds_document (s : Sys) (h : KeyspaceWf s.ks) (evs : List HostEvent) :
    ∀ n ix, (runHost cap P scan B s evs).ks.indexes n = some ix →
      ∀ md ∈ ix.docs.docs, ix.docs.Get (ix.docs.GetId md.key) = some md :=
  fun n ix hix _ hmd => ((runHost_wf cap P scan B evs s h).tables n ix hix).Get_GetId hmd

theorem host_lookup_finds_document_widget :
    KeyspaceWf widgetSys.ks ∧
      ∀ n ix, (runHost 100 sampleParsers 1 defaultHzBounds widgetSys
          [.submit "idx" priceUpdate.ctx true, .step (.deleteDoc "idx" 1),
           .pass "idx" 10 false ⟨none, 0, 0, 0⟩ [.createIndex "other" widgetSpec]]).ks.indexes n =
          some ix → ∀ md ∈ ix.docs.docs, ix.docs.Get (ix.docs.GetId md.key) = some md :=
  ⟨widgetKs_wf, host_lookup_finds_document 100 sampleParsers 1 defaultHzBounds widgetSys widgetKs_wf _⟩

end Runs

end RediSearch
