import RediSearch.GC.Pass
import RediSearch.Ingest.Indexer

/-!
# The record counter of an index

`stats.numRecords` goes up by one at each call of `numericIndexer` and of `tagIndexer`, and
down, in `updateStats`, by what a collector removes from a posting list. `numericIndexer` adds
one entry to a range of the field's tree; `tagIndexer` adds one entry per tag to the tag
values' posting lists. So the counter follows the entries of the index's numeric ranges and
tag values, modulo `2^64`, exactly as long as each tag indexer call has one tag
(`records_exact`). A TAG field of two tags counts one record for two entries: once its
document is deleted and both values collected, the counter wraps to `2^64 - 1` over no
entries (`records_wrap_after_two_tags`).

A run (`runCounter`) is made of runs of `AddToIndexes` on new documents of a schema without
full-text fields, which index no terms, deletions of documents, and passes of the index's
collector that meet no host step at their yields. The proof goes by container: each repair
takes off the counted entries exactly what it reports (`TakesOff`), so `updateStats` keeps the
counter exact (`RecordsExact.collect`); each indexer call adds as many entries as records,
given one tag per TAG field; then per loop, per collector, per pass (`CountWorld`) and per run.
-/

namespace RediSearch

/-! ## What the counter counts -/

/-- The names of the schema's NUMERIC fields, each once. -/
def numericNames (sp : IndexSpec) : List String :=
  ((sp.fields.filter (·.types.numeric)).map (·.name)).dedup

/-- The names of the schema's TAG fields, each once. -/
def tagNames (sp : IndexSpec) : List String :=
  ((sp.fields.filter (·.types.tag)).map (·.name)).dedup

/-- The entries of the ranges of the tree of field `n` of index `name`. -/
def numericEntries (ks : Keyspace) (name n : String) : Nat :=
  ((ks.numIdx (.field name n .NUMERIC)).map NumericRangeTree.entries).getD 0

/-- The entries of the values of the tag index of field `n` of index `name`. -/
def tagEntries (ks : Keyspace) (name n : String) : Nat :=
  ((ks.tagIdx (.field name n .TAG)).map TagIndex.entries).getD 0

/-- The `(docId)` entries held in the numeric ranges and the tag values of the schema's
fields. -/
def indexEntries (ks : Keyspace) (name : String) (sp : IndexSpec) : Nat :=
  ((numericNames sp).map (numericEntries ks name)).sum +
    ((tagNames sp).map (tagEntries ks name)).sum

/-- `spec->stats.numRecords` of index `name`. -/
def records (ks : Keyspace) (name : String) : Nat :=
  ((ks.indexes name).map (·.numRecords)).getD 0

theorem mem_numericNames {sp : IndexSpec} {fs : FieldSpec} (hfs : fs ∈ sp.fields)
    (h : fs.types.numeric = true) : fs.name ∈ numericNames sp :=
  List.mem_dedup.2 (List.mem_map_of_mem _ (List.mem_filter.2 ⟨hfs, h⟩))

theorem mem_tagNames {sp : IndexSpec} {fs : FieldSpec} (hfs : fs ∈ sp.fields)
    (h : fs.types.tag = true) : fs.name ∈ tagNames sp :=
  List.mem_dedup.2 (List.mem_map_of_mem _ (List.mem_filter.2 ⟨hfs, h⟩))

/-! ## Sums over lists with one element changed -/

/-- Changing a function at one point of a list without repeats changes the sum of the list's
image by the difference at that point. -/
theorem sum_map_update (f f' : String → Nat) {n : String} (h : ∀ m, m ≠ n → f' m = f m) :
    ∀ {l : List String}, l.Nodup → n ∈ l → (l.map f').sum + f n = (l.map f).sum + f' n
  | [], _, hn => absurd hn (List.not_mem_nil _)
  | a :: l, hl, hn => by
    obtain ⟨ha, hl⟩ := List.nodup_cons.1 hl
    simp only [List.map_cons, List.sum_cons]
    by_cases han : a = n
    · subst han
      rw [List.map_congr_left fun m hm => h m fun e => ha (e ▸ hm)]
      omega
    · have := sum_map_update f f' h hl ((List.mem_cons.1 hn).resolve_left (Ne.symm han))
      rw [h a han]
      omega

/-- Changing the one element of a list whose key is `key a` (the keys have no repeats) changes
the sum of the sizes by the difference of sizes. -/
theorem sum_map_ite {α κ : Type} [DecidableEq κ] (key : α → κ) (size : α → Nat) (p : α → Prop)
    [DecidablePred p] (f : α → α) {a : α} :
    ∀ {l : List α}, (l.map key).Nodup → a ∈ l → (∀ x ∈ l, p x ↔ key x = key a) →
      ((l.map fun x => if p x then f x else x).map size).sum + size a =
        (l.map size).sum + size (f a)
  | [], _, ha, _ => absurd ha (List.not_mem_nil _)
  | x :: l, hl, ha, hp => by
    rw [List.map_cons, List.nodup_cons] at hl
    simp only [List.map_cons, List.sum_cons]
    rcases List.mem_cons.1 ha with rfl | ha'
    · have hrest : (l.map fun y => if p y then f y else y) = l := by
        refine List.map_congr_left (fun y hy => if_neg fun hpy => hl.1 ?_) |>.trans (List.map_id _)
        exact (hp y (.tail _ hy)).1 hpy ▸ List.mem_map_of_mem key hy
      rw [if_pos ((hp a (.head _)).2 rfl), hrest]
      omega
    · have hx : ¬p x := fun hpx => hl.1 ((hp x (.head _)).1 hpx ▸ List.mem_map_of_mem key ha')
      rw [if_neg hx]
      have := sum_map_ite key size p f hl.2 ha' fun y hy => hp y (.tail _ hy)
      omega

/-- Adding one to the size of one element of a list adds one to the sum of sizes. -/
theorem sum_map_modify {α : Type} (size : α → Nat) (f : α → α) (hf : ∀ a, size (f a) = size a + 1) :
    ∀ (n : Nat) (l : List α), n < l.length → ((l.modify f n).map size).sum = (l.map size).sum + 1
  | _, [], h => absurd h (Nat.not_lt_zero _)
  | 0, a :: l, _ => by simp [hf]; omega
  | n + 1, a :: l, h => by
    simp only [List.modify_succ_cons, List.map_cons, List.sum_cons]
    rw [sum_map_modify size f hf n l (by simpa using h)]
    omega

/-! ## The entries of each container -/

/-- The blocks a repair filters hold no more entries than before. -/
theorem sum_length_filtered_le (c : Nat → Prop) [DecidablePred c] (q : Nat → Bool) :
    ∀ (s : Nat) (bs : List (List Nat)),
      (((bs.enumFrom s).map fun p => if c p.1 then p.2.filter q else p.2).map List.length).sum ≤
        (bs.map List.length).sum
  | _, [] => le_rfl
  | s, b :: bs => by
    simp only [List.enumFrom_cons, List.map_cons, List.sum_cons]
    have hb : (if c s then b.filter q else b).length ≤ b.length := by
      split_ifs
      · exact List.length_filter_le q b
      · exact le_rfl
    have := sum_length_filtered_le c q (s + 1) bs
    omega

/-- `Repair` removes exactly the entries it reports, `params.docsCollected`. -/
theorem InvertedIndex.Repair_entries (ix : InvertedIndex) (docs : DocTable) (blockNum limit : Nat) :
    (ix.Repair docs blockNum limit).1.numEntries + (ix.Repair docs blockNum limit).2.2 =
      ix.numEntries := by
  have := sum_length_filtered_le (fun i => blockNum ≤ i ∧ i < blockNum + limit) docs.isLive 0
    ix.blocks
  simp only [InvertedIndex.Repair, InvertedIndex.numEntries, List.enum] at this ⊢
  omega

theorem NumericRangeTree.entries_Add (cap : Nat) (t : NumericRangeTree) (docId : Nat) (v : Double) :
    (t.Add cap docId v).entries = t.entries + 1 :=
  sum_map_modify _ _ (fun ix => InvertedIndex.numEntries_add cap ix docId) _ _
    (Nat.mod_lt _ (List.length_pos.2 t.ranges_ne))

variable (P : Parsers) (cap scan : Nat)

/-- Repairing a range of a tree whose ranges have distinct identities takes off the tree the
entries the repair reports. -/
theorem NumericRangeTree.entries_repair {t : NumericRangeTree} (hnd : t.rangeIdents.Nodup)
    (ident : Nat) (docs : DocTable) (blockNum : Nat) :
    (t.repair scan ident docs blockNum).1.entries + (t.repair scan ident docs blockNum).2.2 =
      t.entries := by
  unfold NumericRangeTree.repair
  split
  · rfl
  · rename_i r hr
    have hid : r.ident = ident := by simpa using List.find?_some hr
    have := sum_map_ite InvertedIndex.ident InvertedIndex.numEntries (fun x => x.ident = ident)
      (fun _ => (r.Repair docs blockNum scan).1) hnd (List.mem_of_find?_eq_some hr)
      fun x _ => by rw [hid]
    have hR := InvertedIndex.Repair_entries r docs blockNum scan
    generalize r.Repair docs blockNum scan = R at this hR ⊢
    obtain ⟨r', next, collected⟩ := R
    simp only [NumericRangeTree.entries] at this hR ⊢
    omega

/-- Repairing the posting list of a tag value, in a tag index whose values are distinct, takes
off the index the entries the repair reports. -/
theorem TagIndex.entries_repair {t : TagIndex} (hnd : (t.values.map (·.1)).Nodup) (value : String)
    (ident : Nat) (docs : DocTable) (blockNum : Nat) :
    (t.repair scan value ident docs blockNum).1.entries +
      (t.repair scan value ident docs blockNum).2.2 = t.entries := by
  unfold TagIndex.repair
  split
  · rfl
  · rename_i v iv hfind
    have hmem := List.mem_of_find?_eq_some hfind
    have hp : v = value ∧ iv.ident = ident := by simpa using List.find?_some hfind
    have := sum_map_ite (·.1) (fun x => x.2.numEntries) (fun x => x.1 = value ∧ x.2.ident = ident)
      (fun x => (x.1, (iv.Repair docs blockNum scan).1)) hnd hmem fun x hx =>
        ⟨fun h => h.1.trans hp.1.symm, fun h => by
          obtain rfl := List.inj_on_of_nodup_map hnd hx hmem h
          exact hp⟩
    have hR := InvertedIndex.Repair_entries iv docs blockNum scan
    generalize iv.Repair docs blockNum scan = R at this hR ⊢
    obtain ⟨iv', next, collected⟩ := R
    simp only [TagIndex.entries] at this hR ⊢
    omega

/-- Indexing one tag adds one entry and keeps the values distinct. -/
theorem TagIndex.indexOne_entries {t : TagIndex} (hnd : (t.values.map (·.1)).Nodup)
    (cap fresh docId : Nat) (tag : String) :
    (TagIndex.indexOne cap fresh t docId tag).entries = t.entries + 1 ∧
      ((TagIndex.indexOne cap fresh t docId tag).values.map (·.1)).Nodup := by
  unfold TagIndex.indexOne
  split
  · rename_i ix hix
    have := sum_map_ite (·.1) (fun x => x.2.numEntries) (fun x => x.1 = tag)
      (fun x => (x.1, ix.add cap docId)) hnd (TagIndex.mem_of_Find hix) fun _ _ => Iff.rfl
    refine ⟨?_, ?_⟩
    · simp only [TagIndex.entries, InvertedIndex.numEntries_add] at this ⊢
      omega
    · simpa only [TagIndex.keys_map_set] using hnd
  · rename_i hnone
    refine ⟨by simp only [TagIndex.entries, List.map_append, List.sum_append,
      InvertedIndex.numEntries_add]; rfl, ?_⟩
    have hout : tag ∉ t.values.map (·.1) := fun h => by
      obtain ⟨p, hp, rfl⟩ := List.mem_map.1 h
      simpa using (List.lookup_eq_none_iff.1 hnone) p hp
    simpa [List.nodup_append, hout] using hnd

/-- `TagIndex::Index` adds one entry per tag and keeps the values distinct. -/
theorem TagIndex.foldl_indexOne (cap fresh docId : Nat) :
    ∀ (tags : List String) (s : Nat) (t : TagIndex), (t.values.map (·.1)).Nodup →
      ((tags.enumFrom s).foldl (fun t p => TagIndex.indexOne cap (fresh + p.1) t docId p.2)
        t).entries = t.entries + tags.length ∧
      (((tags.enumFrom s).foldl (fun t p => TagIndex.indexOne cap (fresh + p.1) t docId p.2)
        t).values.map (·.1)).Nodup
  | [], _, _, h => ⟨rfl, h⟩
  | tag :: tags, s, t, h => by
    obtain ⟨he, hn⟩ := TagIndex.indexOne_entries h cap (fresh + s) docId tag
    obtain ⟨he', hn'⟩ := TagIndex.foldl_indexOne cap fresh docId tags (s + 1) _ hn
    simp only [List.enumFrom_cons, List.foldl_cons, List.length_cons]
    exact ⟨by rw [he', he]; omega, hn'⟩

theorem TagIndex.Index_entries {t : TagIndex} (hnd : (t.values.map (·.1)).Nodup)
    (cap fresh : Nat) (tags : List String) (docId : Nat) :
    (TagIndex.Index cap fresh t tags docId).entries = t.entries + tags.length ∧
      ((TagIndex.Index cap fresh t tags docId).values.map (·.1)).Nodup :=
  TagIndex.foldl_indexOne cap fresh docId tags 0 t hnd

/-! ## The counter and its invariant -/

theorem sizeSub_mod {E c : Nat} (h : c ≤ E) : sizeSub (E % SIZE_MAX1) c = (E - c) % SIZE_MAX1 := by
  simp only [sizeSub, SIZE_MAX1]
  omega

theorem succ_mod_mod (E : Nat) : (E % SIZE_MAX1 + 1) % SIZE_MAX1 = (E + 1) % SIZE_MAX1 := by
  simp only [SIZE_MAX1]
  omega

/-- The shape of the index the counter is about: it is registered under its own name with
schema `sp`, the ranges of each of its fields' trees have distinct identities, the values of
each of its tag indexes are distinct, and its term posting lists are empty. -/
structure Counted (ks : Keyspace) (name : String) (sp : IndexSpec) : Prop where
  index : ∃ ix, ks.indexes name = some ix ∧ ix.name = name ∧ ix.spec = sp
  ranges : ∀ n t, ks.numIdx (.field name n .NUMERIC) = some t → t.rangeIdents.Nodup
  values : ∀ n t, ks.tagIdx (.field name n .TAG) = some t → (t.values.map (·.1)).Nodup
  terms : ∀ term ix, ks.invIdx (.term name term) = some ix → ix.numEntries = 0

/-- The counter of index `name` is its number of entries, modulo `2^64`. -/
def RecordsExact (ks : Keyspace) (name : String) (sp : IndexSpec) : Prop :=
  Counted ks name sp ∧ records ks name = indexEntries ks name sp % SIZE_MAX1

section Shape

variable {ks : Keyspace} {name : String} {sp : IndexSpec}

theorem Counted.setNumIdx (h : Counted ks name sp) (k : Key) (t : NumericRangeTree)
    (hnd : t.rangeIdents.Nodup) : Counted (ks.setNumIdx k t) name sp := by
  refine ⟨h.index, fun n t' ht' => ?_, h.values, h.terms⟩
  by_cases hk : Key.field name n .NUMERIC = k
  · subst hk
    simp only [Keyspace.numIdx_setNumIdx, Function.update_same, Option.some.injEq] at ht'
    exact ht' ▸ hnd
  · exact h.ranges n t' (by simpa [Function.update_noteq hk] using ht')

theorem Counted.setTagIdx (h : Counted ks name sp) (k : Key) (t : TagIndex)
    (hnd : (t.values.map (·.1)).Nodup) : Counted (ks.setTagIdx k t) name sp := by
  refine ⟨h.index, h.ranges, fun n t' ht' => ?_, h.terms⟩
  by_cases hk : Key.field name n .TAG = k
  · subst hk
    simp only [Keyspace.tagIdx_setTagIdx, Function.update_same, Option.some.injEq] at ht'
    exact ht' ▸ hnd
  · exact h.values n t' (by simpa [Function.update_noteq hk] using ht')

theorem Counted.setInvIdx (h : Counted ks name sp) (k : Key) (ix : InvertedIndex)
    (h0 : ix.numEntries = 0) : Counted (ks.setInvIdx k ix) name sp := by
  refine ⟨h.index, h.ranges, h.values, fun term ix' hix => ?_⟩
  by_cases hk : Key.term name term = k
  · subst hk
    simp only [Keyspace.invIdx_setInvIdx, Function.update_same, Option.some.injEq] at hix
    exact hix ▸ h0
  · exact h.terms term ix' (by simpa [Function.update_noteq hk] using hix)

/-- A change of the index's state that keeps its name and schema. -/
theorem Counted.modifyIndex (h : Counted ks name sp) (name' : String) {f : IndexState → IndexState}
    (hf : ∀ ix, (f ix).name = ix.name ∧ (f ix).spec = ix.spec) :
    Counted (ks.modifyIndex name' f) name sp := by
  refine ⟨?_, h.ranges, h.values, h.terms⟩
  obtain ⟨ix, hix, hn, hs⟩ := h.index
  by_cases hname : name = name'
  · subst hname
    exact ⟨f ix, by simp [Keyspace.modifyIndex, hix], (hf ix).1.trans hn, (hf ix).2.trans hs⟩
  · exact ⟨ix, by simpa [Keyspace.modifyIndex, Function.update_noteq hname] using hix, hn, hs⟩

theorem Counted.nextIdent (h : Counted ks name sp) (n : Nat) :
    Counted { ks with nextIdent := n } name sp :=
  ⟨h.index, h.ranges, h.values, h.terms⟩

theorem Counted.OpenNumericIndex (h : Counted ks name sp) (k : Key) :
    Counted (OpenNumericIndex ks k).1 name sp := by
  unfold RediSearch.OpenNumericIndex
  split
  · exact h
  · exact (h.setNumIdx k ⟨ks.nextIdent, 0, [⟨ks.nextIdent + 1, []⟩], List.cons_ne_nil _ _,
      fun _ => 0, 0⟩ (List.nodup_singleton _)).nextIdent _

theorem Counted.openInvIdx (h : Counted ks name sp) (k : Key) :
    Counted (ks.openInvIdx k).1 name sp := by
  unfold Keyspace.openInvIdx
  split
  · exact h
  · exact (h.setInvIdx k ⟨ks.nextIdent, []⟩ rfl).nextIdent _

end Shape

section Counts

variable (ks : Keyspace) (name : String) (sp : IndexSpec)

/-- A new tree in place of the tree of one of the schema's numeric fields changes the entries
by the difference of the two trees' entries. -/
theorem indexEntries_setNumIdx {n : String} (hn : n ∈ numericNames sp) (t : NumericRangeTree) :
    indexEntries (ks.setNumIdx (.field name n .NUMERIC) t) name sp + numericEntries ks name n =
      indexEntries ks name sp + t.entries := by
  have hsum := sum_map_update (numericEntries ks name)
    (numericEntries (ks.setNumIdx (.field name n .NUMERIC) t) name) (fun m hm => by
      have hk : Key.field name m .NUMERIC ≠ .field name n .NUMERIC := fun e => hm (by injection e)
      simp [numericEntries, Function.update_noteq hk])
    (show (numericNames sp).Nodup from List.nodup_dedup _) hn
  have hat : numericEntries (ks.setNumIdx (.field name n .NUMERIC) t) name n = t.entries := by
    simp [numericEntries]
  rw [hat] at hsum
  simp only [indexEntries]
  have htag : (tagNames sp).map (tagEntries (ks.setNumIdx (.field name n .NUMERIC) t) name) =
      (tagNames sp).map (tagEntries ks name) := rfl
  rw [htag]
  omega

theorem indexEntries_setTagIdx {n : String} (hn : n ∈ tagNames sp) (t : TagIndex) :
    indexEntries (ks.setTagIdx (.field name n .TAG) t) name sp + tagEntries ks name n =
      indexEntries ks name sp + t.entries := by
  have hsum := sum_map_update (tagEntries ks name)
    (tagEntries (ks.setTagIdx (.field name n .TAG) t) name) (fun m hm => by
      have hk : Key.field name m .TAG ≠ .field name n .TAG := fun e => hm (by injection e)
      simp [tagEntries, Function.update_noteq hk])
    (show (tagNames sp).Nodup from List.nodup_dedup _) hn
  have hat : tagEntries (ks.setTagIdx (.field name n .TAG) t) name n = t.entries := by
    simp [tagEntries]
  rw [hat] at hsum
  simp only [indexEntries]
  have hnum : (numericNames sp).map (numericEntries (ks.setTagIdx (.field name n .TAG) t) name) =
      (numericNames sp).map (numericEntries ks name) := rfl
  rw [hnum]
  omega

/-- Keyspaces whose fields' trees and tag indexes hold as many entries hold as many in all. -/
theorem indexEntries_congr {ks' : Keyspace}
    (hnum : ∀ n, numericEntries ks' name n = numericEntries ks name n)
    (htag : ∀ n, tagEntries ks' name n = tagEntries ks name n) :
    indexEntries ks' name sp = indexEntries ks name sp := by
  unfold indexEntries
  rw [funext hnum, funext htag]

/-- Opening a tree, creating it empty when missing, leaves the entries alone. -/
theorem indexEntries_OpenNumericIndex (k : Key) :
    indexEntries (OpenNumericIndex ks k).1 name sp = indexEntries ks name sp := by
  refine indexEntries_congr ks name sp (fun n => ?_) (fun n => ?_)
  · unfold OpenNumericIndex
    split
    · rfl
    · rename_i hnone
      by_cases hk : Key.field name n .NUMERIC = k
      · subst hk
        simp [numericEntries, hnone]
        rfl
      · simp [numericEntries, Function.update_noteq hk]
  · unfold OpenNumericIndex
    split <;> rfl

theorem records_countRecord (hix : ∃ ix, ks.indexes name = some ix) :
    records (ks.modifyIndex name IndexState.countRecord) name = (records ks name + 1) % SIZE_MAX1 := by
  obtain ⟨ix, hix⟩ := hix
  simp [records, Keyspace.modifyIndex, hix, IndexState.countRecord]

theorem records_updateStats (hix : ∃ ix, ks.indexes name = some ix) (c : Nat) :
    records (updateStats name c ks) name = sizeSub (records ks name) c := by
  obtain ⟨ix, hix⟩ := hix
  simp [records, updateStats, Keyspace.modifyIndex, hix]

end Counts

/-! ## Ingest -/

theorem TagIndexOpen_counts (ks : Keyspace) (k : Key) {name : String} {sp : IndexSpec}
    (h : Counted ks name sp) :
    ∃ t, (TagIndexOpen ks k true).2 = some t ∧ (TagIndexOpen ks k true).1.tagIdx k = some t ∧
      (TagIndexOpen ks k true).1.indexes = ks.indexes ∧ Counted (TagIndexOpen ks k true).1 name sp ∧
      indexEntries (TagIndexOpen ks k true).1 name sp = indexEntries ks name sp := by
  unfold TagIndexOpen
  split
  · rename_i t ht
    exact ⟨t, rfl, ht, rfl, h, rfl⟩
  · rename_i hnone
    refine ⟨⟨ks.nextIdent, []⟩, rfl, by simp, rfl,
      (h.setTagIdx k ⟨ks.nextIdent, []⟩ List.nodup_nil).nextIdent _, ?_⟩
    refine indexEntries_congr ks name sp (fun n => rfl) (fun n => ?_)
    by_cases hk : Key.field name n .TAG = k
    · subst hk
      simp [tagEntries, hnone]
      rfl
    · simp [tagEntries, Function.update_noteq hk]


section Indexers

variable {ks : Keyspace} {name : String} {sp : IndexSpec} {fs : FieldSpec}

/-- `numericIndexer` on a numeric field of the schema counts one record for its one entry. -/
theorem numericIndexer_counts (h : Counted ks name sp) (hfs : fs ∈ sp.fields)
    (hnum : fs.types.numeric = true) (docId : Nat) (fd : FieldIndexerData) :
    Counted (numericIndexer cap name docId fs fd ks).1 name sp ∧
      records (numericIndexer cap name docId fs fd ks).1 name = (records ks name + 1) % SIZE_MAX1 ∧
      indexEntries (numericIndexer cap name docId fs fd ks).1 name sp =
        indexEntries ks name sp + 1 := by
  obtain ⟨ix, hix, -, -⟩ := h.index
  have hst := OpenNumericIndex_stored ks (.field name fs.name .NUMERIC)
  have hE := indexEntries_OpenNumericIndex ks name sp (.field name fs.name .NUMERIC)
  have hc := h.OpenNumericIndex (.field name fs.name .NUMERIC)
  have hidx := OpenNumericIndex_indexes ks (.field name fs.name .NUMERIC)
  simp only [numericIndexer]
  generalize OpenNumericIndex ks (.field name fs.name .NUMERIC) = p at hst hE hc hidx ⊢
  have hset := indexEntries_setNumIdx p.1 name sp (mem_numericNames hfs hnum)
    (p.2.Add cap docId fd.numeric)
  have hat : numericEntries p.1 name fs.name = p.2.entries := by simp [numericEntries, hst]
  rw [hat, NumericRangeTree.entries_Add] at hset
  refine ⟨(hc.setNumIdx _ _ ?_).modifyIndex name fun _ => ⟨rfl, rfl⟩, ?_, ?_⟩
  · rw [NumericRangeTree.rangeIdents_Add]
    exact hc.ranges _ _ hst
  · rw [records_countRecord]
    · simp [records, hidx]
    · exact ⟨ix, by simpa [hidx] using hix⟩
  · show indexEntries (p.1.setNumIdx _ _) name sp = _
    omega

/-- `tagIndexer` on a tag field of the schema counts one record for as many entries as tags. -/
theorem tagIndexer_counts (h : Counted ks name sp) (hfs : fs ∈ sp.fields)
    (htag : fs.types.tag = true) (docId : Nat) (fd : FieldIndexerData) :
    Counted (tagIndexer cap name docId fs fd ks).1 name sp ∧
      records (tagIndexer cap name docId fs fd ks).1 name = (records ks name + 1) % SIZE_MAX1 ∧
      indexEntries (tagIndexer cap name docId fs fd ks).1 name sp =
        indexEntries ks name sp + fd.tags.length := by
  obtain ⟨ix, hix, -, -⟩ := h.index
  obtain ⟨t, hsome, hst, hidx, hc, hE⟩ := TagIndexOpen_counts ks (.field name fs.name .TAG) h
  simp only [tagIndexer]
  generalize TagIndexOpen ks (.field name fs.name .TAG) true = p at hsome hst hidx hc hE ⊢
  obtain ⟨ks₁, o⟩ := p
  subst hsome
  dsimp only at hst hidx hc hE
  obtain ⟨hentries, hnd⟩ := TagIndex.Index_entries (hc.values _ _ hst) cap ks₁.nextIdent fd.tags docId
  have hset := indexEntries_setTagIdx ks₁ name sp (mem_tagNames hfs htag)
    (TagIndex.Index cap ks₁.nextIdent t fd.tags docId)
  have hat : tagEntries ks₁ name fs.name = t.entries := by simp [tagEntries, hst]
  rw [hat, hentries] at hset
  refine ⟨((hc.setTagIdx _ _ hnd).nextIdent _).modifyIndex name fun _ => ⟨rfl, rfl⟩, ?_, ?_⟩
  · rw [records_countRecord]
    · simp [records, hidx]
    · exact ⟨ix, by simpa [hidx] using hix⟩
  · show indexEntries (ks₁.setTagIdx _ _) name sp = _
    omega

/-- `geoIndexer` counts nothing. -/
theorem geoIndexer_counts (h : Counted ks name sp) (docId : Nat) (fs : FieldSpec)
    (fd : FieldIndexerData) :
    Counted (geoIndexer P name docId fs fd ks).1 name sp ∧
      records (geoIndexer P name docId fs fd ks).1 name = records ks name ∧
      indexEntries (geoIndexer P name docId fs fd ks).1 name sp = indexEntries ks name sp := by
  unfold geoIndexer
  split
  · exact ⟨⟨h.index, h.ranges, h.values, h.terms⟩, rfl, rfl⟩
  · exact ⟨h, rfl, rfl⟩

end Indexers

/-- A field given to `IndexBulkData::Add` that belongs to the schema: its spec is one of the
schema's, and it is indexed only as types its spec has. -/
structure BulkField (sp : IndexSpec) (ff : DocumentField) (fs : FieldSpec) : Prop where
  mem : fs ∈ sp.fields
  numeric : ff.CheckIdx .NUMERIC = true → fs.types.numeric = true
  tag : ff.CheckIdx .TAG = true → fs.types.tag = true

instance (sp : IndexSpec) (ff : DocumentField) (fs : FieldSpec) : Decidable (BulkField sp ff fs) :=
  decidable_of_iff (fs ∈ sp.fields ∧ (ff.CheckIdx .NUMERIC = true → fs.types.numeric = true) ∧
      (ff.CheckIdx .TAG = true → fs.types.tag = true))
    ⟨fun ⟨a, b, c⟩ => ⟨a, b, c⟩, fun ⟨a, b, c⟩ => ⟨a, b, c⟩⟩

section Bulk

variable {ks : Keyspace} {name : String} {sp : IndexSpec} {ff : DocumentField} {fs : FieldSpec}
  {fd : FieldIndexerData}

/-- Every indexer the bulk data runs keeps the counter exact, the tag indexer when it has one
tag. -/
theorem bulkIndexer_exact (h : RecordsExact ks name sp) (hv : BulkField sp ff fs)
    (hone : ff.CheckIdx .TAG = true → fd.tags.length = 1) (docId : Nat) (t : FieldTypes)
    (ht : ff.CheckIdx t = true) : RecordsExact (bulkIndexer P cap name docId fs fd t ks).1 name sp := by
  obtain ⟨hc, hex⟩ := h
  unfold bulkIndexer
  split_ifs with h₁ h₂ h₃
  · subst h₁
    obtain ⟨hc', hr, he⟩ := tagIndexer_counts cap hc hv.mem (hv.tag ht) docId fd
    refine ⟨hc', ?_⟩
    rw [hr, he, hone ht, hex, succ_mod_mod]
  · subst h₂
    obtain ⟨hc', hr, he⟩ := numericIndexer_counts cap hc hv.mem (hv.numeric ht) docId fd
    refine ⟨hc', ?_⟩
    rw [hr, he, hex, succ_mod_mod]
  · obtain ⟨hc', hr, he⟩ := geoIndexer_counts P hc docId fs fd
    exact ⟨hc', by rw [hr, he, hex]⟩
  · exact ⟨hc, hex⟩

theorem IndexBulkDataAdd_exact (h : RecordsExact ks name sp) (hv : BulkField sp ff fs)
    (hone : ff.CheckIdx .TAG = true → fd.tags.length = 1) (docId : Nat) :
    RecordsExact (IndexBulkDataAdd P cap name docId ff fs fd ks).1 name sp := by
  unfold IndexBulkDataAdd
  suffices ∀ (ts : List FieldTypes) (r : IndexerResult), RecordsExact r.1 name sp →
      RecordsExact (ts.foldl (fun r t => if r.2.isNone ∧ ff.CheckIdx t then
        bulkIndexer P cap name docId fs fd t r.1 else r) r).1 name sp from this _ _ h
  intro ts
  induction ts with
  | nil => exact fun _ hr => hr
  | cons t ts ih =>
    intro r hr
    refine ih _ ?_
    dsimp only
    split_ifs with hg
    · exact bulkIndexer_exact P cap hr hv hone docId t hg.2
    · exact hr

end Bulk

/-- A field `i` of a context that the counter stays exact through: when the bulk indexers index
it, it belongs to the schema, and as a TAG field it has one tag. -/
def FieldExact (sp : IndexSpec) (c : AddDocumentCtx) (i : Nat) (ff : DocumentField) : Prop :=
  (c.fspecs.getD i .empty).name ≠ "" → ff.indexAs.any = true →
    BulkField sp ff (c.fspecs.getD i .empty) ∧ (ff.CheckIdx .TAG = true → (c.fdata i).tags.length = 1)

instance (sp : IndexSpec) (c : AddDocumentCtx) (i : Nat) (ff : DocumentField) :
    Decidable (FieldExact sp c i ff) :=
  inferInstanceAs (Decidable (_ → _ → _ ∧ _))

/-- A context the indexer keeps the counter exact on: its document has no terms, as one of a
schema without full-text fields, and each of its fields is exact. -/
structure IngestExact (sp : IndexSpec) (c : AddDocumentCtx) : Prop where
  noTerms : c.fwIdx = []
  fields : ∀ p ∈ c.doc.fields.enum, FieldExact sp c p.1 p.2

instance (sp : IndexSpec) (c : AddDocumentCtx) : Decidable (IngestExact sp c) :=
  decidable_of_iff (c.fwIdx = [] ∧ ∀ p ∈ c.doc.fields.enum, FieldExact sp c p.1 p.2)
    ⟨fun ⟨a, b⟩ => ⟨a, b⟩, fun ⟨a, b⟩ => ⟨a, b⟩⟩

section Ingest

variable {ks : Keyspace} {name : String} {sp : IndexSpec} {c : AddDocumentCtx}

theorem bulkFieldsFrom_exact (docId : Nat) :
    ∀ (ffs : List DocumentField) (i : Nat) (ks : Keyspace),
      (∀ p ∈ ffs.enumFrom i, FieldExact sp c p.1 p.2) → RecordsExact ks name sp →
      RecordsExact (bulkFieldsFrom P cap name docId c i ffs ks).1 name sp
  | [], _, _, _, h => h
  | ff :: ffs, i, ks, hv, h => by
    simp only [List.enumFrom_cons, List.mem_cons, forall_eq_or_imp] at hv
    rw [bulkFieldsFrom]
    split_ifs with hskip
    · exact bulkFieldsFrom_exact docId ffs (i + 1) ks hv.2 h
    · rw [not_or, Bool.not_eq_false] at hskip
      obtain ⟨hb, hone⟩ := hv.1 hskip.1 hskip.2
      have h' := IndexBulkDataAdd_exact P cap h hb hone docId
      generalize IndexBulkDataAdd P cap name docId ff (c.fspecs.getD i .empty) (c.fdata i) ks = R at h' ⊢
      obtain ⟨ks', _ | e⟩ := R
      · exact bulkFieldsFrom_exact docId ffs (i + 1) ks' hv.2 h'
      · exact h'

theorem records_modifyIndex (f : IndexState → IndexState) (name' : String)
    (hf : ∀ ix, (f ix).numRecords = ix.numRecords) :
    records (ks.modifyIndex name' f) name = records ks name := by
  by_cases hname : name = name'
  · subst hname
    cases hix : ks.indexes name <;> simp [records, Keyspace.modifyIndex, hix, hf]
  · simp [records, Keyspace.modifyIndex, Function.update_noteq hname]

/-- `indexer->Add` on a context of a schema without full-text fields keeps the counter exact
when its fields are exact, whether the bulk indexers all succeed or one fails. -/
theorem indexerAdd_exact (hc : IngestExact sp c) (h : RecordsExact ks name sp) (evs : List Event) :
    RecordsExact (indexerAdd P cap ⟨ks, name, c, true, false, evs⟩).ks name sp := by
  unfold indexerAdd
  simp only [World.access, if_true]
  split
  · simpa using h
  · rename_i ix _
    have hb := bulkFieldsFrom_exact P cap (ix.maxDocId + 1) c.doc.fields 0 ks hc.fields h
    generalize bulkFieldsFrom P cap name (ix.maxDocId + 1) c 0 c.doc.fields ks = R at hb ⊢
    obtain ⟨ks', o⟩ := R
    cases o with
    | some e =>
      simp only [World.setKs, ks_Finish, World.ks_setCtx, Bool.false_eq_true, if_false]
      exact hb
    | none =>
      simp only [World.setKs, ks_Finish, hc.noTerms, List.map_nil, List.dedup_nil, mergeTerms,
        Bool.false_eq_true, if_false]
      refine ⟨hb.1.modifyIndex name fun _ => ⟨rfl, rfl⟩, ?_⟩
      rw [records_modifyIndex]
      · exact hb.2
      · exact fun _ => rfl

/-- `AddToIndexes` on a new context keeps the counter exact when the context it hands to
`indexer->Add` is exact; a run a preprocessor stops changes no index. -/
theorem runAddToIndexes_exact
    (hc : (AddToIndexes P c).outcome = .indexerAdd → IngestExact sp (AddToIndexes P c).ctx)
    (h : RecordsExact ks name sp) :
    RecordsExact (runAddToIndexes P cap ⟨ks, name, c, true, false, []⟩).ks name sp := by
  simp only [runAddToIndexes, World.access, if_true, Bool.false_eq_true, if_false]
  split
  · rename_i hout
    exact indexerAdd_exact P cap (hc hout) h _
  · simpa using h
  · simpa using h

/-- Deleting a document changes no counted entry and no counter. -/
theorem deleteDoc_exact (h : RecordsExact ks name sp) (docId : Nat) :
    RecordsExact ((HostStep.deleteDoc name docId).apply cap ks) name sp :=
  ⟨h.1.modifyIndex name fun _ => ⟨rfl, rfl⟩, by
    rw [HostStep.apply, records_modifyIndex]
    · exact h.2
    · exact fun _ => rfl⟩

end Ingest

/-! ## Passes of the index's collector -/

section Repairs

variable {ks ks' : Keyspace} {name : String} {sp : IndexSpec}

/-- The counted entries are those of the trees and the tag indexes. -/
theorem indexEntries_of_trees (hnum : ks'.numIdx = ks.numIdx) (htag : ks'.tagIdx = ks.tagIdx) :
    indexEntries ks' name sp = indexEntries ks name sp :=
  indexEntries_congr ks name sp (fun _ => by simp only [numericEntries, hnum])
    (fun _ => by simp only [tagEntries, htag])

/-- `ks'` holds the counted entries of `ks` less `c`, and the same indexes. -/
structure TakesOff (name : String) (sp : IndexSpec) (ks ks' : Keyspace) (c : Nat) : Prop where
  counted : Counted ks' name sp
  indexes : ks'.indexes = ks.indexes
  entries : indexEntries ks' name sp + c = indexEntries ks name sp

/-- `updateStats` by what a change of the posting lists took off the counted entries keeps the
counter exact. -/
theorem RecordsExact.collect (h : RecordsExact ks name sp) {c : Nat} (ht : TakesOff name sp ks ks' c) :
    RecordsExact (updateStats name c ks') name sp := by
  obtain ⟨ix, hix, -, -⟩ := ht.counted.index
  refine ⟨ht.counted.modifyIndex name fun _ => ⟨rfl, rfl⟩, ?_⟩
  have hr : records ks' name = records ks name := by simp only [records, ht.indexes]
  have hE : indexEntries (updateStats name c ks') name sp = indexEntries ks' name sp :=
    indexEntries_of_trees rfl rfl
  have := ht.entries
  rw [records_updateStats ks' name ⟨ix, hix⟩, hr, h.2, sizeSub_mod (by omega), hE]
  congr 1
  omega

/-- Repairing a range of the tree of one of the schema's numeric fields takes off the counted
entries what the repair reports. -/
theorem repairRange_counts (h : Counted ks name sp) {n : String} (hn : n ∈ numericNames sp)
    (rt ident : Nat) (docs : DocTable) (blockNum : Nat) :
    TakesOff name sp ks (repairRange scan ks (.field name n .NUMERIC) rt ident docs blockNum).1
      (repairRange scan ks (.field name n .NUMERIC) rt ident docs blockNum).2.2 := by
  unfold repairRange
  split
  · exact ⟨h, rfl, rfl⟩
  · rename_i t ht
    split_ifs
    · exact ⟨h, rfl, rfl⟩
    have hnd := h.ranges n t ht
    have hids := (NumericRangeTree.repair_idents scan t ident docs blockNum).2.2
    have hR := NumericRangeTree.entries_repair scan hnd ident docs blockNum
    have hset := indexEntries_setNumIdx ks name sp hn (t.repair scan ident docs blockNum).1
    have hat : numericEntries ks name n = t.entries := by simp [numericEntries, ht]
    generalize t.repair scan ident docs blockNum = R at hids hR hset ⊢
    obtain ⟨t', next, collected⟩ := R
    exact ⟨h.setNumIdx _ _ (hids ▸ hnd), rfl, by dsimp only at hR hset ⊢; omega⟩

/-- Repairing a value's posting list in the tag index of one of the schema's tag fields takes
off the counted entries what the repair reports. -/
theorem repairTagValue_counts (h : Counted ks name sp) {n : String} (hn : n ∈ tagNames sp)
    (value : String) (ident : Nat) (docs : DocTable) (blockNum : Nat) :
    TakesOff name sp ks (repairTagValue scan ks (.field name n .TAG) value ident docs blockNum).1
      (repairTagValue scan ks (.field name n .TAG) value ident docs blockNum).2.2 := by
  unfold repairTagValue
  split
  · exact ⟨h, rfl, rfl⟩
  · rename_i t ht
    have hnd := h.values n t ht
    have hkeys := (TagIndex.repair_keys scan t value ident docs blockNum).2
    have hR := TagIndex.entries_repair scan hnd value ident docs blockNum
    have hset := indexEntries_setTagIdx ks name sp hn (t.repair scan value ident docs blockNum).1
    have hat : tagEntries ks name n = t.entries := by simp [tagEntries, ht]
    generalize t.repair scan value ident docs blockNum = R at hkeys hR hset ⊢
    obtain ⟨t', next, collected⟩ := R
    exact ⟨h.setTagIdx _ _ (hkeys ▸ hnd), rfl, by dsimp only at hR hset ⊢; omega⟩

end Repairs

/-- A world of the index's collector over which the counter stays exact: the counter is exact,
the host does nothing at the yields, and the collector is the index's. -/
structure CountWorld (name : String) (sp : IndexSpec) (w : GcWorld) : Prop where
  exact : RecordsExact w.ks name sp
  host : w.host = []
  key : w.gc.keyName = .index name

namespace CountWorld

variable {name : String} {sp : IndexSpec} {w : GcWorld}

theorem invalid (h : CountWorld name sp w) : CountWorld name sp w.invalid :=
  ⟨h.exact, h.host, h.key⟩

/-- The index the collector's search context resolves to is the counted one. -/
theorem resolve (h : CountWorld name sp w) {ix : IndexState}
    (hix : resolveSpec w.ks w.gc.keyName = some ix) : ix.name = name ∧ ix.spec = sp := by
  rw [h.key] at hix
  obtain ⟨ix', hix', hn, hs⟩ := h.exact.1.index
  obtain rfl : ix' = ix := Option.some.inj (hix'.symm.trans hix)
  exact ⟨hn, hs⟩

end CountWorld

section Loops

variable {name : String} {sp : IndexSpec}

/-- The term posting lists of the index hold no entry, so the term collector removes none. -/
theorem termLoop_counts (term : String) :
    ∀ fuel blockNum total (w : GcWorld), CountWorld name sp w →
      CountWorld name sp (termLoop cap scan name term fuel blockNum total w).1
  | 0, _, _, _, h => h
  | fuel + 1, blockNum, total, w, h => by
    have hopen := w.ks.openInvIdx_stored (.term name term)
    have hc := h.exact.1.openInvIdx (.term name term)
    have hE : indexEntries (w.ks.openInvIdx (.term name term)).1 name sp = indexEntries w.ks name sp :=
      indexEntries_of_trees (w.ks.openInvIdx_numIdx _) (w.ks.openInvIdx_tagIdx _)
    have hidx := w.ks.openInvIdx_indexes (.term name term)
    simp only [termLoop]
    generalize w.ks.openInvIdx (.term name term) = p at hopen hc hE hidx ⊢
    have h0 := hc.terms term p.2 hopen
    have hR := InvertedIndex.Repair_entries p.2 (p.1.docsOf name) blockNum scan
    generalize p.2.Repair (p.1.docsOf name) blockNum scan = R at hR
    have hS : indexEntries (p.1.setInvIdx (.term name term) R.1) name sp = indexEntries p.1 name sp :=
      indexEntries_of_trees rfl rfl
    have hb : CountWorld name sp { ({ w with ks := p.1 }).record (.term (.term name term) p.2.ident)
        with ks := updateStats name R.2.2 (p.1.setInvIdx (.term name term) R.1) } :=
      ⟨h.exact.collect ⟨hc.setInvIdx _ _ (by omega), by simpa using hidx, by omega⟩, h.host,
        h.key⟩
    rw [GcWorld.yield_of_host cap hb.host]
    split_ifs
    · exact hb
    · exact hb.invalid
    · exact termLoop_counts term fuel _ _ _ hb

/-- The tag collector repairs posting lists of the tag index of one of the schema's tag fields. -/
theorem tagLoop_counts {n : String} (hn : n ∈ tagNames sp) (value : String) :
    ∀ fuel ident blockNum total (w : GcWorld), CountWorld name sp w →
      CountWorld name sp (tagLoop cap scan name (.field name n .TAG) value fuel ident blockNum total w).1
  | 0, _, _, _, _, h => h
  | fuel + 1, ident, blockNum, total, w, h => by
    have hR := repairTagValue_counts scan h.exact.1 hn value ident (w.ks.docsOf name) blockNum
    simp only [tagLoop, GcWorld.ks_record]
    generalize repairTagValue scan w.ks _ value ident (w.ks.docsOf name) blockNum = R at hR ⊢
    have hb : CountWorld name sp { w.record (.tag (.field name n .TAG) value ident) with
        ks := updateStats name R.2.2 R.1 } :=
      ⟨h.exact.collect hR, h.host, h.key⟩
    rw [GcWorld.yield_of_host cap hb.host]
    split_ifs
    · exact hb
    · exact hb.invalid
    · split
      · exact hb
      · split
        · exact hb
        · exact tagLoop_counts hn value fuel _ _ _ _ hb

/-- The numeric collector repairs ranges of the tree of one of the schema's numeric fields. -/
theorem numLoop_counts {n : String} (hn : n ∈ numericNames sp) (g : NumericFieldGC) :
    ∀ fuel ident blockNum total (w : GcWorld), CountWorld name sp w →
      CountWorld name sp (numLoop cap scan name (.field name n .NUMERIC) g fuel ident blockNum total w).1 :=
  numLoop_preserves cap scan (CountWorld name sp) name _ g
    (fun w ident blockNum h _ =>
      ⟨h.exact.collect (repairRange_counts scan h.exact.1 hn g.rt ident (w.ks.docsOf name) blockNum),
        h.host, h.key⟩)
    (fun _ h => (GcWorld.yield_of_host cap h.host).symm ▸ h) fun _ h => h.invalid

end Loops

section Collectors

variable {ks : Keyspace} {name : String} {sp : IndexSpec}

theorem OpenNumericIndex_exact (h : RecordsExact ks name sp) (k : Key) :
    RecordsExact (OpenNumericIndex ks k).1 name sp := by
  refine ⟨h.1.OpenNumericIndex k, ?_⟩
  rw [indexEntries_OpenNumericIndex, ← h.2]
  simp only [records, OpenNumericIndex_indexes]

theorem buildNumericGC_exact (ix : IndexState) :
    ∀ (fss : List FieldSpec) (ks : Keyspace), RecordsExact ks name sp →
      RecordsExact (buildNumericGC ix fss ks).1 name sp ∧ (buildNumericGC ix fss ks).2.length = fss.length
  | [], _, h => ⟨h, rfl⟩
  | fs :: fss, ks, h => by
    have ho := OpenNumericIndex_exact h (GetFormattedKey ix fs .NUMERIC)
    simp only [buildNumericGC]
    generalize OpenNumericIndex ks (GetFormattedKey ix fs .NUMERIC) = p at ho ⊢
    have ih := buildNumericGC_exact ix fss p.1 ho
    generalize buildNumericGC ix fss p.1 = q at ih ⊢
    exact ⟨ih.1, by simp [ih.2]⟩

/-- The collection states `CollectNumericIndex` goes on with are one per numeric field. -/
theorem numericStates_exact (ix : IndexState) (fss : List FieldSpec) {w : GcWorld}
    (h : RecordsExact w.ks name sp) :
    RecordsExact (numericStates ix fss w).1 name sp ∧ (numericStates ix fss w).2.length = fss.length := by
  unfold numericStates
  split_ifs with hlen
  · exact buildNumericGC_exact ix fss w.ks h
  · exact ⟨h, (not_not.1 hlen).symm⟩

theorem CollectRandomTerm_counts (fuel : Nat) (ch : GcChoices) (w : GcWorld)
    (h : CountWorld name sp w) : CountWorld name sp (CollectRandomTerm cap scan fuel ch w).1 := by
  unfold CollectRandomTerm
  split
  · exact h.invalid
  · rename_i ix hix
    obtain ⟨hname, -⟩ := h.resolve hix
    split_ifs
    · exact h.invalid
    · split
      · exact h
      · subst hname
        exact termLoop_counts cap scan _ fuel 0 0 w h

theorem CollectTagIndex_counts (fuel : Nat) (ch : GcChoices) (w : GcWorld)
    (h : CountWorld name sp w) : CountWorld name sp (CollectTagIndex cap scan fuel ch w).1 := by
  unfold CollectTagIndex
  split
  · exact h.invalid
  · rename_i ix hix
    obtain ⟨hname, hspec⟩ := h.resolve hix
    split_ifs
    · exact h.invalid
    dsimp only
    split
    · exact h
    · rename_i fs hfs
      have hmem := List.mem_filter.1 (List.get?_mem hfs)
      have hn : fs.name ∈ tagNames sp := hspec ▸ mem_tagNames hmem.1 hmem.2
      split
      · exact h
      · split
        · exact h
        · subst hname
          exact tagLoop_counts cap scan hn _ fuel _ 0 0 w h

theorem getD_mem_of_lt {α : Type} {l : List α} {i : Nat} (d : α) (h : i < l.length) :
    l.getD i d ∈ l := by
  rw [List.getD_eq_getElem?_getD, List.getElem?_eq_getElem h]
  exact List.getElem_mem h

/-- The numeric collector repairs a range of the tree of the numeric field it picks, one of the
schema's: its collection states are one per numeric field. -/
theorem CollectNumericIndex_counts (fuel : Nat) (ch : GcChoices) (w : GcWorld)
    (h : CountWorld name sp w) : CountWorld name sp (CollectNumericIndex cap scan fuel ch w).1 := by
  unfold CollectNumericIndex
  split
  · exact h.invalid
  · rename_i ix hix
    obtain ⟨hname, hspec⟩ := h.resolve hix
    split_ifs
    · exact h.invalid
    dsimp only
    split_ifs with hne
    · exact h
    · exact h
    obtain ⟨hs, hlen⟩ := numericStates_exact ix (ix.spec.fields.filter (·.types.numeric)) h.exact
    generalize numericStates ix _ w = S at hs hlen ⊢
    obtain ⟨ks₁, gcs⟩ := S
    dsimp only at hs hlen ⊢
    have hpos : 0 < gcs.length := by rw [hlen]; exact List.length_pos.2 hne
    have hi : ch.numericField % gcs.length < (ix.spec.fields.filter (·.types.numeric)).length :=
      hlen ▸ Nat.mod_lt ch.numericField hpos
    have hmem := List.mem_filter.1 (getD_mem_of_lt FieldSpec.empty hi)
    have hn : ((ix.spec.fields.filter (·.types.numeric)).getD (ch.numericField % gcs.length)
        .empty).name ∈ numericNames sp := hspec ▸ mem_numericNames hmem.1 hmem.2
    have ho := OpenNumericIndex_exact hs (GetFormattedKey ix
      ((ix.spec.fields.filter (·.types.numeric)).getD (ch.numericField % gcs.length) .empty) .NUMERIC)
    generalize OpenNumericIndex ks₁ _ = q at ho ⊢
    obtain ⟨ks₂, rt⟩ := q
    dsimp only at ho ⊢
    split
    · exact ⟨ho, h.host, h.key⟩
    · split
      · exact ⟨ho, h.host, h.key⟩
      · exact ⟨ho, h.host, h.key⟩
      · subst hname
        exact numLoop_counts cap scan hn _ fuel _ 0 0 _ ⟨ho, h.host, h.key⟩

variable (B : HzBounds)

/-- A pass of the index's collector that meets no host step at its yields keeps the counter
exact. -/
theorem PeriodicCallback_counts (fuel : Nat) (loading : Bool) (ch : GcChoices) (w : GcWorld)
    (h : CountWorld name sp w) : CountWorld name sp (PeriodicCallback cap scan B fuel loading ch w).1 :=
  PeriodicCallback_preserves cap scan B (CountWorld name sp) h ⟨h.exact, h.host, h.key⟩
    (CollectRandomTerm_counts cap scan fuel ch) (CollectNumericIndex_counts cap scan fuel ch)
    (CollectTagIndex_counts cap scan fuel ch) fun _ _ hw => ⟨hw.exact, hw.host, hw.key⟩

end Collectors

/-! ## Runs -/

/-- What happens to an index between two readings of its counter: `AddToIndexes` runs on a new
document's context, a document is deleted, or the index's collector runs a pass, which meets no
host step at its yields. -/
inductive CounterEvent
  | ingest (c : AddDocumentCtx)
  | delete (docId : Nat)
  | pass (fuel : Nat) (loading : Bool) (ch : GcChoices)

variable (B : HzBounds)

/-- One event on index `name` and its collector's world. -/
def counterStep (name : String) (w : GcWorld) : CounterEvent → GcWorld
  | .ingest c => { w with ks := (runAddToIndexes P cap ⟨w.ks, name, c, true, false, []⟩).ks }
  | .delete docId => { w with ks := (HostStep.deleteDoc name docId).apply cap w.ks }
  | .pass fuel loading ch => (PeriodicCallback cap scan B fuel loading ch { w with host := [] }).1

/-- Whether an event reads freed memory: a pass that does. -/
def counterCrashes (w : GcWorld) : CounterEvent → Bool
  | .pass fuel loading ch => (PeriodicCallback cap scan B fuel loading ch { w with host := [] }).2.crashed
  | _ => false

/-- A run of events; it stops at a pass that reads freed memory. -/
def runCounter (name : String) (w : GcWorld) (evs : List CounterEvent) : GcWorld :=
  runSteps (fun w e => (counterStep P cap scan B name w e, counterCrashes cap scan B w e)) w evs

/-- An event the counter stays exact through: a context whose indexing reaches `indexer->Add`
is exact there. -/
def CounterEvent.Exact (sp : IndexSpec) : CounterEvent → Prop
  | .ingest c => (AddToIndexes P c).outcome = .indexerAdd → IngestExact sp (AddToIndexes P c).ctx
  | .delete _ => True
  | .pass _ _ _ => True

instance (sp : IndexSpec) : (e : CounterEvent) → Decidable (e.Exact P sp)
  | .ingest _ => inferInstanceAs (Decidable (_ → _))
  | .delete _ => inferInstanceAs (Decidable True)
  | .pass _ _ _ => inferInstanceAs (Decidable True)

section Run

variable {name : String} {sp : IndexSpec}

theorem counterStep_exact {w : GcWorld} (h : RecordsExact w.ks name sp)
    (hkey : w.gc.keyName = .index name) (e : CounterEvent) (he : e.Exact P sp) :
    RecordsExact (counterStep P cap scan B name w e).ks name sp ∧
      (counterStep P cap scan B name w e).gc.keyName = .index name := by
  cases e with
  | ingest c => exact ⟨runAddToIndexes_exact P cap he h, hkey⟩
  | delete docId => exact ⟨deleteDoc_exact cap h docId, hkey⟩
  | pass fuel loading ch =>
    have hp := PeriodicCallback_counts cap scan B fuel loading ch { w with host := [] } ⟨h, rfl, hkey⟩
    exact ⟨hp.exact, hp.key⟩

theorem runCounter_exact (evs : List CounterEvent) (w : GcWorld) (h : RecordsExact w.ks name sp)
    (hkey : w.gc.keyName = .index name) (hevs : ∀ e ∈ evs, e.Exact P sp) :
    RecordsExact (runCounter P cap scan B name w evs).ks name sp :=
  (runSteps_preserves (fun w => RecordsExact w.ks name sp ∧ w.gc.keyName = .index name)
    (fun _ e he hs => counterStep_exact P cap scan B hs.1 hs.2 e (hevs e he)) w ⟨h, hkey⟩).1

end Run

/-- Through every run of ingests of contexts exact at `indexer->Add`, deletions of documents and
passes of the index's collector, from an index whose counter is exact, the counter of the index
is the number of entries of its numeric ranges and tag values, modulo `2^64`. -/
theorem records_exact (name : String) (sp : IndexSpec) (w : GcWorld)
    (h : RecordsExact w.ks name sp) (hkey : w.gc.keyName = .index name) (evs : List CounterEvent)
    (hevs : ∀ e ∈ evs, e.Exact P sp) :
    records (runCounter P cap scan B name w evs).ks name =
      indexEntries (runCounter P cap scan B name w evs).ks name sp % SIZE_MAX1 :=
  (runCounter_exact P cap scan B evs w h hkey hevs).2

/-- Index `idx` of schema `gcSpec`, `uniqueId` 1, just created, and its collector. -/
def freshWorld : GcWorld :=
  ⟨{ Keyspace.empty with
      indexes := fun n => if n = "idx" then some ⟨"idx", 1, gcSpec, ⟨[]⟩, 0, 0⟩ else none },
    ⟨.index "idx", 10, ⟨0, 0⟩, false, 1, []⟩, .OK, [], []⟩

theorem freshWorld_exact : RecordsExact freshWorld.ks "idx" gcSpec :=
  And.intro ⟨⟨_, rfl, rfl, rfl⟩, (fun _ _ h => nomatch h), (fun _ _ h => nomatch h),
    (fun _ _ h => nomatch h)⟩ (by decide)

/-- The context `SetDocument` builds for a document of `gcSpec` with the given fields. -/
def gcDocCtx (key : String) (fields : List DocumentField) : AddDocumentCtx :=
  (SetDocument gcSpec (.init ⟨false, false⟩) ⟨key, 0, ⟨0⟩, none, fields⟩ 0).2.1

/-- A document with a price and one tag, indexed, deleted, and collected by a pass. -/
def oneTagRun : List CounterEvent :=
  [.ingest (gcDocCtx "doc1" [textField "price" "9.99", textField "tags" "red"]), .delete 1,
    .pass 100 false ⟨none, 0, 0, 0⟩]

theorem records_exact_oneTagRun :
    RecordsExact freshWorld.ks "idx" gcSpec ∧ freshWorld.gc.keyName = .index "idx" ∧
    (∀ e ∈ oneTagRun, e.Exact sampleParsers gcSpec) ∧
    records (runCounter sampleParsers 100 1 defaultHzBounds "idx" freshWorld oneTagRun).ks "idx" =
      indexEntries (runCounter sampleParsers 100 1 defaultHzBounds "idx" freshWorld oneTagRun).ks
        "idx" gcSpec % SIZE_MAX1 :=
  have hevs : ∀ e ∈ oneTagRun, e.Exact sampleParsers gcSpec := by decide
  ⟨freshWorld_exact, rfl, hevs, records_exact sampleParsers 100 1 defaultHzBounds "idx" gcSpec
    freshWorld freshWorld_exact rfl oneTagRun hevs⟩

/-- A document whose TAG field holds `red,blue`, indexed, deleted, and collected by two passes,
the first picking `red` and the second `blue`. -/
def twoTagRun : List CounterEvent :=
  [.ingest (gcDocCtx "doc1" [textField "tags" "red,blue"]), .delete 1,
    .pass 100 false ⟨none, 0, 0, 0⟩, .pass 100 false ⟨none, 0, 0, 1⟩]

/-- The ingest counts one record for two entries; each pass removes one entry and one record,
so the second takes the counter below zero: it wraps to `2^64 - 1` over an index with no
entry left. -/
theorem records_wrap_after_two_tags :
    RecordsExact freshWorld.ks "idx" gcSpec ∧
    ¬ (∀ e ∈ twoTagRun, e.Exact sampleParsers gcSpec) ∧
    records (runCounter sampleParsers 100 1 defaultHzBounds "idx" freshWorld twoTagRun).ks "idx" =
      SIZE_MAX1 - 1 ∧
    indexEntries (runCounter sampleParsers 100 1 defaultHzBounds "idx" freshWorld twoTagRun).ks
      "idx" gcSpec = 0 :=
  ⟨freshWorld_exact, by decide, by decide, by decide⟩

end RediSearch
