import RediSearch.Index.Store

/-!
# Bulk indexing of non-text fields

`IndexBulkData::Add` dispatches a field to the indexer of each type in its `indexAs`, in
type order, and stops at the first that fails. The numeric and tag indexers open (creating
when needed) the field's tree or tag index, add the document, and count one record; the geo
indexer adds the document's point to the field's geo set.

A failing indexer gives the error it sets on the status, as `Except.error`.
-/

namespace RediSearch

variable (P : Parsers) (cap : Nat)

/-- `OpenNumericIndex(ctx, keyName)`, which creates the tree of an empty key. Modelled from
the spec: a new tree has one node, with an empty range. -/
def OpenNumericIndex (ks : Keyspace) (k : Key) : Keyspace × NumericRangeTree :=
  match ks.numIdx k with
  | some t => (ks, t)
  | none =>
    let t : NumericRangeTree :=
      ⟨ks.nextIdent, 0, [⟨ks.nextIdent + 1, []⟩], List.cons_ne_nil _ _, fun _ => 0, 0⟩
    ({ ks.setNumIdx k t with nextIdent := ks.nextIdent + 2 }, t)

/-- `TagIndex::Open(ctx, kname, create)`. -/
def TagIndexOpen (ks : Keyspace) (k : Key) (create : Bool) : Keyspace × Option TagIndex :=
  match ks.tagIdx k with
  | some t => (ks, some t)
  | none =>
    if create then
      let t : TagIndex := ⟨ks.nextIdent, []⟩
      ({ ks.setTagIdx k t with nextIdent := ks.nextIdent + 1 }, some t)
    else (ks, none)

/-- The opened tree is the one the key holds afterwards. -/
theorem OpenNumericIndex_stored (ks : Keyspace) (k : Key) :
    (OpenNumericIndex ks k).1.numIdx k = some (OpenNumericIndex ks k).2 := by
  unfold OpenNumericIndex
  split <;> simp_all

theorem OpenNumericIndex_indexes (ks : Keyspace) (k : Key) :
    (OpenNumericIndex ks k).1.indexes = ks.indexes := by
  unfold OpenNumericIndex
  split <;> rfl

theorem TagIndexOpen_numIdx (ks : Keyspace) (k : Key) (create : Bool) :
    (TagIndexOpen ks k create).1.numIdx = ks.numIdx := by
  unfold TagIndexOpen
  split
  · rfl
  · split <;> rfl

theorem TagIndexOpen_indexes (ks : Keyspace) (k : Key) (create : Bool) :
    (TagIndexOpen ks k create).1.indexes = ks.indexes := by
  unfold TagIndexOpen
  split
  · rfl
  · split <;> rfl

theorem TagIndexOpen_nextIdent (ks : Keyspace) (k : Key) (create : Bool) :
    ks.nextIdent ≤ (TagIndexOpen ks k create).1.nextIdent := by
  unfold TagIndexOpen
  split
  · exact le_rfl
  · split <;> simp

/-- `stats.numRecords++` on a `size_t`. -/
def IndexState.countRecord (ix : IndexState) : IndexState :=
  { ix with numRecords := (ix.numRecords + 1) % SIZE_MAX1 }

/-- An indexer's result: the keyspace, and the error it set on the status, if any. -/
abbrev IndexerResult := Keyspace × Option (QueryErrorCode × String)

/-- `IndexBulkData::numericIndexer`. -/
def numericIndexer (name : String) (docId : Nat) (fs : FieldSpec) (fd : FieldIndexerData)
    (ks : Keyspace) : IndexerResult :=
  let k := Key.field name fs.name .NUMERIC
  let (ks, rt) := OpenNumericIndex ks k
  ((ks.setNumIdx k (rt.Add cap docId fd.numeric)).modifyIndex name IndexState.countRecord, none)

/-- `IndexBulkData::tagIndexer`; a new tag's posting list gets the next free identity. -/
def tagIndexer (name : String) (docId : Nat) (fs : FieldSpec) (fd : FieldIndexerData)
    (ks : Keyspace) : IndexerResult :=
  let k := Key.field name fs.name .TAG
  match TagIndexOpen ks k true with
  | (ks, none) => (ks, some (.EGENERIC, "Could not open tag index for indexing"))
  | (ks, some tidx) =>
    let ks' := { ks.setTagIdx k (tidx.Index cap ks.nextIdent fd.tags docId) with
      nextIdent := ks.nextIdent + fd.tags.length }
    (ks'.modifyIndex name IndexState.countRecord, none)

/-- `IndexBulkData::geoIndexer`. Modelled from the spec: `GeoIndex::AddStrings` parses both
coordinates and adds the point to the field's geo set. -/
def geoIndexer (name : String) (docId : Nat) (fs : FieldSpec) (fd : FieldIndexerData)
    (ks : Keyspace) : IndexerResult :=
  let k := Key.field name fs.name .GEO
  match P.stringToDouble fd.geoSlon, P.stringToDouble fd.geoSlat with
  | some lon, some lat =>
    ({ ks with geoIdx := Function.update ks.geoIdx k (ks.geoIdx k ++ [(docId, lon, lat)]) }, none)
  | _, _ => (ks, some (.EGENERIC, "Could not index geo value"))

/-- The indexer of one type position of `IndexBulkData::Add`; FULLTEXT has none here. -/
def bulkIndexer (name : String) (docId : Nat) (fs : FieldSpec) (fd : FieldIndexerData)
    (t : FieldTypes) (ks : Keyspace) : IndexerResult :=
  if t = .TAG then tagIndexer cap name docId fs fd ks
  else if t = .NUMERIC then numericIndexer cap name docId fs fd ks
  else if t = .GEO then geoIndexer P name docId fs fd ks
  else (ks, none)

/-- `IndexBulkData::Add`: the indexers of the field's types, in type order, while none has
failed. -/
def IndexBulkDataAdd (name : String) (docId : Nat) (ff : DocumentField) (fs : FieldSpec)
    (fd : FieldIndexerData) (ks : Keyspace) : IndexerResult :=
  [FieldTypes.FULLTEXT, .NUMERIC, .GEO, .TAG].foldl
    (fun r t => if r.2.isNone ∧ ff.CheckIdx t then bulkIndexer P cap name docId fs fd t r.1 else r)
    (ks, none)

end RediSearch
