import RediSearch.Document.Preprocess

/-!
# The index store

What an index keeps beyond its schema, as the ingest and GC code of the sources reach it:
the document table, the posting lists, the numeric range trees and tag indexes of its
fields, and its stats counters. The containers themselves (`DocTable`, `InvertedIndex`,
`NumericRangeTree`, `TagIndex`) are not part of the sources; they are modelled from the
spec's data model, each with an `ident` that tells two allocations apart.

The host keyspace holds the indexes by name and their data keys: a term's posting list
under `Key.term`, a field's tree or tag index under the key `GetFormattedKey` gives,
`Key.field`. Counters of type `size_t` are kept modulo `2^64`.
-/

namespace RediSearch

/-- `2^64`, the modulus of `size_t`. -/
def SIZE_MAX1 : Nat := 2 ^ 64

/-- `a -= b` on a `size_t`. -/
def sizeSub (a b : Nat) : Nat := (a + SIZE_MAX1 - b % SIZE_MAX1) % SIZE_MAX1

/-! ## Documents -/

/-- `DocumentMetadata`. -/
structure DocumentMetadata where
  id : Nat
  key : String
  score : Double
  payload : Option String
  sortVector : Option SortingVector
  deriving DecidableEq, Repr

/-- `DocTable`. Modelled from the spec: metadata keyed by id and looked up by key; a deleted
document's metadata is gone from the table. -/
structure DocTable where
  docs : List DocumentMetadata
  deriving DecidableEq, Repr

namespace DocTable

/-- `DocTable::GetId`: the id of the document of that key, `0` when there is none. -/
def GetId (t : DocTable) (key : String) : Nat :=
  ((t.docs.find? (·.key = key)).map (·.id)).getD 0

/-- `DocTable::Get`: the metadata of a document id; id `0` is never a document. -/
def Get (t : DocTable) (id : Nat) : Option DocumentMetadata :=
  if id = 0 then none else t.docs.find? (·.id = id)

/-- Replace the metadata of document `id`. -/
def update (t : DocTable) (id : Nat) (md : DocumentMetadata) : DocTable :=
  ⟨t.docs.map fun m => if m.id = id then md else m⟩

/-- Whether a document id is live. -/
def isLive (t : DocTable) (id : Nat) : Bool := t.docs.any (·.id = id)

/-- Delete the metadata of document `id`. -/
def delete (t : DocTable) (id : Nat) : DocTable := ⟨t.docs.filter (·.id ≠ id)⟩

end DocTable

/-! ## Posting lists -/

/-- `InvertedIndex`: its blocks, each a run of document ids. -/
structure InvertedIndex where
  ident : Nat
  blocks : List (List Nat)
  deriving DecidableEq, Repr

namespace InvertedIndex

/-- The number of `(docId)` entries. -/
def numEntries (ix : InvertedIndex) : Nat := (ix.blocks.map List.length).sum

/-- Append an entry to the last block, or to a new block when the last holds `cap` entries.
Modelled from the spec. -/
def add (cap : Nat) (ix : InvertedIndex) (docId : Nat) : InvertedIndex :=
  match ix.blocks.getLast? with
  | some b => if b.length < cap then { ix with blocks := ix.blocks.dropLast ++ [b ++ [docId]] }
    else { ix with blocks := ix.blocks ++ [[docId]] }
  | none => { ix with blocks := [[docId]] }

@[simp] theorem numEntries_add (cap : Nat) (ix : InvertedIndex) (docId : Nat) :
    (ix.add cap docId).numEntries = ix.numEntries + 1 := by
  rcases ix with ⟨id, blocks⟩
  unfold add numEntries
  cases h : blocks.getLast? with
  | none => simp [List.getLast?_eq_none_iff.1 h]
  | some b =>
    obtain ⟨bs, rfl⟩ : ∃ bs, blocks = bs ++ [b] :=
      ⟨blocks.dropLast, (List.dropLast_append_getLast? _ h).symm⟩
    simp only []
    split_ifs <;> simp [List.sum_append] <;> omega

@[simp] theorem ident_add (cap : Nat) (ix : InvertedIndex) (docId : Nat) :
    (ix.add cap docId).ident = ix.ident := by
  unfold add
  split
  · split <;> rfl
  · rfl

/-- `InvertedIndex::Repair(docs, blockNum, params)`. Modelled from the spec: the blocks from
`blockNum` on, at most `limit` of them, lose the entries of documents that are no longer
live. The result is the repaired index, the next block to repair (`0` when none is left),
and the number of entries removed, `params.docsCollected`. -/
def Repair (ix : InvertedIndex) (docs : DocTable) (blockNum limit : Nat) :
    InvertedIndex × Nat × Nat :=
  let blocks := ix.blocks.enum.map fun p =>
    if blockNum ≤ p.1 ∧ p.1 < blockNum + limit then p.2.filter docs.isLive else p.2
  (⟨ix.ident, blocks⟩, if blockNum + limit < ix.blocks.length then blockNum + limit else 0,
    ix.numEntries - (blocks.map List.length).sum)

@[simp] theorem ident_Repair (ix : InvertedIndex) (docs : DocTable) (blockNum limit : Nat) :
    (ix.Repair docs blockNum limit).1.ident = ix.ident := rfl

end InvertedIndex

/-- A change that a projection does not see leaves the projected list alone. -/
theorem map_modify_of_comp {α β : Type} (g : α → β) (f : α → α) (hf : ∀ a, g (f a) = g a) :
    ∀ (n : Nat) (l : List α), (l.modify f n).map g = l.map g
  | _, [] => by simp
  | 0, a :: l => by simp [hf]
  | n + 1, a :: l => by simp [map_modify_of_comp g f hf n l]

/-- `NumericRangeTree`: the ranges of its nodes, in iterator order (the nodes without a range,
which `NextGcNode` skips, are left out), and its `revisionId`, bumped whenever a split
changes the nodes. A tree always has a range. Which range a value goes to is the tree's
`leafFor`. -/
structure NumericRangeTree where
  ident : Nat
  revisionId : Nat
  ranges : List InvertedIndex
  ranges_ne : ranges ≠ []
  leafFor : Double → Nat
  numEntries : Nat

namespace NumericRangeTree

/-- The entries held by the ranges of the tree. -/
def entries (t : NumericRangeTree) : Nat := (t.ranges.map InvertedIndex.numEntries).sum

/-- The identities of the tree's ranges. -/
def rangeIdents (t : NumericRangeTree) : List Nat := t.ranges.map (·.ident)

/-- `NumericRangeTree::Add`. Modelled from the spec: the entry goes to the range of the leaf
the value falls in; the tree's own count goes up by one. -/
def Add (cap : Nat) (t : NumericRangeTree) (docId : Nat) (v : Double) : NumericRangeTree :=
  { t with
    ranges := t.ranges.modify (·.add cap docId) (t.leafFor v % t.ranges.length)
    ranges_ne := by simpa using t.ranges_ne
    numEntries := t.numEntries + 1 }

@[simp] theorem revisionId_Add (cap : Nat) (t : NumericRangeTree) (docId : Nat) (v : Double) :
    (t.Add cap docId v).revisionId = t.revisionId := rfl

/-- Adding an entry changes no range's identity. -/
@[simp] theorem rangeIdents_Add (cap : Nat) (t : NumericRangeTree) (docId : Nat) (v : Double) :
    (t.Add cap docId v).rangeIdents = t.rangeIdents :=
  map_modify_of_comp _ _ (fun ix => InvertedIndex.ident_add cap ix docId) _ _

end NumericRangeTree

/-- `TagIndex`: the posting list of every tag value. -/
structure TagIndex where
  ident : Nat
  values : List (String × InvertedIndex)
  deriving DecidableEq, Repr

namespace TagIndex

/-- The entries held by the posting lists of all values. -/
def entries (t : TagIndex) : Nat := (t.values.map fun v => v.2.numEntries).sum

/-- `TrieMap::Find`. -/
def Find (t : TagIndex) (key : String) : Option InvertedIndex := t.values.lookup key

theorem mem_of_Find {t : TagIndex} {key : String} {iv : InvertedIndex}
    (h : t.Find key = some iv) : (key, iv) ∈ t.values := by
  obtain ⟨l₁, l₂, he, -⟩ := List.lookup_eq_some_iff.1 h
  simp [he]

/-- `TagIndex::Index` for one tag. Modelled from the spec: the document goes to the posting
list of the tag, created (with identity `fresh`) when the tag is new. -/
def indexOne (cap fresh : Nat) (t : TagIndex) (docId : Nat) (tag : String) : TagIndex :=
  match t.Find tag with
  | some ix => { t with values := t.values.map fun v =>
      if v.1 = tag then (v.1, ix.add cap docId) else v }
  | none => { t with values := t.values ++ [(tag, (⟨fresh, []⟩ : InvertedIndex).add cap docId)] }

/-- `TagIndex::Index(tags, docId)`; the `j`-th tag's new posting list, if it needs one, is
allocated as `fresh + j`. -/
def Index (cap fresh : Nat) (t : TagIndex) (tags : List String) (docId : Nat) : TagIndex :=
  tags.enum.foldl (fun t p => indexOne cap (fresh + p.1) t docId p.2) t

/-- Giving some values a new posting list keeps the values. -/
theorem keys_map_set (p : String × InvertedIndex → Prop) [DecidablePred p] (x : InvertedIndex)
    (vs : List (String × InvertedIndex)) :
    (vs.map fun v => if p v then (v.1, x) else v).map (·.1) = vs.map (·.1) := by
  rw [List.map_map]
  exact List.map_congr_left fun v _ => by dsimp only [Function.comp]; split <;> rfl

end TagIndex

/-! ## The keyspace -/

/-- An index as registered with the host: its `uniqueId`, schema, documents, the last
document id it gave out, and `stats.numRecords`. -/
structure IndexState where
  name : String
  uniqueId : Nat
  spec : IndexSpec
  docs : DocTable
  maxDocId : Nat
  numRecords : Nat

/-- A key of the host keyspace the modelled code opens. -/
inductive Key
  /-- An index, by name. -/
  | index (name : String)
  /-- The posting list of a term of an index. -/
  | term (index term : String)
  /-- `GetFormattedKey(fs, type)`: the tree or tag index of a field of an index. -/
  | field (index field : String) (t : FieldTypes)
  deriving DecidableEq, Repr

/-- The host keyspace, as far as the modelled code reads it. `nextIdent` numbers the next
object allocated. -/
structure Keyspace where
  indexes : String → Option IndexState
  invIdx : Key → Option InvertedIndex
  numIdx : Key → Option NumericRangeTree
  tagIdx : Key → Option TagIndex
  geoIdx : Key → List (Nat × Double × Double)
  hashes : String → Option (List (String × String))
  nextIdent : Nat

namespace Keyspace

/-- The keyspace with no keys. -/
def empty : Keyspace :=
  ⟨fun _ => none, fun _ => none, fun _ => none, fun _ => none, fun _ => [], fun _ => none, 0⟩

/-- Apply `f` to the index registered under `name`. -/
def modifyIndex (ks : Keyspace) (name : String) (f : IndexState → IndexState) : Keyspace :=
  { ks with indexes := Function.update ks.indexes name ((ks.indexes name).map f) }

def setNumIdx (ks : Keyspace) (k : Key) (t : NumericRangeTree) : Keyspace :=
  { ks with numIdx := Function.update ks.numIdx k (some t) }

def setTagIdx (ks : Keyspace) (k : Key) (t : TagIndex) : Keyspace :=
  { ks with tagIdx := Function.update ks.tagIdx k (some t) }

/-- The document table of an index, empty when no index has that name. -/
def docsOf (ks : Keyspace) (name : String) : DocTable :=
  ((ks.indexes name).map (·.docs)).getD ⟨[]⟩

def setInvIdx (ks : Keyspace) (k : Key) (ix : InvertedIndex) : Keyspace :=
  { ks with invIdx := Function.update ks.invIdx k (some ix) }

@[simp] theorem numIdx_modifyIndex (ks : Keyspace) (name : String) (f : IndexState → IndexState) :
    (ks.modifyIndex name f).numIdx = ks.numIdx := rfl

@[simp] theorem nextIdent_modifyIndex (ks : Keyspace) (name : String)
    (f : IndexState → IndexState) : (ks.modifyIndex name f).nextIdent = ks.nextIdent := rfl

@[simp] theorem indexes_setNumIdx (ks : Keyspace) (k : Key) (t : NumericRangeTree) :
    (ks.setNumIdx k t).indexes = ks.indexes := rfl

@[simp] theorem indexes_setTagIdx (ks : Keyspace) (k : Key) (t : TagIndex) :
    (ks.setTagIdx k t).indexes = ks.indexes := rfl

@[simp] theorem indexes_setInvIdx (ks : Keyspace) (k : Key) (ix : InvertedIndex) :
    (ks.setInvIdx k ix).indexes = ks.indexes := rfl

@[simp] theorem numIdx_setNumIdx (ks : Keyspace) (k : Key) (t : NumericRangeTree) :
    (ks.setNumIdx k t).numIdx = Function.update ks.numIdx k (some t) := rfl

@[simp] theorem nextIdent_setNumIdx (ks : Keyspace) (k : Key) (t : NumericRangeTree) :
    (ks.setNumIdx k t).nextIdent = ks.nextIdent := rfl

@[simp] theorem numIdx_setTagIdx (ks : Keyspace) (k : Key) (t : TagIndex) :
    (ks.setTagIdx k t).numIdx = ks.numIdx := rfl

@[simp] theorem nextIdent_setTagIdx (ks : Keyspace) (k : Key) (t : TagIndex) :
    (ks.setTagIdx k t).nextIdent = ks.nextIdent := rfl

@[simp] theorem tagIdx_setTagIdx (ks : Keyspace) (k : Key) (t : TagIndex) :
    (ks.setTagIdx k t).tagIdx = Function.update ks.tagIdx k (some t) := rfl

@[simp] theorem numIdx_setInvIdx (ks : Keyspace) (k : Key) (ix : InvertedIndex) :
    (ks.setInvIdx k ix).numIdx = ks.numIdx := rfl

@[simp] theorem nextIdent_setInvIdx (ks : Keyspace) (k : Key) (ix : InvertedIndex) :
    (ks.setInvIdx k ix).nextIdent = ks.nextIdent := rfl

@[simp] theorem invIdx_setInvIdx (ks : Keyspace) (k : Key) (ix : InvertedIndex) :
    (ks.setInvIdx k ix).invIdx = Function.update ks.invIdx k (some ix) := rfl

/-- `Redis_OpenInvertedIndexEx(ctx, term, len, 1, &key)`: the posting list of a key, created
empty, with the next identity, when the key has none. -/
def openInvIdx (ks : Keyspace) (k : Key) : Keyspace × InvertedIndex :=
  match ks.invIdx k with
  | some ix => (ks, ix)
  | none =>
    let ix : InvertedIndex := ⟨ks.nextIdent, []⟩
    ({ ks.setInvIdx k ix with nextIdent := ks.nextIdent + 1 }, ix)

/-- The opened posting list is the one the key holds afterwards. -/
theorem openInvIdx_stored (ks : Keyspace) (k : Key) :
    (ks.openInvIdx k).1.invIdx k = some (ks.openInvIdx k).2 := by
  unfold openInvIdx
  split <;> simp_all

theorem openInvIdx_numIdx (ks : Keyspace) (k : Key) : (ks.openInvIdx k).1.numIdx = ks.numIdx := by
  unfold openInvIdx
  split <;> rfl

theorem openInvIdx_tagIdx (ks : Keyspace) (k : Key) : (ks.openInvIdx k).1.tagIdx = ks.tagIdx := by
  unfold openInvIdx
  split <;> rfl

theorem openInvIdx_indexes (ks : Keyspace) (k : Key) :
    (ks.openInvIdx k).1.indexes = ks.indexes := by
  unfold openInvIdx
  split <;> rfl

theorem openInvIdx_nextIdent (ks : Keyspace) (k : Key) :
    ks.nextIdent ≤ (ks.openInvIdx k).1.nextIdent := by
  unfold openInvIdx
  split <;> simp

end Keyspace

/-- `IndexSpec::GetFormattedKey(fs, type)`. -/
def GetFormattedKey (ix : IndexState) (fs : FieldSpec) (t : FieldTypes) : Key :=
  .field ix.name fs.name t

end RediSearch
