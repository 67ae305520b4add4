import RediSearch.GC.Collector
import RediSearch.Index.Bulk

/-!
# A pass of the garbage collector

`PeriodicCallback` runs three collectors in turn: `CollectRandomTerm` on the posting list of a
term, `CollectNumericIndex` on a range of a numeric field's tree, `CollectTagIndex` on the
posting list of a tag value. Each builds a search context on the collector's key, checks that
the index there is still the one of `specUniqueId`, and repairs its posting list in batches of
`gcScanSize` blocks. Between two batches it yields: the host runs (`HostStep`), the collector
refreshes its search context, checks the index again, and finds its posting list again.

Randomness is an input (`GcChoices`), and so is what the host does at the yields, one
`HostStep` per yield. A pass is cut off when its `fuel`, a bound on the batches of a loop, runs
out. A collector that reads freed memory, where the code's behaviour stops being defined, ends
the pass with `useAfterFree`, and the runs of passes stop there. Each call of `Repair` is
recorded with the keyspace it was made on, so that what it was made on can be stated
(`GC/Reach.lean`).

Two lines of the sources matter here. The constructor assigns its `specUniqueId` parameter to
itself (`GarbageCollector.new`). `CollectTagIndex` and `CollectNumericIndex` declare a local
`keyName` for the field's key, which hides the member, so their `Refresh(keyName)` refreshes
the search context on the field's key, not on the index's.
-/

namespace RediSearch

/-- `SPEC_STATUS_OK` and `SPEC_STATUS_INVALID`. -/
inductive SpecStatus
  | OK
  | INVALID
  deriving DecidableEq, Repr

/-- The index a search context built or refreshed on key `k` holds. Modelled from the spec:
the index registered under the key, when the key names an index; a context on any other key
has no index, and the check after it fails. -/
def resolveSpec (ks : Keyspace) : Key → Option IndexState
  | .index name => ks.indexes name
  | _ => none

/-! ## The host -/

/-- What the host may do while a collector yields. -/
inductive HostStep
  | skip
  /-- The index is dropped. -/
  | dropIndex (name : String)
  /-- An index is created, with the next identity as its `uniqueId`. -/
  | createIndex (name : String) (spec : IndexSpec)
  /-- A document's metadata is deleted. -/
  | deleteDoc (name : String) (docId : Nat)
  /-- A key is deleted. -/
  | deleteKey (k : Key)
  /-- A document goes to a numeric tree, created when missing. -/
  | addNumeric (k : Key) (docId : Nat) (v : Double)
  /-- The `i`-th range of a numeric tree is split after its `n`-th block into two new ranges;
  the tree's `revisionId` goes up. -/
  | splitNumeric (k : Key) (i n : Nat)
  /-- A document goes to a tag value's posting list. -/
  | addTag (k : Key) (value : String) (docId : Nat)
  /-- A tag value is removed. -/
  | removeTagValue (k : Key) (value : String)
  /-- A document goes to a term's posting list. -/
  | addTerm (k : Key) (docId : Nat)
  /-- A key's tree is freed with the key, and the allocator hands its block to the next tree
  created under the key: an empty tree at the same identity, at `revisionId` 0, whose one
  range is new. -/
  | reuseNumeric (k : Key)

/-- The ranges of a tree with its `i`-th range `r` split after block `n`, the two halves with
identities `fresh` and `fresh + 1`. -/
def splitRanges (rs : List InvertedIndex) (i n fresh : Nat) (r : InvertedIndex) :
    List InvertedIndex :=
  rs.take i ++ [⟨fresh, r.blocks.take n⟩, ⟨fresh + 1, r.blocks.drop n⟩] ++ rs.drop (i + 1)

theorem splitRanges_ne (rs : List InvertedIndex) (i n fresh : Nat) (r : InvertedIndex) :
    splitRanges rs i n fresh r ≠ [] := by
  simp [splitRanges]

variable (cap : Nat)

/-- A host step on the keyspace. -/
def HostStep.apply (ks : Keyspace) : HostStep → Keyspace
  | .skip => ks
  | .dropIndex name => { ks with indexes := Function.update ks.indexes name none }
  | .createIndex name spec =>
    { ks with
      indexes := Function.update ks.indexes name (some ⟨name, ks.nextIdent, spec, ⟨[]⟩, 0, 0⟩)
      nextIdent := ks.nextIdent + 1 }
  | .deleteDoc name docId => ks.modifyIndex name fun ix => { ix with docs := ix.docs.delete docId }
  | .deleteKey k =>
    { ks with
      invIdx := Function.update ks.invIdx k none
      numIdx := Function.update ks.numIdx k none
      tagIdx := Function.update ks.tagIdx k none }
  | .addNumeric k docId v =>
    let (ks, t) := OpenNumericIndex ks k
    ks.setNumIdx k (t.Add cap docId v)
  | .splitNumeric k i n =>
    match ks.numIdx k with
    | none => ks
    | some t =>
      match t.ranges.get? i with
      | none => ks
      | some r =>
        { ks.setNumIdx k { t with
            revisionId := t.revisionId + 1
            ranges := splitRanges t.ranges i n ks.nextIdent r
            ranges_ne := splitRanges_ne _ _ _ _ _ } with
          nextIdent := ks.nextIdent + 2 }
  | .addTag k value docId =>
    match TagIndexOpen ks k true with
    | (ks, some t) =>
      { ks.setTagIdx k (t.indexOne cap ks.nextIdent docId value) with
        nextIdent := ks.nextIdent + 1 }
    | (ks, none) => ks
  | .removeTagValue k value =>
    match ks.tagIdx k with
    | none => ks
    | some t => ks.setTagIdx k { t with values := t.values.filter (·.1 ≠ value) }
  | .addTerm k docId =>
    let (ks, ix) := ks.openInvIdx k
    ks.setInvIdx k (ix.add cap docId)
  | .reuseNumeric k =>
    match ks.numIdx k with
    | none => ks
    | some t =>
      { ks.setNumIdx k ⟨t.ident, 0, [⟨ks.nextIdent, []⟩], List.cons_ne_nil _ _, fun _ => 0, 0⟩ with
        nextIdent := ks.nextIdent + 1 }

/-! ## The state of a pass -/

/-- A call of `Repair`: on the posting list `ident` of a term's key, on the posting list
`ident` of a tag value, or on the range `ident` of a numeric field's tree, by the collection
state of tree `rt` at `revisionId`. -/
inductive RepairCall
  | term (k : Key) (ident : Nat)
  | tag (k : Key) (value : String) (ident : Nat)
  | numeric (k : Key) (rt revisionId ident : Nat)
  deriving DecidableEq, Repr

/-- The random choices of a pass: the term `GetRandomTerm` returns, and the `rand()` behind the
numeric field, the tag field and the tag value. -/
structure GcChoices where
  term : Option String
  numericField : Nat
  tagField : Nat
  tagValue : Nat
  deriving DecidableEq, Repr

/-- What a pass runs on: the keyspace, the collector, the pass's `status`, the host steps still
to come at the yields, and the `Repair` calls made so far with the keyspace of each. -/
structure GcWorld where
  ks : Keyspace
  gc : GarbageCollector
  status : SpecStatus
  host : List HostStep
  repairs : List (RepairCall × Keyspace)

namespace GcWorld

/-- A yield: the host's next step, if any. -/
def yield (w : GcWorld) : GcWorld :=
  match w.host with
  | [] => w
  | h :: hs => { w with ks := h.apply cap w.ks, host := hs }

/-- A yield with no host step left does nothing. -/
theorem yield_of_host {w : GcWorld} (h : w.host = []) : w.yield cap = w := by
  unfold yield
  rw [h]

/-- The check after building or refreshing the search context on `k`:
`!sctx || sctx->spec->uniqueId != specUniqueId`. -/
def specLost (w : GcWorld) (k : Key) : Bool :=
  match resolveSpec w.ks k with
  | some ix => ix.uniqueId != w.gc.specUniqueId
  | none => true

/-- `*status = SPEC_STATUS_INVALID`. -/
def invalid (w : GcWorld) : GcWorld := { w with status := .INVALID }

/-- Record a call of `Repair` on the current keyspace. -/
def record (w : GcWorld) (call : RepairCall) : GcWorld :=
  { w with repairs := w.repairs ++ [(call, w.ks)] }

@[simp] theorem ks_record (w : GcWorld) (call : RepairCall) : (w.record call).ks = w.ks := rfl

@[simp] theorem gc_record (w : GcWorld) (call : RepairCall) : (w.record call).gc = w.gc := rfl

@[simp] theorem gc_invalid (w : GcWorld) : w.invalid.gc = w.gc := rfl

end GcWorld

/-- `GarbageCollector::updateStats(sctx, recordsRemoved, bytesCollected)`, on the records of
index `name`. -/
def updateStats (name : String) (recordsRemoved : Nat) (ks : Keyspace) : Keyspace :=
  ks.modifyIndex name fun ix => { ix with numRecords := sizeSub ix.numRecords recordsRemoved }

/-- How a collector ends: with its removals, with an exception, at a read of freed memory
(the code's behaviour is undefined from there, and the model stops), or cut off. -/
inductive CollectEnd
  | done (removed : Nat)
  | threw (msg : String)
  | useAfterFree
  | cut
  deriving DecidableEq, Repr

variable (scan : Nat)

/-! ## `CollectRandomTerm` -/

/-- The repair loop of `CollectRandomTerm` from block `blockNum`, having removed `total`; the
posting list is opened (created when missing) before each batch. -/
def termLoop (name term : String) : Nat → Nat → Nat → GcWorld → GcWorld × CollectEnd
  | 0, _, _, w => (w, .cut)
  | fuel + 1, blockNum, total, w =>
    let k := Key.term name term
    let (ks, ix) := w.ks.openInvIdx k
    let w := ({ w with ks := ks }).record (.term k ix.ident)
    let (ix, next, collected) := ix.Repair (ks.docsOf name) blockNum scan
    let w := { w with ks := updateStats name collected (ks.setInvIdx k ix) }
    if next = 0 then (w, .done (total + collected))
    else
      let w := w.yield cap
      if w.specLost w.gc.keyName then (w.invalid, .done (total + collected))
      else termLoop name term fuel next (total + collected) w

/-- `GarbageCollector::CollectRandomTerm(ctx, &status)`. -/
def CollectRandomTerm (fuel : Nat) (ch : GcChoices) (w : GcWorld) : GcWorld × CollectEnd :=
  match resolveSpec w.ks w.gc.keyName with
  | none => (w.invalid, .done 0)
  | some ix =>
    if ix.uniqueId ≠ w.gc.specUniqueId then (w.invalid, .done 0)
    else
      match ch.term with
      | none => (w, .done 0)
      | some term => termLoop cap scan ix.name term fuel 0 0 w

/-! ## `CollectTagIndex` -/

/-- `iv->Repair(&docs, blockNum, params)` on the posting list `ident` of tag value `value` of a
tag index; a list the index no longer holds is a stale pointer, which the collectors never
follow (`GC/Reach.lean`), and is left alone. -/
def TagIndex.repair (t : TagIndex) (value : String) (ident : Nat) (docs : DocTable)
    (blockNum : Nat) : TagIndex × Nat × Nat :=
  match t.values.find? fun v => v.1 = value ∧ v.2.ident = ident with
  | none => (t, 0, 0)
  | some (_, iv) =>
    let (iv', next, collected) := iv.Repair docs blockNum scan
    ({ t with values := t.values.map fun v =>
      if v.1 = value ∧ v.2.ident = ident then (v.1, iv') else v }, next, collected)

/-- Repairing a posting list keeps the tag index's identity and its tag values. -/
theorem TagIndex.repair_keys (t : TagIndex) (value : String) (ident : Nat) (docs : DocTable)
    (blockNum : Nat) : (t.repair scan value ident docs blockNum).1.ident = t.ident ∧
      (t.repair scan value ident docs blockNum).1.values.map (·.1) = t.values.map (·.1) := by
  unfold TagIndex.repair
  split
  · exact ⟨rfl, rfl⟩
  · exact ⟨rfl, TagIndex.keys_map_set _ _ _⟩

/-- The repair of the posting list `ident` of `value` in the tag index at `k`, where the
collector found it. -/
def repairTagValue (ks : Keyspace) (k : Key) (value : String) (ident : Nat) (docs : DocTable)
    (blockNum : Nat) : Keyspace × Nat × Nat :=
  match ks.tagIdx k with
  | none => (ks, 0, 0)
  | some t =>
    let (t', next, collected) := t.repair scan value ident docs blockNum
    (ks.setTagIdx k t', next, collected)

/-- The repair loop of `CollectTagIndex` on the posting list `ident` of `value`. -/
def tagLoop (name : String) (k : Key) (value : String) :
    Nat → Nat → Nat → Nat → GcWorld → GcWorld × CollectEnd
  | 0, _, _, _, w => (w, .cut)
  | fuel + 1, ident, blockNum, total, w =>
    let w := w.record (.tag k value ident)
    let (ks, next, collected) := repairTagValue scan w.ks k value ident (w.ks.docsOf name) blockNum
    let w := { w with ks := updateStats name collected ks }
    if next = 0 then (w, .done (total + collected))
    else
      let w := w.yield cap
      if w.specLost k then (w.invalid, .done (total + collected))
      else
        match w.ks.tagIdx k with
        | none => (w, .done (total + collected))
        | some t =>
          match t.Find value with
          | none => (w, .done (total + collected))
          | some iv => tagLoop name k value fuel iv.ident next (total + collected) w

/-- `GarbageCollector::CollectTagIndex(ctx, &status)`. -/
def CollectTagIndex (fuel : Nat) (ch : GcChoices) (w : GcWorld) : GcWorld × CollectEnd :=
  match resolveSpec w.ks w.gc.keyName with
  | none => (w.invalid, .done 0)
  | some ix =>
    if ix.uniqueId ≠ w.gc.specUniqueId then (w.invalid, .done 0)
    else
      let tagFields := ix.spec.fields.filter (·.types.tag)
      match tagFields.get? (ch.tagField % tagFields.length) with
      | none => (w, .done 0)
      | some fs =>
        let k := GetFormattedKey ix fs .TAG
        match w.ks.tagIdx k with
        | none => (w, .done 0)
        | some t =>
          match t.values.get? (ch.tagValue % t.values.length) with
          | none => (w, .done 0)
          | some (value, iv) => tagLoop cap scan ix.name k value fuel iv.ident 0 0 w

/-! ## `CollectNumericIndex` -/

/-- `NumericFieldGC::NumericFieldGC(rt)`. -/
def NumericFieldGC.new (t : NumericRangeTree) : NumericFieldGC :=
  ⟨t.ident, t.revisionId, t.rangeIdents⟩

/-- The collection states built for the numeric fields `fss`, in order, each on its tree
(created when missing). -/
def buildNumericGC (ix : IndexState) : List FieldSpec → Keyspace → Keyspace × List NumericFieldGC
  | [], ks => (ks, [])
  | fs :: fss, ks =>
    let (ks, t) := OpenNumericIndex ks (GetFormattedKey ix fs .NUMERIC)
    let (ks, gs) := buildNumericGC ix fss ks
    (ks, NumericFieldGC.new t :: gs)

/-- The collection states `CollectNumericIndex` goes on with: new ones, built on the trees of
all numeric fields, when their number changed, and the collector's own otherwise. -/
def numericStates (ix : IndexState) (numericFields : List FieldSpec) (w : GcWorld) :
    Keyspace × List NumericFieldGC :=
  if numericFields.length ≠ w.gc.numericGC.length then buildNumericGC ix numericFields w.ks
  else (w.ks, w.gc.numericGC)

/-- How `NextGcNode` fails: it throws, or its iterator hands it a node of a freed tree. -/
inductive NodeFault
  | threw (msg : String)
  | useAfterFree
  deriving DecidableEq, Repr

/-- `NextGcNode(numericGc)` on the collection's tree `t`: the next range of the iterator;
when it is exhausted, the iterator is rebuilt on the tree, once. The iterator holds pointers
to the nodes of the tree it was built on. Its caller found the collection on `t`'s block at
`t`'s revision, and a tree's ranges change only with its revision, so a node it still holds
that is not one of `t`'s was freed with an earlier tree of that block: `node->range` reads
freed memory. -/
def NextGcNode (g : NumericFieldGC) (t : NumericRangeTree) :
    Except NodeFault (Nat × NumericFieldGC) :=
  match g.gcIterator with
  | r :: rs =>
    if r ∈ t.rangeIdents then .ok (r, { g with gcIterator := rs }) else .error .useAfterFree
  | [] =>
    match t.rangeIdents with
    | r :: rs => .ok (r, { g with gcIterator := rs })
    | [] => .error (.threw "Second iterator should return result")

/-- `nextNode->range->entries.Repair(&docs, blockNum, params)` on the range `ident` of a tree,
then `num_gc->rt->numEntries -= params.docsCollected`. `numLoop` calls it only on a range the
tree holds (`RangeLive`): it stops at the read of a freed node first. -/
def NumericRangeTree.repair (t : NumericRangeTree) (ident : Nat) (docs : DocTable)
    (blockNum : Nat) : NumericRangeTree × Nat × Nat :=
  match t.ranges.find? (·.ident = ident) with
  | none => (t, 0, 0)
  | some r =>
    let (r', next, collected) := r.Repair docs blockNum scan
    ({ t with
      ranges := t.ranges.map fun x => if x.ident = ident then r' else x
      ranges_ne := by simpa using t.ranges_ne
      numEntries := sizeSub t.numEntries collected }, next, collected)

/-- Repairing a range keeps the tree's identity, its revision and its ranges' identities. -/
theorem NumericRangeTree.repair_idents (t : NumericRangeTree) (ident : Nat) (docs : DocTable)
    (blockNum : Nat) : (t.repair scan ident docs blockNum).1.ident = t.ident ∧
      (t.repair scan ident docs blockNum).1.revisionId = t.revisionId ∧
      (t.repair scan ident docs blockNum).1.rangeIdents = t.rangeIdents := by
  unfold NumericRangeTree.repair
  split
  · exact ⟨rfl, rfl, rfl⟩
  · rename_i r hr
    have hid : r.ident = ident := by simpa using List.find?_some hr
    refine ⟨rfl, rfl, ?_⟩
    simp only [NumericRangeTree.rangeIdents, List.map_map]
    congr 1
    funext x
    by_cases hx : x.ident = ident <;> simp [hx, hid]

/-- Range `ident` is a node of the tree of identity `rt` at `k`. A node that is not was freed:
with its tree (the key deleted, or the tree freed and rebuilt in its block) or by a split of
its range. -/
def RangeLive (ks : Keyspace) (k : Key) (rt ident : Nat) : Prop :=
  ∃ t ∈ ks.numIdx k, t.ident = rt ∧ ident ∈ t.rangeIdents

instance (ks : Keyspace) (k : Key) (rt ident : Nat) : Decidable (RangeLive ks k rt ident) :=
  inferInstanceAs (Decidable (∃ t ∈ ks.numIdx k, t.ident = rt ∧ ident ∈ t.rangeIdents))

/-- The repair of the range `ident` of the tree at `k`, when the tree is still `rt` (as
`numLoop` checks first). -/
def repairRange (ks : Keyspace) (k : Key) (rt ident : Nat) (docs : DocTable) (blockNum : Nat) :
    Keyspace × Nat × Nat :=
  match ks.numIdx k with
  | none => (ks, 0, 0)
  | some t =>
    if t.ident ≠ rt then (ks, 0, 0)
    else
      let (t', next, collected) := t.repair scan ident docs blockNum
      (ks.setNumIdx k t', next, collected)

/-- The repair loop of `CollectNumericIndex` on range `ident`, for the collection state `g`
of the field's tree at `k`. The loop reads `nextNode->range`, and after a yield
`num_gc->rt->revisionId`, through pointers: a node that left the tree, or a tree that left
the key, was freed, and the read is a use after free. -/
def numLoop (name : String) (k : Key) (g : NumericFieldGC) :
    Nat → Nat → Nat → Nat → GcWorld → GcWorld × CollectEnd
  | 0, _, _, _, w => (w, .cut)
  | fuel + 1, ident, blockNum, total, w =>
    if RangeLive w.ks k g.rt ident then
      let w := w.record (.numeric k g.rt g.revisionId ident)
      let (ks, next, collected) := repairRange scan w.ks k g.rt ident (w.ks.docsOf name) blockNum
      let w := { w with ks := updateStats name collected ks }
      if next = 0 then (w, .done (total + collected))
      else
        let w := w.yield cap
        if w.specLost k then (w.invalid, .done (total + collected))
        else
          match w.ks.numIdx k with
          | some t =>
            if t.ident = g.rt then
              if g.revisionId = t.revisionId then
                numLoop name k g fuel ident next (total + collected) w
              else (w, .done (total + collected))
            else (w, .useAfterFree)
          | none => (w, .useAfterFree)
    else (w, .useAfterFree)

/-- What the numeric loop does, said once: a property of worlds that a batch on a live range
keeps (its call recorded, the range repaired, the removals counted), and that a yield and an
invalid report keep, holds after the loop, however it ends. -/
theorem numLoop_preserves (I : GcWorld → Prop) (name : String) (k : Key) (g : NumericFieldGC)
    (hbatch : ∀ w ident blockNum, I w → RangeLive w.ks k g.rt ident →
      I { w.record (.numeric k g.rt g.revisionId ident) with
        ks := updateStats name (repairRange scan w.ks k g.rt ident (w.ks.docsOf name) blockNum).2.2
          (repairRange scan w.ks k g.rt ident (w.ks.docsOf name) blockNum).1 })
    (hyield : ∀ w, I w → I (w.yield cap)) (hinv : ∀ w, I w → I w.invalid) :
    ∀ fuel ident blockNum total w, I w → I (numLoop cap scan name k g fuel ident blockNum total w).1
  | 0, _, _, _, _, h => h
  | fuel + 1, ident, blockNum, total, w, h => by
    by_cases hl : RangeLive w.ks k g.rt ident
    · have hb := hbatch w ident blockNum h hl
      simp only [numLoop, hl, if_true, GcWorld.ks_record]
      generalize repairRange scan w.ks k g.rt ident (w.ks.docsOf name) blockNum = R at hb ⊢
      have hy := hyield _ hb
      split_ifs
      · exact hb
      · exact hinv _ hy
      · split
        · split_ifs
          · exact numLoop_preserves I name k g hbatch hyield hinv fuel _ _ _ _ hy
          all_goals exact hy
        · exact hy
    · simpa only [numLoop, hl, if_false] using h

/-- The collection state of the chosen field, checked against the field's tree `rt`: kept when
it is on `rt` at its revision, rebuilt otherwise. -/
def checkNumericGC (g : NumericFieldGC) (rt : NumericRangeTree) : Except String NumericFieldGC :=
  if g.rt ≠ rt.ident ∨ g.revisionId ≠ rt.revisionId then
    if g.rt = rt.ident ∧ rt.revisionId ≤ g.revisionId then
      .error "NumericRangeTree or revisionId are inncorrect"
    else .ok (NumericFieldGC.new rt)
  else .ok g

/-- `GarbageCollector::CollectNumericIndex(ctx, &status)`. -/
def CollectNumericIndex (fuel : Nat) (ch : GcChoices) (w : GcWorld) : GcWorld × CollectEnd :=
  match resolveSpec w.ks w.gc.keyName with
  | none => (w.invalid, .done 0)
  | some ix =>
    if ix.uniqueId ≠ w.gc.specUniqueId then (w.invalid, .done 0)
    else
      let numericFields := ix.spec.fields.filter (·.types.numeric)
      if numericFields = [] then (w, .done 0)
      else if numericFields.length ≤ w.gc.numericGC.length ∧
          numericFields.length ≠ w.gc.numericGC.length then
        (w, .threw "it is not possible to remove fields")
      else
        let (ks, gcs) := numericStates ix numericFields w
        let i := ch.numericField % gcs.length
        let k := GetFormattedKey ix (numericFields.getD i .empty) .NUMERIC
        let (ks, rt) := OpenNumericIndex ks k
        let w := { w with ks := ks, gc := { w.gc with numericGC := gcs } }
        match checkNumericGC (gcs.getD i ⟨0, 0, []⟩) rt with
        | .error msg => (w, .threw msg)
        | .ok g =>
          match NextGcNode g rt with
          | .error (.threw msg) => ({ w with gc := { w.gc with numericGC := gcs.set i g } }, .threw msg)
          | .error .useAfterFree => ({ w with gc := { w.gc with numericGC := gcs.set i g } }, .useAfterFree)
          | .ok (r, g) =>
            numLoop cap scan ix.name k g fuel r 0 0
              { w with gc := { w.gc with numericGC := gcs.set i g } }

/-! ## What each collector does, said once -/

/-- A property of worlds that reporting the index invalid keeps and that the repair loop on a
term keeps holds after `CollectRandomTerm`, however it ends. -/
theorem CollectRandomTerm_preserves (I : GcWorld → Prop) {fuel : Nat} {ch : GcChoices}
    {w : GcWorld} (h : I w) (hinv : I w.invalid)
    (hloop : ∀ (ix : IndexState) term, I (termLoop cap scan ix.name term fuel 0 0 w).1) :
    I (CollectRandomTerm cap scan fuel ch w).1 := by
  unfold CollectRandomTerm
  split
  · exact hinv
  split_ifs
  · exact hinv
  split
  · exact h
  · exact hloop _ _

/-- A property of worlds that reporting the index invalid keeps and that the repair loop on a
tag value of a tag field's key keeps holds after `CollectTagIndex`, however it ends. -/
theorem CollectTagIndex_preserves (I : GcWorld → Prop) {fuel : Nat} {ch : GcChoices}
    {w : GcWorld} (h : I w) (hinv : I w.invalid)
    (hloop : ∀ (ix : IndexState) (fs : FieldSpec) value ident,
      I (tagLoop cap scan ix.name (GetFormattedKey ix fs .TAG) value fuel ident 0 0 w).1) :
    I (CollectTagIndex cap scan fuel ch w).1 := by
  unfold CollectTagIndex
  split
  · exact hinv
  split_ifs
  · exact hinv
  dsimp only
  split
  · exact h
  split
  · exact h
  split
  · exact h
  · exact hloop _ _ _ _

/-- A property of worlds that reporting the index invalid keeps, that holds once a numeric
field's tree is opened on the keyspace as it was or with the collection states rebuilt
(whatever collection states the collector then keeps), and that the repair loop on a numeric
field's key keeps, holds after `CollectNumericIndex`, however it ends. -/
theorem CollectNumericIndex_preserves (I : GcWorld → Prop) {fuel : Nat} {ch : GcChoices}
    {w : GcWorld} (h : I w) (hinv : I w.invalid)
    (hopen : ∀ (ix : IndexState) (fs : FieldSpec) gcs ks₁,
      (ks₁ = w.ks ∨ ks₁ = (buildNumericGC ix (ix.spec.fields.filter (·.types.numeric)) w.ks).1) →
      I { w with
        ks := (OpenNumericIndex ks₁ (GetFormattedKey ix fs .NUMERIC)).1
        gc := { w.gc with numericGC := gcs } })
    (hloop : ∀ (ix : IndexState) (fs : FieldSpec) g r w', I w' →
      I (numLoop cap scan ix.name (GetFormattedKey ix fs .NUMERIC) g fuel r 0 0 w').1) :
    I (CollectNumericIndex cap scan fuel ch w).1 := by
  unfold CollectNumericIndex
  split
  · exact hinv
  rename_i ix _
  split_ifs
  · exact hinv
  dsimp only
  split_ifs
  · exact h
  · exact h
  have hks : (numericStates ix (ix.spec.fields.filter (·.types.numeric)) w).1 = w.ks ∨
      (numericStates ix (ix.spec.fields.filter (·.types.numeric)) w).1 =
        (buildNumericGC ix (ix.spec.fields.filter (·.types.numeric)) w.ks).1 := by
    unfold numericStates
    split_ifs
    exacts [.inr rfl, .inl rfl]
  generalize numericStates ix _ w = S at hks ⊢
  obtain ⟨ks₁, gcs⟩ := S
  have ho := fun gcs' => hopen ix ((ix.spec.fields.filter (·.types.numeric)).getD
    (ch.numericField % gcs.length) .empty) gcs' ks₁ hks
  generalize OpenNumericIndex ks₁ _ = q at ho ⊢
  obtain ⟨ks₂, rt⟩ := q
  split
  · exact ho gcs
  split
  · exact ho _
  · exact ho _
  · exact hloop _ _ _ _ _ (ho _)

/-- How a pass ends: `PeriodicCallback` returns `status == SPEC_STATUS_OK`, or an exception
leaves it, or a collector reads freed memory, or the pass is cut off. -/
inductive PassEnd
  | returned (ok : Bool)
  | threw (msg : String)
  | useAfterFree
  | cut
  deriving DecidableEq, Repr

variable (B : HzBounds)

/-- `GarbageCollector::PeriodicCallback(ctx)`, with `loading` for the answer of
`isRdbLoading`. -/
def PeriodicCallback (fuel : Nat) (loading : Bool) (ch : GcChoices) (w : GcWorld) :
    GcWorld × PassEnd :=
  if w.gc.rdbPossiblyLoading && loading then (w, .returned true)
  else
    let w := { w with gc := { w.gc with rdbPossiblyLoading := false }, status := .OK }
    match CollectRandomTerm cap scan fuel ch w with
    | (w, .cut) => (w, .cut)
    | (w, .threw msg) => (w, .threw msg)
    | (w, .useAfterFree) => (w, .useAfterFree)
    | (w, .done t1) =>
      match CollectNumericIndex cap scan fuel ch w with
      | (w, .cut) => (w, .cut)
      | (w, .threw msg) => (w, .threw msg)
      | (w, .useAfterFree) => (w, .useAfterFree)
      | (w, .done t2) =>
        match CollectTagIndex cap scan fuel ch w with
        | (w, .cut) => (w, .cut)
        | (w, .threw msg) => (w, .threw msg)
        | (w, .useAfterFree) => (w, .useAfterFree)
        | (w, .done t3) =>
          let w := { w with gc := GarbageCollector.endPass B w.gc ((t1 + t2 + t3) % SIZE_MAX1) }
          (w, .returned (w.status = .OK))

/-- What a pass does, said once: a property of worlds that holds after the reset at the start
of a pass and that each collector and the end of the pass keep holds after the pass, however
it ends. -/
theorem PeriodicCallback_preserves (I : GcWorld → Prop) {fuel : Nat} {loading : Bool}
    {ch : GcChoices} {w : GcWorld} (h : I w)
    (hstart : I { w with gc := { w.gc with rdbPossiblyLoading := false }, status := .OK })
    (hT : ∀ w, I w → I (CollectRandomTerm cap scan fuel ch w).1)
    (hN : ∀ w, I w → I (CollectNumericIndex cap scan fuel ch w).1)
    (hG : ∀ w, I w → I (CollectTagIndex cap scan fuel ch w).1)
    (hend : ∀ w (n : Nat), I w → I { w with gc := GarbageCollector.endPass B w.gc n }) :
    I (PeriodicCallback cap scan B fuel loading ch w).1 := by
  have after : ∀ {α : Type} {f : GcWorld → GcWorld × α}, (∀ w, I w → I (f w).1) →
      ∀ {w w' : GcWorld} {x : α}, I w → f w = (w', x) → I w' := fun hf _ _ _ hw he => by
    simpa [he] using hf _ hw
  unfold PeriodicCallback
  split_ifs
  · exact h
  dsimp only
  -- a collector that is cut off or throws ends the pass where it stops
  split <;> try exact after hT hstart ‹_›
  rename_i w₁ t₁ heq₁
  have h₁ := after hT hstart heq₁
  split <;> try exact after hN h₁ ‹_›
  rename_i w₂ t₂ heq₂
  have h₂ := after hN h₁ heq₂
  split <;> try exact after hG h₂ ‹_›
  rename_i w₃ t₃ heq₃
  exact hend _ _ (after hG h₂ heq₃)

/-- Whether a pass read freed memory. -/
def PassEnd.crashed : PassEnd → Bool
  | .useAfterFree => true
  | _ => false

/-- A run of events, each step giving the state after it and whether the process crashed in
it: the run stops at the first crash. -/
def runSteps {σ ε : Type} (step : σ → ε → σ × Bool) : σ → List ε → σ
  | s, [] => s
  | s, e :: es => if (step s e).2 then (step s e).1 else runSteps step (step s e).1 es

/-- What every step of a run keeps, the run keeps. -/
theorem runSteps_preserves {σ ε : Type} {step : σ → ε → σ × Bool} (I : σ → Prop)
    {es : List ε} (h : ∀ s, ∀ e ∈ es, I s → I (step s e).1) :
    ∀ s, I s → I (runSteps step s es) := by
  induction es with
  | nil => exact fun _ hs => hs
  | cons e es ih =>
    intro s hs
    have h₁ := h s e (.head _) hs
    simp only [runSteps]
    split_ifs
    · exact h₁
    · exact ih (fun s' e' he' => h s' e' (.tail _ he')) _ h₁

/-- A run takes the steps of a prefix of its events, one after another: all of them, or those
up to the first crash. -/
theorem runSteps_eq_prefix {σ ε : Type} (step : σ → ε → σ × Bool) :
    ∀ (s : σ) (es : List ε), ∃ pre, pre <+: es ∧
      runSteps step s es = pre.foldl (fun s e => (step s e).1) s
  | s, [] => ⟨[], List.prefix_refl _, rfl⟩
  | s, e :: es => by
    simp only [runSteps]
    split_ifs
    · exact ⟨[e], (List.prefix_cons_inj e).2 List.nil_prefix, rfl⟩
    · obtain ⟨pre, hp, hr⟩ := runSteps_eq_prefix step (step s e).1 es
      exact ⟨e :: pre, (List.prefix_cons_inj e).2 hp, hr⟩

/-! ## Passes over an index nobody touches -/

/-- `{price: NUMERIC, tags: TAG}`. -/
def gcSpec : IndexSpec :=
  ⟨[⟨"price", 0, .NUMERIC, ⟨false, false, false, false, false⟩, 0, 0, ','⟩,
    ⟨"tags", 1, .TAG, ⟨false, false, false, false, false⟩, 0, 0, ','⟩], [], false, by decide⟩

/-- Index `idx`, `uniqueId` 1, whose document 1 was deleted and document 2 is live. Its price
tree has one range of two blocks, `[1]` and `[2]`; its tag value `red` holds both documents. -/
def gcKs : Keyspace :=
  { Keyspace.empty with
    indexes := fun n => if n = "idx" then
      some ⟨"idx", 1, gcSpec, ⟨[⟨2, "doc2", ⟨0⟩, none, none⟩]⟩, 2, 4⟩ else none
    numIdx := fun k => if k = .field "idx" "price" .NUMERIC then
      some ⟨10, 0, [⟨11, [[1], [2]]⟩], List.cons_ne_nil _ _, fun _ => 0, 2⟩ else none
    tagIdx := fun k => if k = .field "idx" "tags" .TAG then
      some ⟨12, [("red", ⟨13, [[1, 2]]⟩)]⟩ else none
    nextIdent := 20 }

/-- A collector of `idx` whose `specUniqueId` is `uid`, before its first pass, with a host that
does nothing at the yields. -/
def gcWorld (uid : Nat) : GcWorld :=
  ⟨gcKs, ⟨.index "idx", 10, ⟨0, 0⟩, false, uid, []⟩, .OK, [], []⟩

/-- Two passes over an index nobody changes, with a scan of one block. A collector whose
`specUniqueId` is the index's `1` repairs the first block of the price range, refreshes its
context on the field's key at the yield, and reports the index invalid; the tag collector then
repairs again. A collector built by the constructor for `uniqueId` 1, whose member kept `0`,
reports the index invalid before any repair. -/
theorem PeriodicCallback_invalid_on_unchanged_index :
    (PeriodicCallback 100 1 defaultHzBounds 10 false ⟨none, 0, 0, 0⟩ (gcWorld 1)).2 =
      .returned false ∧
    ((PeriodicCallback 100 1 defaultHzBounds 10 false ⟨none, 0, 0, 0⟩ (gcWorld 1)).1.ks.indexes
      "idx").map (·.uniqueId) = some 1 ∧
    ((PeriodicCallback 100 1 defaultHzBounds 10 false ⟨none, 0, 0, 0⟩ (gcWorld 1)).1.repairs.map
      (·.1)) = [.numeric (.field "idx" "price" .NUMERIC) 10 0 11, .tag (.field "idx" "tags" .TAG) "red" 13] ∧
    (PeriodicCallback 100 1 defaultHzBounds 10 false ⟨none, 0, 0, 0⟩
      { gcWorld 1 with gc := GarbageCollector.new (.index "idx") 10 1 0 }).2 = .returned false ∧
    (PeriodicCallback 100 1 defaultHzBounds 10 false ⟨none, 0, 0, 0⟩
      { gcWorld 1 with gc := GarbageCollector.new (.index "idx") 10 1 0 }).1.repairs.map (·.1) =
      [] := by
  decide

end RediSearch
