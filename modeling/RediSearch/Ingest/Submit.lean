import RediSearch.Ingest.UpdateNoIndex

/-!
# `Submit`: from a built context to its completion

`Submit` sends a PARTIAL update to `handlePartialUpdate`, which either updates the metadata
only (`UpdateNoIndex`) or reloads the whole document and rebuilds the context for it
(`ReplaceMerge`); every other ingest, and a reloaded one, goes on to `AddToIndexes`, run
inline or on the worker pool.

`ReplaceMerge` calls `SetDocument` a second time on the same context. `SetDocument` appends
one spec per field to `fspecs` without clearing it, so after the reload the specs of the
update's fields stand in front of those of the reloaded fields (`ReplaceMerge_fspecs`).
-/

namespace RediSearch

open World

variable (P : Parsers) (cap : Nat)

/-- `AddDocumentCtx::AddDocumentCtx(sp, b, status)`: a new context, with `SetDocument` run on
the document; `none` where the constructor throws. -/
def newAddDocumentCtx (sp : IndexSpec) (options : AddOptions) (b : Document) :
    Option AddDocumentCtx :=
  match SetDocument sp (.init options) b 0 with
  | (true, c, _) => some c
  | (false, _, _) => none

/-- `Document::LoadSchemaFields(sctx)`. Modelled from the spec: the values the stored hash of
the key holds for the schema's fields, in schema order, each with no `indexAs`; `none` when
the key holds no hash. -/
def LoadSchemaFields (ks : Keyspace) (sp : IndexSpec) (key : String) :
    Option (List DocumentField) :=
  (ks.hashes key).map fun h =>
    sp.fields.filterMap fun fs => (h.lookup fs.name).map fun v => ⟨fs.name, some v, .none⟩

/-- The schema of the world's index; a world without one has the empty schema. -/
def World.spec (w : World) : IndexSpec :=
  ((w.ks.indexes w.name).map (·.spec)).getD .empty

/-- `AddDocumentCtx::ReplaceMerge(sctx)`: whether the caller must return. The document's
fields are replaced by the reloaded ones in place, and `SetDocument` is run on the context's
own document; its result is not checked. -/
def ReplaceMerge (w : World) : Bool × World :=
  let w := w.access
  if w.halted then (true, w)
  else
    let oldFieldCount := w.ctx.doc.fields.length
    match LoadSchemaFields w.ks w.spec w.ctx.doc.docKey with
    | none =>
      let msg := "Could not load existing document"
      (true, ((w.setCtx fun c => { c with status := c.status.SetError .ENODOC msg }).emit
        .donecb).destroy)
    | some fields =>
      let d := { w.ctx.doc with fields := fields }
      let (_, c, d') := SetDocument w.spec w.ctx d oldFieldCount
      (false, { w with ctx := { c with doc := d' } })

/-- `AddDocumentCtx::handlePartialUpdate(sctx)`: whether the caller must return. -/
def handlePartialUpdate (w : World) : Bool × World :=
  let w := w.access
  if w.halted then (true, w)
  else if w.ctx.stateFlags.indexables then ReplaceMerge w
  else (true, UpdateNoIndex P w)

/-- The bytes `Submit` weighs: the lengths in bytes (`RedisModule_StringPtrLen`, the UTF-8
encoding) of the texts of the fields with a schema field indexed as FULLTEXT or TAG. -/
def submitSize (c : AddDocumentCtx) : Nat :=
  ((c.doc.fields.enum.filter fun (i, ff) =>
    c.IsValid i && (ff.CheckIdx .FULLTEXT || ff.CheckIdx .TAG)).map
      fun (_, ff) => (ff.text.getD "").utf8ByteSize).sum

/-- `SELF_EXEC_THRESHOLD`. -/
def SELF_EXEC_THRESHOLD : Nat := 1024

/-- The part of `Submit` after the PARTIAL check: a blockable context of at least
`SELF_EXEC_THRESHOLD` bytes goes to the worker pool, which runs `AddToIndexes` on it; any
other runs `AddToIndexes` inline. -/
def submitIndex (w : World) : World :=
  let w := w.access
  if w.halted then w
  else if SELF_EXEC_THRESHOLD ≤ submitSize w.ctx ∧ w.ctx.IsBlockable = true then
    runAddToIndexes P cap (w.emit .workerPool)
  else runAddToIndexes P cap w

/-- `AddDocumentCtx::Submit(sctx, options)`, with `partialUpdate` for `DOCUMENT_ADD_PARTIAL`
in the options given to it. -/
def Submit (w : World) (partialUpdate : Bool) : World :=
  if partialUpdate then
    match handlePartialUpdate P w with
    | (true, w) => w
    | (false, w) => submitIndex P cap w
  else submitIndex P cap w

/-! ## The reload leaves the specs of the update in front -/

/-- After a reload that `SetDocument` accepts, the context's specs are those it had, followed
by one per reloaded field: the `i`-th spec is the update's `i`-th field's, not the reloaded
document's. -/
theorem ReplaceMerge_fspecs {w : World} {fields : List DocumentField}
    (ha : w.alive = true) (hh : w.halted = false)
    (hload : LoadSchemaFields w.ks w.spec w.ctx.doc.docKey = some fields)
    (hok : (SetDocument w.spec w.ctx { w.ctx.doc with fields := fields }
      w.ctx.doc.fields.length).1 = true) :
    (ReplaceMerge w).1 = false ∧
    (ReplaceMerge w).2.ctx.fspecs = w.ctx.fspecs ++ fields.map (specFor w.spec) := by
  have hw : w.access = w := by simp [access, ha]
  simp only [ReplaceMerge, hw, hh, hload, Bool.false_eq_true, if_false, true_and]
  exact SetDocument_fspecs w.spec _ _ _ hok

/-- A PARTIAL update of the metadata that `UpdateNoIndex` accepts returns from `Submit` with
no completion: no callback, no `delete`, and nothing else happens to the world but the
metadata write. -/
theorem Submit_metadata_only_success {w : World} {ix : IndexState} {md : DocumentMetadata}
    {dd : List Nat} {md' : DocumentMetadata} (ha : w.alive = true) (hh : w.halted = false)
    (hidx : w.ctx.stateFlags.indexables = false) (hix : w.ks.indexes w.name = some ix)
    (hmd : ix.docs.Get (ix.docs.GetId w.ctx.doc.docKey) = some md)
    (hs : w.ctx.stateFlags.sortables = true)
    (hloop : sortFields P ix.spec [] w.ctx.doc.fields (setScorePayload w.ctx.doc md) =
      .ok (dd, md')) :
    Submit P cap w true =
      { w with ks := w.ks.setMd w.name (ix.docs.GetId w.ctx.doc.docKey) md' } := by
  have hw : w.access = w := by simp [access, ha]
  simp only [Submit, handlePartialUpdate, hw, hh, hidx, Bool.false_eq_true, if_false, if_true,
    UpdateNoIndex_of_metadata P ha hh hix hmd, hs, hloop]
  simp [setKs, hh]

/-! ## Runs at fixed inputs -/

/-- The widget index, holding `doc1` as document 1, whose stored hash has all four fields. -/
def widgetKs : Keyspace :=
  { Keyspace.empty with
    indexes := fun n => if n = "idx" then
      some ⟨"idx", 1, widgetSpec, ⟨[⟨1, "doc1", ⟨0⟩, none, some (.new 2)⟩]⟩, 1, 4⟩ else none
    hashes := fun k => if k = "doc1" then
      some [("title", "Widget"), ("price", "9.99"), ("loc", "1.0,2.0"), ("tags", "red,blue")]
      else none }

/-- `PARTIAL` update of `doc1` with `{price:"19.99"}`: an indexable field, so the update is
reindexed through `ReplaceMerge`. -/
def priceUpdate : World :=
  ⟨widgetKs, "idx",
    (SetDocument widgetSpec (.init ⟨false, true⟩)
      ⟨"doc1", 0, ⟨0⟩, none, [textField "price" "19.99"]⟩ 0).2.1, true, false, []⟩

/-- After the reload the first spec is price's, in front of the reloaded title field, and
`AddToIndexes` puts the title's text in price's sort slot and the price in title's. -/
theorem ReplaceMerge_misaligns_priceUpdate :
    (handlePartialUpdate sampleParsers priceUpdate).1 = false ∧
    (handlePartialUpdate sampleParsers priceUpdate).2.ctx.doc.fields.map (·.name) =
      ["title", "price", "loc", "tags"] ∧
    (handlePartialUpdate sampleParsers priceUpdate).2.ctx.fspecs =
      [priceSpec, titleSpec, priceSpec, locSpec, tagsSpec] ∧
    (AddToIndexes sampleParsers (handlePartialUpdate sampleParsers priceUpdate).2.ctx).ctx.sv =
      some ⟨[some (.num ⟨0x4023FAE147AE147B⟩), some (.str "Widget")]⟩ := by
  decide

/-- A metadata-only PARTIAL update that succeeds ends with no completion callback and no
`delete`; one of an unknown key completes, deletes the context, and then writes its status. -/
theorem Submit_partial_completion_widget :
    (Submit sampleParsers 100 (sortOnlyUpdate "doc1" [textField "title" "Hello"]) true).events =
      [] ∧
    (Submit sampleParsers 100 (sortOnlyUpdate "doc1" [textField "title" "Hello"]) true).alive =
      true ∧
    (Submit sampleParsers 100 (sortOnlyUpdate "doc2" [textField "title" "Hello"]) true).events =
      [.donecb, .destroy, .useAfterFree] := by
  decide

end RediSearch
