import RediSearch.Document.Types

/-!
# The ingest context and `SetDocument`

`AddDocumentCtx` keeps, for the document it ingests, one `FieldSpec` and one
`FieldIndexerData` per field, the state flags derived from the fields, and the per-document
buffers the preprocessors fill (sorting vector, byte offsets, forward index). `SetDocument`
resolves every field against the schema, rejects a field given twice or asked to be indexed
as a type its schema field does not have, and derives the flags.

The field loop is `setDocumentFields`, one iteration `setDocumentField`; an early
`return false` is an `Except.error` carrying the context as the loop left it, and the
document's fields as far as they were rewritten (the loop writes `indexAs` in place).
-/

namespace RediSearch

/-- `ACTX_F_*`, the state flags of an ingest context. -/
structure StateFlags where
  indexables : Bool
  textIndexed : Bool
  otherIndexed : Bool
  sortables : Bool
  empty : Bool
  noBlock : Bool
  deriving DecidableEq, Repr

/-- The flags of a context built by the constructor, `stateFlags = 0`. -/
def StateFlags.zero : StateFlags := ⟨false, false, false, false, false, false⟩

/-- The `DOCUMENT_ADD_*` options the modelled code reads. -/
structure AddOptions where
  noSave : Bool
  partialUpdate : Bool
  deriving DecidableEq, Repr

/-- `FieldIndexerData`: what the preprocessors leave for the bulk indexer. -/
structure FieldIndexerData where
  numeric : Double
  geoSlon : String
  geoSlat : String
  tags : List String
  deriving DecidableEq, Repr

def FieldIndexerData.zero : FieldIndexerData := ⟨⟨0⟩, "", "", []⟩

/-- `RSByteOffsets`: room for `capacity` fields, and the regions recorded so far as
`(ftId, first token, last token)`. -/
structure ByteOffsets where
  capacity : Nat
  fields : List (Nat × Nat × Nat)
  deriving DecidableEq, Repr

/-- The state of an `AddDocumentCtx` that the modelled code reads or writes. `fwIdx` is the
forward index as the tokens added to it, `lastOffset` the document tokenizer's. -/
structure AddDocumentCtx where
  stateFlags : StateFlags
  options : AddOptions
  doc : Document
  fspecs : List FieldSpec
  fdatas : List FieldIndexerData
  sv : Option SortingVector
  byteOffsets : Option ByteOffsets
  docFlags : Bool
  status : QueryError
  totalTokens : Nat
  fwIdx : List (Nat × String)
  lastOffset : Nat
  deriving DecidableEq, Repr

namespace AddDocumentCtx

/-- The empty document a context holds before its first `SetDocument`. -/
def emptyDoc : Document := ⟨"", 0, ⟨0⟩, none, []⟩

/-- A context as the constructor leaves it before calling `SetDocument`. -/
def init (options : AddOptions) : AddDocumentCtx :=
  ⟨.zero, options, emptyDoc, [], [], none, none, false, .ok, 0, [], 0⟩

/-- `AddDocumentCtx::IsBlockable`. -/
def IsBlockable (c : AddDocumentCtx) : Bool := !c.stateFlags.noBlock

/-- `fspecs[i].name != ""`, whether field `i` has a schema field. -/
def IsValid (c : AddDocumentCtx) (i : Nat) : Bool := (c.fspecs.getD i .empty).name != ""

end AddDocumentCtx

/-! ## Resolving a field -/

/-- The schema field a document field resolves to, when it has one and carries text; the
fields of `R` in the contract of `SetDocument`. -/
def resolve (sp : IndexSpec) (f : DocumentField) : Option FieldSpec :=
  match sp.GetField f.name, f.text with
  | some fs, some _ => some fs
  | _, _ => none

/-- The `indexAs` a resolved field ends with: the schema types when the caller gave none. -/
def resolvedIndexAs (f : DocumentField) (fs : FieldSpec) : FieldTypes :=
  if f.indexAs.any then f.indexAs else fs.types

/-- Whether the caller's `indexAs` is outside the schema types, the `UNSUPPTYPE` check. -/
def badIndexAs (f : DocumentField) (fs : FieldSpec) : Bool :=
  f.indexAs.any && !FieldTypes.subset f.indexAs fs.types

/-- The message of `QUERY_EDUPFIELD`. -/
def dupFieldMsg (fs : FieldSpec) : String := "Tried to insert `" ++ fs.name ++ "` twice"

/-- The message of `QUERY_EUNSUPPTYPE`. -/
def unsuppTypeMsg (fs : FieldSpec) : String :=
  "Tried to index field " ++ fs.name ++ " as type not specified in schema"

/-! ## The field loop -/

/-- The locals of the field loop of `SetDocument`. -/
structure SetDocLoop where
  numTextIndexable : Nat
  dedupe : List Nat
  hasTextFields : Bool
  hasOtherFields : Bool
  deriving DecidableEq, Repr

/-- What one indexable field adds to the loop's counters. -/
def SetDocLoop.addIndexable (l : SetDocLoop) (f : DocumentField) : SetDocLoop :=
  { l with
    numTextIndexable := l.numTextIndexable + (if f.CheckIdx .FULLTEXT then 1 else 0)
    hasTextFields := l.hasTextFields || f.CheckIdx .FULLTEXT
    hasOtherFields := l.hasOtherFields || f.indexAs != .FULLTEXT }

/-- One iteration of the field loop of `SetDocument`. -/
def setDocumentField (sp : IndexSpec) (c : AddDocumentCtx) (l : SetDocLoop)
    (f : DocumentField) : Except AddDocumentCtx (AddDocumentCtx × SetDocLoop × DocumentField) :=
  match resolve sp f with
  | none => .ok ({ c with fspecs := c.fspecs ++ [.empty] }, l, f)
  | some fs =>
    let c := { c with fspecs := c.fspecs ++ [fs] }
    if fs.index ∈ l.dedupe then
      .error { c with status := c.status.SetError .EDUPFIELD (dupFieldMsg fs) }
    else
      let l := { l with dedupe := fs.index :: l.dedupe }
      let c := { c with stateFlags := { c.stateFlags with
                   sortables := c.stateFlags.sortables || fs.IsSortable } }
      if badIndexAs f fs then
        .error { c with status := c.status.SetError .EUNSUPPTYPE (unsuppTypeMsg fs) }
      else
        let f := { f with indexAs := resolvedIndexAs f fs }
        if fs.IsIndexable then
          .ok ({ c with docFlags := c.docFlags || f.CheckIdx .GEO }, l.addIndexable f, f)
        else .ok (c, l, f)

/-- The field loop of `SetDocument`. On an early return it gives the context and the
document's fields as they are at that point. -/
def setDocumentFields (sp : IndexSpec) : AddDocumentCtx → SetDocLoop → List DocumentField →
    Except (AddDocumentCtx × List DocumentField) (AddDocumentCtx × SetDocLoop × List DocumentField)
  | c, l, [] => .ok (c, l, [])
  | c, l, f :: fs =>
    match setDocumentField sp c l f with
    | .error c' => .error (c', f :: fs)
    | .ok (c', l', f') =>
      match setDocumentFields sp c' l' fs with
      | .error (c'', fs') => .error (c'', f' :: fs')
      | .ok (c'', l'', fs') => .ok (c'', l'', f' :: fs')

/-- The loop to the final flags of `SetDocument` (lines 95-126). -/
def setDocumentFlags (sp : IndexSpec) (c : AddDocumentCtx) (l : SetDocLoop) : AddDocumentCtx :=
  let sf := { c.stateFlags with
    indexables := l.hasTextFields || l.hasOtherFields
    textIndexed := !l.hasTextFields
    otherIndexed := !l.hasOtherFields }
  let sv := if sf.sortables && c.sv.isNone then some (SortingVector.new sp.sortables.length)
    else c.sv
  let empty := sv.isNone && !l.hasTextFields && !l.hasOtherFields
  let sf := { sf with empty := sf.empty || empty }
  let bo := if !c.options.noSave && l.numTextIndexable != 0 && sp.storeByteOffsets then
      some ⟨l.numTextIndexable, []⟩ else c.byteOffsets
  { c with stateFlags := sf, sv := sv, byteOffsets := bo }

/-- `fdatas[i].tags = TagIndex::Tags()` for every field of the new document. -/
def zeroTags (fds : List FieldIndexerData) (n : Nat) : List FieldIndexerData :=
  (List.range n).map (fun i => { fds.getD i .zero with tags := [] }) ++ fds.drop n

/-- The context as `SetDocument` enters its field loop: the three index flags cleared and
the tag slots of the new document's `n` fields zeroed. -/
def setDocumentStart (c : AddDocumentCtx) (n : Nat) : AddDocumentCtx :=
  { c with
    stateFlags := { c.stateFlags with indexables := false, textIndexed := false,
                                      otherIndexed := false }
    fdatas := zeroTags c.fdatas n }

/-- `AddDocumentCtx::SetDocument(sp, d, oldFieldCount)`: whether it succeeded, the context,
and the document `d` as it leaves it (its fields' `indexAs` are rewritten in place). On
success the context holds `d`. -/
def SetDocument (sp : IndexSpec) (c : AddDocumentCtx) (d : Document) (_oldFieldCount : Nat) :
    Bool × AddDocumentCtx × Document :=
  match setDocumentFields sp (setDocumentStart c d.fields.length) ⟨0, [], false, false⟩ d.fields with
  | .error (c', fs') => (false, c', { d with fields := fs' })
  | .ok (c', l, fs') =>
    let d' := { d with fields := fs' }
    (true, { setDocumentFlags sp c' l with doc := d' }, d')

end RediSearch
