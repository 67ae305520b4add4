import RediSearch.Ingest.Indexer

/-!
# `UpdateNoIndex`: the metadata-only PARTIAL update

A PARTIAL update whose fields are none of them indexable changes the stored document's
metadata in place: the score, the payload when one is given, and, when the update has
sortable fields, their sort slots. The metadata is written through a pointer into the
document table, so every write is visible at once; the model writes the metadata back at
the point the code stops writing it.

The sortable loop is `sortFields`, one iteration `sortField`. Its early exits are `BAIL`s,
whose macro sets the error, calls the completion callback and deletes the context, but has
no `return`: the code after a `BAIL` goes on (`afterStop`).
-/

namespace RediSearch

open World

variable (P : Parsers)

/-! ## The sortable loop -/

/-- Where the sortable loop of `UpdateNoIndex` leaves the success path. -/
inductive SortStop
  /-- `BAIL("Requested to index field twice")`. -/
  | twice
  /-- `throw Error("Dynamic field cannot use PARTIAL")`. -/
  | dynamic
  /-- `BAIL("Could not parse numeric index value")`. -/
  | notNumeric
  /-- `BAIL("Unsupported sortable type")`. -/
  | unsupported
  /-- `RedisModule_StringPtrLen` or `RedisModule_StringToDouble` on a null `f->text`. -/
  | noText
  deriving DecidableEq, Repr

/-- `md->sortVector`, allocated with `sortables->len` slots when the document has none. -/
def allocSortVector (sp : IndexSpec) (md : DocumentMetadata) : DocumentMetadata :=
  { md with sortVector := some (md.sortVector.getD (.new sp.sortables.length)) }

/-- The value the `switch (fs->types)` of the loop puts in the slot of a field of text `text`;
an error for a type the switch bails on or a text it cannot read. -/
def sortValue (fs : FieldSpec) (text : Option String) : Except SortStop SortValue :=
  if fs.types = .FULLTEXT ∨ fs.types = .TAG then
    match text with
    | none => .error .noText
    | some t => .ok (.str (cstr t))
  else if fs.types = .NUMERIC then
    match text with
    | none => .error .noText
    | some t =>
      match P.stringToDouble t with
      | none => .error .notNumeric
      | some v => .ok (.num v)
  else .error .unsupported

/-- One iteration of the sortable loop on the metadata `md`, with the schema indexes `dd`
seen so far. -/
def sortField (sp : IndexSpec) (dd : List Nat) (f : DocumentField) (md : DocumentMetadata) :
    Except (SortStop × DocumentMetadata) (List Nat × DocumentMetadata) :=
  match sp.GetField f.name with
  | none => .ok (dd, md)
  | some fs =>
    if !fs.IsSortable then .ok (dd, md)
    else if fs.index ∈ dd then .error (.twice, md)
    else
      match sp.GetFieldSortingIndex f.name with
      | none => .ok (fs.index :: dd, md)
      | some idx =>
        let md := allocSortVector sp md
        if fs.options.dynamic then .error (.dynamic, md)
        else
          match sortValue P fs f.text with
          | .error s => .error (s, md)
          | .ok v => .ok (fs.index :: dd, { md with sortVector := md.sortVector.map (·.Put idx v) })

/-- The sortable loop of `UpdateNoIndex`. A stop gives the fields after the one it stopped
at and the metadata as the loop left it. -/
def sortFields (sp : IndexSpec) : List Nat → List DocumentField → DocumentMetadata →
    Except (SortStop × List DocumentField × DocumentMetadata) (List Nat × DocumentMetadata)
  | dd, [], md => .ok (dd, md)
  | dd, f :: fs, md =>
    match sortField P sp dd f md with
    | .error (s, md) => .error (s, fs, md)
    | .ok (dd, md) => sortFields sp dd fs md

/-! ## `UpdateNoIndex` on the world -/

/-- `BAIL(s)`: the error on the status, the completion callback, `delete this`. -/
def bail (w : World) (msg : String) : World :=
  ((w.setCtx fun c => { c with status := c.status.SetError .EGENERIC msg }).emit .donecb).destroy

/-- Replace the metadata of document `docId` of index `name`. -/
def Keyspace.setMd (ks : Keyspace) (name : String) (docId : Nat) (md : DocumentMetadata) :
    Keyspace :=
  ks.modifyIndex name fun ix => { ix with docs := ix.docs.update docId md }

/-- The score, and the payload when the update gives one: what `UpdateNoIndex` writes before
its sortable loop. -/
def setScorePayload (d : Document) (md : DocumentMetadata) : DocumentMetadata :=
  { md with score := d.score, payload := if d.payload.isSome then d.payload else md.payload }

/-- What the code after a stop of the sortable loop does. After the duplicate `BAIL` the loop
reads `f->name` of the deleted document; after the numeric `BAIL` it puts the uninitialized
`numval`; after the type `BAIL` it goes on to the next field, if there is one. -/
def afterStop (w : World) : SortStop → List DocumentField → World
  | .twice, _ => (bail w "Requested to index field twice").access
  | .notNumeric, _ => (bail w "Could not parse numeric index value").halt .uninitializedRead
  | .unsupported, rest =>
    let w := bail w "Unsupported sortable type"
    if rest = [] then w else w.access
  | .dynamic, _ => w.halt (.throw "Dynamic field cannot use PARTIAL")
  | .noText, _ => w.halt .nullDeref

/-- `AddDocumentCtx::UpdateNoIndex(sctx)`. After the `BAIL` on a missing id the code looks up
document `0`, finds no metadata, and bails again on the deleted context. -/
def UpdateNoIndex (w : World) : World :=
  let w := w.access
  if w.halted then w
  else
    match w.ks.indexes w.name with
    | none => w.halt .nullDeref
    | some ix =>
      let docId := ix.docs.GetId w.ctx.doc.docKey
      let w := if docId = 0 then bail w "Couldn't load old document" else w
      match ix.docs.Get docId with
      | none => (bail w "Couldn't load document metadata").access
      | some md =>
        let md := setScorePayload w.ctx.doc md
        if w.ctx.stateFlags.sortables then
          match sortFields P ix.spec [] w.ctx.doc.fields md with
          | .ok (_, md) => w.setKs (·.setMd w.name docId md)
          | .error (s, rest, md) => afterStop (w.setKs (·.setMd w.name docId md)) s rest
        else w.setKs (·.setMd w.name docId md)

@[simp] theorem ks_bail (w : World) (msg : String) : (bail w msg).ks = w.ks := by
  simp [bail]

@[simp] theorem ks_afterStop (w : World) (s : SortStop) (rest : List DocumentField) :
    (afterStop w s rest).ks = w.ks := by
  cases s <;> simp only [afterStop] <;> (try split_ifs) <;> simp

/-! ## What a failing update leaves in the metadata -/

section Loop

variable {sp : IndexSpec} {dd : List Nat} {md md' : DocumentMetadata}

/-- A stop of one iteration: a second occurrence leaves the metadata as it was; every other
stop comes after the sort vector was allocated. -/
theorem sortField_error {f : DocumentField} {s : SortStop}
    (h : sortField P sp dd f md = .error (s, md')) :
    md' = md ∧ s = .twice ∨ md' = allocSortVector sp md := by
  unfold sortField at h
  split at h
  · cases h
  · split_ifs at h <;> (try split at h) <;> (try split at h) <;> cases h
    all_goals first | exact .inl ⟨rfl, rfl⟩ | exact .inr rfl

/-- A stop of the loop is a stop of one iteration after a successful prefix. -/
theorem sortFields_error {fs rest : List DocumentField} {s : SortStop}
    (h : sortFields P sp dd fs md = .error (s, rest, md')) :
    ∃ pre f dd₁ md₁, fs = pre ++ f :: rest ∧ sortFields P sp dd pre md = .ok (dd₁, md₁) ∧
      sortField P sp dd₁ f md₁ = .error (s, md') := by
  induction fs generalizing dd md with
  | nil => cases h
  | cons f fs ih =>
    unfold sortFields at h
    split at h
    next s' md'' hf =>
      cases h
      exact ⟨[], f, dd, md, rfl, rfl, hf⟩
    next dd₂ md₂ hf =>
      obtain ⟨pre, g, dd₁, md₁, rfl, hpre, hg⟩ := ih h
      exact ⟨f :: pre, g, dd₁, md₁, rfl, by simp only [List.cons_append, sortFields, hf, hpre], hg⟩

end Loop

/-- What a failing `UpdateNoIndex` has written to the keyspace where the model stops: a key with
no id or no metadata leaves it as it was; a stop of the sortable loop at field `f` leaves the
document's metadata as the success path leaves it after the fields before `f` (new score and
payload, their slots written), with the sort vector allocated unless `f` was a second
occurrence. After the duplicate and the numeric `BAIL` the code goes on, to a read of the
deleted context and a `Put` of the uninitialized `numval`; the model stops at those reads
(`afterStop`), so for them this is the keyspace at the read. -/
structure UpdateFailureWrites (w : World) (ix : IndexState) : Prop where
  lookup : ix.docs.Get (ix.docs.GetId w.ctx.doc.docKey) = none → (UpdateNoIndex P w).ks = w.ks
  loop : ∀ md s rest md', ix.docs.Get (ix.docs.GetId w.ctx.doc.docKey) = some md →
    w.ctx.stateFlags.sortables = true →
    sortFields P ix.spec [] w.ctx.doc.fields (setScorePayload w.ctx.doc md) =
      .error (s, rest, md') →
    (UpdateNoIndex P w).ks = w.ks.setMd w.name (ix.docs.GetId w.ctx.doc.docKey) md' ∧
    ∃ pre f dd md₁, w.ctx.doc.fields = pre ++ f :: rest ∧
      sortFields P ix.spec [] pre (setScorePayload w.ctx.doc md) = .ok (dd, md₁) ∧
      (md' = md₁ ∧ s = .twice ∨ md' = allocSortVector ix.spec md₁)

section Run

variable {w : World} {ix : IndexState} {md : DocumentMetadata}

theorem UpdateNoIndex_of_metadata (ha : w.alive = true) (hh : w.halted = false)
    (hix : w.ks.indexes w.name = some ix)
    (hmd : ix.docs.Get (ix.docs.GetId w.ctx.doc.docKey) = some md) :
    UpdateNoIndex P w =
      let md := setScorePayload w.ctx.doc md
      let docId := ix.docs.GetId w.ctx.doc.docKey
      if w.ctx.stateFlags.sortables then
        match sortFields P ix.spec [] w.ctx.doc.fields md with
        | .ok (_, md) => w.setKs (·.setMd w.name docId md)
        | .error (s, rest, md) => afterStop (w.setKs (·.setMd w.name docId md)) s rest
      else w.setKs (·.setMd w.name docId md) := by
  have hid : ix.docs.GetId w.ctx.doc.docKey ≠ 0 := fun h0 => by
    simp [h0, DocTable.Get] at hmd
  simp only [UpdateNoIndex, access, ha, if_true, hh, hix, hid, if_false, hmd, Bool.false_eq_true]

end Run

theorem UpdateNoIndex_failure_writes (w : World) (ix : IndexState) (ha : w.alive = true)
    (hh : w.halted = false) (hix : w.ks.indexes w.name = some ix) :
    UpdateFailureWrites P w ix := by
  refine ⟨fun hmd => ?_, fun md s rest md' hmd hs hloop => ?_⟩
  · simp only [UpdateNoIndex, access, ha, if_true, hh, hix, hmd]
    split_ifs <;> simp
  · obtain ⟨pre, f, dd, md₁, hfs, hpre, hf⟩ := sortFields_error P hloop
    refine ⟨?_, pre, f, dd, md₁, hfs, hpre, sortField_error P hf⟩
    rw [UpdateNoIndex_of_metadata P ha hh hix hmd]
    simp [hs, hloop, setKs, hh]

/-! ## Sort slots: the metadata-only path against the preprocessors -/

section Slots

variable {sp : IndexSpec} {dd dd' : List Nat} {md md' : DocumentMetadata} {sv : SortingVector}

/-- A sortable field the loop accepts has its slot put with the value `sortValue` gives, in
the document's sort vector or, when it has none, in a new one. -/
theorem sortField_ok_sortable {f : DocumentField} {fs : FieldSpec}
    (hfs : sp.GetField f.name = some fs) (hsort : fs.IsSortable = true)
    (hmd : (allocSortVector sp md).sortVector = some sv)
    (h : sortField P sp dd f md = .ok (dd', md')) :
    ∃ v, sortValue P fs f.text = .ok v ∧ md'.sortVector = some (sv.Put fs.sortIdx v) := by
  have hidx := sp.GetFieldSortingIndex_of_GetField hfs hsort
  simp only [sortField, hfs, hsort, hidx, Bool.not_true, Bool.false_eq_true, if_false] at h
  split_ifs at h
  split at h
  · cases h
  · cases h
    exact ⟨_, ‹_›, by rw [hmd]; rfl⟩

theorem allocSortVector_of_some (hmd : md.sortVector = some sv) :
    (allocSortVector sp md).sortVector = some sv := by
  simp [allocSortVector, hmd]

@[simp] theorem allocSortVector_idem (sp : IndexSpec) (md : DocumentMetadata) :
    allocSortVector sp (allocSortVector sp md) = allocSortVector sp md := by
  simp [allocSortVector]

/-- The loop does to a document what it does to the document with its sort vector allocated,
up to that allocation. -/
theorem sortField_alloc {f : DocumentField} (h : sortField P sp dd f md = .ok (dd', md')) :
    sortField P sp dd f (allocSortVector sp md) = .ok (dd', allocSortVector sp md') := by
  unfold sortField at h ⊢
  split at h
  · cases h
    rfl
  split_ifs at h ⊢ <;> (try split at h) <;> (try split at h) <;> cases h <;>
    simp [allocSortVector]

theorem sortFields_alloc {fs : List DocumentField} (h : sortFields P sp dd fs md = .ok (dd', md')) :
    sortFields P sp dd fs (allocSortVector sp md) = .ok (dd', allocSortVector sp md') := by
  induction fs generalizing dd md with
  | nil => cases h; rfl
  | cons f fs ih =>
    unfold sortFields at h ⊢
    split at h
    · cases h
    next dd₁ md₁ hf =>
      rw [sortField_alloc P hf]
      exact ih h

/-- The slots of a successful loop other than those of the update's sortable fields are as
they were. -/
theorem sortFields_get_of_ne {fs : List DocumentField} (h : sortFields P sp dd fs md = .ok (dd', md'))
    (hmd : md.sortVector = some sv) {j : Nat}
    (hj : ∀ f ∈ fs, ∀ g, sp.GetField f.name = some g → g.IsSortable = true → g.sortIdx ≠ j) :
    ∃ sv', md'.sortVector = some sv' ∧ sv'.get j = sv.get j := by
  induction fs generalizing dd md sv with
  | nil => cases h; exact ⟨sv, hmd, rfl⟩
  | cons f fs ih =>
    unfold sortFields at h
    split at h
    · cases h
    next dd₁ md₁ hf =>
      have hstep : ∃ sv₁, md₁.sortVector = some sv₁ ∧ sv₁.get j = sv.get j := by
        cases hg : sp.GetField f.name with
        | none => simp only [sortField, hg, Except.ok.injEq, Prod.mk.injEq] at hf
                  exact ⟨sv, hf.2 ▸ hmd, rfl⟩
        | some g =>
          by_cases hs : g.IsSortable = true
          · obtain ⟨v, -, hv⟩ := sortField_ok_sortable P hg hs (allocSortVector_of_some hmd) hf
            refine ⟨_, hv, ?_⟩
            rw [SortingVector.get_Put, if_neg]
            exact fun h' => hj f (List.mem_cons_self _ _) g hg hs h'.1
          · simp only [sortField, hg, hs, Bool.not_false, if_true, Except.ok.injEq,
              Prod.mk.injEq] at hf
            exact ⟨sv, hf.2 ▸ hmd, rfl⟩
      obtain ⟨sv₁, hsv₁, hget⟩ := hstep
      obtain ⟨sv', h', hget'⟩ := ih h hsv₁ fun f hf => hj f (List.mem_cons_of_mem _ hf)
      exact ⟨sv', h', hget'.trans hget⟩

/-- So do those of a successful loop on a document without a sort vector, in the vector the
loop allocated, or the new one it would allocate. -/
theorem sortFields_get_of_ne_alloc {fs : List DocumentField}
    (h : sortFields P sp dd fs md = .ok (dd', md')) (hmd : md.sortVector = none) {j : Nat}
    (hj : ∀ f ∈ fs, ∀ g, sp.GetField f.name = some g → g.IsSortable = true → g.sortIdx ≠ j) :
    ∃ sv', (allocSortVector sp md').sortVector = some sv' ∧
      sv'.get j = (SortingVector.new sp.sortables.length).get j :=
  sortFields_get_of_ne P (sortFields_alloc P h) (by simp [allocSortVector, hmd]) hj

theorem putSortable_of_sortable {fs : FieldSpec} {c : AddDocumentCtx} (hs : fs.IsSortable = true)
    (hsv : c.sv = some sv) (v : SortValue) :
    putSortable fs c v = some { c with sv := some (sv.Put fs.sortIdx v) } := by
  simp [putSortable, hs, AddDocumentCtx.putSv, hsv]

/-- One sortable field of a PARTIAL update, against the preprocessors the full path runs on
it (its `indexAs` resolved to the schema types): both accept it, and they leave the same
sort vector, except for a TAG field whose text parses to no tags, whose slot the
metadata-only path writes and the preprocessors do not. -/
theorem sortField_vs_preprocessors {f : DocumentField} {fs : FieldSpec} {text : String}
    {c : AddDocumentCtx} {i : Nat} (hfs : sp.GetField f.name = some fs)
    (hsort : fs.IsSortable = true) (htext : f.text = some text) (hc : c.fieldText i = text)
    (hsv : c.sv = some sv) (hmd : (allocSortVector sp md).sortVector = some sv)
    (hok : sortField P sp dd f md = .ok (dd', md')) :
    (preprocessTypes P fs i addDone (fieldTypes { f with indexAs := fs.types }) c).outcome =
      .indexerAdd ∧
    ((preprocessTypes P fs i addDone (fieldTypes { f with indexAs := fs.types }) c).ctx.sv =
        md'.sortVector ∨
      fs.types = .TAG ∧ P.tags fs.tagSep text = [] ∧
        (preprocessTypes P fs i addDone (fieldTypes { f with indexAs := fs.types }) c).ctx.sv =
          some sv ∧
        md'.sortVector = some (sv.Put fs.sortIdx (.str (cstr text)))) := by
  obtain ⟨v, hv, hmd'⟩ := sortField_ok_sortable P hfs hsort hmd hok
  rw [hmd']
  unfold sortValue at hv
  rw [htext] at hv
  split_ifs at hv with htf hnum
  · cases hv
    rcases htf with ht | ht
    · have hty : fieldTypes { f with indexAs := fs.types } = [.FULLTEXT] := by rw [ht]; rfl
      simp only [hty, preprocessTypes, preprocess, if_true, FulltextPreprocessor,
        putSortable_of_sortable hsort hsv, Option.map_some', hc]
      split_ifs <;> exact ⟨rfl, .inl rfl⟩
    · have hty : fieldTypes { f with indexAs := fs.types } = [.TAG] := by rw [ht]; rfl
      have hne : FieldTypes.TAG ≠ .FULLTEXT ∧ FieldTypes.TAG ≠ .NUMERIC ∧
          FieldTypes.TAG ≠ .GEO := by decide
      simp only [hty, preprocessTypes, preprocess, hne, if_false, TagPreprocessor, hc,
        AddDocumentCtx.fieldText_setFdata]
      by_cases htags : P.tags fs.tagSep text = []
      · simp only [htags, List.isEmpty_nil, if_true]
        refine ⟨rfl, .inr ⟨ht, ?_, hsv, ?_⟩⟩ <;> trivial
      · have hne' : (P.tags fs.tagSep text).isEmpty = false := List.isEmpty_eq_false.2 htags
        simp only [hne', Bool.false_eq_true, if_false,
          putSortable_of_sortable (c := c.setFdata _ _) hsort hsv, Option.map_some']
        exact ⟨rfl, .inl rfl⟩
  · cases hp : P.stringToDouble text with
    | none => simp [hp] at hv
    | some d =>
      simp only [hp, Except.ok.injEq] at hv
      subst hv
      have hty : fieldTypes { f with indexAs := fs.types } = [.NUMERIC] := by rw [hnum]; rfl
      have hne : FieldTypes.NUMERIC ≠ .FULLTEXT := by decide
      simp only [hty, preprocessTypes, preprocess, hne, if_false, if_true, NumericPreprocessor,
        hc, hp, putSortable_of_sortable (c := c.setFdata _ _) hsort hsv, Option.map_some']
      exact ⟨rfl, .inl rfl⟩

end Slots

/-- A PARTIAL update's sort slots against the full path. For one sortable field of the update
the metadata-only path and the preprocessors of the full path both accept the field and leave
the same sort vector, the document's or, when it has none, the new one the loop allocates,
except a TAG field whose text parses to no tags, whose slot only the metadata-only path writes
(as STR of the text); and a successful loop leaves every slot no sortable field of the update
maps to as it was, or, on a document without a sort vector, as in a new vector. -/
theorem UpdateNoIndex_sort_slots_vs_full_path (sp : IndexSpec) :
    (∀ (dd dd' : List Nat) (f : DocumentField) (fs : FieldSpec) (text : String)
      (md md' : DocumentMetadata) (c : AddDocumentCtx) (i : Nat) (sv : SortingVector),
      sp.GetField f.name = some fs → fs.IsSortable = true → f.text = some text →
      c.fieldText i = text → c.sv = some sv → (allocSortVector sp md).sortVector = some sv →
      sortField P sp dd f md = .ok (dd', md') →
      (preprocessTypes P fs i addDone (fieldTypes { f with indexAs := fs.types }) c).outcome =
        .indexerAdd ∧
      ((preprocessTypes P fs i addDone (fieldTypes { f with indexAs := fs.types }) c).ctx.sv =
          md'.sortVector ∨
        fs.types = .TAG ∧ P.tags fs.tagSep text = [] ∧
          (preprocessTypes P fs i addDone (fieldTypes { f with indexAs := fs.types }) c).ctx.sv =
            some sv ∧
          md'.sortVector = some (sv.Put fs.sortIdx (.str (cstr text))))) ∧
    (∀ (dd dd' : List Nat) (fields : List DocumentField) (md md' : DocumentMetadata)
      (sv : SortingVector) (j : Nat),
      sortFields P sp dd fields md = .ok (dd', md') → md.sortVector = some sv →
      (∀ f ∈ fields, ∀ g, sp.GetField f.name = some g → g.IsSortable = true → g.sortIdx ≠ j) →
      ∃ sv', md'.sortVector = some sv' ∧ sv'.get j = sv.get j) ∧
    (∀ (dd dd' : List Nat) (fields : List DocumentField) (md md' : DocumentMetadata) (j : Nat),
      sortFields P sp dd fields md = .ok (dd', md') → md.sortVector = none →
      (∀ f ∈ fields, ∀ g, sp.GetField f.name = some g → g.IsSortable = true → g.sortIdx ≠ j) →
      ∃ sv', (allocSortVector sp md').sortVector = some sv' ∧
        sv'.get j = (SortingVector.new sp.sortables.length).get j) :=
  ⟨fun _ _ _ _ _ _ _ _ _ _ hfs hsort htext hc hsv hmd hok =>
      sortField_vs_preprocessors P hfs hsort htext hc hsv hmd hok,
    fun _ _ _ _ _ _ _ h hmd hj => sortFields_get_of_ne P h hmd hj,
    fun _ _ _ _ _ _ h hmd hj => sortFields_get_of_ne_alloc P h hmd hj⟩

/-! ## Sort-only fields

A schema whose fields are kept for sorting only: a PARTIAL update of them has no indexable
field, and goes to `UpdateNoIndex`. -/

/-- `{title: TEXT SORTABLE NOINDEX, price: NUMERIC SORTABLE NOINDEX, tags: TAG SEPARATOR ','
SORTABLE NOINDEX}`. -/
def sortOnlySpec : IndexSpec :=
  ⟨[⟨"title", 0, .FULLTEXT, ⟨true, false, false, false, true⟩, 0, 0, ','⟩,
    ⟨"price", 1, .NUMERIC, ⟨true, false, false, false, true⟩, 0, 1, ','⟩,
    ⟨"tags", 2, .TAG, ⟨true, false, false, false, true⟩, 0, 2, ','⟩],
   ["title", "price", "tags"], false, by decide⟩

/-- The index `idx` of that schema, holding `doc1` as document 1, score 0, with an empty sort
vector. -/
def sortOnlyIndex : IndexState :=
  ⟨"idx", 1, sortOnlySpec, ⟨[⟨1, "doc1", ⟨0⟩, none, some (.new 3)⟩]⟩, 1, 0⟩

/-- A PARTIAL update of the document of key `key` to score 5 with `fields`, its context as the
constructor leaves it. -/
def sortOnlyUpdate (key : String) (fields : List DocumentField) : World :=
  ⟨{ Keyspace.empty with indexes := fun n => if n = "idx" then some sortOnlyIndex else none },
    "idx",
    (SetDocument sortOnlySpec (.init ⟨false, true⟩)
      ⟨key, 0, ⟨0x4014000000000000⟩, none, fields⟩ 0).2.1,
    true, false, []⟩

/-- A PARTIAL update whose price does not parse fails: the `BAIL` runs the completion callback
and deletes the context. The new score, written before the sortable loop, stays in the stored
metadata, and the code goes on past the `BAIL` to read the uninitialized `numval`. -/
theorem UpdateNoIndex_bad_price_keeps_new_score :
    (UpdateNoIndex sampleParsers (sortOnlyUpdate "doc1" [textField "price" "abc"])).events =
      [.donecb, .destroy, .uninitializedRead] ∧
    ((UpdateNoIndex sampleParsers (sortOnlyUpdate "doc1" [textField "price" "abc"])).ks.docsOf "idx").Get 1 =
      some ⟨1, "doc1", ⟨0x4014000000000000⟩, none, some (.new 3)⟩ ∧
    ((sortOnlyUpdate "doc1" [textField "price" "abc"]).ks.docsOf "idx").Get 1 =
      some ⟨1, "doc1", ⟨0⟩, none, some (.new 3)⟩ := by
  decide

/-- A sortable TAG field whose text parses to no tags: the metadata-only path writes its slot,
the full path's `TagPreprocessor` does not. -/
theorem UpdateNoIndex_tag_slot_without_tags :
    ((UpdateNoIndex sampleParsers (sortOnlyUpdate "doc1" [textField "tags" ","])).ks.docsOf "idx").Get 1 =
      some ⟨1, "doc1", ⟨0x4014000000000000⟩, none, some ((SortingVector.new 3).Put 2 (.str ","))⟩ ∧
    (AddToIndexes sampleParsers (sortOnlyUpdate "doc1" [textField "tags" ","]).ctx).outcome =
      .indexerAdd ∧
    (AddToIndexes sampleParsers (sortOnlyUpdate "doc1" [textField "tags" ","]).ctx).ctx.sv =
      some (.new 3) := by
  decide

/-- The sortable TAG field `tags` set to `red` on `doc1` without a sort vector, and with an
empty one. -/
theorem UpdateNoIndex_sort_slots_vs_full_path_tags :
    sortOnlySpec.GetField "tags" = some ⟨"tags", 2, .TAG, ⟨true, false, false, false, true⟩, 0, 2, ','⟩ ∧
    sortField sampleParsers sortOnlySpec [] (textField "tags" "red") ⟨1, "doc1", ⟨0⟩, none, none⟩ =
      .ok ([2], ⟨1, "doc1", ⟨0⟩, none, some ((SortingVector.new 3).Put 2 (.str "red"))⟩) ∧
    ((preprocessTypes sampleParsers ⟨"tags", 2, .TAG, ⟨true, false, false, false, true⟩, 0, 2, ','⟩ 0
        addDone (fieldTypes { textField "tags" "red" with indexAs := .TAG })
        (sortOnlyUpdate "doc1" [textField "tags" "red"]).ctx).outcome = .indexerAdd ∧
      ((preprocessTypes sampleParsers ⟨"tags", 2, .TAG, ⟨true, false, false, false, true⟩, 0, 2, ','⟩ 0
          addDone (fieldTypes { textField "tags" "red" with indexAs := .TAG })
          (sortOnlyUpdate "doc1" [textField "tags" "red"]).ctx).ctx.sv =
        some ((SortingVector.new 3).Put 2 (.str "red")) ∨
      FieldTypes.TAG = .TAG ∧ sampleParsers.tags ',' "red" = [] ∧
        (preprocessTypes sampleParsers ⟨"tags", 2, .TAG, ⟨true, false, false, false, true⟩, 0, 2, ','⟩ 0
          addDone (fieldTypes { textField "tags" "red" with indexAs := .TAG })
          (sortOnlyUpdate "doc1" [textField "tags" "red"]).ctx).ctx.sv = some (.new 3) ∧
        some ((SortingVector.new 3).Put 2 (.str "red")) =
          some ((SortingVector.new 3).Put 2 (.str (cstr "red"))))) ∧
    sortFields sampleParsers sortOnlySpec [] [textField "tags" "red"]
        ⟨1, "doc1", ⟨0⟩, none, some (.new 3)⟩ =
      .ok ([2], ⟨1, "doc1", ⟨0⟩, none, some ((SortingVector.new 3).Put 2 (.str "red"))⟩) ∧
    (∃ sv', some ((SortingVector.new 3).Put 2 (.str "red")) = some sv' ∧
      sv'.get 0 = (SortingVector.new 3).get 0) ∧
    sortFields sampleParsers sortOnlySpec [] [textField "tags" "red"] ⟨1, "doc1", ⟨0⟩, none, none⟩ =
      .ok ([2], ⟨1, "doc1", ⟨0⟩, none, some ((SortingVector.new 3).Put 2 (.str "red"))⟩) ∧
    (∃ sv', (allocSortVector sortOnlySpec
        ⟨1, "doc1", ⟨0⟩, none, some ((SortingVector.new 3).Put 2 (.str "red"))⟩).sortVector = some sv' ∧
      sv'.get 0 = (SortingVector.new sortOnlySpec.sortables.length).get 0) :=
  ⟨rfl, rfl, (UpdateNoIndex_sort_slots_vs_full_path sampleParsers sortOnlySpec).1 [] [2]
    (textField "tags" "red") _ "red" ⟨1, "doc1", ⟨0⟩, none, none⟩ _
    (sortOnlyUpdate "doc1" [textField "tags" "red"]).ctx 0 (.new 3) rfl rfl rfl rfl rfl rfl rfl, rfl,
    (UpdateNoIndex_sort_slots_vs_full_path sampleParsers sortOnlySpec).2.1 [] [2]
      [textField "tags" "red"] ⟨1, "doc1", ⟨0⟩, none, some (.new 3)⟩ _ (.new 3) 0 rfl rfl
      (by decide), rfl,
    (UpdateNoIndex_sort_slots_vs_full_path sampleParsers sortOnlySpec).2.2 [] [2]
      [textField "tags" "red"] ⟨1, "doc1", ⟨0⟩, none, none⟩ _ 0 rfl rfl (by decide)⟩

end RediSearch
