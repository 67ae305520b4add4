import RediSearch.Document.SetDocumentSpec

/-!
# Field preprocessors and `AddToIndexes`

`Document::AddToIndexes` walks the document's fields and, for each field with a schema spec
and a nonzero `indexAs`, runs the preprocessor of every type in `indexAs`, in the order
FULLTEXT, NUMERIC, GEO, TAG. A preprocessor only writes the context: the sorting vector, the
forward index, the byte offsets, the field's `FieldIndexerData`, the status, and for GEO the
field's own text. The first preprocessor that returns false ends the walk: the status gets
`GENERIC` and `Finish` is called; if none does, `indexer->Add` is called.

A write through a null `aCtx->sv` is kept as an outcome of its own, `nullSortVector`.
-/

namespace RediSearch

/-- The functions of other modules that the preprocessors call and that the sources do not
contain: `RedisModule_StringToDouble`, `TagIndex::Tags` (by separator, the field's
`tagFlags` folded in), and the tokens the document tokenizer yields for a text. -/
structure Parsers where
  stringToDouble : String → Option Double
  tags : Char → String → List String
  tokens : String → List String

/-- The pieces of a text between the occurrences of `sep`. -/
def splitAt (sep : Char) : List Char → List (List Char)
  | [] => [[]]
  | c :: cs =>
    match splitAt sep cs with
    | p :: ps => if c = sep then [] :: p :: ps else (c :: p) :: ps
    | [] => [[c]]

/-- The parsers the witnesses run with: `RedisModule_StringToDouble` on the texts they use
(IEEE-754 bit patterns), tags split at the separator with empty tags dropped, and tokens
split at spaces and lowercased. -/
def sampleParsers : Parsers where
  stringToDouble s :=
    if s = "9.99" then some ⟨0x4023FAE147AE147B⟩
    else if s = "19.99" then some ⟨0x4033FD70A3D70A3D⟩
    else if s = "1.0" then some ⟨0x3FF0000000000000⟩
    else if s = "2.0" then some ⟨0x4000000000000000⟩
    else none
  tags sep s := ((splitAt sep s.toList).filter (· ≠ [])).map String.mk
  tokens s := ((splitAt ' ' s.toList).filter (· ≠ [])).map fun t => ⟨t.map Char.toLower⟩

/-- The characters of `t` up to its first NUL: the string a `char *` into `t` reads as. -/
def cstr (t : String) : String := ⟨t.toList.takeWhile (· ≠ '\x00')⟩

/-- `strpbrk(c, " ,")` on the C string of `t`: the characters before the first separator
and those after it, or `none` when the C string has no separator. -/
def splitGeo : List Char → Option (List Char × List Char)
  | [] => none
  | c :: cs =>
    if c = '\x00' then none
    else if c = ' ' ∨ c = ',' then some ([], cs)
    else (splitGeo cs).map fun p => (c :: p.1, p.2)

namespace AddDocumentCtx

/-- `fdatas[i]`. -/
def fdata (c : AddDocumentCtx) (i : Nat) : FieldIndexerData := c.fdatas.getD i .zero

/-- The text of field `i` as the preprocessors read it; a field without text reads empty. -/
def fieldText (c : AddDocumentCtx) (i : Nat) : String :=
  ((c.doc.fields.get? i).bind (·.text)).getD ""

def setFdata (c : AddDocumentCtx) (i : Nat) (fd : FieldIndexerData) : AddDocumentCtx :=
  { c with fdatas := c.fdatas.set i fd }

@[simp] theorem sv_setFdata (c : AddDocumentCtx) (i : Nat) (fd : FieldIndexerData) :
    (c.setFdata i fd).sv = c.sv := rfl

@[simp] theorem fieldText_setFdata (c : AddDocumentCtx) (i j : Nat) (fd : FieldIndexerData) :
    (c.setFdata i fd).fieldText j = c.fieldText j := rfl

/-- Overwrite the text of field `i`. -/
def setFieldText (c : AddDocumentCtx) (i : Nat) (t : String) : AddDocumentCtx :=
  { c with doc := { c.doc with
      fields := c.doc.fields.modify (fun f => { f with text := some t }) i } }

/-- `aCtx->sv->Put(idx, v)`, or `none` when `aCtx->sv` is null. -/
def putSv (c : AddDocumentCtx) (idx : Nat) (v : SortValue) : Option AddDocumentCtx :=
  c.sv.map fun sv => { c with sv := some (sv.Put idx v) }

end AddDocumentCtx

open AddDocumentCtx

variable (P : Parsers)

/-! ## The preprocessors

Each returns the preprocessor's return value and the context, or `none` for a write through
a null sorting vector. -/

/-- The indexable part of `FulltextPreprocessor`: drive the document tokenizer over the
text into the forward index, record the field's byte-offset region `(totalTokens + 1,
lastOffset)` when the context keeps byte offsets, and advance `totalTokens`. -/
def tokenizeField (fs : FieldSpec) (text : String) (c : AddDocumentCtx) : AddDocumentCtx :=
  let toks := P.tokens text
  let lastTokPos := c.lastOffset + toks.length
  let c := { c with fwIdx := c.fwIdx ++ toks.map (fs.ftId, ·), lastOffset := lastTokPos }
  let bo := c.byteOffsets.map fun bo =>
    { bo with fields := bo.fields ++ [(fs.ftId, c.totalTokens + 1, lastTokPos)] }
  { c with byteOffsets := bo, totalTokens := lastTokPos }

/-- `if (IsSortable()) aCtx->sv->Put(sortIdx, v)`, as the FULLTEXT, NUMERIC and TAG
preprocessors write their sort slot. -/
def putSortable (fs : FieldSpec) (c : AddDocumentCtx) (v : SortValue) :
    Option AddDocumentCtx :=
  if fs.IsSortable then c.putSv fs.sortIdx v else some c

@[simp] theorem sv_tokenizeField (fs : FieldSpec) (text : String) (c : AddDocumentCtx) :
    (tokenizeField P fs text c).sv = c.sv := rfl

/-- `FieldSpec::FulltextPreprocessor` on field `i`. -/
def FulltextPreprocessor (fs : FieldSpec) (c : AddDocumentCtx) (i : Nat) :
    Option (Bool × AddDocumentCtx) :=
  let text := c.fieldText i
  (putSortable fs c (.str (cstr text))).map fun c =>
    (true, if fs.IsIndexable then tokenizeField P fs text c else c)

/-- `FieldSpec::NumericPreprocessor` on field `i`. -/
def NumericPreprocessor (fs : FieldSpec) (c : AddDocumentCtx) (i : Nat) :
    Option (Bool × AddDocumentCtx) :=
  match P.stringToDouble (c.fieldText i) with
  | none => some (false, { c with status := c.status.SetCode .ENOTNUMERIC })
  | some v =>
    let c := c.setFdata i { c.fdata i with numeric := v }
    (putSortable fs c (.num v)).map (true, ·)

/-- `FieldSpec::GeoPreprocessor` on field `i`: the separator in the field's own buffer is
overwritten by NUL, and the two halves are kept. -/
def GeoPreprocessor (c : AddDocumentCtx) (i : Nat) : Option (Bool × AddDocumentCtx) :=
  match splitGeo (c.fieldText i).toList with
  | none => some (false, { c with status := c.status.SetCode .EGEOFORMAT })
  | some (lon, rest) =>
    let c := c.setFieldText i ⟨lon ++ '\x00' :: rest⟩
    some (true, c.setFdata i { c.fdata i with geoSlon := ⟨lon⟩, geoSlat := cstr ⟨rest⟩ })

/-- `FieldSpec::TagPreprocessor` on field `i`. -/
def TagPreprocessor (fs : FieldSpec) (c : AddDocumentCtx) (i : Nat) :
    Option (Bool × AddDocumentCtx) :=
  let tags := P.tags fs.tagSep (c.fieldText i)
  let c := c.setFdata i { c.fdata i with tags := tags }
  if tags.isEmpty then some (true, c)
  else (putSortable fs c (.str (cstr (c.fieldText i)))).map (true, ·)

/-- The preprocessor of one type bit. -/
def preprocess (fs : FieldSpec) (c : AddDocumentCtx) (i : Nat) (t : FieldTypes) :
    Option (Bool × AddDocumentCtx) :=
  if t = .FULLTEXT then FulltextPreprocessor P fs c i
  else if t = .NUMERIC then NumericPreprocessor P fs c i
  else if t = .GEO then GeoPreprocessor c i
  else TagPreprocessor P fs c i

/-! ## `AddToIndexes` -/

/-- The type bits of a field's `indexAs`, in the order `AddToIndexes` tests them. -/
def fieldTypes (ff : DocumentField) : List FieldTypes :=
  [.FULLTEXT, .NUMERIC, .GEO, .TAG].filter ff.CheckIdx

/-- What `AddToIndexes` calls when it ends. -/
inductive AddOutcome
  /-- Every preprocessor returned true: `aCtx->indexer->Add(aCtx)`. -/
  | indexerAdd
  /-- A preprocessor returned false: `status.SetCode(QUERY_EGENERIC)`, then `Finish()`. -/
  | finish
  /-- A preprocessor wrote through a null `aCtx->sv`. -/
  | nullSortVector
  deriving DecidableEq, Repr

/-- A run of `AddToIndexes`: how it ends, the context then, and the preprocessor calls it
made, as `(field position, type)`. -/
structure AddRun where
  outcome : AddOutcome
  ctx : AddDocumentCtx
  calls : List (Nat × FieldTypes)

/-- Record one call in front of a run. -/
def AddRun.cons (call : Nat × FieldTypes) (r : AddRun) : AddRun := { r with calls := call :: r.calls }

/-- The type loop of one field, then the rest of the field loop (`k`). -/
def preprocessTypes (fs : FieldSpec) (i : Nat) (k : AddDocumentCtx → AddRun) :
    List FieldTypes → AddDocumentCtx → AddRun
  | [], c => k c
  | t :: ts, c =>
    match preprocess P fs c i t with
    | none => ⟨.nullSortVector, c, [(i, t)]⟩
    | some (false, c') => ⟨.finish, { c' with status := c'.status.SetCode .EGENERIC }, [(i, t)]⟩
    | some (true, c') => (preprocessTypes fs i k ts c').cons (i, t)

/-- The field loop of `AddToIndexes` from field `i` on. -/
def addToIndexesFrom : Nat → List DocumentField → AddDocumentCtx → AddRun
  | _, [], c => ⟨.indexerAdd, c, []⟩
  | i, ff :: ffs, c =>
    let fs := c.fspecs.getD i .empty
    if fs.name = "" ∨ ff.indexAs.any = false then addToIndexesFrom (i + 1) ffs c
    else preprocessTypes P fs i (addToIndexesFrom (i + 1) ffs) (fieldTypes ff) c

/-- `Document::AddToIndexes(aCtx)`. -/
def AddToIndexes (c : AddDocumentCtx) : AddRun := addToIndexesFrom P 0 c.doc.fields c

/-! ## What a preprocessor can do -/

/-- Every preprocessor call `AddToIndexes` makes from field `i` on when none returns false. -/
def planFrom (fspecs : List FieldSpec) : Nat → List DocumentField → List (Nat × FieldTypes)
  | _, [] => []
  | i, ff :: ffs =>
    let fs := fspecs.getD i .empty
    (if fs.name = "" ∨ ff.indexAs.any = false then [] else (fieldTypes ff).map (i, ·)) ++
      planFrom fspecs (i + 1) ffs

/-- A preprocessor returns false only on a number that does not parse or a point with no
separator. -/
def PreprocessorFails (c : AddDocumentCtx) (i : Nat) (t : FieldTypes) : Prop :=
  t = .NUMERIC ∧ P.stringToDouble (c.fieldText i) = none ∨
    t = .GEO ∧ splitGeo (c.fieldText i).toList = none

theorem putSortable_eq_some {fs : FieldSpec} {c c' : AddDocumentCtx} {v : SortValue}
    (h : putSortable fs c v = some c') : ∃ sv, c' = { c with sv := sv } ∧ sv.isSome = c.sv.isSome := by
  unfold putSortable at h
  split_ifs at h
  · obtain ⟨sv, hsv, rfl⟩ := Option.map_eq_some'.1 h
    exact ⟨_, rfl, by simp [hsv]⟩
  · exact ⟨c.sv, (Option.some.inj h).symm, rfl⟩

theorem fieldText_of_doc {c c' : AddDocumentCtx} (h : c'.doc = c.doc) (j : Nat) :
    c'.fieldText j = c.fieldText j := by
  simp only [fieldText, h]

theorem fieldText_setFieldText_of_ne (c : AddDocumentCtx) {i j : Nat} (t : String)
    (h : j ≠ i) : (c.setFieldText i t).fieldText j = c.fieldText j := by
  simp [setFieldText, fieldText, List.get?_eq_getElem?, List.getElem?_modify, Ne.symm h]

section Frames

variable {fs : FieldSpec} {c c' : AddDocumentCtx} {i : Nat} {b : Bool}

/-- What a preprocessor call that returns does: it keeps the specs and the state flags,
changes the text of no field but a GEO field's own, returns false only on a text it cannot
parse, leaves the sorting vector null exactly when it was, and records a byte-offset region
only as a FULLTEXT call on an indexable spec, from one past the tokens counted so far to the
new count. -/
structure PreprocessStep (fs : FieldSpec) (c : AddDocumentCtx) (i : Nat) (t : FieldTypes)
    (b : Bool) (c' : AddDocumentCtx) : Prop where
  fspecs : c'.fspecs = c.fspecs
  stateFlags : c'.stateFlags = c.stateFlags
  fieldText : ∀ j, (j ≠ i ∨ t ≠ .GEO) → c'.fieldText j = c.fieldText j
  fails : b = false → PreprocessorFails P c i t
  sv : c'.sv.isSome = c.sv.isSome
  offsets : if t = .FULLTEXT ∧ fs.IsIndexable = true then
      c'.byteOffsets = c.byteOffsets.map fun bo =>
        { bo with fields := bo.fields ++ [(fs.ftId, c.totalTokens + 1, c'.totalTokens)] }
    else c'.byteOffsets = c.byteOffsets ∧ c'.totalTokens = c.totalTokens

theorem offsets_of_ne {t : FieldTypes} (ht : t ≠ .FULLTEXT)
    (h₁ : c'.byteOffsets = c.byteOffsets) (h₂ : c'.totalTokens = c.totalTokens) :
    if t = .FULLTEXT ∧ fs.IsIndexable = true then
      c'.byteOffsets = c.byteOffsets.map fun bo =>
        { bo with fields := bo.fields ++ [(fs.ftId, c.totalTokens + 1, c'.totalTokens)] }
    else c'.byteOffsets = c.byteOffsets ∧ c'.totalTokens = c.totalTokens := by
  rw [if_neg fun h => ht h.1]
  exact ⟨h₁, h₂⟩

theorem FulltextPreprocessor_step (h : FulltextPreprocessor P fs c i = some (b, c')) :
    PreprocessStep P fs c i .FULLTEXT b c' := by
  obtain ⟨_, h1, h2⟩ := Option.map_eq_some'.1 h
  obtain ⟨_, rfl, hsv⟩ := putSortable_eq_some h1
  obtain ⟨rfl, rfl⟩ := Prod.mk.inj h2
  refine ⟨?_, ?_, fun _ _ => ?_, nofun, ?_, ?_⟩ <;> by_cases hi : fs.IsIndexable = true <;>
    simp [hi, tokenizeField, hsv, fieldText]

theorem NumericPreprocessor_step (h : NumericPreprocessor P fs c i = some (b, c')) :
    PreprocessStep P fs c i .NUMERIC b c' := by
  unfold NumericPreprocessor at h
  split at h
  · obtain ⟨rfl, rfl⟩ := Prod.mk.inj (Option.some.inj h)
    exact ⟨rfl, rfl, fun _ _ => rfl, fun _ => .inl ⟨rfl, ‹_›⟩, rfl, offsets_of_ne nofun rfl rfl⟩
  · obtain ⟨_, h1, h2⟩ := Option.map_eq_some'.1 h
    obtain ⟨_, rfl, hsv⟩ := putSortable_eq_some h1
    obtain ⟨rfl, rfl⟩ := Prod.mk.inj h2
    exact ⟨rfl, rfl, fun _ _ => rfl, nofun, hsv, offsets_of_ne nofun rfl rfl⟩

theorem GeoPreprocessor_step (h : GeoPreprocessor c i = some (b, c')) :
    PreprocessStep P fs c i .GEO b c' := by
  unfold GeoPreprocessor at h
  split at h
  · obtain ⟨rfl, rfl⟩ := Prod.mk.inj (Option.some.inj h)
    exact ⟨rfl, rfl, fun _ _ => rfl, fun _ => .inr ⟨rfl, ‹_›⟩, rfl, offsets_of_ne nofun rfl rfl⟩
  · obtain ⟨rfl, rfl⟩ := Prod.mk.inj (Option.some.inj h)
    exact ⟨rfl, rfl, fun _ hj => fieldText_setFieldText_of_ne c _ (hj.resolve_right (· rfl)),
      nofun, rfl, offsets_of_ne nofun rfl rfl⟩

/-- The TAG preprocessor, called for a type bit other than FULLTEXT. -/
theorem TagPreprocessor_step {t : FieldTypes} (ht : t ≠ .FULLTEXT)
    (h : TagPreprocessor P fs c i = some (b, c')) : PreprocessStep P fs c i t b c' := by
  unfold TagPreprocessor at h
  dsimp only at h
  split_ifs at h
  · obtain ⟨rfl, rfl⟩ := Prod.mk.inj (Option.some.inj h)
    exact ⟨rfl, rfl, fun _ _ => rfl, nofun, rfl, offsets_of_ne ht rfl rfl⟩
  · obtain ⟨_, h1, h2⟩ := Option.map_eq_some'.1 h
    obtain ⟨_, rfl, hsv⟩ := putSortable_eq_some h1
    obtain ⟨rfl, rfl⟩ := Prod.mk.inj h2
    exact ⟨rfl, rfl, fun _ _ => rfl, nofun, hsv, offsets_of_ne ht rfl rfl⟩

/-- What a preprocessor can do, said once for the four. -/
theorem preprocess_spec {t : FieldTypes} (h : preprocess P fs c i t = some (b, c')) :
    PreprocessStep P fs c i t b c' := by
  unfold preprocess at h
  split_ifs at h with hF hN hG
  · subst hF
    exact FulltextPreprocessor_step P h
  · subst hN
    exact NumericPreprocessor_step P h
  · subst hG
    exact GeoPreprocessor_step P h
  · exact TagPreprocessor_step P hF h

/-- A preprocessor writes through a null sorting vector only for a sortable spec. -/
theorem preprocess_ne_none {t : FieldTypes} (h : fs.IsSortable = true → c.sv.isSome = true) :
    preprocess P fs c i t ≠ none := by
  have hput : ∀ c₁ : AddDocumentCtx, c₁.sv = c.sv → ∀ v, putSortable fs c₁ v ≠ none :=
    fun c₁ hc v => by
      unfold putSortable putSv
      split_ifs with hs
      · simpa [hc, Option.isSome_iff_ne_none] using h hs
      · exact Option.some_ne_none _
  unfold preprocess
  split_ifs
  · simpa [FulltextPreprocessor] using hput c rfl _
  · unfold NumericPreprocessor
    split
    · exact Option.some_ne_none _
    · simpa using hput (c.setFdata _ _) rfl _
  · unfold GeoPreprocessor
    split <;> exact Option.some_ne_none _
  · unfold TagPreprocessor
    dsimp only
    split_ifs
    · exact Option.some_ne_none _
    · simpa using hput (c.setFdata _ _) rfl _

end Frames

/-- The preprocessor calls `cs`, one after another; `k` runs when all returned true. -/
def runCalls (k : AddDocumentCtx → AddRun) : List (Nat × FieldTypes) → AddDocumentCtx → AddRun
  | [], c => k c
  | (i, t) :: cs, c =>
    match preprocess P (c.fspecs.getD i .empty) c i t with
    | none => ⟨.nullSortVector, c, [(i, t)]⟩
    | some (false, c') => ⟨.finish, { c' with status := c'.status.SetCode .EGENERIC }, [(i, t)]⟩
    | some (true, c') => (runCalls k cs c').cons (i, t)

/-- The end of a run in which every preprocessor returned true. -/
def addDone (c : AddDocumentCtx) : AddRun := ⟨.indexerAdd, c, []⟩

theorem runCalls_append (k : AddDocumentCtx → AddRun) (xs ys : List (Nat × FieldTypes))
    (c : AddDocumentCtx) : runCalls P k (xs ++ ys) c = runCalls P (runCalls P k ys) xs c := by
  induction xs generalizing c with
  | nil => rfl
  | cons x xs ih =>
    simp only [List.cons_append, runCalls]
    split
    next => rfl
    next => rfl
    next c' _ => exact congrArg _ (ih c')

/-- A run depends on its continuation only at contexts with the specs it started with. -/
theorem runCalls_congr {k k' : AddDocumentCtx → AddRun} (cs : List (Nat × FieldTypes))
    {c : AddDocumentCtx} (hk : ∀ c', c'.fspecs = c.fspecs → k c' = k' c') :
    runCalls P k cs c = runCalls P k' cs c := by
  induction cs generalizing c with
  | nil => exact hk c rfl
  | cons x cs ih =>
    simp only [runCalls]
    split
    next => rfl
    next => rfl
    next c' h =>
      have hs := (preprocess_spec P h).fspecs
      rw [ih fun c'' h' => hk c'' (h'.trans hs)]

theorem preprocessTypes_eq_runCalls (k : AddDocumentCtx → AddRun) (i : Nat) (ts : List FieldTypes)
    {c : AddDocumentCtx} :
    preprocessTypes P (c.fspecs.getD i .empty) i k ts c = runCalls P k (ts.map (i, ·)) c := by
  induction ts generalizing c with
  | nil => rfl
  | cons t ts ih =>
    simp only [preprocessTypes, List.map_cons, runCalls]
    split
    next => rfl
    next => rfl
    next c' h => rw [← ih, (preprocess_spec P h).fspecs]

/-- The loops of `AddToIndexes` make the calls of the plan, in order. -/
theorem addToIndexesFrom_eq_runCalls (i : Nat) (ffs : List DocumentField) (c : AddDocumentCtx) :
    addToIndexesFrom P i ffs c = runCalls P addDone (planFrom c.fspecs i ffs) c := by
  induction ffs generalizing i c with
  | nil => rfl
  | cons ff ffs ih =>
    simp only [addToIndexesFrom, planFrom]
    split_ifs
    · exact ih (i + 1) c
    · rw [preprocessTypes_eq_runCalls, runCalls_append]
      exact runCalls_congr P _ fun c' h => by rw [ih, h]

theorem AddToIndexes_eq_runCalls (c : AddDocumentCtx) :
    AddToIndexes P c = runCalls P addDone (planFrom c.fspecs 0 c.doc.fields) c :=
  addToIndexesFrom_eq_runCalls P 0 c.doc.fields c

@[simp] theorem AddRun.outcome_cons (x : Nat × FieldTypes) (r : AddRun) :
    (r.cons x).outcome = r.outcome := rfl

@[simp] theorem AddRun.ctx_cons (x : Nat × FieldTypes) (r : AddRun) : (r.cons x).ctx = r.ctx := rfl

@[simp] theorem AddRun.calls_cons (x : Nat × FieldTypes) (r : AddRun) :
    (r.cons x).calls = x :: r.calls := rfl

/-! ## A run that a preprocessor ends -/

/-- The separators `strpbrk(c, " ,")` looks for. -/
def IsGeoSep (x : Char) : Prop := x = ' ' ∨ x = ','

instance : DecidablePred IsGeoSep := fun x => inferInstanceAs (Decidable (x = ' ' ∨ x = ','))

theorem splitGeo_eq_none {t : List Char} (h : '\x00' ∉ t) :
    splitGeo t = none ↔ ∀ x ∈ t, ¬IsGeoSep x := by
  induction t with
  | nil => simp [splitGeo]
  | cons x xs ih =>
    simp only [List.mem_cons, not_or] at h
    simp only [splitGeo, Ne.symm h.1, if_false, List.forall_mem_cons, IsGeoSep]
    split_ifs with hs
    · simp [hs]
    · simp [ih h.2, hs, IsGeoSep]

/-- A text split at its first separator: the part before it and the part after it. -/
theorem splitGeo_append {lon lat : List Char} {sep : Char} (hsep : IsGeoSep sep)
    (hlon : ∀ x ∈ lon, x ≠ '\x00' ∧ ¬IsGeoSep x) : splitGeo (lon ++ sep :: lat) = some (lon, lat) := by
  induction lon with
  | nil =>
    have hnul : sep ≠ '\x00' := by rcases hsep with rfl | rfl <;> decide
    simp only [List.nil_append, splitGeo, if_neg hnul]
    exact if_pos hsep
  | cons x xs ih =>
    simp only [List.forall_mem_cons] at hlon
    simp only [IsGeoSep] at hlon
    simp [splitGeo, hlon.1.1, hlon.1.2, ih hlon.2]

theorem cstr_of_nul {t : List Char} (h : '\x00' ∉ t) : cstr ⟨t⟩ = ⟨t⟩ := by
  unfold cstr
  congr 1
  exact List.takeWhile_eq_self_iff.2 fun x hx => by simpa using ne_of_mem_of_not_mem hx h

@[simp] theorem fdatas_setFieldText (c : AddDocumentCtx) (i : Nat) (t : String) :
    (c.setFieldText i t).fdatas = c.fdatas := rfl

theorem fdata_setFdata {c : AddDocumentCtx} {i : Nat} (h : i < c.fdatas.length)
    (fd : FieldIndexerData) : (c.setFdata i fd).fdata i = fd := by
  simp [fdata, setFdata, List.getD_eq_getElem?_getD, List.getElem?_set_self h]

/-- `GeoPreprocessor` on a field whose text `t` has no NUL, with its `FieldIndexerData` slot:
it fails, setting `GEOFORMAT`, exactly when `t` has no separator; on `t = lon ++ sep :: lat`
with `sep` the first separator, it keeps `lon` as `geoSlon` and `lat` as `geoSlat`. -/
theorem GeoPreprocessor_round_trip (c : AddDocumentCtx) (i : Nat)
    (hnul : '\x00' ∉ (c.fieldText i).toList) (hslot : i < c.fdatas.length) :
    (GeoPreprocessor c i = some (false, { c with status := c.status.SetCode .EGEOFORMAT }) ↔
      ∀ x ∈ (c.fieldText i).toList, ¬IsGeoSep x) ∧
    ∀ lon sep lat, (c.fieldText i).toList = lon ++ sep :: lat → IsGeoSep sep →
      (∀ x ∈ lon, ¬IsGeoSep x) →
      ∃ c', GeoPreprocessor c i = some (true, c') ∧ (c'.fdata i).geoSlon = ⟨lon⟩ ∧
        (c'.fdata i).geoSlat = ⟨lat⟩ := by
  refine ⟨⟨fun h => (splitGeo_eq_none hnul).1 ?_, fun h => ?_⟩, fun lon sep lat ht hsep hlon => ?_⟩
  · unfold GeoPreprocessor at h
    split at h
    · assumption
    · simp at h
  · unfold GeoPreprocessor
    rw [(splitGeo_eq_none hnul).2 h]
  · rw [ht] at hnul
    have hlon' : ∀ x ∈ lon, x ≠ '\x00' ∧ ¬IsGeoSep x := fun x hx =>
      ⟨ne_of_mem_of_not_mem hx fun h => hnul (List.mem_append_left _ h), hlon x hx⟩
    have hlat : '\x00' ∉ lat := fun h => hnul (List.mem_append_right _ (List.mem_cons_of_mem _ h))
    refine ⟨_, by simp only [GeoPreprocessor, ht, splitGeo_append hsep hlon']; rfl, ?_⟩
    rw [fdata_setFdata (by simpa using hslot)]
    exact ⟨rfl, cstr_of_nul hlat⟩

/-- The point `"1.0,2.0"` of the widget document splits into `"1.0"` and `"2.0"`. -/
theorem GeoPreprocessor_round_trip_loc :
    ∃ c', GeoPreprocessor (SetDocument widgetSpec (.init ⟨false, false⟩) widgetDoc 0).2.1 2 =
      some (true, c') ∧ (c'.fdata 2).geoSlon = "1.0" ∧ (c'.fdata 2).geoSlat = "2.0" :=
  (GeoPreprocessor_round_trip _ 2 (by decide) (by decide)).2 "1.0".toList ',' "2.0".toList
    (by decide) (by decide) (by decide)

end RediSearch
