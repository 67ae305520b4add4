import Mathlib.Algebra.BigOperators.Group.List
import Mathlib.Algebra.Order.Ring.Nat

/-!
# Document model

The data the ingestion pipeline of `document.c` reads and writes: the index types of a
field (`INDEXFLD_T_*`), the field options it tests, `FieldSpec`, the schema part of
`IndexSpec`, `DocumentField`, `Document`, sorting-vector slots and `QueryError`.

A `double` that the code only copies (a document score, a parsed number) is kept as its
64-bit pattern, so that two paths writing "the same value" can be compared exactly.
-/

namespace RediSearch

/-- The bit pattern of a C `double`. -/
structure Double where
  bits : UInt64
  deriving DecidableEq, Repr

/-- A slot read with a default (`getD`, the model of an array read past the slots filled) is
an element of the list or the default. -/
theorem getD_mem_or {α : Type} (l : List α) (i : Nat) (d : α) : l.getD i d ∈ l ∨ l.getD i d = d := by
  rw [List.getD_eq_getElem?_getD]
  cases h : l[i]? with
  | none => exact .inr rfl
  | some x => exact .inl (List.getElem?_mem h)

/-! ## Index types -/

/-- A set of index types, the bitmask `INDEXFLD_T_FULLTEXT | NUMERIC | GEO | TAG`. -/
structure FieldTypes where
  fulltext : Bool
  numeric : Bool
  geo : Bool
  tag : Bool
  deriving DecidableEq, Repr

namespace FieldTypes

/-- The empty mask `0`. -/
def none : FieldTypes := ⟨false, false, false, false⟩

def FULLTEXT : FieldTypes := ⟨true, false, false, false⟩
def NUMERIC : FieldTypes := ⟨false, true, false, false⟩
def GEO : FieldTypes := ⟨false, false, true, false⟩
def TAG : FieldTypes := ⟨false, false, false, true⟩

/-- Bitwise `&` of two masks. -/
def inter (a b : FieldTypes) : FieldTypes :=
  ⟨a.fulltext && b.fulltext, a.numeric && b.numeric, a.geo && b.geo, a.tag && b.tag⟩

/-- Whether a mask is nonzero, the C truth value of `a`. -/
def any (a : FieldTypes) : Bool := a.fulltext || a.numeric || a.geo || a.tag

/-- `a ⊆ b`, the test `(a & b) == a` of `SetDocument`. -/
def subset (a b : FieldTypes) : Bool := inter a b == a

@[simp] theorem subset_iff (a b : FieldTypes) :
    subset a b = true ↔ (a.fulltext → b.fulltext) ∧ (a.numeric → b.numeric) ∧
      (a.geo → b.geo) ∧ (a.tag → b.tag) := by
  obtain ⟨f, n, g, t⟩ := a
  obtain ⟨f', n', g', t'⟩ := b
  simp [subset, inter]

end FieldTypes

/-! ## Field specs and the schema -/

/-- The `FieldSpec_*` option bits that the modelled code tests. -/
structure FieldOptions where
  sortable : Bool
  noStem : Bool
  phonetics : Bool
  dynamic : Bool
  noIndex : Bool
  deriving DecidableEq, Repr

/-- A schema field. `index` is its slot in the dedupe array, `sortIdx` its slot in the
sorting vector when it is sortable. -/
structure FieldSpec where
  name : String
  index : Nat
  types : FieldTypes
  options : FieldOptions
  ftId : Nat
  sortIdx : Nat
  tagSep : Char
  deriving DecidableEq, Repr

namespace FieldSpec

/-- `FieldSpec(0)`, the placeholder `SetDocument` stores for a field it skips. -/
def empty : FieldSpec :=
  ⟨"", 0, FieldTypes.none, ⟨false, false, false, false, false⟩, 0, 0, ','⟩

def IsSortable (fs : FieldSpec) : Bool := fs.options.sortable
def IsIndexable (fs : FieldSpec) : Bool := !fs.options.noIndex
def IsNoStem (fs : FieldSpec) : Bool := fs.options.noStem
def IsPhonetics (fs : FieldSpec) : Bool := fs.options.phonetics

end FieldSpec

/-- The schema part of an `IndexSpec`: its fields, the names of its sortable fields in
sorting-vector order (`sortables`), and `Index_StoreByteOffsets`. Its invariant is that a
sortable field's `sortIdx` is the position of its name in `sortables`. -/
structure IndexSpec where
  fields : List FieldSpec
  sortables : List String
  storeByteOffsets : Bool
  sortIdx_wf : ∀ fs ∈ fields, fs.IsSortable = true → sortables.indexOf? fs.name = some fs.sortIdx

namespace IndexSpec

/-- The schema with no fields. -/
def empty : IndexSpec := ⟨[], [], false, fun _ h => absurd h (List.not_mem_nil _)⟩

/-- `IndexSpec::GetField`: the schema field of that name. -/
def GetField (sp : IndexSpec) (name : String) : Option FieldSpec :=
  sp.fields.find? (·.name == name)

/-- `IndexSpec::GetFieldSortingIndex`, with `none` for the code's `-1`. -/
def GetFieldSortingIndex (sp : IndexSpec) (name : String) : Option Nat :=
  sp.sortables.indexOf? name

theorem GetField_mem {sp : IndexSpec} {name : String} {fs : FieldSpec}
    (h : sp.GetField name = some fs) : fs ∈ sp.fields ∧ fs.name = name := by
  unfold GetField at h
  exact ⟨List.mem_of_find?_eq_some h, by simpa using List.find?_some h⟩

/-- The sorting slot looked up by name is the field's own `sortIdx`. -/
theorem GetFieldSortingIndex_of_GetField {sp : IndexSpec} {name : String} {fs : FieldSpec}
    (h : sp.GetField name = some fs) (hs : fs.IsSortable = true) :
    sp.GetFieldSortingIndex name = some fs.sortIdx := by
  obtain ⟨hmem, rfl⟩ := GetField_mem h
  exact sp.sortIdx_wf fs hmem hs

end IndexSpec

/-! ## Documents -/

/-- A field of an ingested document; `text` is `none` for a field with no value. -/
structure DocumentField where
  name : String
  text : Option String
  indexAs : FieldTypes
  deriving DecidableEq, Repr

namespace DocumentField

/-- `DocumentField::CheckIdx`: whether `indexAs` has a type bit. -/
def CheckIdx (f : DocumentField) (t : FieldTypes) : Bool := (FieldTypes.inter f.indexAs t).any

@[simp] theorem CheckIdx_FULLTEXT (f : DocumentField) :
    f.CheckIdx .FULLTEXT = f.indexAs.fulltext := by
  simp [CheckIdx, FieldTypes.inter, FieldTypes.FULLTEXT, FieldTypes.any]

@[simp] theorem CheckIdx_NUMERIC (f : DocumentField) :
    f.CheckIdx .NUMERIC = f.indexAs.numeric := by
  simp [CheckIdx, FieldTypes.inter, FieldTypes.NUMERIC, FieldTypes.any]

@[simp] theorem CheckIdx_GEO (f : DocumentField) : f.CheckIdx .GEO = f.indexAs.geo := by
  simp [CheckIdx, FieldTypes.inter, FieldTypes.GEO, FieldTypes.any]

@[simp] theorem CheckIdx_TAG (f : DocumentField) : f.CheckIdx .TAG = f.indexAs.tag := by
  simp [CheckIdx, FieldTypes.inter, FieldTypes.TAG, FieldTypes.any]

end DocumentField

structure Document where
  docKey : String
  docId : Nat
  score : Double
  payload : Option String
  fields : List DocumentField
  deriving DecidableEq, Repr

/-! ## Sorting vectors and errors -/

/-- A sorting-vector slot value, `RS_SORTABLE_STR` or `RS_SORTABLE_NUM`. -/
inductive SortValue
  | str (s : String)
  | num (d : Double)
  deriving DecidableEq, Repr

/-- `RSSortingVector`: a fixed number of slots, each empty or holding a value. -/
structure SortingVector where
  values : List (Option SortValue)
  deriving DecidableEq, Repr

namespace SortingVector

/-- `new RSSortingVector(len)`: `len` empty slots. -/
def new (len : Nat) : SortingVector := ⟨List.replicate len none⟩

/-- `RSSortingVector::Put`; a slot past the end is not written. -/
def Put (sv : SortingVector) (idx : Nat) (v : SortValue) : SortingVector :=
  ⟨sv.values.set idx (some v)⟩

/-- The value in a slot, `none` when it is empty or out of range. -/
def get (sv : SortingVector) (idx : Nat) : Option SortValue := (sv.values.get? idx).join

@[simp] theorem length_new (len : Nat) : (new len).values.length = len := by simp [new]

@[simp] theorem get_new (len idx : Nat) : (new len).get idx = none := by
  simp only [get, new, List.get?_eq_getElem?, List.getElem?_replicate]
  split <;> rfl

@[simp] theorem length_Put (sv : SortingVector) (idx : Nat) (v : SortValue) :
    (sv.Put idx v).values.length = sv.values.length := by simp [Put]

theorem get_Put (sv : SortingVector) (idx j : Nat) (v : SortValue) :
    (sv.Put idx v).get j = if idx = j ∧ j < sv.values.length then some v else sv.get j := by
  simp only [get, Put, List.get?_eq_getElem?, List.getElem?_set]
  by_cases hj : j < sv.values.length
  · by_cases h : idx = j <;> simp [h, hj]
  · simp [hj, List.getElem?_eq_none_iff.mpr (Nat.le_of_not_lt hj)]
    omega

end SortingVector

/-- `QueryErrorCode`, the codes the modelled code sets. -/
inductive QueryErrorCode
  | OK | EGENERIC | EDUPFIELD | EUNSUPPTYPE | ENOTNUMERIC | EGEOFORMAT | ENODOC | EINVAL
  deriving DecidableEq, Repr

/-- `QueryError`: a code and its message. -/
structure QueryError where
  code : QueryErrorCode
  detail : Option String
  deriving DecidableEq, Repr

namespace QueryError

def ok : QueryError := ⟨.OK, none⟩

/-- `QueryError::SetError`. Modelled from the spec: the first error set is kept, so that a
preprocessor's specific code survives the pipeline's `GENERIC`. -/
def SetError (e : QueryError) (code : QueryErrorCode) (msg : String) : QueryError :=
  if e.code = .OK then ⟨code, some msg⟩ else e

/-- `QueryError::SetCode`. Modelled from the spec: like `SetError`, it keeps an earlier code. -/
def SetCode (e : QueryError) (code : QueryErrorCode) : QueryError :=
  if e.code = .OK then ⟨code, e.detail⟩ else e

theorem SetError_ne_ok (e : QueryError) {c : QueryErrorCode} (hc : c ≠ .OK) (m : String) :
    (e.SetError c m).code ≠ .OK := by
  unfold SetError; split <;> simp_all

end QueryError

end RediSearch
