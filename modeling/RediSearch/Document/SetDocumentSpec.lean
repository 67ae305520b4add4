import RediSearch.Document.SetDocument

/-!
# `SetDocument` against its contract

The contract speaks of `R`, the fields of the document, in order, that resolve to a schema
field and carry text (`resolved`). The field loop is first described by a scan over `R`
(`firstError`) and by what a successful loop adds to the context (`afterFields`); the
contract of a context whose flags are still zero then follows.
-/

namespace RediSearch

variable (sp : IndexSpec)

/-- `R`: the fields that resolve to a schema field and carry text, with that field. -/
def resolved (fs : List DocumentField) : List (DocumentField × FieldSpec) :=
  fs.filterMap fun f => (resolve sp f).map (f, ·)

/-- A test on a field and its schema field, false for a field `SetDocument` skips. -/
def onResolved (p : DocumentField → FieldSpec → Bool) (f : DocumentField) : Bool :=
  match resolve sp f with
  | some fs => p f fs
  | none => false

/-- The field as the loop leaves it: `indexAs` resolved when it has a schema field. -/
def fieldAfter (f : DocumentField) : DocumentField :=
  match resolve sp f with
  | some fs => { f with indexAs := resolvedIndexAs f fs }
  | none => f

/-- The spec the loop stores in `fspecs` for a field. -/
def specFor (f : DocumentField) : FieldSpec := (resolve sp f).getD .empty

/-- The per-field tests behind the flags, on the resolved `indexAs`. -/
def isSortableField : DocumentField → Bool := onResolved sp fun _ fs => fs.IsSortable
def isTextField : DocumentField → Bool :=
  onResolved sp fun f fs => fs.IsIndexable && (resolvedIndexAs f fs).fulltext
def isOtherField : DocumentField → Bool :=
  onResolved sp fun f fs => fs.IsIndexable && resolvedIndexAs f fs != .FULLTEXT
def isGeoField : DocumentField → Bool :=
  onResolved sp fun f fs => fs.IsIndexable && (resolvedIndexAs f fs).geo

/-- The error a resolved field raises given the indices seen before it. -/
def fieldError (seen : List Nat) (x : DocumentField × FieldSpec) :
    Option (QueryErrorCode × String) :=
  if x.2.index ∈ seen then some (.EDUPFIELD, dupFieldMsg x.2)
  else if badIndexAs x.1 x.2 then some (.EUNSUPPTYPE, unsuppTypeMsg x.2)
  else none

/-- The error of the first resolved field that fails a check. -/
def firstError : List Nat → List (DocumentField × FieldSpec) → Option (QueryErrorCode × String)
  | _, [] => none
  | seen, x :: xs =>
    match fieldError seen x with
    | some e => some e
    | none => firstError (x.2.index :: seen) xs

/-- The context after a loop that met no error. -/
def afterFields (c : AddDocumentCtx) (fs : List DocumentField) : AddDocumentCtx :=
  { c with
    fspecs := c.fspecs ++ fs.map (specFor sp)
    stateFlags := { c.stateFlags with
      sortables := c.stateFlags.sortables || fs.any (isSortableField sp) }
    docFlags := c.docFlags || fs.any (isGeoField sp) }

/-! ## Per-field facts -/

theorem resolved_cons (f : DocumentField) (fs : List DocumentField) :
    resolved sp (f :: fs) =
      match resolve sp f with
      | some x => (f, x) :: resolved sp fs
      | none => resolved sp fs := by
  simp only [resolved, List.filterMap_cons]
  cases resolve sp f <;> rfl

theorem mem_resolved {x : DocumentField × FieldSpec} {fs : List DocumentField} :
    x ∈ resolved sp fs ↔ x.1 ∈ fs ∧ resolve sp x.1 = some x.2 := by
  rcases x with ⟨f, s⟩
  simp only [resolved, List.mem_filterMap, Option.map_eq_some', Prod.mk.injEq]
  constructor
  · rintro ⟨g, hg, s', hs', rfl, rfl⟩
    exact ⟨hg, hs'⟩
  · rintro ⟨hf, hs⟩
    exact ⟨f, hf, s, hs, rfl, rfl⟩

/-- A test over the fields through `onResolved` is a test over `R`. -/
theorem any_onResolved_iff (p : DocumentField → FieldSpec → Bool) (fs : List DocumentField) :
    fs.any (onResolved sp p) = true ↔ ∃ x ∈ resolved sp fs, p x.1 x.2 = true := by
  simp only [List.any_eq_true, mem_resolved]
  constructor
  · rintro ⟨f, hf, hp⟩
    unfold onResolved at hp
    split at hp
    · rename_i s hs
      exact ⟨(f, s), ⟨hf, hs⟩, hp⟩
    · cases hp
  · rintro ⟨⟨f, s⟩, ⟨hf, hs⟩, hp⟩
    exact ⟨f, hf, by simp [onResolved, hs, hp]⟩

theorem fieldError_eq_none {seen : List Nat} {x : DocumentField × FieldSpec} :
    fieldError seen x = none ↔ x.2.index ∉ seen ∧ badIndexAs x.1 x.2 = false := by
  unfold fieldError
  split_ifs <;> simp_all

/-- The loop's counters after one field that passed its checks. -/
def loopAfterField (l : SetDocLoop) (f : DocumentField) : SetDocLoop :=
  match resolve sp f with
  | some s =>
    let l := { l with dedupe := s.index :: l.dedupe }
    if s.IsIndexable then l.addIndexable (fieldAfter sp f) else l
  | none => l

theorem afterFields_cons (c : AddDocumentCtx) (f : DocumentField) (fs : List DocumentField) :
    afterFields sp (afterFields sp c [f]) fs = afterFields sp c (f :: fs) := by
  simp [afterFields, Bool.or_assoc]

/-! ## The field loop -/

/-- One field that passes its checks. -/
theorem setDocumentField_ok (c : AddDocumentCtx) (l : SetDocLoop) (f : DocumentField)
    (h : ∀ s, resolve sp f = some s → fieldError l.dedupe (f, s) = none) :
    setDocumentField sp c l f = .ok (afterFields sp c [f], loopAfterField sp l f, fieldAfter sp f) := by
  unfold setDocumentField loopAfterField
  cases hr : resolve sp f with
  | none => simp [afterFields, specFor, isSortableField, isGeoField, onResolved, hr, fieldAfter]
  | some s =>
    obtain ⟨hd, hb⟩ := fieldError_eq_none.1 (h s hr)
    cases hi : s.IsIndexable <;>
      simp [hd, hb, hi, afterFields, specFor, isSortableField, isGeoField, onResolved, hr, fieldAfter]

theorem firstError_cons_eq_none {seen : List Nat} {x : DocumentField × FieldSpec}
    {xs : List (DocumentField × FieldSpec)} :
    firstError seen (x :: xs) = none ↔
      fieldError seen x = none ∧ firstError (x.2.index :: seen) xs = none := by
  simp only [firstError]
  split <;> simp_all

theorem firstError_cons_eq_some {seen : List Nat} {x : DocumentField × FieldSpec}
    {xs : List (DocumentField × FieldSpec)} {e : QueryErrorCode × String} :
    firstError seen (x :: xs) = some e ↔ fieldError seen x = some e ∨
      fieldError seen x = none ∧ firstError (x.2.index :: seen) xs = some e := by
  simp only [firstError]
  split <;> simp_all

/-- One field that fails a check stops the loop with that check's error. -/
theorem setDocumentField_error (c : AddDocumentCtx) (l : SetDocLoop) {f : DocumentField}
    {s : FieldSpec} {e : QueryErrorCode × String} (hr : resolve sp f = some s)
    (h : fieldError l.dedupe (f, s) = some e) :
    ∃ c', setDocumentField sp c l f = .error c' ∧ c'.status = c.status.SetError e.1 e.2 := by
  unfold fieldError at h
  simp only [setDocumentField, hr]
  split_ifs at h ⊢ <;> cases h <;> exact ⟨_, rfl, rfl⟩

theorem loopAfterField_dedupe {l : SetDocLoop} {f : DocumentField} {s : FieldSpec}
    (hr : resolve sp f = some s) : (loopAfterField sp l f).dedupe = s.index :: l.dedupe := by
  simp only [loopAfterField, hr]
  split_ifs <;> rfl

@[simp] theorem loopAfterField_hasTextFields (l : SetDocLoop) (f : DocumentField) :
    (loopAfterField sp l f).hasTextFields = (l.hasTextFields || isTextField sp f) := by
  unfold loopAfterField isTextField onResolved
  split <;> [split; skip] <;> simp_all [SetDocLoop.addIndexable, fieldAfter]

@[simp] theorem loopAfterField_hasOtherFields (l : SetDocLoop) (f : DocumentField) :
    (loopAfterField sp l f).hasOtherFields = (l.hasOtherFields || isOtherField sp f) := by
  unfold loopAfterField isOtherField onResolved
  split <;> [split; skip] <;> simp_all [SetDocLoop.addIndexable, fieldAfter]

@[simp] theorem loopAfterField_numTextIndexable (l : SetDocLoop) (f : DocumentField) :
    (loopAfterField sp l f).numTextIndexable =
      l.numTextIndexable + if isTextField sp f then 1 else 0 := by
  unfold loopAfterField isTextField onResolved
  split <;> [split; skip] <;> simp_all [SetDocLoop.addIndexable, fieldAfter]

/-- A loop that meets no error rewrites every field's `indexAs`, records one spec per field
and folds the fields into the flags and counters. -/
theorem setDocumentFields_of_firstError_none (c : AddDocumentCtx) (l : SetDocLoop)
    (fs : List DocumentField) (h : firstError l.dedupe (resolved sp fs) = none) :
    ∃ l', setDocumentFields sp c l fs = .ok (afterFields sp c fs, l', fs.map (fieldAfter sp)) ∧
      l'.hasTextFields = (l.hasTextFields || fs.any (isTextField sp)) ∧
      l'.hasOtherFields = (l.hasOtherFields || fs.any (isOtherField sp)) ∧
      l'.numTextIndexable = l.numTextIndexable + fs.countP (isTextField sp) := by
  induction fs generalizing c l with
  | nil => exact ⟨l, by simp [setDocumentFields, afterFields], by simp, by simp, by simp⟩
  | cons f fs ih =>
    have hsplit : (∀ s, resolve sp f = some s → fieldError l.dedupe (f, s) = none) ∧
        firstError (loopAfterField sp l f).dedupe (resolved sp fs) = none := by
      rw [resolved_cons] at h
      cases hr : resolve sp f with
      | none => exact ⟨by simp, by simpa [hr, loopAfterField] using h⟩
      | some s =>
        rw [hr, firstError_cons_eq_none] at h
        exact ⟨by simpa using h.1, by simpa [loopAfterField_dedupe sp hr] using h.2⟩
    obtain ⟨l', hrun, h1, h2, h3⟩ := ih (afterFields sp c [f]) (loopAfterField sp l f) hsplit.2
    refine ⟨l', ?_, ?_, ?_, ?_⟩
    · simp only [setDocumentFields, setDocumentField_ok sp c l f hsplit.1, hrun,
        afterFields_cons, List.map_cons]
    · simp [h1, Bool.or_assoc]
    · simp [h2, Bool.or_assoc]
    · simp only [h3, loopAfterField_numTextIndexable, List.countP_cons]
      omega

/-- A loop that meets an error fails with the error of the first field that fails a check. -/
theorem setDocumentFields_of_firstError_some (c : AddDocumentCtx) (l : SetDocLoop)
    (fs : List DocumentField) {e : QueryErrorCode × String}
    (h : firstError l.dedupe (resolved sp fs) = some e) :
    ∃ c' fs', setDocumentFields sp c l fs = .error (c', fs') ∧
      c'.status = c.status.SetError e.1 e.2 := by
  induction fs generalizing c l with
  | nil => cases h
  | cons f fs ih =>
    rw [resolved_cons] at h
    cases hr : resolve sp f with
    | none =>
      rw [hr] at h
      obtain ⟨c', fs', hrun, hst⟩ := ih (afterFields sp c [f]) l h
      have hok := setDocumentField_ok sp c l f (by simp [hr])
      rw [show loopAfterField sp l f = l by simp [loopAfterField, hr]] at hok
      exact ⟨c', fieldAfter sp f :: fs', by simp only [setDocumentFields, hok, hrun],
        by simpa [afterFields] using hst⟩
    | some s =>
      rw [hr, firstError_cons_eq_some] at h
      rcases h with hf | ⟨hf, hrest⟩
      · obtain ⟨c', hstep, hst⟩ := setDocumentField_error sp c l hr hf
        exact ⟨c', f :: fs, by simp only [setDocumentFields, hstep], hst⟩
      · rw [← loopAfterField_dedupe sp (l := l) hr] at hrest
        obtain ⟨c', fs', hrun, hst⟩ := ih (afterFields sp c [f]) _ hrest
        have hok := setDocumentField_ok sp c l f (by simpa [hr] using hf)
        exact ⟨c', fieldAfter sp f :: fs', by simp only [setDocumentFields, hok, hrun],
          by simpa [afterFields] using hst⟩

/-! ## The scan over `R` in the contract's words -/

theorem fieldError_eq_some {seen : List Nat} {x : DocumentField × FieldSpec}
    {e : QueryErrorCode × String} :
    fieldError seen x = some e ↔
      if x.2.index ∈ seen then e = (.EDUPFIELD, dupFieldMsg x.2)
      else badIndexAs x.1 x.2 = true ∧ e = (.EUNSUPPTYPE, unsuppTypeMsg x.2) := by
  unfold fieldError
  by_cases h1 : x.2.index ∈ seen
  · simp [h1, eq_comm]
  · by_cases h2 : badIndexAs x.1 x.2 <;> simp [h1, h2, eq_comm]

/-- No field of `R` fails a check exactly when no two share a schema field and none asks
for a type outside its schema field's. -/
theorem firstError_eq_none_iff (seen : List Nat) (xs : List (DocumentField × FieldSpec)) :
    firstError seen xs = none ↔ (xs.map (·.2.index)).Nodup ∧ (∀ x ∈ xs, x.2.index ∉ seen) ∧
      ∀ x ∈ xs, badIndexAs x.1 x.2 = false := by
  induction xs generalizing seen with
  | nil => simp [firstError]
  | cons x xs ih =>
    rw [firstError_cons_eq_none, fieldError_eq_none, ih]
    simp only [List.map_cons, List.nodup_cons, List.mem_map, List.mem_cons, forall_eq_or_imp,
      not_or]
    constructor
    · rintro ⟨⟨h1, h2⟩, h3, h4, h5⟩
      exact ⟨⟨fun ⟨y, hy, he⟩ => (h4 y hy).1 he, h3⟩, ⟨h1, fun y hy => (h4 y hy).2⟩, h2, h5⟩
    · rintro ⟨⟨h1, h3⟩, ⟨h2, h4⟩, h5, h6⟩
      exact ⟨⟨h2, h5⟩, h3, fun y hy => ⟨fun he => h1 ⟨y, hy, he⟩, h4 y hy⟩, h6⟩

/-- A failing scan stops at the first field of `R` that fails a check. -/
theorem firstError_eq_some_split {seen : List Nat} {xs : List (DocumentField × FieldSpec)}
    {e : QueryErrorCode × String} (h : firstError seen xs = some e) :
    ∃ pre x post, xs = pre ++ x :: post ∧ firstError seen pre = none ∧
      fieldError (pre.reverse.map (·.2.index) ++ seen) x = some e := by
  induction xs generalizing seen with
  | nil => cases h
  | cons y ys ih =>
    rcases firstError_cons_eq_some.1 h with hy | ⟨hy, hrest⟩
    · exact ⟨[], y, ys, rfl, rfl, hy⟩
    · obtain ⟨pre, x, post, rfl, hpre, hx⟩ := ih hrest
      refine ⟨y :: pre, x, post, rfl, firstError_cons_eq_none.2 ⟨hy, hpre⟩, ?_⟩
      simpa using hx

theorem countP_onResolved (p : DocumentField → FieldSpec → Bool) (fs : List DocumentField) :
    fs.countP (onResolved sp p) = (resolved sp fs).countP fun x => p x.1 x.2 := by
  induction fs with
  | nil => rfl
  | cons f fs ih =>
    rw [resolved_cons, List.countP_cons, ih]
    cases hr : resolve sp f <;> simp [onResolved, hr, List.countP_cons]

/-! ## The contract -/

/-- `sortable`: some field of `R` is sortable. -/
def HasSortable (fs : List DocumentField) : Prop := ∃ x ∈ resolved sp fs, x.2.IsSortable = true

/-- `text`: some indexable field of `R` is indexed as full text. -/
def HasText (fs : List DocumentField) : Prop :=
  ∃ x ∈ resolved sp fs, x.2.IsIndexable = true ∧ (resolvedIndexAs x.1 x.2).fulltext = true

/-- `other`: some indexable field of `R` is indexed as anything but full text alone. -/
def HasOther (fs : List DocumentField) : Prop :=
  ∃ x ∈ resolved sp fs, x.2.IsIndexable = true ∧ resolvedIndexAs x.1 x.2 ≠ .FULLTEXT

instance (fs : List DocumentField) : Decidable (HasSortable sp fs) :=
  inferInstanceAs (Decidable (∃ x ∈ resolved sp fs, x.2.IsSortable = true))

/-- `numTextIndexable`: the indexable fields of `R` indexed as full text. -/
def numTextIndexable (fs : List DocumentField) : Nat :=
  (resolved sp fs).countP fun x => x.2.IsIndexable && (resolvedIndexAs x.1 x.2).fulltext

/-- The contract of `SetDocument` on a context whose flags are still zero, for the result `r`
of ingesting `d`. It succeeds exactly when no two fields of `R` share a schema field and none
asks for a type outside its schema field's; otherwise it fails with the error of the first
field of `R` that fails a check, the duplicate check first. On success every field of `R`
gets its `indexAs` resolved and every flag is derived from `R`. -/
structure SetDocumentContract (c : AddDocumentCtx) (d : Document)
    (r : Bool × AddDocumentCtx × Document) : Prop where
  ok_iff : r.1 = true ↔ ((resolved sp d.fields).map (·.2.index)).Nodup ∧
    ∀ x ∈ resolved sp d.fields, badIndexAs x.1 x.2 = false
  error : r.1 = false → ∃ pre x post, resolved sp d.fields = pre ++ x :: post ∧
    (pre.map (·.2.index)).Nodup ∧ (∀ y ∈ pre, badIndexAs y.1 y.2 = false) ∧
    if x.2.index ∈ pre.map (·.2.index) then r.2.1.status = ⟨.EDUPFIELD, some (dupFieldMsg x.2)⟩
    else badIndexAs x.1 x.2 = true ∧ r.2.1.status = ⟨.EUNSUPPTYPE, some (unsuppTypeMsg x.2)⟩
  fields : r.1 = true → r.2.1.doc.fields = d.fields.map (fieldAfter sp)
  indexables : r.1 = true →
    (r.2.1.stateFlags.indexables = true ↔ HasText sp d.fields ∨ HasOther sp d.fields)
  textIndexed : r.1 = true → (r.2.1.stateFlags.textIndexed = true ↔ ¬HasText sp d.fields)
  otherIndexed : r.1 = true → (r.2.1.stateFlags.otherIndexed = true ↔ ¬HasOther sp d.fields)
  sortables : r.1 = true → (r.2.1.stateFlags.sortables = true ↔ HasSortable sp d.fields)
  sv : r.1 = true → r.2.1.sv =
    if HasSortable sp d.fields then some (SortingVector.new sp.sortables.length) else none
  empty : r.1 = true → (r.2.1.stateFlags.empty = true ↔
    ¬HasSortable sp d.fields ∧ ¬HasText sp d.fields ∧ ¬HasOther sp d.fields)
  byteOffsets : r.1 = true → r.2.1.byteOffsets =
    if c.options.noSave = false ∧ 0 < numTextIndexable sp d.fields ∧ sp.storeByteOffsets = true
    then some ⟨numTextIndexable sp d.fields, []⟩ else c.byteOffsets

theorem any_isSortableField_iff (fs : List DocumentField) :
    fs.any (isSortableField sp) = true ↔ HasSortable sp fs := any_onResolved_iff sp _ fs

theorem any_isTextField_iff (fs : List DocumentField) :
    fs.any (isTextField sp) = true ↔ HasText sp fs := by
  rw [isTextField, any_onResolved_iff]
  simp only [HasText, Bool.and_eq_true]

theorem any_isOtherField_iff (fs : List DocumentField) :
    fs.any (isOtherField sp) = true ↔ HasOther sp fs := by
  rw [isOtherField, any_onResolved_iff]
  simp only [HasOther, Bool.and_eq_true, bne_iff_ne]

theorem countP_isTextField (fs : List DocumentField) :
    fs.countP (isTextField sp) = numTextIndexable sp fs := countP_onResolved sp _ fs

/-- `SetDocument` meets its contract on a context whose flags are zero, that has no sorting
vector yet and whose status is clear, as the constructor leaves it. -/
theorem SetDocument_contract (c : AddDocumentCtx) (d : Document) (oldFieldCount : Nat)
    (h0 : c.stateFlags = .zero) (hsv : c.sv = none) (hst : c.status = .ok) :
    SetDocumentContract sp c d (SetDocument sp c d oldFieldCount) := by
  -- the check `SetDocument` reports is that its loop met no error
  have hclean : firstError [] (resolved sp d.fields) = none ↔
      ((resolved sp d.fields).map (·.2.index)).Nodup ∧
        ∀ x ∈ resolved sp d.fields, badIndexAs x.1 x.2 = false :=
    (firstError_eq_none_iff [] _).trans
      ⟨fun h => ⟨h.1, h.2.2⟩, fun h => ⟨h.1, fun _ _ => List.not_mem_nil _, h.2⟩⟩
  cases hfe : firstError [] (resolved sp d.fields) with
  | some e =>
    obtain ⟨c', fs', hrun, hstat⟩ :=
      setDocumentFields_of_firstError_some sp (setDocumentStart c d.fields.length)
        ⟨0, [], false, false⟩ d.fields hfe
    have hres : SetDocument sp c d oldFieldCount = (false, c', { d with fields := fs' }) := by
      simp only [SetDocument, hrun]
    rw [hres]
    refine ⟨by rw [← hclean, hfe]; simp, fun _ => ?_, nofun, nofun, nofun, nofun, nofun, nofun,
      nofun, nofun⟩
    obtain ⟨pre, x, post, hsplit, hpre, hx⟩ := firstError_eq_some_split hfe
    have hpre' := (firstError_eq_none_iff [] pre).1 hpre
    refine ⟨pre, x, post, hsplit, hpre'.1, hpre'.2.2, ?_⟩
    simp only [hstat, setDocumentStart, hst, QueryError.SetError, QueryError.ok, if_true]
    rw [fieldError_eq_some] at hx
    simp only [List.map_reverse, List.append_nil, List.mem_reverse] at hx
    split_ifs at hx ⊢
    · simp [hx]
    · exact ⟨hx.1, by simp [hx.2]⟩
  | none =>
    obtain ⟨l', hrun, h1, h2, h3⟩ :=
      setDocumentFields_of_firstError_none sp (setDocumentStart c d.fields.length)
        ⟨0, [], false, false⟩ d.fields hfe
    have hres : SetDocument sp c d oldFieldCount = (true,
        { setDocumentFlags sp (afterFields sp (setDocumentStart c d.fields.length) d.fields) l'
          with doc := { d with fields := d.fields.map (fieldAfter sp) } },
        { d with fields := d.fields.map (fieldAfter sp) }) := by
      simp only [SetDocument, hrun]
    rw [hres]
    refine ⟨by rw [← hclean, hfe]; simp, nofun, fun _ => rfl, ?_, ?_, ?_, ?_, ?_, ?_, ?_⟩ <;>
      intro _ <;> simp only [setDocumentFlags, afterFields, setDocumentStart, h0, hsv, h1, h2, h3,
        StateFlags.zero, Bool.false_or, Option.isNone_none, Bool.and_true, zero_add,
        Bool.or_eq_true, Bool.and_eq_true, Bool.not_eq_true', ← Bool.not_eq_true,
        any_isSortableField_iff, any_isTextField_iff, any_isOtherField_iff, countP_isTextField] <;>
      simp [and_assoc, Nat.pos_iff_ne_zero]

/-- A `SetDocument` that succeeds: its loop met no error, and the context is the loop's, with
the flags and buffers `setDocumentFlags` derives from it, holding the rewritten document. -/
theorem SetDocument_of_ok (c : AddDocumentCtx) (d : Document) (n : Nat)
    (h : (SetDocument sp c d n).1 = true) :
    firstError [] (resolved sp d.fields) = none ∧ ∃ l', (SetDocument sp c d n).2.1 =
      { setDocumentFlags sp (afterFields sp (setDocumentStart c d.fields.length) d.fields) l' with
        doc := { d with fields := d.fields.map (fieldAfter sp) } } := by
  cases hfe : firstError [] (resolved sp d.fields) with
  | some e =>
    obtain ⟨c', fs', hrun, -⟩ := setDocumentFields_of_firstError_some sp
      (setDocumentStart c d.fields.length) ⟨0, [], false, false⟩ d.fields hfe
    simp [SetDocument, hrun] at h
  | none =>
    obtain ⟨l', hrun, -⟩ := setDocumentFields_of_firstError_none sp
      (setDocumentStart c d.fields.length) ⟨0, [], false, false⟩ d.fields hfe
    exact ⟨rfl, l', by simp only [SetDocument, hrun]⟩

/-- `SetDocument` succeeds exactly when no field of `R` fails a check. -/
theorem SetDocument_ok_iff (c : AddDocumentCtx) (d : Document) (n : Nat) :
    (SetDocument sp c d n).1 = true ↔ firstError [] (resolved sp d.fields) = none := by
  refine ⟨fun h => (SetDocument_of_ok sp c d n h).1, fun hfe => ?_⟩
  obtain ⟨l', hrun, -⟩ := setDocumentFields_of_firstError_none sp
    (setDocumentStart c d.fields.length) ⟨0, [], false, false⟩ d.fields hfe
  simp only [SetDocument, hrun]

/-- A successful `SetDocument` appends one spec per field of the new document to the specs
the context already holds. -/
theorem SetDocument_fspecs (c : AddDocumentCtx) (d : Document) (n : Nat)
    (h : (SetDocument sp c d n).1 = true) :
    (SetDocument sp c d n).2.1.fspecs = c.fspecs ++ d.fields.map (specFor sp) := by
  obtain ⟨-, l', he⟩ := SetDocument_of_ok sp c d n h
  simp [he, setDocumentFlags, afterFields, setDocumentStart]

/-- A successful `SetDocument` allocates a sorting vector when the context has none and a
spec resolved now or before is sortable; it keeps the one the context has. -/
theorem SetDocument_sv (c : AddDocumentCtx) (d : Document) (n : Nat)
    (h : (SetDocument sp c d n).1 = true) :
    (SetDocument sp c d n).2.1.sv =
      if (c.stateFlags.sortables || d.fields.any (isSortableField sp)) && c.sv.isNone then
        some (SortingVector.new sp.sortables.length) else c.sv := by
  obtain ⟨-, l', he⟩ := SetDocument_of_ok sp c d n h
  simp [he, setDocumentFlags, afterFields, setDocumentStart]

/-- `SetDocument` counts no tokens. -/
theorem SetDocument_totalTokens (c : AddDocumentCtx) (d : Document) (n : Nat)
    (h : (SetDocument sp c d n).1 = true) : (SetDocument sp c d n).2.1.totalTokens = c.totalTokens := by
  obtain ⟨-, l', he⟩ := SetDocument_of_ok sp c d n h
  simp [he, setDocumentFlags, afterFields, setDocumentStart]

/-! ## A schema for the witnesses

The schema of the specification's end-to-end scenarios. -/

def titleSpec : FieldSpec := ⟨"title", 0, .FULLTEXT, ⟨true, false, false, false, false⟩, 0, 0, ','⟩
def priceSpec : FieldSpec := ⟨"price", 1, .NUMERIC, ⟨true, false, false, false, false⟩, 0, 1, ','⟩
def locSpec : FieldSpec := ⟨"loc", 2, .GEO, ⟨false, false, false, false, false⟩, 0, 0, ','⟩
def tagsSpec : FieldSpec := ⟨"tags", 3, .TAG, ⟨false, false, false, false, false⟩, 0, 0, ','⟩

/-- `{title: FULLTEXT SORTABLE, price: NUMERIC SORTABLE, loc: GEO, tags: TAG SEPARATOR ','}`. -/
def widgetSpec : IndexSpec :=
  ⟨[titleSpec, priceSpec, locSpec, tagsSpec], ["title", "price"], true, by decide⟩

/-- A field given as text only, as the command layer builds it. -/
def textField (name text : String) : DocumentField := ⟨name, some text, .none⟩

/-- `{title:"Widget", price:"9.99", loc:"1.0,2.0", tags:"red,blue"}`. -/
def widgetDoc : Document :=
  ⟨"doc1", 0, ⟨0⟩, none, [textField "title" "Widget", textField "price" "9.99",
    textField "loc" "1.0,2.0", textField "tags" "red,blue"]⟩

theorem SetDocument_contract_widget :
    (AddDocumentCtx.init ⟨false, false⟩).stateFlags = .zero ∧
    (AddDocumentCtx.init ⟨false, false⟩).sv = none ∧
    (AddDocumentCtx.init ⟨false, false⟩).status = .ok ∧
    SetDocumentContract widgetSpec (.init ⟨false, false⟩) widgetDoc
      (SetDocument widgetSpec (.init ⟨false, false⟩) widgetDoc 0) :=
  ⟨rfl, rfl, rfl, SetDocument_contract widgetSpec _ widgetDoc 0 rfl rfl rfl⟩

end RediSearch


