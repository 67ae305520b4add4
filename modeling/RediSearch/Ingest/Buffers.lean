import RediSearch.Ingest.Submit

/-!
# The per-document buffers: sorting vector and byte offsets

`SetDocument` allocates the two buffers that the preprocessors of `AddToIndexes` write: the
sorting vector, when a field resolves to a sortable spec and the context has none yet, and
the byte offsets, with room for `numTextIndexable` fields, when the context keeps them. The
preprocessors write both through the specs of `fspecs`, field by field.

* Every sortable spec a context holds was resolved by a `SetDocument` call that went to its
  end, and so allocated the vector (`SvBacked`). A context built by the constructor, and one
  `ReplaceMerge` reloads on a schema whose fields have distinct names and slots, has no sort
  slot written through a null vector (`sort_writes_backed`). On a schema with a repeated
  name the reload's `SetDocument` fails after storing specs, and `ReplaceMerge` does not look
  at its result; the real schema never repeats a name, which is what the hypothesis says.
* On a context built by the constructor, the regions `AddToIndexes` records chain from
  token 1 and are at most `numTextIndexable`, exactly that many when it reaches the indexer
  (`byte_offsets_within`). After a reload they can be more: the specs of the update stand in
  front of the reloaded fields' (`ReplaceMerge_fspecs`), so a NOINDEX text field is tokenized
  under an indexable spec (`ReplaceMerge_overflows_byteOffsets`).
-/

namespace RediSearch

open World

variable (P : Parsers)

/-! ## Contexts the constructor builds -/

/-- The constructor succeeds exactly when its `SetDocument` does, and keeps that context. -/
theorem newAddDocumentCtx_some {sp : IndexSpec} {options : AddOptions} {b : Document}
    {c : AddDocumentCtx} (hc : newAddDocumentCtx sp options b = some c) :
    (SetDocument sp (.init options) b 0).1 = true ∧ (SetDocument sp (.init options) b 0).2.1 = c := by
  unfold newAddDocumentCtx at hc
  split at hc
  · rename_i heq
    cases hc
    simp [heq]
  · cases hc

/-! ## The sorting vector -/

/-- Every sortable spec the context holds has a sorting vector behind it. -/
def SvBacked (c : AddDocumentCtx) : Prop :=
  ∀ fs ∈ c.fspecs, fs.IsSortable = true → c.sv.isSome = true

theorem svBacked_init (options : AddOptions) : SvBacked (.init options) :=
  fun _ h => absurd h (List.not_mem_nil _)

/-- A step that keeps the specs and whether the vector is null keeps them backed. -/
theorem SvBacked.of_step {c c' : AddDocumentCtx} (h : SvBacked c) (hf : c'.fspecs = c.fspecs)
    (hsv : c'.sv.isSome = c.sv.isSome) : SvBacked c' :=
  fun fs hfs hs => hsv ▸ h fs (hf ▸ hfs) hs

/-- A `SetDocument` that succeeds keeps the specs backed: the specs it adds are resolved ones,
a sortable one sets `ACTX_F_SORTABLES`, and the flag allocates the vector at the end. -/
theorem svBacked_SetDocument {sp : IndexSpec} {c : AddDocumentCtx} {d : Document} {n : Nat}
    (h : SvBacked c) (hok : (SetDocument sp c d n).1 = true) :
    SvBacked (SetDocument sp c d n).2.1 := by
  intro fs hfs hs
  rw [SetDocument_sv sp c d n hok]
  rw [SetDocument_fspecs sp c d n hok, List.mem_append] at hfs
  rcases hfs with hfs | hfs
  · obtain ⟨v, hv⟩ := Option.isSome_iff_exists.1 (h fs hfs hs)
    simp [hv]
  · obtain ⟨f, hf, rfl⟩ := List.mem_map.1 hfs
    have hsort : d.fields.any (isSortableField sp) = true := by
      refine List.any_eq_true.2 ⟨f, hf, ?_⟩
      unfold specFor at hs
      unfold isSortableField onResolved
      cases hr : resolve sp f <;> simp_all [FieldSpec.IsSortable, FieldSpec.empty]
    cases c.sv <;> simp [hsort]

/-- A run of preprocessor calls on a context whose sortable specs are backed writes no sort
slot through a null vector. -/
theorem runCalls_backed (cs : List (Nat × FieldTypes)) {c : AddDocumentCtx} (h : SvBacked c) :
    (runCalls P addDone cs c).outcome ≠ .nullSortVector := by
  induction cs generalizing c with
  | nil => nofun
  | cons x cs ih =>
    obtain ⟨i, t⟩ := x
    have hput : (c.fspecs.getD i .empty).IsSortable = true → c.sv.isSome = true := fun hs =>
      (getD_mem_or c.fspecs i .empty).elim (h _ · hs) fun he => by rw [he] at hs; cases hs
    have hp : preprocess P (c.fspecs.getD i .empty) c i t ≠ none := preprocess_ne_none P hput
    obtain ⟨⟨b, c'⟩, hp⟩ := Option.ne_none_iff_exists'.1 hp
    cases b <;> simp only [runCalls, hp]
    · nofun
    · have hs := preprocess_spec P hp
      exact ih (h.of_step hs.fspecs hs.sv)

theorem AddToIndexes_backed {c : AddDocumentCtx} (h : SvBacked c) :
    (AddToIndexes P c).outcome ≠ .nullSortVector := by
  rw [AddToIndexes_eq_runCalls]
  exact runCalls_backed P _ h

/-! ## The reload -/

/-- The schema invariants the reload relies on: no two fields share a name, and no two share
an `index` slot (the slots are dense in `[0, fieldCount)`). -/
def IndexSpec.FieldsDistinct (sp : IndexSpec) : Prop :=
  (sp.fields.map (·.name)).Nodup ∧ (sp.fields.map (·.index)).Nodup

instance (sp : IndexSpec) : Decidable sp.FieldsDistinct :=
  inferInstanceAs (Decidable (_ ∧ _))

/-- Looking a field's own name up finds it, when no two fields share a name. -/
theorem find?_name_of_mem {fs : FieldSpec} :
    ∀ {l : List FieldSpec}, (l.map (·.name)).Nodup → fs ∈ l → l.find? (·.name == fs.name) = some fs
  | [], _, h => absurd h (List.not_mem_nil _)
  | a :: l, hd, h => by
    rw [List.map_cons, List.nodup_cons] at hd
    rcases List.mem_cons.1 h with rfl | h
    · simp
    · have hne : a.name ≠ fs.name := fun he => hd.1 (he ▸ List.mem_map_of_mem _ h)
      simp [List.find?_cons, hne, find?_name_of_mem hd.2 h]

/-- The fields `LoadSchemaFields` reloads resolve to the schema fields they were loaded from,
in schema order, and carry no `indexAs`. -/
theorem LoadSchemaFields_resolved {ks : Keyspace} {sp : IndexSpec} {key : String}
    {fields : List DocumentField} (hd : (sp.fields.map (·.name)).Nodup)
    (h : LoadSchemaFields ks sp key = some fields) :
    ((resolved sp fields).map (·.2)).Sublist sp.fields ∧
      ∀ x ∈ resolved sp fields, x.1.indexAs = .none := by
  unfold LoadSchemaFields at h
  obtain ⟨hash, -, rfl⟩ := Option.map_eq_some'.1 h
  suffices ∀ l : List FieldSpec, (∀ fs ∈ l, fs ∈ sp.fields) →
      ((resolved sp (l.filterMap fun fs => (hash.lookup fs.name).map fun v =>
        ⟨fs.name, some v, .none⟩)).map (·.2)).Sublist l ∧
      ∀ x ∈ resolved sp (l.filterMap fun fs => (hash.lookup fs.name).map fun v =>
        ⟨fs.name, some v, .none⟩), x.1.indexAs = .none from this _ fun _ h => h
  intro l
  induction l with
  | nil => simp [resolved]
  | cons a l ih =>
    intro hl
    obtain ⟨hsub, hnone⟩ := ih fun fs h => hl fs (List.mem_cons_of_mem _ h)
    cases hv : hash.lookup a.name with
    | none =>
      simp only [List.filterMap_cons, hv]
      exact ⟨hsub.cons a, hnone⟩
    | some v =>
      have hr : resolve sp ⟨a.name, some v, .none⟩ = some a := by
        simp [resolve, IndexSpec.GetField, find?_name_of_mem hd (hl a (List.mem_cons_self _ _))]
      simp only [List.filterMap_cons, hv, Option.map_some', resolved_cons, hr, List.map_cons]
      refine ⟨hsub.cons₂ a, fun x hx => ?_⟩
      rcases List.mem_cons.1 hx with rfl | hx
      · rfl
      · exact hnone x hx

/-- On a schema whose fields have distinct names and slots, the fields `ReplaceMerge` reloads
pass every check of `SetDocument`. -/
theorem firstError_LoadSchemaFields {ks : Keyspace} {sp : IndexSpec} {key : String}
    {fields : List DocumentField} (hd : sp.FieldsDistinct)
    (h : LoadSchemaFields ks sp key = some fields) : firstError [] (resolved sp fields) = none := by
  obtain ⟨hsub, hnone⟩ := LoadSchemaFields_resolved hd.1 h
  refine (firstError_eq_none_iff [] _).2 ⟨?_, fun _ _ => List.not_mem_nil _, fun x hx => ?_⟩
  · simpa [List.map_map] using hd.2.sublist (hsub.map (·.index))
  · simp [badIndexAs, hnone x hx, FieldTypes.any, FieldTypes.none]

/-- A reload that returns to its caller: the stored fields were loaded, and the context is the
one `SetDocument` leaves on them, whatever it returned, holding the reloaded document. -/
theorem ReplaceMerge_ctx {w w' : World} (h : ReplaceMerge w = (false, w')) :
    ∃ fields, LoadSchemaFields w.ks w.spec w.ctx.doc.docKey = some fields ∧
      w'.ctx = { (SetDocument w.spec w.ctx { w.ctx.doc with fields := fields }
          w.ctx.doc.fields.length).2.1 with
        doc := (SetDocument w.spec w.ctx { w.ctx.doc with fields := fields }
          w.ctx.doc.fields.length).2.2 } := by
  have hspec : w.access.spec = w.spec := by simp [World.spec]
  unfold ReplaceMerge at h
  simp only [ctx_access, ks_access, hspec] at h
  split_ifs at h
  · cases h
  split at h
  · cases h
  · rename_i fields hload
    refine ⟨fields, hload, ?_⟩
    generalize SetDocument _ _ _ _ = R at h ⊢
    obtain ⟨_, c, d'⟩ := R
    cases h
    rfl

theorem svBacked_ReplaceMerge {w w' : World} (hb : SvBacked w.ctx) (hd : w.spec.FieldsDistinct)
    (h : ReplaceMerge w = (false, w')) : SvBacked w'.ctx := by
  obtain ⟨fields, hload, hctx⟩ := ReplaceMerge_ctx h
  rw [hctx]
  exact svBacked_SetDocument hb ((SetDocument_ok_iff _ _ _ _).2 (firstError_LoadSchemaFields hd hload))

/-- No sort slot is written through a null vector: neither on a context the constructor
built, nor on it once `ReplaceMerge` has reloaded it from a schema whose fields have distinct
names and slots. -/
theorem sort_writes_backed (sp : IndexSpec) (options : AddOptions) (b : Document)
    (c : AddDocumentCtx) (hc : newAddDocumentCtx sp options b = some c) :
    (AddToIndexes P c).outcome ≠ .nullSortVector ∧
    ∀ w w' : World, w.ctx = c → w.spec.FieldsDistinct → ReplaceMerge w = (false, w') →
      (AddToIndexes P w'.ctx).outcome ≠ .nullSortVector := by
  obtain ⟨hok, rfl⟩ := newAddDocumentCtx_some hc
  have hb := svBacked_SetDocument (svBacked_init options) hok
  exact ⟨AddToIndexes_backed P hb, fun w w' hw hd h =>
    AddToIndexes_backed P (svBacked_ReplaceMerge (hw ▸ hb) hd h)⟩

/-- The price update of the widget document, before and after its reload. -/
theorem sort_writes_backed_priceUpdate :
    (AddToIndexes sampleParsers priceUpdate.ctx).outcome ≠ .nullSortVector ∧
    (AddToIndexes sampleParsers (ReplaceMerge priceUpdate).2.ctx).outcome ≠ .nullSortVector :=
  have h := sort_writes_backed sampleParsers widgetSpec ⟨false, true⟩
    ⟨"doc1", 0, ⟨0⟩, none, [textField "price" "19.99"]⟩ priceUpdate.ctx rfl
  ⟨h.1, h.2 priceUpdate _ rfl (by decide) (Prod.ext (by decide) rfl)⟩

/-! ## The byte offsets -/

/-- The regions `(ftId, first, last)` chain from token `n`: the first starts at `n + 1`, and
each next one starts one past the last token of the one before. -/
def RegionsFrom : Nat → List (Nat × Nat × Nat) → Prop
  | _, [] => True
  | n, (_, s, e) :: rs => s = n + 1 ∧ RegionsFrom e rs

instance decRegionsFrom : (n : Nat) → (rs : List (Nat × Nat × Nat)) → Decidable (RegionsFrom n rs)
  | _, [] => isTrue trivial
  | n, (_, s, e) :: rs =>
    haveI := decRegionsFrom e rs
    inferInstanceAs (Decidable (s = n + 1 ∧ RegionsFrom e rs))

/-- The last token of the last region, `n` when there is none. -/
def lastEnd : Nat → List (Nat × Nat × Nat) → Nat
  | n, [] => n
  | _, (_, _, e) :: rs => lastEnd e rs

theorem RegionsFrom_append {n : Nat} {rs : List (Nat × Nat × Nat)} {r : Nat × Nat × Nat} :
    RegionsFrom n (rs ++ [r]) ↔ RegionsFrom n rs ∧ r.2.1 = lastEnd n rs + 1 := by
  induction rs generalizing n with
  | nil => simp [RegionsFrom, lastEnd]
  | cons x rs ih =>
    obtain ⟨_, s, e⟩ := x
    simp [RegionsFrom, lastEnd, ih, and_assoc]

theorem lastEnd_append (n : Nat) (rs : List (Nat × Nat × Nat)) (r : Nat × Nat × Nat) :
    lastEnd n (rs ++ [r]) = r.2.2 := by
  induction rs generalizing n with
  | nil => rfl
  | cons x rs ih => exact ih _

/-- The regions the context has recorded chain from token 1 and end at its token count. -/
def OffsetsChained (c : AddDocumentCtx) : Prop :=
  ∀ bo, c.byteOffsets = some bo → RegionsFrom 0 bo.fields ∧ lastEnd 0 bo.fields = c.totalTokens

section Step

variable {fs : FieldSpec} {c c' : AddDocumentCtx} {i : Nat} {t : FieldTypes} {b : Bool}

/-- A call keeps the offsets' room and adds its own region, if it records one. -/
theorem PreprocessStep.offsets_some (hs : PreprocessStep P fs c i t b c') {bo' : ByteOffsets}
    (h : c'.byteOffsets = some bo') : ∃ bo, c.byteOffsets = some bo ∧ bo'.capacity = bo.capacity ∧
      bo'.fields.length = bo.fields.length + if t = .FULLTEXT ∧ fs.IsIndexable = true then 1 else 0 := by
  have ho := hs.offsets
  split_ifs at ho with hc
  · rw [ho] at h
    obtain ⟨bo, hbo, rfl⟩ := Option.map_eq_some'.1 h
    exact ⟨bo, hbo, rfl, by simp [hc]⟩
  · exact ⟨bo', ho.1 ▸ h, rfl, by simp [hc]⟩

/-- A call keeps the regions chained: a region starts one past the tokens counted so far. -/
theorem PreprocessStep.chained (hs : PreprocessStep P fs c i t b c') (hch : OffsetsChained c) :
    OffsetsChained c' := by
  intro bo' h
  have ho := hs.offsets
  split_ifs at ho with hc
  · rw [ho] at h
    obtain ⟨bo, hbo, rfl⟩ := Option.map_eq_some'.1 h
    obtain ⟨h₁, h₂⟩ := hch bo hbo
    exact ⟨RegionsFrom_append.2 ⟨h₁, by simp [h₂]⟩, lastEnd_append _ _ _⟩
  · rw [ho.1] at h
    rw [ho.2]
    exact hch bo' h

end Step

/-- The calls that record a byte-offset region when the context keeps byte offsets: the
FULLTEXT calls on fields whose spec is indexable. -/
def addFieldCalls (F : List FieldSpec) (cs : List (Nat × FieldTypes)) : Nat :=
  cs.countP fun x => x.2 = .FULLTEXT ∧ (F.getD x.1 .empty).IsIndexable = true

theorem runCalls_chained (cs : List (Nat × FieldTypes)) {c : AddDocumentCtx}
    (hch : OffsetsChained c) : OffsetsChained (runCalls P addDone cs c).ctx := by
  induction cs generalizing c with
  | nil => exact hch
  | cons x cs ih =>
    obtain ⟨i, t⟩ := x
    simp only [runCalls]
    split
    · exact hch
    · rename_i c' hp
      exact (preprocess_spec P hp).chained P hch
    · rename_i c' hp
      exact ih ((preprocess_spec P hp).chained P hch)

/-- A run of calls records at most one region per call that records one, and exactly that
many when it reaches the indexer; the room stays as it was. -/
theorem runCalls_offsets (cs : List (Nat × FieldTypes)) {c : AddDocumentCtx} {bo' : ByteOffsets}
    (h : (runCalls P addDone cs c).ctx.byteOffsets = some bo') :
    ∃ bo, c.byteOffsets = some bo ∧ bo'.capacity = bo.capacity ∧
      bo'.fields.length ≤ bo.fields.length + addFieldCalls c.fspecs cs ∧
      ((runCalls P addDone cs c).outcome = .indexerAdd →
        bo'.fields.length = bo.fields.length + addFieldCalls c.fspecs cs) := by
  induction cs generalizing c with
  | nil => exact ⟨bo', h, rfl, by simp [addFieldCalls], fun _ => by simp [addFieldCalls]⟩
  | cons x cs ih =>
    obtain ⟨i, t⟩ := x
    have hcount : addFieldCalls c.fspecs ((i, t) :: cs) = addFieldCalls c.fspecs cs +
        if t = .FULLTEXT ∧ (c.fspecs.getD i .empty).IsIndexable = true then 1 else 0 := by
      simp [addFieldCalls, List.countP_cons]
    rw [hcount]
    cases hp : preprocess P (c.fspecs.getD i .empty) c i t with
    | none =>
      simp only [runCalls, hp] at h ⊢
      exact ⟨bo', h, rfl, by omega, nofun⟩
    | some p =>
      obtain ⟨_ | _, c'⟩ := p
      · simp only [runCalls, hp] at h ⊢
        obtain ⟨bo, hbo, hcap, hlen⟩ := (preprocess_spec P hp).offsets_some P h
        exact ⟨bo, hbo, hcap, by omega, nofun⟩
      · simp only [runCalls, hp, AddRun.ctx_cons, AddRun.outcome_cons] at h ⊢
        have hs := preprocess_spec P hp
        obtain ⟨bo₁, hbo₁, hcap₁, hle, heq⟩ := ih h
        obtain ⟨bo, hbo, hcap, hlen⟩ := hs.offsets_some P hbo₁
        rw [hs.fspecs] at hle heq
        exact ⟨bo, hbo, hcap₁.trans hcap, by omega, fun ho => by rw [heq ho]; omega⟩


theorem addFieldCalls_append (F : List FieldSpec) (xs ys : List (Nat × FieldTypes)) :
    addFieldCalls F (xs ++ ys) = addFieldCalls F xs + addFieldCalls F ys :=
  List.countP_append _ _ _

/-- A field's calls record one region when it is indexed as full text under an indexable
spec, none otherwise. -/
theorem addFieldCalls_fieldTypes (F : List FieldSpec) (i : Nat) (ff : DocumentField) :
    addFieldCalls F ((fieldTypes ff).map (i, ·)) =
      if ff.indexAs.fulltext = true ∧ (F.getD i .empty).IsIndexable = true then 1 else 0 := by
  have hne : FieldTypes.NUMERIC ≠ .FULLTEXT ∧ FieldTypes.GEO ≠ .FULLTEXT ∧
      FieldTypes.TAG ≠ .FULLTEXT := by decide
  simp [addFieldCalls, fieldTypes, List.countP_map, List.countP_filter, List.countP_cons,
    Function.comp_def, hne, and_comm]

/-- The calls of one field record a region exactly when it is a field of `R` indexed as full
text under an indexable spec with a name. -/
theorem addFieldCalls_field (sp : IndexSpec) (F : List FieldSpec) (i : Nat) (f : DocumentField)
    (hget : F.getD i .empty = specFor sp f) :
    addFieldCalls F (if (F.getD i .empty).name = "" ∨ (fieldAfter sp f).indexAs.any = false then []
      else (fieldTypes (fieldAfter sp f)).map (i, ·)) =
      if (isTextField sp f && (specFor sp f).name != "") = true then 1 else 0 := by
  cases hr : resolve sp f with
  | none =>
    have hs : specFor sp f = .empty := by simp [specFor, hr]
    rw [hget, hs]
    simp [FieldSpec.empty, addFieldCalls]
  | some s =>
    have hs : specFor sp f = s := by simp [specFor, hr]
    have ha : (fieldAfter sp f).indexAs = resolvedIndexAs f s := by simp [fieldAfter, hr]
    have ht : isTextField sp f = (s.IsIndexable && (resolvedIndexAs f s).fulltext) := by
      simp [isTextField, onResolved, hr]
    rw [hget, hs, ht]
    split_ifs with h₁ h₂ h₂
    · simp_all [FieldTypes.any]
    · rfl
    · rw [addFieldCalls_fieldTypes, hget, hs, ha, if_pos]
      simp only [Bool.and_eq_true] at h₂
      exact ⟨h₂.1.2, h₂.1.1⟩
    · rw [addFieldCalls_fieldTypes, hget, hs, ha, if_neg]
      rintro ⟨hf, hi⟩
      exact h₂ (by simp [hf, hi, (not_or.1 h₁).1])

/-- The calls of a document's plan that record a region, over specs `pre` followed by the
document's own: one per field of `R` indexed as full text under an indexable spec with a
name. -/
theorem addFieldCalls_planFrom (sp : IndexSpec) (pre : List FieldSpec) (fields : List DocumentField) :
    addFieldCalls (pre ++ fields.map (specFor sp))
        (planFrom (pre ++ fields.map (specFor sp)) pre.length (fields.map (fieldAfter sp))) =
      fields.countP fun f => isTextField sp f && (specFor sp f).name != "" := by
  induction fields generalizing pre with
  | nil => simp [planFrom, addFieldCalls]
  | cons f fs ih =>
    have hget : (pre ++ specFor sp f :: fs.map (specFor sp)).getD pre.length .empty = specFor sp f := by
      rw [List.getD_eq_getElem?_getD, List.getElem?_append_right (le_refl _)]
      simp
    have hrest := ih (pre ++ [specFor sp f])
    simp only [List.append_assoc, List.singleton_append, List.length_append,
      List.length_singleton] at hrest
    simp only [List.map_cons, planFrom]
    rw [addFieldCalls_append, hrest, List.countP_cons, add_comm, addFieldCalls_field sp _ _ f hget]

theorem resolve_eq_some {sp : IndexSpec} {f : DocumentField} {s : FieldSpec}
    (h : resolve sp f = some s) : sp.GetField f.name = some s ∧ f.text.isSome = true := by
  cases hg : sp.GetField f.name <;> cases ht : f.text <;> simp_all [resolve]

/-- What the constructor leaves for `AddToIndexes`: one spec per field, the fields' `indexAs`
resolved, no token counted, and byte offsets with room for `numTextIndexable` fields when the
context keeps them. -/
theorem newAddDocumentCtx_buffers {sp : IndexSpec} {options : AddOptions} {b : Document}
    {c : AddDocumentCtx} (hc : newAddDocumentCtx sp options b = some c) :
    c.fspecs = b.fields.map (specFor sp) ∧ c.doc.fields = b.fields.map (fieldAfter sp) ∧
    c.totalTokens = 0 ∧
    c.byteOffsets = if options.noSave = false ∧ 0 < numTextIndexable sp b.fields ∧
      sp.storeByteOffsets = true then some ⟨numTextIndexable sp b.fields, []⟩ else none := by
  obtain ⟨hok, rfl⟩ := newAddDocumentCtx_some hc
  have hcon := SetDocument_contract sp (.init options) b 0 rfl rfl rfl
  exact ⟨(SetDocument_fspecs sp _ b 0 hok).trans (List.nil_append _), hcon.fields hok,
    SetDocument_totalTokens sp _ b 0 hok, hcon.byteOffsets hok⟩

/-- The text fields whose spec has a name are among the text fields, and are all of them on a
schema whose fields have names. -/
theorem countP_named_le (sp : IndexSpec) (fields : List DocumentField) :
    (fields.countP fun f => isTextField sp f && (specFor sp f).name != "") ≤
      numTextIndexable sp fields :=
  (List.countP_mono_left fun f _ h => by simp_all).trans (countP_isTextField sp _).le

theorem countP_named_eq (sp : IndexSpec) (hnames : ∀ fs ∈ sp.fields, fs.name ≠ "")
    (fields : List DocumentField) :
    (fields.countP fun f => isTextField sp f && (specFor sp f).name != "") =
      numTextIndexable sp fields := by
  rw [← countP_isTextField]
  refine List.countP_congr fun f _ => ⟨fun h => by simp_all, fun h => ?_⟩
  simp only [isTextField, onResolved] at h
  split at h
  · rename_i s hr
    have hmem := (IndexSpec.GetField_mem (resolve_eq_some hr).1).1
    simp [isTextField, onResolved, hr, h, specFor, hnames s hmem]
  · cases h

/-- On a context the constructor built, the byte-offset regions `AddToIndexes` records fit the
room `SetDocument` made: at most `numTextIndexable`, exactly that many when it reaches the
indexer on a schema whose fields have names, and they chain from token 1, each starting one
past the end of the one before. -/
theorem byte_offsets_within (sp : IndexSpec) (options : AddOptions) (b : Document)
    (c : AddDocumentCtx) (hc : newAddDocumentCtx sp options b = some c) (bo : ByteOffsets)
    (hbo : (AddToIndexes P c).ctx.byteOffsets = some bo) :
    bo.capacity = numTextIndexable sp b.fields ∧ bo.fields.length ≤ bo.capacity ∧
    RegionsFrom 0 bo.fields ∧
    ((AddToIndexes P c).outcome = .indexerAdd → (∀ fs ∈ sp.fields, fs.name ≠ "") →
      bo.fields.length = bo.capacity) := by
  obtain ⟨hF, hD, hT, hB⟩ := newAddDocumentCtx_buffers hc
  have hch : OffsetsChained c := fun bo h => by
    rw [hB] at h
    split_ifs at h
    cases h
    exact ⟨trivial, hT.symm⟩
  rw [AddToIndexes_eq_runCalls] at hbo ⊢
  obtain ⟨bo₀, h₀, hcap, hle, heq⟩ := runCalls_offsets P _ hbo
  rw [hB] at h₀
  split_ifs at h₀
  cases h₀
  -- the calls that record a region are the document's text fields with a named spec
  have hcount : addFieldCalls c.fspecs (planFrom c.fspecs 0 c.doc.fields) =
      b.fields.countP fun f => isTextField sp f && (specFor sp f).name != "" := by
    rw [hF, hD]
    exact addFieldCalls_planFrom sp [] b.fields
  rw [List.length_nil, Nat.zero_add, hcount] at hle heq
  exact ⟨hcap, hcap ▸ hle.trans (countP_named_le sp _), (runCalls_chained P _ hch bo hbo).1,
    fun hout hnames => by rw [heq hout, countP_named_eq sp hnames, hcap]⟩

/-- The widget document records one region, for its one indexable text field. -/
theorem byte_offsets_within_widget :
    (1 : Nat) = numTextIndexable widgetSpec widgetDoc.fields ∧ [(0, 1, 1)].length ≤ 1 ∧
    RegionsFrom 0 [(0, 1, 1)] ∧
    ((AddToIndexes sampleParsers (SetDocument widgetSpec (.init ⟨false, false⟩) widgetDoc 0).2.1).outcome =
      .indexerAdd → (∀ fs ∈ widgetSpec.fields, fs.name ≠ "") → [(0, 1, 1)].length = 1) :=
  byte_offsets_within sampleParsers widgetSpec ⟨false, false⟩ widgetDoc _ rfl ⟨1, [(0, 1, 1)]⟩
    (by decide)

/-! ## A reload that overruns the byte offsets -/

def bodySpec : FieldSpec := ⟨"body", 0, .FULLTEXT, ⟨false, false, false, false, false⟩, 0, 0, ','⟩
def notesSpec : FieldSpec := ⟨"notes", 1, .FULLTEXT, ⟨false, false, false, false, true⟩, 1, 0, ','⟩

/-- `{body: TEXT, notes: TEXT NOINDEX}`, keeping byte offsets. -/
def notesSchema : IndexSpec := ⟨[bodySpec, notesSpec], [], true, by decide⟩

/-- Index `idx` over `notesSchema`, holding `doc1`, whose stored hash has both fields. -/
def notesKs : Keyspace :=
  { Keyspace.empty with
    indexes := fun n => if n = "idx" then
      some ⟨"idx", 1, notesSchema, ⟨[⟨1, "doc1", ⟨0⟩, none, none⟩]⟩, 1, 2⟩ else none
    hashes := fun k => if k = "doc1" then
      some [("body", "hello world"), ("notes", "draft")] else none }

/-- `PARTIAL` update of `doc1` with `{body:"hi"}`: an indexable field, so the update is
reindexed through `ReplaceMerge`. -/
def bodyUpdate : World :=
  ⟨notesKs, "idx",
    (SetDocument notesSchema (.init ⟨false, true⟩)
      ⟨"doc1", 0, ⟨0⟩, none, [textField "body" "hi"]⟩ 0).2.1, true, false, []⟩

/-- After the reload the context has room for one region, the reloaded body being the one
indexable text field; but the first spec in `fspecs` is still the update's body spec, so
`AddToIndexes` tokenizes the NOINDEX notes under it and records two regions. -/
theorem ReplaceMerge_overflows_byteOffsets :
    (handlePartialUpdate sampleParsers bodyUpdate).1 = false ∧
    (handlePartialUpdate sampleParsers bodyUpdate).2.ctx.fspecs = [bodySpec, bodySpec, notesSpec] ∧
    (AddToIndexes sampleParsers (handlePartialUpdate sampleParsers bodyUpdate).2.ctx).outcome =
      .indexerAdd ∧
    (AddToIndexes sampleParsers (handlePartialUpdate sampleParsers bodyUpdate).2.ctx).ctx.byteOffsets =
      some ⟨1, [(0, 1, 2), (0, 3, 3)]⟩ := by
  decide

end RediSearch
