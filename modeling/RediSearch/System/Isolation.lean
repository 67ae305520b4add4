import RediSearch.GC.Confine
import RediSearch.Ingest.Completion

/-!
# Indexes are isolated from one another

An ingest into index `name` writes only what `name` owns: the numeric, tag and geo indexers
open the keys `GetFormattedKey` makes of `name`, the forward index is merged into the posting
lists of `name`'s terms, and the document is published in `name`'s own table
(`Submit_frame`, on every path of `Submit`, the failing and undefined ones included). A pass
of `name`'s collector writes only what `name` owns as well (`PeriodicCallback_confined`).

The system of many indexes, each with its collector, runs ingests and passes in any order
(`runSys`; a pass meets no host step at its yields, and a run stops at a pass that reads freed
memory). Its invariant is that every registered index carries its own name and every
collector is keyed by its index (`SysInv`). Along every run, an index and its collector are
changed only by their own events: a run of events of other indexes leaves an index's
registration, the posting lists, trees, tag indexes and geo sets of its keys, the stored
hashes and its collector as they were (`indexes_isolated`). Identities (`nextIdent`) are
shared by all indexes and are not part of what an index owns.
-/

namespace RediSearch

open World

/-- `ks'` differs from `ks` only in what index `name` owns: its registration, which keeps its
name, and the posting lists, trees, tag indexes and geo sets of its keys. The stored hashes
are the same. -/
structure Frame (name : String) (ks ks' : Keyspace) : Prop where
  indexes : ∀ n, n ≠ name → ks'.indexes n = ks.indexes n
  invIdx : ∀ k : Key, k.owner ≠ name → ks'.invIdx k = ks.invIdx k
  numIdx : ∀ k : Key, k.owner ≠ name → ks'.numIdx k = ks.numIdx k
  tagIdx : ∀ k : Key, k.owner ≠ name → ks'.tagIdx k = ks.tagIdx k
  geoIdx : ∀ k : Key, k.owner ≠ name → ks'.geoIdx k = ks.geoIdx k
  hashes : ks'.hashes = ks.hashes
  named : Named name ks → Named name ks'

namespace Frame

variable {name : String} {ks ks₁ ks₂ : Keyspace}

theorem refl (ks : Keyspace) : Frame name ks ks :=
  ⟨fun _ _ => rfl, fun _ _ => rfl, fun _ _ => rfl, fun _ _ => rfl, fun _ _ => rfl, rfl, id⟩

theorem of_eq (h : ks₁ = ks) : Frame name ks ks₁ := by
  rw [h]
  exact refl ks

theorem trans (h₁ : Frame name ks ks₁) (h₂ : Frame name ks₁ ks₂) : Frame name ks ks₂ :=
  ⟨fun n hn => (h₂.indexes n hn).trans (h₁.indexes n hn),
    fun k hk => (h₂.invIdx k hk).trans (h₁.invIdx k hk),
    fun k hk => (h₂.numIdx k hk).trans (h₁.numIdx k hk),
    fun k hk => (h₂.tagIdx k hk).trans (h₁.tagIdx k hk),
    fun k hk => (h₂.geoIdx k hk).trans (h₁.geoIdx k hk), h₂.hashes.trans h₁.hashes,
    h₂.named ∘ h₁.named⟩

/-- A change confined to `name` that leaves the registrations as they are. -/
theorem of_touchesOnly (h : TouchesOnly name ks ks₁) (hi : ks₁.indexes = ks.indexes) :
    Frame name ks ks₁ :=
  ⟨h.indexes, h.invIdx, h.numIdx, h.tagIdx, fun k _ => by rw [h.geoIdx], h.hashes,
    fun hn => hn.of_indexes hi⟩

/-- A registration other than `name`'s still carries its name. -/
theorem named_of_ne (h : Frame name ks ks₁) {n : String} (hn : n ≠ name) (hnamed : Named n ks) :
    Named n ks₁ :=
  fun ix hix => hnamed ix (h.indexes n hn ▸ hix)

end Frame

/-! ## The keyspace operations of an ingest -/

section Operations

variable {name : String} (ks : Keyspace) (k : Key)

/-- A change of `name`'s registration that keeps its name. -/
theorem frame_modifyIndex (f : IndexState → IndexState) (hf : ∀ ix, (f ix).name = ix.name) :
    Frame name ks (ks.modifyIndex name f) := by
  refine ⟨fun _ hn => Function.update_noteq hn _ _, fun _ _ => rfl, fun _ _ => rfl,
    fun _ _ => rfl, fun _ _ => rfl, rfl, fun hnamed ix hix => ?_⟩
  simp only [Keyspace.modifyIndex, Function.update_same, Option.map_eq_some'] at hix
  obtain ⟨ix₀, h₀, rfl⟩ := hix
  exact (hf ix₀).trans (hnamed ix₀ h₀)

theorem frame_countRecord : Frame name ks (ks.modifyIndex name IndexState.countRecord) :=
  frame_modifyIndex ks _ fun _ => rfl

theorem frame_setNumIdx (hk : k.owner = name) (t : NumericRangeTree) :
    Frame name ks (ks.setNumIdx k t) :=
  .of_touchesOnly (touchesOnly_setNumIdx ks hk t) rfl

theorem frame_setTagIdx (hk : k.owner = name) (t : TagIndex) : Frame name ks (ks.setTagIdx k t) :=
  .of_touchesOnly (touchesOnly_setTagIdx ks hk t) rfl

theorem frame_nextIdent (n : Nat) : Frame name ks { ks with nextIdent := n } :=
  .of_touchesOnly (touchesOnly_nextIdent ks n) rfl

theorem frame_openInvIdx (hk : k.owner = name) : Frame name ks (ks.openInvIdx k).1 :=
  .of_touchesOnly (touchesOnly_openInvIdx ks hk) (Keyspace.openInvIdx_indexes ks k)

theorem frame_OpenNumericIndex (hk : k.owner = name) : Frame name ks (OpenNumericIndex ks k).1 :=
  .of_touchesOnly (touchesOnly_OpenNumericIndex ks hk) (OpenNumericIndex_indexes ks k)

theorem frame_TagIndexOpen (hk : k.owner = name) (create : Bool) :
    Frame name ks (TagIndexOpen ks k create).1 := by
  unfold TagIndexOpen
  split
  · exact .refl ks
  · split
    · exact (frame_setTagIdx ks k hk _).trans (frame_nextIdent _ _)
    · exact .refl ks

/-- A point added to the geo set of a key of `name`. -/
theorem frame_geoIdx (hk : k.owner = name) (pts : List (Nat × Double × Double)) :
    Frame name ks { ks with geoIdx := Function.update ks.geoIdx k pts } :=
  ⟨fun _ _ => rfl, fun _ _ => rfl, fun _ _ => rfl, fun _ _ => rfl,
    fun k' hk' => Function.update_noteq (show k' ≠ k from fun e => hk' (e ▸ hk)) _ _, rfl, id⟩

end Operations

section Indexers

variable (P : Parsers) (cap : Nat) (name : String) (docId : Nat) (fs : FieldSpec)
  (fd : FieldIndexerData) (ks : Keyspace)

theorem numericIndexer_frame : Frame name ks (numericIndexer cap name docId fs fd ks).1 := by
  have ho : Frame name ks (OpenNumericIndex ks (.field name fs.name .NUMERIC)).1 :=
    frame_OpenNumericIndex ks (.field name fs.name .NUMERIC) rfl
  simp only [numericIndexer]
  generalize OpenNumericIndex ks (.field name fs.name .NUMERIC) = p at ho ⊢
  exact (ho.trans (frame_setNumIdx _ (.field name fs.name .NUMERIC) rfl _)).trans
    (frame_countRecord _)

theorem tagIndexer_frame : Frame name ks (tagIndexer cap name docId fs fd ks).1 := by
  have ho : Frame name ks (TagIndexOpen ks (.field name fs.name .TAG) true).1 :=
    frame_TagIndexOpen ks (.field name fs.name .TAG) rfl true
  unfold tagIndexer
  dsimp only
  split
  · next heq =>
    rw [heq] at ho
    exact ho
  · next heq =>
    rw [heq] at ho
    exact ((ho.trans (frame_setTagIdx _ (.field name fs.name .TAG) rfl _)).trans
      (frame_nextIdent _ _)).trans (frame_countRecord _)

theorem geoIndexer_frame : Frame name ks (geoIndexer P name docId fs fd ks).1 := by
  unfold geoIndexer
  split
  · exact frame_geoIdx ks (.field name fs.name .GEO) rfl _
  · exact .refl ks

theorem bulkIndexer_frame (t : FieldTypes) : Frame name ks (bulkIndexer P cap name docId fs fd t ks).1 := by
  unfold bulkIndexer
  split_ifs
  · exact tagIndexer_frame cap name docId fs fd ks
  · exact numericIndexer_frame cap name docId fs fd ks
  · exact geoIndexer_frame P name docId fs fd ks
  · exact .refl ks

theorem IndexBulkDataAdd_frame (ff : DocumentField) :
    Frame name ks (IndexBulkDataAdd P cap name docId ff fs fd ks).1 := by
  suffices ∀ (ts : List FieldTypes) (r : IndexerResult), Frame name ks r.1 →
      Frame name ks (ts.foldl (fun r t => if r.2.isNone ∧ ff.CheckIdx t then
        bulkIndexer P cap name docId fs fd t r.1 else r) r).1 from this _ _ (.refl ks)
  intro ts
  induction ts with
  | nil => exact fun _ h => h
  | cons t ts ih =>
    intro r h
    apply ih
    dsimp only
    split_ifs
    · exact h.trans (bulkIndexer_frame P cap name docId fs fd _ t)
    · exact h

theorem bulkFieldsFrom_frame (c : AddDocumentCtx) :
    ∀ (i : Nat) (ffs : List DocumentField) (ks : Keyspace),
      Frame name ks (bulkFieldsFrom P cap name docId c i ffs ks).1
  | _, [], ks => .refl ks
  | i, ff :: ffs, ks => by
    unfold bulkFieldsFrom
    dsimp only
    split_ifs
    · exact bulkFieldsFrom_frame c (i + 1) ffs ks
    · have hb := IndexBulkDataAdd_frame P cap name docId (c.fspecs.getD i .empty) (c.fdata i) ks ff
      unfold continueBulk
      split
      · next heq =>
        rw [heq] at hb
        exact hb.trans (bulkFieldsFrom_frame c (i + 1) ffs _)
      · next heq => exact heq ▸ hb

theorem mergeTerms_frame : ∀ (terms : List String) (ks : Keyspace),
    Frame name ks (mergeTerms cap name docId terms ks)
  | [], ks => .refl ks
  | term :: terms, ks => by
    have ho : Frame name ks (ks.openInvIdx (.term name term)).1 := frame_openInvIdx ks (.term name term) rfl
    simp only [mergeTerms]
    generalize ks.openInvIdx (.term name term) = p at ho ⊢
    exact ((ho.trans (.of_touchesOnly (touchesOnly_setInvIdx _ (show Key.owner (.term name term) = name from rfl) _) rfl)).trans
      (frame_countRecord _)).trans (mergeTerms_frame terms _)

end Indexers

/-! ## An ingest writes only its own index -/

namespace World

@[simp] theorem name_emit (w : World) (e : Event) : (w.emit e).name = w.name := by
  unfold emit; split <;> rfl

@[simp] theorem name_halt (w : World) (e : Event) : (w.halt e).name = w.name := by
  unfold halt; split <;> rfl

@[simp] theorem name_destroy (w : World) : w.destroy.name = w.name := by
  unfold destroy; dsimp only; split <;> simp

@[simp] theorem name_setCtx (w : World) (f : AddDocumentCtx → AddDocumentCtx) :
    (w.setCtx f).name = w.name := by
  unfold setCtx; dsimp only; split <;> simp

@[simp] theorem name_setKs (w : World) (f : Keyspace → Keyspace) : (w.setKs f).name = w.name := by
  unfold setKs; split <;> rfl

@[simp] theorem name_Finish (w : World) : (Finish w).name = w.name := by
  unfold Finish doReplyFinish; dsimp only; split <;> simp

end World

@[simp] theorem name_bail (w : World) (msg : String) : (bail w msg).name = w.name := by
  simp [bail]

@[simp] theorem name_afterStop (w : World) (s : SortStop) (rest : List DocumentField) :
    (afterStop w s rest).name = w.name := by
  cases s <;> simp only [afterStop] <;> (try split_ifs) <;> simp

/-- From `w` to `w'` the run keeps the index it ingests into and writes only what that index
owns. -/
structure OwnWrites (w w' : World) : Prop where
  name : w'.name = w.name
  frame : Frame w.name w.ks w'.ks

namespace OwnWrites

variable {w w₁ w₂ : World}

theorem of_ks (hn : w₁.name = w.name) (hk : w₁.ks = w.ks) : OwnWrites w w₁ :=
  ⟨hn, .of_eq hk⟩

theorem trans (h₁ : OwnWrites w w₁) (h₂ : OwnWrites w₁ w₂) : OwnWrites w w₂ :=
  ⟨h₂.name.trans h₁.name, h₁.frame.trans (h₁.name ▸ h₂.frame)⟩

theorem access (w : World) : OwnWrites w w.access := of_ks (name_access w) (ks_access w)

theorem setKs (w : World) {f : Keyspace → Keyspace} (h : Frame w.name w.ks (f w.ks)) :
    OwnWrites w (w.setKs f) := by
  refine ⟨name_setKs w f, ?_⟩
  unfold World.setKs
  split
  · exact .refl _
  · exact h

end OwnWrites

section Ingest

variable (P : Parsers) (cap : Nat)

theorem indexerAdd_ownWrites (w : World) : OwnWrites w (indexerAdd P cap w) := by
  have ha := OwnWrites.access w
  unfold indexerAdd
  generalize w.access = v at ha ⊢
  refine ha.trans ?_
  dsimp only
  split
  · exact .of_ks (name_Finish v) (ks_Finish v)
  · next ix _ =>
    have hb := bulkFieldsFrom_frame P cap v.name (ix.maxDocId + 1) v.ctx 0 v.ctx.doc.fields v.ks
    split
    · next ks _ _ heq =>
      rw [heq] at hb
      exact (@OwnWrites.setKs v (fun _ => ks) hb).trans (.of_ks (by simp) (by simp))
    · next ks heq =>
      rw [heq] at hb
      refine (OwnWrites.setKs v ?_).trans (.of_ks (name_Finish _) (ks_Finish _))
      exact (hb.trans (mergeTerms_frame cap v.name _ _ ks)).trans
        (frame_modifyIndex _ _ fun _ => rfl)

theorem runAddToIndexes_ownWrites (w : World) : OwnWrites w (runAddToIndexes P cap w) := by
  have ha := OwnWrites.access w
  unfold runAddToIndexes
  generalize w.access = v at ha ⊢
  refine ha.trans ?_
  dsimp only
  split_ifs
  · exact .of_ks rfl rfl
  split
  · exact (OwnWrites.of_ks (by simp) (by simp)).trans (indexerAdd_ownWrites P cap _)
  · exact .of_ks (name_Finish _) (ks_Finish _)
  · exact .of_ks (name_halt _ _) (ks_halt _ _)

theorem submitIndex_ownWrites (w : World) : OwnWrites w (submitIndex P cap w) := by
  have ha := OwnWrites.access w
  unfold submitIndex
  generalize w.access = v at ha ⊢
  refine ha.trans ?_
  dsimp only
  split_ifs
  · exact .of_ks rfl rfl
  · exact (OwnWrites.of_ks (name_emit _ _) (ks_emit _ _)).trans (runAddToIndexes_ownWrites P cap _)
  · exact runAddToIndexes_ownWrites P cap _

theorem ReplaceMerge_ownWrites (w : World) : OwnWrites w (ReplaceMerge w).2 := by
  have ha := OwnWrites.access w
  unfold ReplaceMerge
  generalize w.access = v at ha ⊢
  refine ha.trans ?_
  dsimp only
  split_ifs
  · exact .of_ks rfl rfl
  split
  · exact .of_ks (by simp) (by simp)
  · generalize SetDocument _ _ _ _ = R
    obtain ⟨_, c, d'⟩ := R
    exact .of_ks rfl rfl

theorem UpdateNoIndex_ownWrites (w : World) : OwnWrites w (UpdateNoIndex P w) := by
  have ha := OwnWrites.access w
  unfold UpdateNoIndex
  generalize w.access = v at ha ⊢
  refine ha.trans ?_
  dsimp only
  split_ifs
  · exact .of_ks rfl rfl
  split
  · exact .of_ks (name_halt _ _) (ks_halt _ _)
  · next ix _ =>
    -- the `BAIL` on a missing id keeps the world's index and keyspace
    have hu : OwnWrites v (if ix.docs.GetId v.ctx.doc.docKey = 0 then
        bail v "Couldn't load old document" else v) := by
      split_ifs <;> exact .of_ks (by simp) (by simp)
    generalize (if ix.docs.GetId v.ctx.doc.docKey = 0 then
      bail v "Couldn't load old document" else v) = u at hu ⊢
    refine hu.trans ?_
    have hmd : ∀ md, OwnWrites u (u.setKs (·.setMd u.name (ix.docs.GetId v.ctx.doc.docKey) md)) :=
      fun md => OwnWrites.setKs u (frame_modifyIndex _ _ fun _ => rfl)
    split
    · exact .of_ks (by simp) (by simp)
    · split_ifs
      · split
        · exact hmd _
        · exact (hmd _).trans (.of_ks (name_afterStop _ _ _) (ks_afterStop _ _ _))
      · exact hmd _

/-- Every path of `Submit` writes only what the world's index owns: a run of `Submit` on any
context, PARTIAL or not, keeps every other index's registration, the posting lists, trees,
tag indexes and geo sets of every other index's keys, and the stored hashes, and keeps the
name of its own index. -/
theorem Submit_ownWrites (w : World) (partialUpdate : Bool) :
    OwnWrites w (Submit P cap w partialUpdate) := by
  unfold Submit
  split
  · have hp : OwnWrites w (handlePartialUpdate P w).2 := by
      have ha := OwnWrites.access w
      unfold handlePartialUpdate
      generalize w.access = v at ha ⊢
      refine ha.trans ?_
      dsimp only
      split_ifs
      · exact .of_ks rfl rfl
      · exact ReplaceMerge_ownWrites v
      · exact UpdateNoIndex_ownWrites P v
    split
    · next heq =>
      rw [heq] at hp
      exact hp
    · next w' heq =>
      rw [heq] at hp
      exact hp.trans (submitIndex_ownWrites P cap w')
  · exact submitIndex_ownWrites P cap w

end Ingest

/-- A pass of `name`'s collector that started on `ks₀` has written only what `name` owns. -/
theorem Frame.of_confined {name : String} {ks₀ : Keyspace} {w : GcWorld}
    (h : Confined name ks₀ w) : Frame name ks₀ w.ks :=
  ⟨h.touches.indexes, h.touches.invIdx, h.touches.numIdx, h.touches.tagIdx,
    fun k _ => by rw [h.touches.geoIdx], h.touches.hashes, fun _ => h.named⟩

/-! ## Many indexes and their collectors -/

/-- The host with all its indexes, and the collector of each index. -/
structure Sys where
  ks : Keyspace
  gc : String → GarbageCollector

/-- An ingest into an index, or a pass of an index's collector. -/
inductive SysEvent
  | submit (name : String) (ctx : AddDocumentCtx) (partialUpdate : Bool)
  | pass (name : String) (fuel : Nat) (loading : Bool) (ch : GcChoices)

/-- The index an event is for. -/
def SysEvent.index : SysEvent → String
  | .submit name _ _ => name
  | .pass name _ _ _ => name

/-- What index `c` owns is the same in `ks` and `ks'`: its registration, and the posting
lists, trees, tag indexes and geo sets of its keys; so are the stored hashes. -/
structure Untouched (c : String) (ks ks' : Keyspace) : Prop where
  index : ks'.indexes c = ks.indexes c
  invIdx : ∀ k : Key, k.owner = c → ks'.invIdx k = ks.invIdx k
  numIdx : ∀ k : Key, k.owner = c → ks'.numIdx k = ks.numIdx k
  tagIdx : ∀ k : Key, k.owner = c → ks'.tagIdx k = ks.tagIdx k
  geoIdx : ∀ k : Key, k.owner = c → ks'.geoIdx k = ks.geoIdx k
  hashes : ks'.hashes = ks.hashes

theorem Untouched.refl (c : String) (ks : Keyspace) : Untouched c ks ks :=
  ⟨rfl, fun _ _ => rfl, fun _ _ => rfl, fun _ _ => rfl, fun _ _ => rfl, rfl⟩

theorem Untouched.trans {c : String} {ks ks₁ ks₂ : Keyspace} (h₁ : Untouched c ks ks₁)
    (h₂ : Untouched c ks₁ ks₂) : Untouched c ks ks₂ :=
  ⟨h₂.index.trans h₁.index, fun k hk => (h₂.invIdx k hk).trans (h₁.invIdx k hk),
    fun k hk => (h₂.numIdx k hk).trans (h₁.numIdx k hk),
    fun k hk => (h₂.tagIdx k hk).trans (h₁.tagIdx k hk),
    fun k hk => (h₂.geoIdx k hk).trans (h₁.geoIdx k hk), h₂.hashes.trans h₁.hashes⟩

/-- A write confined to index `a` leaves every other index untouched. -/
theorem Frame.untouched {a c : String} {ks ks' : Keyspace} (h : Frame a ks ks') (hc : c ≠ a) :
    Untouched c ks ks' :=
  have hk : ∀ k : Key, k.owner = c → k.owner ≠ a := fun _ hk => hk ▸ hc
  ⟨h.indexes c hc, fun k e => h.invIdx k (hk k e), fun k e => h.numIdx k (hk k e),
    fun k e => h.tagIdx k (hk k e), fun k e => h.geoIdx k (hk k e), h.hashes⟩

/-- Every registered index carries its name, and every collector is keyed by its index. -/
structure SysInv (s : Sys) : Prop where
  named : ∀ n, Named n s.ks
  keyed : ∀ n, (s.gc n).keyName = .index n

section System

variable (P : Parsers) (cap scan : Nat) (B : HzBounds)

/-- One event: an ingest runs `Submit` on a live context over the host's keyspace; a pass
runs `PeriodicCallback` on the index's collector, with no host step at its yields. -/
def sysStep (s : Sys) : SysEvent → Sys
  | .submit name c partialUpdate =>
    { s with ks := (Submit P cap ⟨s.ks, name, c, true, false, []⟩ partialUpdate).ks }
  | .pass name fuel loading ch =>
    let w := (PeriodicCallback cap scan B fuel loading ch ⟨s.ks, s.gc name, .OK, [], []⟩).1
    ⟨w.ks, Function.update s.gc name w.gc⟩

/-- Whether an event reads freed memory: a pass that does. -/
def sysCrashes (s : Sys) : SysEvent → Bool
  | .submit .. => false
  | .pass name fuel loading ch =>
    (PeriodicCallback cap scan B fuel loading ch ⟨s.ks, s.gc name, .OK, [], []⟩).2.crashed

/-- A run of events, in any order; it stops at a pass that reads freed memory. -/
def runSys (s : Sys) (evs : List SysEvent) : Sys :=
  runSteps (fun s e => (sysStep P cap scan B s e, sysCrashes cap scan B s e)) s evs

/-- One event writes only what its index owns, changes only its index's collector, and keeps
the invariant. -/
theorem sysStep_frame {s : Sys} (hi : SysInv s) (e : SysEvent) :
    Frame e.index s.ks (sysStep P cap scan B s e).ks ∧
      (∀ n, n ≠ e.index → (sysStep P cap scan B s e).gc n = s.gc n) ∧
      SysInv (sysStep P cap scan B s e) := by
  cases e with
  | submit name c p =>
    have h := (Submit_ownWrites P cap ⟨s.ks, name, c, true, false, []⟩ p).frame
    refine ⟨h, fun _ _ => rfl, fun n => ?_, hi.keyed⟩
    by_cases hn : n = name
    · subst hn
      exact h.named (hi.named n)
    · exact h.named_of_ne hn (hi.named n)
  | pass name fuel loading ch =>
    have hc := PeriodicCallback_confined cap scan B fuel loading ch ⟨s.ks, s.gc name, .OK, [], []⟩
      ⟨TouchesOnly.refl _, hi.named name, rfl, hi.keyed name⟩
    have h := Frame.of_confined hc
    refine ⟨h, fun n hn => Function.update_noteq hn _ _, fun n => ?_, fun n => ?_⟩
    · by_cases hn : n = name
      · subst hn
        exact hc.named
      · exact h.named_of_ne hn (hi.named n)
    · by_cases hn : n = name
      · subst hn
        simpa only [sysStep, Function.update_same] using hc.key
      · simpa only [sysStep, Function.update_noteq hn] using hi.keyed n

/-- Indexes are isolated from one another: along every run of ingests and collector passes of
other indexes, in any order, from a host where every index carries its name and every
collector is keyed by its index, an index's registration, the posting lists, trees, tag
indexes and geo sets of its keys, the stored hashes and its collector stay as they were. -/
theorem indexes_isolated (s : Sys) (hi : SysInv s) (c : String) (evs : List SysEvent)
    (hevs : ∀ e ∈ evs, e.index ≠ c) :
    Untouched c s.ks (runSys P cap scan B s evs).ks ∧ (runSys P cap scan B s evs).gc c = s.gc c :=
  (runSteps_preserves (fun s' : Sys => SysInv s' ∧ Untouched c s.ks s'.ks ∧ s'.gc c = s.gc c)
    (fun _ (e : SysEvent) he h =>
      have hne : c ≠ e.index := fun h' => hevs e he h'.symm
      have hs := sysStep_frame P cap scan B h.1 e
      ⟨hs.2.2, h.2.1.trans (hs.1.untouched hne), (hs.2.1 c hne).trans h.2.2⟩)
    s ⟨hi, .refl c s.ks, rfl⟩).2

/-- The widget index's collectors, each keyed by its index. -/
def widgetSys : Sys := ⟨widgetKs, fun n => GarbageCollector.new (.index n) 10 1 0⟩

theorem indexes_isolated_widget :
    SysInv widgetSys ∧
    (∀ e ∈ [SysEvent.submit "idx" priceUpdate.ctx true, .pass "idx" 10 false ⟨none, 0, 0, 0⟩],
      e.index ≠ "other") ∧
    Untouched "other" widgetSys.ks (runSys sampleParsers 100 1 defaultHzBounds widgetSys
      [.submit "idx" priceUpdate.ctx true, .pass "idx" 10 false ⟨none, 0, 0, 0⟩]).ks ∧
    (runSys sampleParsers 100 1 defaultHzBounds widgetSys
      [.submit "idx" priceUpdate.ctx true, .pass "idx" 10 false ⟨none, 0, 0, 0⟩]).gc "other" =
      widgetSys.gc "other" :=
  have hi : SysInv widgetSys := ⟨fun n ix hix => by
    simp only [widgetSys, widgetKs] at hix
    split_ifs at hix with h
    cases hix
    exact h.symm, fun _ => rfl⟩
  have hevs : ∀ e ∈ [SysEvent.submit "idx" priceUpdate.ctx true,
      .pass "idx" 10 false ⟨none, 0, 0, 0⟩], e.index ≠ "other" := by
    simp [SysEvent.index]
  ⟨hi, hevs, indexes_isolated sampleParsers 100 1 defaultHzBounds widgetSys hi "other" _ hevs⟩

end System

end RediSearch
