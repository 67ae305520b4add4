import RediSearch.Ingest.Buffers

/-!
# Every context `Submit` indexes is completed once

The context of an ingest is completed by a call of the completion callback followed by
`delete aCtx`: through `Finish` (`doReplyFinish` at once for a NOBLOCK context, after
`RedisModule_UnblockClient` for any other), or, for a reload that finds no stored document,
by `ReplaceMerge` itself. Each stage of `Submit` says once which events it appends
(`Finish_completion`, `indexerAdd_completion`, `runAddToIndexes_completion`,
`submitIndex_completion`, `ReplaceMerge_cases`), and `Submit_completes_once` is assembled
from them: on a context whose sortable specs have a sorting vector behind them (every context
the constructor builds), a `Submit` that does not go to `UpdateNoIndex` appends at most the
hand-off to the worker pool and the indexer call, then exactly one completion; the context is
deleted, and nothing undefined happens.

The metadata-only PARTIAL path is left out: `UpdateNoIndex` completes the context only when it
bails, and then reads it after its deletion.
-/

namespace RediSearch

open World

variable (P : Parsers) (cap : Nat)

/-! ## Live worlds -/

/-- A world whose context is not deleted and whose run has met no undefined behaviour. -/
structure Live (w : World) : Prop where
  alive : w.alive = true
  running : w.halted = false

namespace World

variable {w : World}

theorem access_of_live (h : Live w) : w.access = w := by simp [access, h.alive]

theorem emit_of_live (h : Live w) (e : Event) :
    w.emit e = { w with events := w.events ++ [e] } := by simp [emit, h.running]

theorem setCtx_of_live (h : Live w) (f : AddDocumentCtx → AddDocumentCtx) :
    w.setCtx f = { w with ctx := f w.ctx } := by simp [setCtx, access_of_live h, h.running]

theorem setKs_of_live (h : Live w) (f : Keyspace → Keyspace) :
    w.setKs f = { w with ks := f w.ks } := by simp [setKs, h.running]

theorem destroy_of_live (h : Live w) :
    w.destroy = { w with alive := false, events := w.events ++ [.destroy] } := by
  simp [destroy, access_of_live h, h.running]

@[simp] theorem ctx_emit (w : World) (e : Event) : (w.emit e).ctx = w.ctx := by
  unfold emit; split <;> rfl

end World

theorem Live.emit {w : World} (h : Live w) (e : Event) : Live (w.emit e) := by
  rw [emit_of_live h]
  exact ⟨h.alive, h.running⟩

theorem Live.setCtx {w : World} (h : Live w) (f : AddDocumentCtx → AddDocumentCtx) :
    Live (w.setCtx f) := by
  rw [setCtx_of_live h]
  exact ⟨h.alive, h.running⟩

/-- A change of the world's keyspace, context or events, leaving its context alive. -/
theorem Live.with {w : World} (h : Live w) (ks : Keyspace) (c : AddDocumentCtx)
    (evs : List Event) : Live { w with ks := ks, ctx := c, events := evs } :=
  ⟨h.alive, h.running⟩

/-! ## Completions -/

/-- The run from `w` to `w'` appends `pre`, then `post`, to the events; it ends with the
context deleted and no undefined behaviour. -/
structure Completion (w w' : World) (pre post : List Event) : Prop where
  events : w'.events = w.events ++ pre ++ post
  deleted : w'.alive = false
  defined : w'.halted = false

/-- An event in front of a completion. -/
theorem Completion.cons {w w₁ w' : World} {e : Event} {pre post : List Event}
    (he : w₁.events = w.events ++ [e]) (h : Completion w₁ w' pre post) :
    Completion w w' (e :: pre) post :=
  ⟨by rw [h.events, he]; simp, h.deleted, h.defined⟩

/-- A completion from a world with the same events. -/
theorem Completion.of_events {w w₁ w' : World} {pre post : List Event}
    (h : Completion w₁ w' pre post) (he : w₁.events = w.events) : Completion w w' pre post :=
  ⟨by rw [h.events, he], h.deleted, h.defined⟩

/-- The callback, then `delete aCtx`, after a change of the context: how a failed reload (and
a `BAIL` of `UpdateNoIndex`) ends. -/
theorem replyDelete_completion {w : World} (h : Live w) (f : AddDocumentCtx → AddDocumentCtx) :
    Completion w (((w.setCtx f).emit .donecb).destroy) [] [.donecb, .destroy] := by
  rw [destroy_of_live ((h.setCtx f).emit .donecb), emit_of_live (h.setCtx f), setCtx_of_live h]
  exact ⟨by simp, rfl, h.running⟩

/-- `Finish` replies and deletes the context: `finishEvents`, after the unblock of a blocking
client. -/
theorem Finish_completion {w : World} (h : Live w) :
    Completion w (Finish w) [] (finishEvents w.ctx.stateFlags.noBlock) := by
  obtain ⟨hev, hal⟩ := Finish_events h.alive h.running
  refine ⟨by simpa using hev, hal, ?_⟩
  unfold Finish doReplyFinish
  dsimp only
  split <;> simp [emit, access, destroy, h.alive, h.running]

/-- The indexer completes the context through `Finish`, whether or not its bulk indexers fail
and whether or not the index is registered. -/
theorem indexerAdd_completion {w : World} (h : Live w) :
    Completion w (indexerAdd P cap w) [] (finishEvents w.ctx.stateFlags.noBlock) := by
  unfold indexerAdd
  rw [access_of_live h]
  dsimp only
  split
  · exact Finish_completion h
  · split
    · rw [setKs_of_live h, setCtx_of_live (h.with _ w.ctx w.events)]
      exact (Finish_completion (h.with _ _ w.events)).of_events rfl
    · rw [setKs_of_live h]
      exact (Finish_completion (h.with _ w.ctx w.events)).of_events rfl

/-- The preprocessors never change the state flags. -/
theorem runCalls_stateFlags (cs : List (Nat × FieldTypes)) (c : AddDocumentCtx) :
    (runCalls P addDone cs c).ctx.stateFlags = c.stateFlags := by
  induction cs generalizing c with
  | nil => rfl
  | cons x cs ih =>
    obtain ⟨i, t⟩ := x
    simp only [runCalls]
    split
    next => rfl
    next c' hp => exact (preprocess_spec P hp).stateFlags
    next c' hp => exact (ih c').trans (preprocess_spec P hp).stateFlags

/-- A run of `AddToIndexes` on a context whose sortable specs are backed completes it once,
after the indexer call when every preprocessor returned true. -/
theorem runAddToIndexes_completion {w : World} (h : Live w) (hb : SvBacked w.ctx) :
    ∃ pre, pre.Sublist [.indexerAdd] ∧
      Completion w (runAddToIndexes P cap w) pre (finishEvents w.ctx.stateFlags.noBlock) := by
  have hflags : (AddToIndexes P w.ctx).ctx.stateFlags = w.ctx.stateFlags := by
    rw [AddToIndexes_eq_runCalls]
    exact runCalls_stateFlags P _ _
  have hl : Live { w with ctx := (AddToIndexes P w.ctx).ctx } := ⟨h.alive, h.running⟩
  unfold runAddToIndexes
  rw [access_of_live h, if_neg (ne_true_of_eq_false h.running)]
  dsimp only
  split
  next =>
    have hc := indexerAdd_completion P cap (hl.emit .indexerAdd)
    simp only [ctx_emit, hflags] at hc
    exact ⟨_, .refl _, Completion.cons (by rw [emit_of_live hl]) hc⟩
  next =>
    have hc := Finish_completion hl
    simp only [hflags] at hc
    exact ⟨[], List.nil_sublist _, hc.of_events rfl⟩
  next hout => exact absurd hout (AddToIndexes_backed P hb)

/-- The part of `Submit` after the PARTIAL check: the hand-off to the worker pool, if the
context goes there, then a run of `AddToIndexes`. -/
theorem submitIndex_completion {w : World} (h : Live w) (hb : SvBacked w.ctx) :
    ∃ pre, pre.Sublist [.workerPool, .indexerAdd] ∧
      Completion w (submitIndex P cap w) pre (finishEvents w.ctx.stateFlags.noBlock) := by
  unfold submitIndex
  rw [access_of_live h, if_neg (ne_true_of_eq_false h.running)]
  split
  · have hl := h.with w.ks w.ctx (w.events ++ [.workerPool])
    obtain ⟨pre, hpre, hc⟩ := runAddToIndexes_completion P cap hl hb
    rw [emit_of_live h]
    exact ⟨.workerPool :: pre, hpre.cons₂ _, Completion.cons rfl hc⟩
  · obtain ⟨pre, hpre, hc⟩ := runAddToIndexes_completion P cap h hb
    exact ⟨pre, hpre.trans (List.sublist_cons_self _ _), hc⟩

/-- `SetDocument` keeps `ACTX_F_NOBLOCK`. -/
theorem SetDocument_noBlock {sp : IndexSpec} {c : AddDocumentCtx} {d : Document} {n : Nat}
    (hok : (SetDocument sp c d n).1 = true) :
    (SetDocument sp c d n).2.1.stateFlags.noBlock = c.stateFlags.noBlock := by
  obtain ⟨-, l', hc⟩ := SetDocument_of_ok sp c d n hok
  simp [hc, setDocumentFlags, afterFields, setDocumentStart]

/-- The reload either finds no stored document, and then replies and deletes the context
itself, or returns to `Submit` with the context alive, its events and `ACTX_F_NOBLOCK` as they
were, and its sortable specs backed. -/
theorem ReplaceMerge_cases {w : World} (h : Live w) (hb : SvBacked w.ctx)
    (hd : w.spec.FieldsDistinct) :
    (∃ w', ReplaceMerge w = (true, w') ∧ Completion w w' [] [.donecb, .destroy]) ∨
    (∃ w', ReplaceMerge w = (false, w') ∧ Live w' ∧ w'.events = w.events ∧
      w'.ctx.stateFlags.noBlock = w.ctx.stateFlags.noBlock ∧ SvBacked w'.ctx) := by
  cases hload : LoadSchemaFields w.ks w.spec w.ctx.doc.docKey with
  | none =>
    unfold ReplaceMerge
    rw [access_of_live h, if_neg (ne_true_of_eq_false h.running)]
    simp only [hload]
    exact .inl ⟨_, rfl, replyDelete_completion h _⟩
  | some fields =>
    have hok := (SetDocument_ok_iff w.spec w.ctx { w.ctx.doc with fields := fields }
      w.ctx.doc.fields.length).2 (firstError_LoadSchemaFields hd hload)
    have hw : ReplaceMerge w = (false, { w with ctx := (ReplaceMerge w).2.ctx }) := by
      unfold ReplaceMerge
      rw [access_of_live h, if_neg (ne_true_of_eq_false h.running), hload]
    obtain ⟨fields', hload', hc⟩ := ReplaceMerge_ctx hw
    rw [hload, Option.some.injEq] at hload'
    subst hload'
    refine .inr ⟨_, hw, h.with w.ks _ w.events, rfl, ?_, svBacked_ReplaceMerge hb hd hw⟩
    rw [hc]
    exact SetDocument_noBlock hok

/-- Whatever the document, schema and keyspace, a `Submit` on a live context whose sortable
specs are backed, which is not a metadata-only PARTIAL update (reloads need a schema with
distinct field names and slots), completes the context exactly once: it appends at most the
hand-off to the worker pool and the indexer call, then either `Finish`'s events or the reply
and deletion of a failed reload; the context ends deleted and nothing undefined happens. -/
theorem Submit_completes_once (w : World) (partialUpdate : Bool) (h : Live w)
    (hb : SvBacked w.ctx)
    (hp : partialUpdate = true → w.ctx.stateFlags.indexables = true ∧ w.spec.FieldsDistinct) :
    ∃ pre post, Completion w (Submit P cap w partialUpdate) pre post ∧
      pre.Sublist [.workerPool, .indexerAdd] ∧
      (post = finishEvents w.ctx.stateFlags.noBlock ∨ post = [.donecb, .destroy]) := by
  cases partialUpdate with
  | false =>
    obtain ⟨pre, hpre, hc⟩ := submitIndex_completion P cap h hb
    exact ⟨pre, _, hc, hpre, .inl rfl⟩
  | true =>
    obtain ⟨hidx, hd⟩ := hp rfl
    have hhp : handlePartialUpdate P w = ReplaceMerge w := by
      rw [handlePartialUpdate, access_of_live h, if_neg (ne_true_of_eq_false h.running), if_pos hidx]
    rcases ReplaceMerge_cases h hb hd with ⟨w', hR, hc⟩ | ⟨w', hR, hl, hev, hnb, hb'⟩
    · refine ⟨[], _, ?_, List.nil_sublist _, .inr rfl⟩
      simpa only [Submit, if_true, hhp, hR] using hc
    · obtain ⟨pre, hpre, hc⟩ := submitIndex_completion P cap hl hb'
      refine ⟨pre, _, ?_, hpre, .inl (congrArg finishEvents hnb)⟩
      simpa only [Submit, if_true, hhp, hR] using hc.of_events hev

theorem Submit_completes_once_priceUpdate :
    Live priceUpdate ∧ SvBacked priceUpdate.ctx ∧
    (true = true → priceUpdate.ctx.stateFlags.indexables = true ∧
      priceUpdate.spec.FieldsDistinct) ∧
    ∃ pre post, Completion priceUpdate (Submit sampleParsers 100 priceUpdate true) pre post ∧
      pre.Sublist [.workerPool, .indexerAdd] ∧
      (post = finishEvents priceUpdate.ctx.stateFlags.noBlock ∨ post = [.donecb, .destroy]) :=
  have hl : Live priceUpdate := ⟨rfl, rfl⟩
  have hb : SvBacked priceUpdate.ctx := by unfold SvBacked; decide
  have hp : true = true → priceUpdate.ctx.stateFlags.indexables = true ∧
      priceUpdate.spec.FieldsDistinct := fun _ => ⟨by decide, by decide⟩
  ⟨hl, hb, hp, Submit_completes_once sampleParsers 100 priceUpdate true hl hb hp⟩

end RediSearch
