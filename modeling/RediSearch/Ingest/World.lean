import RediSearch.Index.Bulk

/-!
# Runs of the ingest code

An ingest runs on a `World`: the host keyspace, the name of the index `sctx->spec` refers
to, the ingest context, whether `delete aCtx` has run, and the events the run has made so
far. Undefined behaviour ends a run: reading or writing the context after it was deleted,
dereferencing a null `DocumentMetadata` or sorting vector, or reading an uninitialized
value. From then on every step leaves the world as it is (`halted`).

The completion path is `Finish`: a NOBLOCK context replies at once (`doReplyFinish`); any
other has its client unblocked, and the host then runs `replyCallback`, which replies.
-/

namespace RediSearch

/-- What a run of the ingest code does that its contract counts. -/
inductive Event
  /-- `AddDocumentCtx::Finish()` is entered. -/
  | finish
  /-- `aCtx->donecb(aCtx, ctx, aCtx->donecbData)`. -/
  | donecb
  /-- `delete aCtx`. -/
  | destroy
  /-- `RedisModule_UnblockClient(client.bc, aCtx)`. -/
  | unblock
  /-- `aCtx->indexer->Add(aCtx)`. -/
  | indexerAdd
  /-- `ConcurrentSearch_ThreadPoolRun(threadCallback, aCtx)`. -/
  | workerPool
  /-- The context is read or written after `delete aCtx`. -/
  | useAfterFree
  /-- A null `DocumentMetadata` is dereferenced. -/
  | nullDeref
  /-- `aCtx->sv->Put` with a null `sv`. -/
  | nullSortVector
  /-- An uninitialized local is read. -/
  | uninitializedRead
  /-- An exception leaves the function. -/
  | throw (msg : String)
  deriving DecidableEq, Repr

/-- The state an ingest runs on. -/
structure World where
  ks : Keyspace
  name : String
  ctx : AddDocumentCtx
  alive : Bool
  halted : Bool
  events : List Event

namespace World

/-- Record an event. -/
def emit (w : World) (e : Event) : World :=
  if w.halted then w else { w with events := w.events ++ [e] }

/-- End the run with an event. -/
def halt (w : World) (e : Event) : World :=
  if w.halted then w else { w with halted := true, events := w.events ++ [e] }

/-- The code reads or writes the context; after `delete aCtx` that ends the run. -/
def access (w : World) : World := if w.alive then w else w.halt .useAfterFree

/-- `delete aCtx`. -/
def destroy (w : World) : World :=
  let w := w.access
  if w.halted then w else { w with alive := false, events := w.events ++ [.destroy] }

/-- Change the context. -/
def setCtx (w : World) (f : AddDocumentCtx → AddDocumentCtx) : World :=
  let w := w.access
  if w.halted then w else { w with ctx := f w.ctx }

/-- Change the keyspace. -/
def setKs (w : World) (f : Keyspace → Keyspace) : World :=
  if w.halted then w else { w with ks := f w.ks }

@[simp] theorem halted_emit (w : World) (e : Event) : (w.emit e).halted = w.halted := by
  unfold emit; split <;> rfl

@[simp] theorem ks_emit (w : World) (e : Event) : (w.emit e).ks = w.ks := by
  unfold emit; split <;> rfl

@[simp] theorem ks_halt (w : World) (e : Event) : (w.halt e).ks = w.ks := by
  unfold halt; split <;> rfl

@[simp] theorem ks_access (w : World) : w.access.ks = w.ks := by
  unfold access; split <;> simp

@[simp] theorem ctx_access (w : World) : w.access.ctx = w.ctx := by
  unfold access halt; split <;> [rfl; split <;> rfl]

@[simp] theorem name_access (w : World) : w.access.name = w.name := by
  unfold access halt; split <;> [rfl; split <;> rfl]

@[simp] theorem ks_destroy (w : World) : w.destroy.ks = w.ks := by
  unfold destroy; dsimp only; split <;> simp

@[simp] theorem ks_setCtx (w : World) (f : AddDocumentCtx → AddDocumentCtx) :
    (w.setCtx f).ks = w.ks := by
  unfold setCtx; dsimp only; split <;> simp

end World

open World

/-- `doReplyFinish(aCtx, ctx)`: the completion callback, then `delete aCtx`. -/
def doReplyFinish (w : World) : World := (w.access.emit .donecb).destroy

/-- `AddDocumentCtx::Finish()`. A context that is not NOBLOCK has its client unblocked; the
host then calls `replyCallback`, which is `doReplyFinish`. -/
def Finish (w : World) : World :=
  let w := (w.emit .finish).access
  if w.ctx.stateFlags.noBlock then doReplyFinish w else doReplyFinish (w.emit .unblock)

@[simp] theorem ks_doReplyFinish (w : World) : (doReplyFinish w).ks = w.ks := by
  simp [doReplyFinish]

@[simp] theorem ks_Finish (w : World) : (Finish w).ks = w.ks := by
  unfold Finish; dsimp only; split <;> simp

/-- The events of `Finish` on a live context. -/
def finishEvents (noBlock : Bool) : List Event :=
  if noBlock then [.finish, .donecb, .destroy] else [.finish, .unblock, .donecb, .destroy]

theorem Finish_events {w : World} (ha : w.alive = true) (hh : w.halted = false) :
    (Finish w).events = w.events ++ finishEvents w.ctx.stateFlags.noBlock ∧
      (Finish w).alive = false := by
  unfold Finish finishEvents doReplyFinish
  split <;> simp_all [emit, access, destroy]

end RediSearch
