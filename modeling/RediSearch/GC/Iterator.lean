import RediSearch.GC.FieldTails
import Mathlib.Data.List.Rotate

/-!
# `NextGcNode`: one range per call, round robin

A numeric tree's `gcIterator` enumerates the tree's nodes in a fixed order. A node's range
may have been removed, and `NextGcNode` skips such nodes; when the iterator is exhausted it
builds a new one from the root, once, and if that one yields no node with a range either, it
throws `"Second iterator should return result"`.

The tree of the model keeps only the ranges, in iterator order (`NumericRangeTree`). Here the
iterator is taken at the level of nodes, as the source walks it (`nextWithRange`,
`NextGcNodeAt`), and the model's `NextGcNode` is shown to be that iterator once the nodes
without a range are dropped (`NextGcNodeAt_refines`). On a tree with a range, and from any
position earlier calls left the iterator at, `NextGcNode` never throws, and `m` calls, `m` the
number of ranges, return every range once, in iterator order, starting where the iterator
was (`NextGcNode_round_robin`).

`CollectNumericIndex` calls `NextGcNode` once per run and repairs the range it returns. On an
index nobody touches, `m` runs repair the `m` ranges of the field's tree once each, in that
order (`CollectNumericIndex_round_robin`): every range is visited in turn. A visit repairs only
the first `gcScanSize` blocks of the range (`GC/FieldTails.lean`), so an entry of a deleted
document after them stays however many passes run.
-/

namespace RediSearch

/-! ## The iterator over nodes -/

/-- `while (node = gcIterator->Next()) if (node->range) return node;`: the range of the first
node the iterator still yields that has one, and the iterator after that node. A node is the
identity of its range, `none` for a node whose range was removed. -/
def nextWithRange : List (Option Nat) → Option (Nat × List (Option Nat))
  | [] => none
  | none :: ns => nextWithRange ns
  | some r :: ns => some (r, ns)

/-- `NextGcNode` on a tree whose nodes are `nodes`, in iterator order, with the iterator at
`it`: the next node with a range; when there is none, a new iterator from the root, once. -/
def NextGcNodeAt (it nodes : List (Option Nat)) : Except String (Nat × List (Option Nat)) :=
  match nextWithRange it with
  | some p => .ok p
  | none =>
    match nextWithRange nodes with
    | some p => .ok p
    | none => .error "Second iterator should return result"

/-- `m` calls of `NextGcNode` on a tree that does not change between them: the ranges they
return, in order, and the iterator they leave. -/
def NextGcNodeRun (nodes : List (Option Nat)) : Nat → List (Option Nat) →
    Except String (List Nat × List (Option Nat))
  | 0, it => .ok ([], it)
  | m + 1, it =>
    match NextGcNodeAt it nodes with
    | .error e => .error e
    | .ok (r, it) => (NextGcNodeRun nodes m it).map fun p => (r :: p.1, p.2)

/-! ## One call -/

theorem nextWithRange_eq_none : ∀ {ns : List (Option Nat)}, ns.filterMap id = [] →
    nextWithRange ns = none
  | [], _ => rfl
  | none :: ns, h => @nextWithRange_eq_none ns (by simpa using h)
  | some _ :: _, h => by simp at h

/-- The iterator stops at the first node with a range, and what it has left holds the rest
of the ranges. -/
theorem nextWithRange_eq_some : ∀ {ns : List (Option Nat)} {r : Nat} {rs : List Nat},
    ns.filterMap id = r :: rs →
    ∃ ns', nextWithRange ns = some (r, ns') ∧ ns'.filterMap id = rs ∧ ns' <:+ ns
  | [], _, _, h => by simp at h
  | none :: ns, r, rs, h => by
    obtain ⟨ns', h₁, h₂, h₃⟩ := @nextWithRange_eq_some ns r rs (by simpa using h)
    exact ⟨ns', h₁, h₂, h₃.trans (List.suffix_cons _ _)⟩
  | some r' :: ns, r, rs, h => by
    obtain ⟨rfl, rfl⟩ : r' = r ∧ ns.filterMap id = rs := by simpa using h
    exact ⟨ns, rfl, rfl, List.suffix_cons _ _⟩

/-- A call with ranges left in the iterator returns the next of them. -/
theorem NextGcNodeAt_of_cons {it : List (Option Nat)} (nodes : List (Option Nat)) {r : Nat}
    {rs : List Nat} (h : it.filterMap id = r :: rs) :
    ∃ it', NextGcNodeAt it nodes = .ok (r, it') ∧ it'.filterMap id = rs ∧ it' <:+ it := by
  obtain ⟨it', h₁, h₂, h₃⟩ := nextWithRange_eq_some h
  exact ⟨it', by simp [NextGcNodeAt, h₁], h₂, h₃⟩

/-- A call on an exhausted iterator restarts it from the root and returns the first range. -/
theorem NextGcNodeAt_restart {it nodes : List (Option Nat)} {r : Nat} {rs : List Nat}
    (h : it.filterMap id = []) (hn : nodes.filterMap id = r :: rs) :
    ∃ it', NextGcNodeAt it nodes = .ok (r, it') ∧ it'.filterMap id = rs ∧ it' <:+ nodes := by
  obtain ⟨it', h₁, h₂, h₃⟩ := nextWithRange_eq_some hn
  exact ⟨it', by simp [NextGcNodeAt, nextWithRange_eq_none h, h₁], h₂, h₃⟩

/-- A call leaves the iterator at a position in the tree's nodes. -/
theorem NextGcNodeAt_suffix {it nodes it' : List (Option Nat)} {r : Nat} (hit : it <:+ nodes)
    (h : NextGcNodeAt it nodes = .ok (r, it')) : it' <:+ nodes := by
  cases hi : it.filterMap id with
  | cons r₀ rs =>
    obtain ⟨it₁, h₁, -, h₃⟩ := NextGcNodeAt_of_cons nodes hi
    rw [h₁] at h
    cases h
    exact h₃.trans hit
  | nil =>
    cases hn : nodes.filterMap id with
    | cons r₀ rs =>
      obtain ⟨it₁, h₁, -, h₃⟩ := NextGcNodeAt_restart hi hn
      rw [h₁] at h
      cases h
      exact h₃
    | nil => simp [NextGcNodeAt, nextWithRange_eq_none hi, nextWithRange_eq_none hn] at h

/-- The model's `NextGcNode` is the iterator over nodes seen through the ranges: on a tree
whose nodes are `nodes`, with the iterator at a position `it` in them, it returns the same
range, and its iterator is what remains of `it` without the nodes that have no range. -/
theorem NextGcNodeAt_refines (g : NumericFieldGC) (t : NumericRangeTree)
    (it nodes : List (Option Nat)) (hit : g.gcIterator = it.filterMap id)
    (hnodes : t.rangeIdents = nodes.filterMap id) (hsuf : it <:+ nodes) :
    NextGcNode g t = ((NextGcNodeAt it nodes).mapError .threw).map
      fun p => (p.1, { g with gcIterator := p.2.filterMap id }) := by
  unfold NextGcNode
  rw [hit]
  cases hi : it.filterMap id with
  | cons r rs =>
    obtain ⟨it', h₁, h₂, -⟩ := NextGcNodeAt_of_cons nodes hi
    have hr : r ∈ t.rangeIdents := hnodes ▸ (hsuf.filterMap id).subset (by simp [hi])
    simp [hr, h₁, h₂, Except.map, Except.mapError]
  | nil =>
    rw [hnodes]
    cases hn : nodes.filterMap id with
    | cons r rs =>
      obtain ⟨it', h₁, h₂, -⟩ := NextGcNodeAt_restart hi hn
      simp [h₁, h₂, Except.map, Except.mapError]
    | nil => simp [NextGcNodeAt, nextWithRange_eq_none hi, nextWithRange_eq_none hn, Except.map,
        Except.mapError]

/-- On a state whose iterator holds only ranges of the tree, `NextGcNode` returns a range of
the tree: the model's tree always has one. -/
theorem NextGcNode_ok (g : NumericFieldGC) (t : NumericRangeTree)
    (hin : ∀ r ∈ g.gcIterator, r ∈ t.rangeIdents) :
    ∃ r g', NextGcNode g t = .ok (r, g') ∧ r ∈ t.rangeIdents := by
  unfold NextGcNode
  split
  · rename_i r rs hg
    have hr := hin r (hg ▸ List.mem_cons_self _ _)
    exact ⟨r, _, if_pos hr, hr⟩
  · have hne : t.rangeIdents ≠ [] := by simpa [NumericRangeTree.rangeIdents] using t.ranges_ne
    obtain ⟨r, rs, hrs⟩ := List.exists_cons_of_ne_nil hne
    exact ⟨r, { g with gcIterator := rs }, by simp [hrs], hrs ▸ List.mem_cons_self _ _⟩

/-! ## Runs of calls -/

/-- Calls within the ranges the iterator has left return them in order. -/
theorem NextGcNodeRun_take (nodes : List (Option Nat)) :
    ∀ (n : Nat) (it : List (Option Nat)), n ≤ (it.filterMap id).length →
      ∃ it', NextGcNodeRun nodes n it = .ok ((it.filterMap id).take n, it') ∧
        it'.filterMap id = (it.filterMap id).drop n ∧ it' <:+ it
  | 0, it, _ => ⟨it, rfl, rfl, List.suffix_refl _⟩
  | n + 1, it, hn => by
    obtain ⟨r, rs, hrs⟩ := List.exists_cons_of_length_pos (Nat.lt_of_lt_of_le n.succ_pos hn)
    obtain ⟨it₁, h₁, h₂, h₃⟩ := NextGcNodeAt_of_cons nodes hrs
    obtain ⟨it', h₄, h₅, h₆⟩ := NextGcNodeRun_take nodes n it₁ (by simp_all)
    refine ⟨it', ?_, by simp [hrs, h₅, h₂], h₆.trans h₃⟩
    simp [NextGcNodeRun, h₁, h₄, hrs, h₂, Except.map]

/-- Runs compose: the calls of a longer run are those of its first part, then the rest. -/
theorem NextGcNodeRun_add (nodes : List (Option Nat)) (b : Nat) :
    ∀ (a : Nat) (it : List (Option Nat)) {xs : List Nat} {it₁ : List (Option Nat)},
      NextGcNodeRun nodes a it = .ok (xs, it₁) →
      NextGcNodeRun nodes (a + b) it = (NextGcNodeRun nodes b it₁).map fun q => (xs ++ q.1, q.2)
  | 0, it, xs, it₁, h => by
    simp only [NextGcNodeRun, Except.ok.injEq, Prod.mk.injEq] at h
    obtain ⟨rfl, rfl⟩ := h
    rw [Nat.zero_add]
    cases NextGcNodeRun nodes b it <;> rfl
  | a + 1, it, xs, it₁, h => by
    rw [Nat.add_right_comm]
    simp only [NextGcNodeRun] at h ⊢
    split at h
    · cases h
    · rename_i r it₂ _
      cases hrun : NextGcNodeRun nodes a it₂ with
      | error e => simp [hrun, Except.map] at h
      | ok p =>
        simp only [hrun, Except.map, Except.ok.injEq, Prod.mk.injEq] at h
        obtain ⟨rfl, rfl⟩ := h
        rw [NextGcNodeRun_add nodes b a it₂ hrun]
        cases NextGcNodeRun nodes b p.2 <;> simp [Except.map]

/-- Calls on an exhausted iterator start over from the root. -/
theorem NextGcNodeRun_restart {nodes it : List (Option Nat)} (h : it.filterMap id = [])
    (hit : it <:+ nodes) : ∀ {n : Nat}, n ≤ (nodes.filterMap id).length →
      ∃ it', NextGcNodeRun nodes n it = .ok ((nodes.filterMap id).take n, it') ∧ it' <:+ nodes
  | 0, _ => ⟨it, rfl, hit⟩
  | n + 1, hn => by
    obtain ⟨r, rs, hR⟩ := List.exists_cons_of_length_pos (Nat.lt_of_lt_of_le n.succ_pos hn)
    obtain ⟨it₁, h₁, h₂, h₃⟩ := NextGcNodeAt_restart h hR
    obtain ⟨it', h₄, -, h₅⟩ := NextGcNodeRun_take nodes n it₁ (by rw [h₂]; simpa [hR] using hn)
    exact ⟨it', by simp [NextGcNodeRun, h₁, h₄, h₂, hR, Except.map], h₅.trans h₃⟩

/-- From any position the iterator was left at, as many calls as there are ranges first use
up what the iterator has left, then start over from the root: they return the ranges rotated
by the number already visited. -/
theorem NextGcNodeRun_rotate {nodes it : List (Option Nat)} (hit : it <:+ nodes) :
    ∃ it', NextGcNodeRun nodes (nodes.filterMap id).length it =
      .ok ((nodes.filterMap id).rotate ((nodes.filterMap id).length - (it.filterMap id).length),
        it') ∧ it' <:+ nodes := by
  obtain ⟨pre, hpre⟩ := hit.filterMap id
  obtain ⟨it₁, h₁, h₂, h₃⟩ := NextGcNodeRun_take nodes _ it le_rfl
  rw [List.drop_length] at h₂
  rw [List.take_length] at h₁
  obtain ⟨it', h₄, h₅⟩ := NextGcNodeRun_restart h₂ (h₃.trans hit)
    (show pre.length ≤ (nodes.filterMap id).length by rw [← hpre, List.length_append]; omega)
  rw [← hpre, List.take_left] at h₄
  refine ⟨it', ?_, h₅⟩
  rw [← hpre, List.length_append, Nat.add_sub_cancel, Nat.add_comm,
    NextGcNodeRun_add nodes _ _ it h₁, h₄, List.rotate_append_length_eq]
  rfl

/-- The key of the numeric field the choices pick: `GetFormattedKey(fs, INDEXFLD_T_NUMERIC)` of
`numericFields[rand() % numericFields.size()]`, one collection state per numeric field. -/
def numericFieldKey (ix : IndexState) (ch : GcChoices) : Key :=
  GetFormattedKey ix ((ix.spec.fields.filter (·.types.numeric)).getD
    (ch.numericField % (ix.spec.fields.filter (·.types.numeric)).length) .empty) .NUMERIC

/-- `NextGcNode` reads of the tree only its ranges. -/
theorem NextGcNode_congr (g : NumericFieldGC) {t t' : NumericRangeTree}
    (h : t'.rangeIdents = t.rangeIdents) : NextGcNode g t' = NextGcNode g t := by
  unfold NextGcNode
  rw [h]

/-- `NextGcNode` moves the iterator only: the state stays on its tree and revision. -/
theorem NextGcNode_keeps {g g' : NumericFieldGC} {t : NumericRangeTree} {r : Nat}
    (h : NextGcNode g t = .ok (r, g')) : g'.rt = g.rt ∧ g'.revisionId = g.revisionId := by
  unfold NextGcNode at h
  split at h
  · split_ifs at h
    cases h
    exact ⟨rfl, rfl⟩
  · split at h <;> cases h
    exact ⟨rfl, rfl⟩

/-- `updateStats` keeps the name, schema and `uniqueId` of the index a context resolves to. -/
theorem resolveSpec_updateStats (name : String) (c : Nat) (ks : Keyspace) (k : Key) :
    (resolveSpec (updateStats name c ks) k).map (fun ix => (ix.name, ix.spec, ix.uniqueId)) =
      (resolveSpec ks k).map (fun ix => (ix.name, ix.spec, ix.uniqueId)) := by
  cases k with
  | index n =>
    simp only [resolveSpec, updateStats, Keyspace.modifyIndex]
    by_cases h : n = name
    · subst h
      cases ks.indexes n <;> simp
    · simp [Function.update_noteq h]
  | term => rfl
  | field => rfl

/-- What the numeric collector finds at each run on an index nobody touches: the host does
nothing at the yields; the index under the collector's key keeps its name, schema and
`uniqueId`, and has a numeric field; there is one collection state per numeric field; the tree
at the key of the field the choices pick keeps the identity, revision and ranges of `t`; and
the state of that field, `g`, is on that tree, at its revision. -/
structure NumericSteady (ch : GcChoices) (ix : IndexState) (t : NumericRangeTree) (w : GcWorld)
    (g : NumericFieldGC) : Prop where
  host : w.host = []
  spec : ∃ ix', resolveSpec w.ks w.gc.keyName = some ix' ∧ ix'.name = ix.name ∧
    ix'.spec = ix.spec ∧ ix'.uniqueId = w.gc.specUniqueId
  fields : ix.spec.fields.filter (·.types.numeric) ≠ []
  states : (ix.spec.fields.filter (·.types.numeric)).length = w.gc.numericGC.length
  tree : ∃ t', w.ks.numIdx (numericFieldKey ix ch) = some t' ∧ t'.ident = t.ident ∧
    t'.revisionId = t.revisionId ∧ t'.rangeIdents = t.rangeIdents
  state : w.gc.numericGC.getD (ch.numericField % w.gc.numericGC.length) ⟨0, 0, []⟩ = g
  fits : g.rt = t.ident ∧ g.revisionId = t.revisionId

variable (cap scan : Nat)

section Runs

variable {ch : GcChoices} {ix : IndexState} {t : NumericRangeTree}

/-- One run of the collector on an index nobody touches: it repairs the range `NextGcNode`
returns, once, and stores the state `NextGcNode` leaves; the index stays untouched. -/
theorem CollectNumericIndex_pass (fuel : Nat) {w : GcWorld} {g : NumericFieldGC}
    (hs : NumericSteady ch ix t w g) (hin : ∀ r ∈ g.gcIterator, r ∈ t.rangeIdents) :
    ∃ r g', NextGcNode g t = .ok (r, g') ∧
      NumericSteady ch ix t (CollectNumericIndex cap scan (fuel + 1) ch w).1 g' ∧
      (CollectNumericIndex cap scan (fuel + 1) ch w).1.repairs.map (·.1) =
        w.repairs.map (·.1) ++ [.numeric (numericFieldKey ix ch) t.ident t.revisionId r] := by
  obtain ⟨ix', hix, hname, hspec, huid⟩ := hs.spec
  obtain ⟨t', ht, hid, hrev, hids⟩ := hs.tree
  obtain ⟨r, g', hnext, hr⟩ := NextGcNode_ok g t hin
  obtain ⟨hrt, hrev'⟩ := NextGcNode_keeps hnext
  obtain ⟨fname, hkf⟩ : ∃ fname, numericFieldKey ix ch = .field ix.name fname .NUMERIC :=
    ⟨_, rfl⟩
  rw [hkf] at ht
  -- the collector takes the state of the field, on the tree the key holds, to its loop
  have hcol : CollectNumericIndex cap scan (fuel + 1) ch w =
      numLoop cap scan ix'.name (.field ix.name fname .NUMERIC) g' (fuel + 1) r 0 0
        { w with gc := { w.gc with
          numericGC := w.gc.numericGC.set (ch.numericField % w.gc.numericGC.length) g' } } := by
    have hk : GetFormattedKey ix' ((ix.spec.fields.filter (·.types.numeric)).getD
        (ch.numericField % w.gc.numericGC.length) .empty) .NUMERIC =
        .field ix.name fname .NUMERIC := by
      rw [← hkf, ← hs.states]
      simp [GetFormattedKey, numericFieldKey, hname]
    have hopen : OpenNumericIndex w.ks (.field ix.name fname .NUMERIC) = (w.ks, t') := by
      simp [OpenNumericIndex, ht]
    have hcheck : checkNumericGC g t' = .ok g := by simp [checkNumericGC, hs.fits, hid, hrev]
    simp only [CollectNumericIndex, hix, huid, ne_eq, not_true_eq_false, if_false, hspec,
      hs.fields, hs.states, numericStates, le_refl, true_and, if_true, hk, hopen, hs.state, hcheck,
      (NextGcNode_congr g hids).trans hnext]
  -- its loop makes one batch, on the range `NextGcNode` returned
  have hrange : repairRange scan w.ks (.field ix.name fname .NUMERIC) g'.rt r
      (w.ks.docsOf ix'.name) 0 = (w.ks.setNumIdx (.field ix.name fname .NUMERIC)
        (t'.repair scan r (w.ks.docsOf ix'.name) 0).1,
          (t'.repair scan r (w.ks.docsOf ix'.name) 0).2) := by
    simp [repairRange, ht, hrt, hs.fits.1, hid]
  obtain ⟨hid', hrev'', hids'⟩ := NumericRangeTree.repair_idents scan t' r (w.ks.docsOf ix'.name) 0
  have hlt : ch.numericField % w.gc.numericGC.length < w.gc.numericGC.length :=
    Nat.mod_lt _ (hs.states ▸ List.length_pos.2 hs.fields)
  rw [hcol, numLoop_field_world cap scan ix'.name ix.name fname .NUMERIC fuel r 0 0
    { w with gc := { w.gc with
      numericGC := w.gc.numericGC.set (ch.numericField % w.gc.numericGC.length) g' } } g' hs.host
      ⟨t', ht, (hrt.trans (hs.fits.1.trans hid.symm)).symm, hids ▸ hr⟩,
    hrange, hkf]
  refine ⟨r, g', hnext, ⟨hs.host, ?_, hs.fields, ?_, ?_, ?_, ?_⟩, ?_⟩
  · -- `updateStats` keeps the index
    have := resolveSpec_updateStats ix'.name (t'.repair scan r (w.ks.docsOf ix'.name) 0).2.2
      (w.ks.setNumIdx (.field ix.name fname .NUMERIC) (t'.repair scan r (w.ks.docsOf ix'.name) 0).1)
      w.gc.keyName
    rw [show resolveSpec (w.ks.setNumIdx _ _) w.gc.keyName = resolveSpec w.ks w.gc.keyName from rfl,
      hix] at this
    obtain ⟨ix'', h₁, h₂⟩ := Option.map_eq_some'.1 this
    simp only [Prod.mk.injEq] at h₂
    exact ⟨ix'', h₁, h₂.1.trans hname, h₂.2.1.trans hspec, h₂.2.2.trans huid⟩
  · simpa using hs.states
  · -- the repair keeps the tree's identity, revision and ranges
    refine ⟨_, ?_, hid'.trans hid, hrev''.trans hrev, hids'.trans hids⟩
    simp [updateStats, hkf]
  · simp [List.getD_eq_getElem?_getD, List.getElem?_set_self hlt]
  · exact ⟨hrt.trans hs.fits.1, hrev'.trans hs.fits.2⟩
  · simp [hrt, hrev', hs.fits]

/-- Runs of the collector on an index nobody touches repair the ranges `NextGcNode` returns,
one call per run, walking the nodes whose ranges are the tree's from the position of the
state's iterator. -/
theorem CollectNumericIndex_runs (fuel : Nat) (nodes : List (Option Nat))
    (hnodes : t.rangeIdents = nodes.filterMap id) :
    ∀ (m : Nat) (it : List (Option Nat)) (w : GcWorld) (g : NumericFieldGC) {xs : List Nat}
      {it' : List (Option Nat)}, NumericSteady ch ix t w g → g.gcIterator = it.filterMap id →
      it <:+ nodes → NextGcNodeRun nodes m it = .ok (xs, it') →
      ((fun w => (CollectNumericIndex cap scan (fuel + 1) ch w).1)^[m] w).repairs.map (·.1) =
        w.repairs.map (·.1) ++ xs.map (.numeric (numericFieldKey ix ch) t.ident t.revisionId)
  | 0, _, _, _, _, _, _, _, _, h => by
    simp only [NextGcNodeRun, Except.ok.injEq, Prod.mk.injEq] at h
    obtain ⟨rfl, -⟩ := h
    simp
  | m + 1, it, w, g, xs, it', hs, hg, hsuf, h => by
    simp only [NextGcNodeRun] at h
    split at h
    · cases h
    rename_i r it₁ hat
    cases hrun : NextGcNodeRun nodes m it₁ with
    | error e => simp [hrun, Except.map] at h
    | ok p =>
      simp only [hrun, Except.map, Except.ok.injEq, Prod.mk.injEq] at h
      obtain ⟨rfl, rfl⟩ := h
      obtain ⟨r', g', hnext, hs', hrep⟩ := CollectNumericIndex_pass cap scan fuel hs
        fun x hx => hnodes ▸ (hsuf.filterMap id).subset (hg ▸ hx)
      -- the model's call is the call on the nodes
      have href := NextGcNodeAt_refines g t it nodes hg hnodes hsuf
      rw [hnext, hat] at href
      simp only [Except.mapError, Except.map, Except.ok.injEq, Prod.mk.injEq] at href
      obtain ⟨rfl, rfl⟩ := href
      rw [Function.iterate_succ_apply, CollectNumericIndex_runs fuel nodes hnodes m it₁ _ _ hs' rfl
        (NextGcNodeAt_suffix hsuf hat) hrun, hrep]
      simp

end Runs

/-- On an index nobody touches, with fuel for one batch, as many runs of `CollectNumericIndex`
as the field's tree has ranges repair each range once, in iterator order, starting where the
state's iterator was: the ranges rotated by the number already visited. -/
theorem CollectNumericIndex_round_robin (fuel : Nat) (ch : GcChoices) (ix : IndexState)
    (t : NumericRangeTree) (w : GcWorld) (g : NumericFieldGC) (hs : NumericSteady ch ix t w g)
    (hit : g.gcIterator <:+ t.rangeIdents) :
    ((fun w => (CollectNumericIndex cap scan (fuel + 1) ch w).1)^[t.rangeIdents.length] w).repairs.map
        (·.1) = w.repairs.map (·.1) ++
      (t.rangeIdents.rotate (t.rangeIdents.length - g.gcIterator.length)).map
        (.numeric (numericFieldKey ix ch) t.ident t.revisionId) := by
  have hf : ∀ l : List Nat, (l.map some).filterMap id = l := fun l => by
    simp [List.filterMap_map]
  obtain ⟨it', hrun, -⟩ := NextGcNodeRun_rotate (hit.map some)
  rw [hf, hf] at hrun
  exact CollectNumericIndex_runs cap scan fuel _ (hf _).symm _ _ w g hs (hf _).symm (hit.map some)
    hrun

/-- `gcKs` with a price tree of two ranges, `11` then `14`. -/
def twoRangeKs : Keyspace :=
  { gcKs with
    numIdx := fun k => if k = .field "idx" "price" .NUMERIC then
      some ⟨10, 0, [⟨11, [[1]]⟩, ⟨14, [[2]]⟩], List.cons_ne_nil _ _, fun _ => 0, 2⟩ else none }

/-- The collector of `idx` on `twoRangeKs`, with the price field's state past range `11`. -/
def twoRangeWorld : GcWorld :=
  { gcWorld 1 with ks := twoRangeKs, gc := { (gcWorld 1).gc with numericGC := [⟨10, 0, [14]⟩] } }

/-- Two runs on `twoRangeWorld` repair range `14`, then range `11`. -/
theorem CollectNumericIndex_round_robin_twoRanges :
    ((fun w => (CollectNumericIndex 100 1 1 ⟨none, 0, 0, 0⟩ w).1)^[2] twoRangeWorld).repairs.map
        (·.1) = [.numeric (.field "idx" "price" .NUMERIC) 10 0 14,
          .numeric (.field "idx" "price" .NUMERIC) 10 0 11] :=
  CollectNumericIndex_round_robin 100 1 0 ⟨none, 0, 0, 0⟩
    ⟨"idx", 1, gcSpec, ⟨[⟨2, "doc2", ⟨0⟩, none, none⟩]⟩, 2, 4⟩
    ⟨10, 0, [⟨11, [[1]]⟩, ⟨14, [[2]]⟩], List.cons_ne_nil _ _, fun _ => 0, 2⟩ twoRangeWorld
    ⟨10, 0, [14]⟩ ⟨rfl, ⟨_, rfl, rfl, rfl, rfl⟩, by decide, rfl, ⟨_, rfl, rfl, rfl, rfl⟩, rfl,
      rfl, rfl⟩ ⟨[11], rfl⟩

end RediSearch
