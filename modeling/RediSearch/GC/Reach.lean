import RediSearch.GC.Batches

/-!
# The collectors repair what the keyspace holds

Between two batches a collector yields, and the host may split a numeric tree, delete a key,
drop a tag value. A `Repair` call is on a reachable posting list (`RepairCall.Reachable`) when,
on the keyspace it is made on, it is the list stored under the term's key, the list of the
tag value in the tag index stored under the field's key, or a range of the tree stored under
the field's key, at the `revisionId` the collection state was built at.

`CollectRandomTerm` reopens its list before each batch and `CollectTagIndex` finds its value
again after each yield, so their calls are reachable by construction. `CollectNumericIndex`
keeps the range identities of a tree across passes in its `NumericFieldGC`, and checks only
the tree's identity and `revisionId` before it uses them. Its calls are reachable, and
`NextGcNode` reads no freed node, because the trees are well formed (`TreesWf`: identities
allocated and unique) and every collection state agrees with the keyspace (`Agrees`): a tree
of the state's identity is at the state's revision or past it, and at that revision holds every
range the state has still to visit. Every change of the keyspace, by the host or by a
collector, keeps both (`Sound`), save one: a tree created in the block of a freed tree
(`HostStep.reuseNumeric`), which has the freed tree's identity and revision `0` but none of its
ranges. After it, the next pass keeps the state and `NextGcNode` reads a freed node.
-/

namespace RediSearch

/-- The posting list a `Repair` call is on is reachable from the keyspace. -/
def RepairCall.Reachable (ks : Keyspace) : RepairCall → Prop
  | .term k i => ∃ ix ∈ ks.invIdx k, ix.ident = i
  | .tag k v i => ∃ t ∈ ks.tagIdx k, ∃ p ∈ t.values, p.1 = v ∧ p.2.ident = i
  | .numeric k rt rev i => ∃ t ∈ ks.numIdx k, t.ident = rt ∧ t.revisionId = rev ∧ i ∈ t.rangeIdents

instance (ks : Keyspace) : (c : RepairCall) → Decidable (c.Reachable ks)
  | .term k i => inferInstanceAs (Decidable (∃ ix ∈ ks.invIdx k, ix.ident = i))
  | .tag k v i =>
    inferInstanceAs (Decidable (∃ t ∈ ks.tagIdx k, ∃ p ∈ t.values, p.1 = v ∧ p.2.ident = i))
  | .numeric k rt rev i => inferInstanceAs
    (Decidable (∃ t ∈ ks.numIdx k, t.ident = rt ∧ t.revisionId = rev ∧ i ∈ t.rangeIdents))

/-- The trees of a keyspace are well formed: each has an allocated identity, below
`nextIdent`, and no two keys hold trees of one identity. -/
structure TreesWf (ks : Keyspace) : Prop where
  fresh : ∀ k t, ks.numIdx k = some t → t.ident < ks.nextIdent
  unique : ∀ k k' t t', ks.numIdx k = some t → ks.numIdx k' = some t' → t.ident = t'.ident →
    k = k'

/-- A collection state agrees with the keyspace: its tree identity was allocated, and a tree of
that identity is at the state's revision or past it, and at the state's revision holds every
range the state has still to visit. -/
def Agrees (ks : Keyspace) (g : NumericFieldGC) : Prop :=
  g.rt < ks.nextIdent ∧ ∀ k t, ks.numIdx k = some t → t.ident = g.rt →
    g.revisionId ≤ t.revisionId ∧
      (g.revisionId = t.revisionId → ∀ r ∈ g.gcIterator, r ∈ t.rangeIdents)

/-- A change of the keyspace that keeps its trees well formed and every agreeing collection
state agreeing. -/
def Sound (ks ks' : Keyspace) : Prop :=
  TreesWf ks → TreesWf ks' ∧ ∀ g, Agrees ks g → Agrees ks' g

theorem Sound.refl (ks : Keyspace) : Sound ks ks := fun h => ⟨h, fun _ hg => hg⟩

theorem Sound.trans {ks₁ ks₂ ks₃ : Keyspace} (h₁ : Sound ks₁ ks₂) (h₂ : Sound ks₂ ks₃) :
    Sound ks₁ ks₃ := fun h =>
  ⟨(h₂ (h₁ h).1).1, fun g hg => (h₂ (h₁ h).1).2 g ((h₁ h).2 g hg)⟩

section Changes

variable {ks ks' : Keyspace}

end Changes

/-! ## What each operation does to the trees -/

section Repairs

variable (scan : Nat) (ks : Keyspace) (k : Key) (docs : DocTable) (blockNum : Nat)

end Repairs

/-- Whether a host step gives a freed tree's block to a new tree. -/
def HostStep.reusesBlock : HostStep → Bool
  | .reuseNumeric _ => true
  | _ => false

variable (cap : Nat)

/-- The host steps still to come reuse no freed block. -/
def NoReuse (w : GcWorld) : Prop := ∀ h ∈ w.host, h.reusesBlock = false

/-- The collection states of the collector agree with the keyspace. -/
def CacheAgrees (w : GcWorld) : Prop := ∀ g ∈ w.gc.numericGC, Agrees w.ks g

/-- What a stage of a pass does: the keyspace changes soundly, the host only runs its next
steps, and the `Repair` calls the stage records are on reachable lists. -/
structure Keeps (w w' : GcWorld) : Prop where
  sound : Sound w.ks w'.ks
  host : w'.host <:+ w.host
  repairs : ∃ new, w'.repairs = w.repairs ++ new ∧ ∀ p ∈ new, p.1.Reachable p.2

namespace Keeps

variable {w w₁ w₂ w₃ : GcWorld}

theorem refl (w : GcWorld) : Keeps w w := ⟨Sound.refl _, List.suffix_refl _, [], by simp, by simp⟩

theorem trans (h₁ : Keeps w₁ w₂) (h₂ : Keeps w₂ w₃) : Keeps w₁ w₃ := by
  obtain ⟨s₁, h₁, n₁, e₁, r₁⟩ := h₁
  obtain ⟨s₂, h₂, n₂, e₂, r₂⟩ := h₂
  exact ⟨s₁.trans s₂, h₂.trans h₁, n₁ ++ n₂, by rw [e₂, e₁, List.append_assoc],
    fun p hp => (List.mem_append.1 hp).elim (r₁ p) (r₂ p)⟩

theorem noReuse (h : Keeps w w') (hn : NoReuse w) : NoReuse w' := fun x hx => hn x (h.host.subset hx)

end Keeps

section Steps

variable {w : GcWorld}

@[simp] theorem gc_yield (w : GcWorld) : (w.yield cap).gc = w.gc := by
  unfold GcWorld.yield
  split <;> rfl

end Steps

/-! ## The repair loops -/

variable (scan : Nat)

/-- A stage of a pass: from a world whose host reuses no block, whose trees are well formed and
whose collection states agree, it keeps all three and records only reachable repairs. -/
def Stage {α : Type} (f : GcWorld → GcWorld × α) : Prop :=
  ∀ w, NoReuse w → TreesWf w.ks → CacheAgrees w → Keeps w (f w).1 ∧ CacheAgrees (f w).1

/-- A stage run on a world that what ran before kept. -/
theorem Stage.keeps {α : Type} {f : GcWorld → GcWorld × α} (hf : Stage f) {w : GcWorld}
    (hn : NoReuse w) (hwf : TreesWf w.ks) (w₁ : GcWorld) (h₁ : Keeps w w₁ ∧ CacheAgrees w₁) :
    Keeps w (f w₁).1 ∧ CacheAgrees (f w₁).1 :=
  have h₂ := hf w₁ (h₁.1.noReuse hn) (h₁.1.sound hwf).1 h₁.2
  ⟨h₁.1.trans h₂.1, h₂.2⟩

variable (B : HzBounds)

/-- What happens to a collector's world between two observations: a pass, which meets the
host steps `host` at its yields, or a host step. -/
inductive GcEvent
  | pass (fuel : Nat) (loading : Bool) (ch : GcChoices) (host : List HostStep)
  | host (h : HostStep)

/-- Whether an event gives a freed tree's block to a new tree. -/
def GcEvent.reusesBlock : GcEvent → Bool
  | .pass _ _ _ steps => steps.any HostStep.reusesBlock
  | .host h => h.reusesBlock

/-- One event on the collector's world. -/
def gcEventStep (w : GcWorld) : GcEvent → GcWorld
  | .pass fuel loading ch steps =>
    (PeriodicCallback cap scan B fuel loading ch { w with host := steps }).1
  | .host h => { w with ks := h.apply cap w.ks }

/-- Whether an event reads freed memory: a pass that does. -/
def gcEventCrashes (w : GcWorld) : GcEvent → Bool
  | .pass fuel loading ch steps =>
    (PeriodicCallback cap scan B fuel loading ch { w with host := steps }).2.crashed
  | .host _ => false

/-- A run of events; it stops at a pass that reads freed memory. -/
def runGcEvents (w : GcWorld) (evs : List GcEvent) : GcWorld :=
  runSteps (fun w e => (gcEventStep cap scan B w e, gcEventCrashes cap scan B w e)) w evs

/-- What every event's step keeps, a run keeps. -/
theorem runGcEvents_preserves (I : GcWorld → Prop) {evs : List GcEvent}
    (h : ∀ w, ∀ e ∈ evs, I w → I (gcEventStep cap scan B w e)) (w : GcWorld) (hw : I w) :
    I (runGcEvents cap scan B w evs) :=
  @runSteps_preserves _ _ (fun w e => (gcEventStep cap scan B w e, gcEventCrashes cap scan B w e)) I
    evs h w hw

/-- A keyspace whose one tree has an allocated identity has well formed trees. -/
theorem treesWf_of_single {ks : Keyspace} {k₀ : Key} {t₀ : NumericRangeTree}
    (h : ∀ k t, ks.numIdx k = some t → k = k₀ ∧ t = t₀) (ht : t₀.ident < ks.nextIdent) :
    TreesWf ks :=
  ⟨fun k t hk => (h k t hk).2 ▸ ht, fun k k' t t' hk hk' _ => (h k t hk).1.trans (h k' t' hk').1.symm⟩

/-- `gcKs` with a price tree of two ranges, `11` and `14`, at revision `0`. -/
def reuseKs : Keyspace :=
  { gcKs with
    numIdx := fun k => if k = .field "idx" "price" .NUMERIC then
      some ⟨10, 0, [⟨11, [[1]]⟩, ⟨14, [[2]]⟩], List.cons_ne_nil _ _, fun _ => 0, 2⟩ else none }

theorem reuseKs_treesWf : TreesWf reuseKs :=
  treesWf_of_single (fun k t h => by
    simp only [reuseKs] at h
    split_ifs at h with hk
    exact ⟨hk, (Option.some.inj h).symm⟩) (by decide)

/-- A pass, then the price tree freed with its key and its block given to the next tree
created under the key. -/
def reuseEvents : List GcEvent :=
  [.pass 100 false ⟨none, 0, 0, 0⟩ [], .host (.reuseNumeric (.field "idx" "price" .NUMERIC))]

/-- The collector's world after `reuseEvents`, from one built by its constructor on
`reuseKs`. -/
def reuseWorld : GcWorld :=
  runGcEvents 100 1 defaultHzBounds
    ⟨reuseKs, GarbageCollector.new (.index "idx") 10 1 1, .OK, [], []⟩ reuseEvents

/-- After the first pass repaired range `11`, the collection state holds tree `10` at revision
`0` with range `14` still to visit; the tree in the freed block is tree `10` at revision `0`
with only range `20`. The next pass keeps the state, and `NextGcNode` reads range `14`, freed
with the old tree. -/
theorem gc_reads_freed_range_after_reuse :
    TreesWf reuseKs ∧ reuseWorld.gc.numericGC = [⟨10, 0, [14]⟩] ∧
    (reuseWorld.ks.numIdx (.field "idx" "price" .NUMERIC)).map
      (fun t => (t.ident, t.revisionId, t.rangeIdents)) = some (10, 0, [20]) ∧
    (PeriodicCallback 100 1 defaultHzBounds 100 false ⟨none, 0, 0, 0⟩ reuseWorld).2 =
      .useAfterFree :=
  ⟨reuseKs_treesWf, by decide, by decide, by decide⟩

end RediSearch
