import Dataflow.Proofs.CastRule.Apply

/-!
# The columns of an inserted for-each

Three numberings meet in the for-each that a cast rule inserts: the leaves of the expressions name
input slots of the generation, the slots are filled by connecting the inner loads one after another,
and every inner load names a column of the input. `Columnwise` says that they agree: the for-each
hands on every column in its place, cast where the rule has decided on a cast (`columnwise_apply`).
-/

namespace Dataflow

namespace CastRule

variable {p q : InnerPlan} {gen : Generate} {width i j : Nat}

/-! ## Which fields are cast -/

/-- The field declared at position `i` of an operator is cast: it is not an uninterpreted payload, and
if the loader has determined a schema, that one has a field of the same shape there. -/
structure IsCastAt (op : Operator) (field : Field) (i : Nat) : Prop where
  type_ne : field.type ≠ .bytearray
  sameShape : ∀ d, op.determined = some d →
    ∃ e, d.fields[i]? = some e ∧ field.sameShape e = true

theorem isConfirmed_iff {field : Field} {d : Schema} :
    isConfirmed field d i = true ↔ ∃ e, d.fields[i]? = some e ∧ field.sameShape e = true := by
  rw [isConfirmed, Schema.field?]
  cases d.fields[i]? <;> simp

theorem needsCast_iff {op : Operator} {field : Field} :
    needsCast field op.determined i = true ↔ IsCastAt op field i := by
  have htype : (!field.type.isOpaque) = true ↔ field.type ≠ .bytearray := by
    simp [DataType.isOpaque]
  cases hdet : op.determined with
  | none =>
    have hnone : needsCast field none i = !field.type.isOpaque := Bool.and_true _
    rw [hnone, htype]
    exact ⟨fun h ↦ ⟨h, by simp [hdet]⟩, fun h ↦ h.type_ne⟩
  | some d =>
    have hsome : needsCast field (some d) i = (!field.type.isOpaque && isConfirmed field d i) := rfl
    rw [hsome, Bool.and_eq_true, htype, isConfirmed_iff]
    refine ⟨fun h ↦ ⟨h.1, fun d' hd' ↦ ?_⟩, fun h ↦ ⟨h.type_ne, h.sameShape d hdet⟩⟩
    cases hdet.symm.trans hd'
    exact h.2

/-- A field is cast only if the function for the casts has been asked for. -/
theorem exists_outputFunction_of_isCastAt {op : Operator} {s : Schema} {field : Field}
    {f : Option FunctionSpec} (hconv : converter op s = .ok f) (hfield : s.fields[i]? = some field)
    (hcast : IsCastAt op field i) : ∃ g, op.outputFunction = .ok g ∧ f = some g := by
  have hany : (casts s op.determined).any id = true :=
    any_casts_iff.mpr ⟨i, field, hfield, needsCast_iff.mpr hcast⟩
  rw [converter, if_pos hany] at hconv
  cases hout : op.outputFunction with
  | error e =>
    rw [hout] at hconv
    cases hconv
  | ok g =>
    rw [hout] at hconv
    exact ⟨g, rfl, (Except.ok.inj hconv).symm⟩

/-! ## What the for-each hands on -/

/-- The column of a for-each's input that an expression of its generation `g` is computed from. The
leaf names an input slot of the generation, and the only column of the inner load that fills it. -/
def upstream? (inner : InnerPlan) (g : OpId) (e : Expr) : Option UInt64 :=
  match (inner.predecessors g)[e.leaf.1.toNat]?.bind inner.get? with
  | some (.innerLoad column) => if e.leaf.2 = 0 then some column else none
  | _ => none

/-- The output at position `i` is column `i` of the input, by way of the inner load `v`, and is cast to
the field of the operator where this is decided on. -/
structure HandsOn (op : Operator) (inner : InnerPlan) (g : OpId) (gen : Generate) (i : Nat)
    (field : Field) (v : OpId) (column : UInt64) (e : Expr) : Prop where
  toNat_column : column.toNat = i
  getElem?_predecessors : (inner.predecessors g)[i]? = some v
  get?_load : inner.get? v = some (.innerLoad column)
  getElem?_outputs : gen.outputs[i]? = some ⟨e⟩
  leaf_eq : e.leaf = (column, 0)
  upstream?_eq : upstream? inner g e = some column
  eq_of_not_isCastAt : ¬ IsCastAt op field i → e = .project column 0
  eq_of_isCastAt : IsCastAt op field i →
    ∃ f, op.outputFunction = .ok f ∧ e = .cast (.project column 0) field (some f)

/-- The for-each `w`, whose generation `gen` is its vertex `g`, hands on the columns of `op`, which
are declared as `s`, each in its place. -/
structure Columnwise (op : Operator) (s : Schema) (w : ForEach) (g : OpId) (gen : Generate) :
    Prop where
  name_eq : w.name = op.name
  size_eq : w.inner.size = s.size + 1
  get?_generation : w.inner.get? g = some (.generate gen)
  generation?_eq : w.generation? = some gen
  get?_other : ∀ v ∈ w.inner.ids, v ≠ g → ∃ column, w.inner.get? v = some (.innerLoad column)
  /-- All edges lead from an inner load to the generation, one from each. -/
  successors_eq : ∀ v, w.inner.successors v = if v ∈ w.inner.ids ∧ v ≠ g then [g] else []
  mem_predecessors_iff : ∀ v v', v ∈ w.inner.predecessors v' ↔ v ∈ w.inner.ids ∧ v ≠ g ∧ v' = g
  length_predecessors : (w.inner.predecessors g).length = s.size
  length_outputs : gen.outputs.length = s.size
  flatten_eq : gen.flatten = List.replicate s.size false
  handsOn : ∀ i field, s.fields[i]? = some field →
    ∃ v column e, HandsOn op w.inner g gen i field v column e

/-- An expression over slot `i` is one over column `i`. -/
theorem IsFed.upstream?_eq (hp : IsFed p gen width) (hi : i < width) {e : Expr}
    (he : e.leaf = (UInt64.ofNat i, 0)) :
    upstream? p ⟨1⟩ e = some (UInt64.ofNat i) := by
  rw [upstream?, he, hp.toNat_column hi, hp.getElem?_predecessors hi, Option.bind_some,
    hp.get?_load i hi]
  rfl

theorem leaf_column (f : Option FunctionSpec) (i : Nat) (field : Field) (isCast : Bool) :
    (column f i field isCast).root.leaf = (UInt64.ofNat i, 0) := by
  cases isCast <;> rfl

/-- The wrapper of an operator hands on all its columns. -/
theorem columnwise_of_wrapper_eq_ok {id : OpId} {op : Operator} {w : ForEach}
    (h : wrapper id op = .ok w) :
    ∃ s gen, op.declared = some s ∧ Columnwise op s w ⟨1⟩ gen := by
  obtain ⟨s, f, hdecl, hconv, hname, hfed⟩ := isFed_of_wrapper_eq_ok h
  refine ⟨s, _, hdecl,
    { name_eq := hname
      size_eq := hfed.size_eq
      get?_generation := hfed.get?_generation
      generation?_eq := hfed.generation?_eq
      get?_other := fun v hv hne ↦ ?_
      successors_eq := hfed.successors_eq
      mem_predecessors_iff := hfed.mem_predecessors_iff
      length_predecessors := ?_
      length_outputs := length_columns s op.determined f
      flatten_eq := rfl
      handsOn := fun i field hfield ↦ ?_ }⟩
  · obtain ⟨i, hi, rfl⟩ := hfed.mem_ids_and_ne_iff.mp ⟨hv, hne⟩
    exact ⟨_, hfed.get?_load i hi⟩
  · rw [hfed.predecessors_generation, List.length_map, List.length_range]
  · have hi : i < s.size := (List.getElem?_eq_some_iff.mp hfield).1
    let c := column f i field (needsCast field op.determined i)
    have hleaf : c.root.leaf = (UInt64.ofNat i, 0) := leaf_column f i field _
    refine ⟨innerLoadId i, UInt64.ofNat i, c.root,
      { toNat_column := hfed.toNat_column hi
        getElem?_predecessors := hfed.getElem?_predecessors hi
        get?_load := hfed.get?_load i hi
        getElem?_outputs := ?_
        leaf_eq := hleaf
        upstream?_eq := hfed.upstream?_eq hi hleaf
        eq_of_not_isCastAt := fun hcast ↦ ?_
        eq_of_isCastAt := fun hcast ↦ ?_ }⟩
    · change (columns s op.determined f)[i]? = _
      rw [columns, List.getElem?_mapIdx, hfield]
      rfl
    · have hbare : needsCast field op.determined i = false :=
        Bool.eq_false_iff.mpr (mt needsCast_iff.mp hcast)
      change (column f i field (needsCast field op.determined i)).root = _
      rw [hbare]
      rfl
    · obtain ⟨fn, hout, rfl⟩ := exists_outputFunction_of_isCastAt hconv hfield hcast
      refine ⟨fn, hout, ?_⟩
      change (column (some fn) i field (needsCast field op.determined i)).root = _
      rw [needsCast_iff.mpr hcast]
      rfl

/-! ## After an application -/

/-- **Columns keep their places.** Where a cast rule succeeds on a well-formed plan, it puts in a new
for-each that hands on the declared columns of the operator one by one, each bare or with the cast
that is decided on. -/
theorem columnwise_apply {q : LogicalPlan} (hq : q.WellFormed) {r : CastRule} {n : OpId}
    {touched : List OpId} (h : ((r.apply n).perform q).1 = .ok touched) :
    ∃ op s next w g gen, q.get? n = some op ∧ op.declared = some s ∧ q.get? q.nextId = none ∧
      touched = [n, q.nextId, next] ∧
      ((r.apply n).perform q).2.get? q.nextId = some (.forEach w) ∧
      Columnwise op s w g gen := by
  rw [perform_apply hq] at h ⊢
  cases hprep : r.prepare q n with
  | error e =>
    rw [hprep] at h
    cases h
  | ok a =>
    rw [hprep] at h
    obtain ⟨op, next, w⟩ := a
    obtain ⟨hget, -, hs, hw⟩ := prepare_eq_ok_iff.mp hprep
    obtain ⟨s, gen, hdecl, hcols⟩ := columnwise_of_wrapper_eq_ok hw
    exact ⟨op, s, next, w, ⟨1⟩, gen, hget, hdecl,
      Plan.get?_eq_none_iff.mpr hq.nextId_notMem_ids, (Except.ok.inj h).symm,
      (wrappedBelow hq hs).get?_wrapper, hcols⟩

/-- A load whose loader has determined another type for its last column feeds a store. -/
def determinedPlan : LogicalPlan where
  operators := .ofList
    [(⟨1⟩, .load ⟨some "A", ⟨"in", ⟨"PigStorage", [","]⟩⟩,
        some ⟨[.named "a" .int, .named "b" .bytearray, .named "c" .chararray]⟩,
        some ⟨[.named "x" .int, .named "y" .bytearray, .named "z" .long]⟩, false⟩),
      (⟨2⟩, .store ⟨none, ⟨"out", ⟨"PigStorage", []⟩⟩⟩)]
  outgoing := .ofList [(⟨1⟩, [⟨2⟩])]
  incoming := .ofList [(⟨2⟩, [⟨1⟩])]
  nextId := ⟨3⟩

/-- Of the three columns, only the first is cast. -/
theorem columnwise_apply_determinedPlan :
    determinedPlan.WellFormed ∧
      ((CastRule.forLoad.apply ⟨1⟩).perform determinedPlan).1 = .ok [⟨1⟩, ⟨3⟩, ⟨2⟩] ∧
      ∃ op s w g gen, determinedPlan.get? ⟨1⟩ = some op ∧ Columnwise op s w g gen ∧ s.size = 3 ∧
        IsCastAt op (.named "a" .int) 0 ∧ ¬ IsCastAt op (.named "b" .bytearray) 1 ∧
        ¬ IsCastAt op (.named "c" .chararray) 2 := by
  have hq : determinedPlan.WellFormed := by decide
  have hok : ((CastRule.forLoad.apply ⟨1⟩).perform determinedPlan).1 = .ok [⟨1⟩, ⟨3⟩, ⟨2⟩] := by
    decide
  obtain ⟨op, s, -, w, g, gen, hget, hdecl, -, -, -, hcols⟩ := columnwise_apply hq hok
  cases hget
  cases hdecl
  refine ⟨hq, hok, _, _, w, g, gen, rfl, hcols, rfl, ?_, ?_, ?_⟩
  · exact needsCast_iff.mp (by decide)
  · exact mt needsCast_iff.mpr (by decide)
  · exact mt needsCast_iff.mpr (by decide)

end CastRule

end Dataflow
