import Dataflow.Proofs.CastRule.Wrapper
import Dataflow.Proofs.Edit

/-!
# Applying a cast rule

Everything that can stop a cast rule is found out before the plan is touched. `CastRule.prepare` reads
the operator, its successor and the for-each to insert, `CastRule.carryOut` changes the plan, and the
second part cannot fail in a well-formed plan (`perform_carryOut`). So a refusal leaves the plan as it
was, and the reasons for one are those of `Refusal`, in the order in which they are looked for.

`WrappedBelow` describes the plan after a success by its lookups. It is the only thing that later
proofs use of an application.
-/

namespace Dataflow

/-! ## Marked operators -/

namespace Operator

/-- The operator with the mark that it has its casts, if it is of a kind that takes one. -/
def marked : Operator → Operator
  | load op => load { op with castInserted := true }
  | stream op => stream { op with castInserted := true }
  | op => op

theorem markCastInserted_of_isIngest {op : Operator} (h : op.kind.isIngest = true) :
    op.markCastInserted = .ok op.marked := by
  cases op <;> first | rfl | cases h

theorem isCastInserted_marked {op : Operator} (h : op.kind.isIngest = true) :
    op.marked.isCastInserted = true := by
  cases op <;> first | rfl | cases h

/-- Only operators that read data are marked. -/
theorem isIngest_of_isCastInserted {op : Operator} (h : op.isCastInserted = true) :
    op.kind.isIngest = true := by
  cases op <;> first | rfl | cases h

/-- The mark is set once. -/
theorem marked_of_isCastInserted {op : Operator} (h : op.isCastInserted = true) :
    op.marked = op := by
  cases op with
  | load l => exact congrArg load (congrArg (Load.mk _ _ _ _) h.symm)
  | stream st => exact congrArg stream (congrArg (Stream.mk _ _ _) h.symm)
  | _ => rfl

@[simp] theorem kind_marked (op : Operator) : op.marked.kind = op.kind := by
  cases op <;> rfl

theorem eq_marked_of_markCastInserted {op op' : Operator} (h : op.markCastInserted = .ok op') :
    op' = op.marked := by
  cases op <;> cases h <;> rfl

@[simp] theorem marked_marked (op : Operator) : op.marked.marked = op.marked := by
  cases op <;> rfl

@[simp] theorem name_marked (op : Operator) : op.marked.name = op.name := by
  cases op <;> rfl

@[simp] theorem declared_marked (op : Operator) : op.marked.declared = op.declared := by
  cases op <;> rfl

@[simp] theorem determined_marked (op : Operator) : op.marked.determined = op.determined := by
  cases op <;> rfl

@[simp] theorem outputFunction_marked (op : Operator) :
    op.marked.outputFunction = op.outputFunction := by
  cases op <;> rfl

end Operator

namespace CastRule

variable {r : CastRule} {p q : LogicalPlan} {n s v : OpId} {op : Operator} {f : ForEach}

/-- The operators that are marked as having their casts, in ascending order. -/
def castInserted (q : LogicalPlan) : List OpId :=
  (q.operators.entries.filter fun (_, op) ↦ op.isCastInserted).map (·.1)

theorem mem_castInserted_iff :
    v ∈ castInserted q ↔ ∃ op, q.get? v = some op ∧ op.isCastInserted = true :=
  IdTable.mem_map_fst_filter_iff

/-! ## Preparing -/

/-- What a cast rule has read when it begins to change the plan. -/
structure Preparation where
  op : Operator
  next : OpId
  wrapper : ForEach

/-- The part of an application that reads the plan and may fail. -/
def prepare (r : CastRule) (p : LogicalPlan) (n : OpId) : Except Error Preparation := do
  let op ← p.operator n
  if op.kind.isIngest then
    match p.successors n with
    | [next] =>
      let f ← wrapper n op
      return ⟨op, next, f⟩
    | others => .error (.successorCount r.name n others.length)
  else .error (.unsupportedOperator r.name n op.kind)

/-- Preparing looks at the operator and its successors and at nothing else. -/
theorem prepare_congr (hget : q.get? n = p.get? n) (hsucc : q.successors n = p.successors n) :
    r.prepare q n = r.prepare p n := by
  rw [prepare, prepare, Plan.operator, Plan.operator, hget, hsucc]

theorem prepare_of_get?_eq_none (h : p.get? n = none) :
    r.prepare p n = .error (.unknownOperator n) := by
  rw [prepare, Plan.operator, h]
  rfl

theorem prepare_of_not_isIngest (h : p.get? n = some op) (hop : op.kind.isIngest = false) :
    r.prepare p n = .error (.unsupportedOperator r.name n op.kind) := by
  rw [prepare, Plan.operator, h]
  change (if op.kind.isIngest = true then _ else _) = _
  rw [hop]
  rfl

theorem prepare_of_length_ne_one (h : p.get? n = some op) (hop : op.kind.isIngest = true)
    (hlen : (p.successors n).length ≠ 1) :
    r.prepare p n = .error (.successorCount r.name n (p.successors n).length) := by
  rw [prepare, Plan.operator, h]
  change (if op.kind.isIngest = true then _ else _) = _
  rw [if_pos hop]
  split
  · rename_i hs
    rw [hs] at hlen
    exact absurd rfl hlen
  · rfl

theorem prepare_of_successors_eq (h : p.get? n = some op) (hop : op.kind.isIngest = true)
    (hs : p.successors n = [s]) :
    r.prepare p n = (wrapper n op).map (Preparation.mk op s) := by
  rw [prepare, Plan.operator, h]
  change (if op.kind.isIngest = true then _ else _) = _
  rw [if_pos hop, hs]
  cases wrapper n op <;> rfl

/-- How preparing goes: it stops at the first of three tests that fails, or comes to the wrapper. -/
inductive Prepared (r : CastRule) (p : LogicalPlan) (n : OpId) : Except Error Preparation → Prop
  | unknown (hget : p.get? n = none) : Prepared r p n (.error (.unknownOperator n))
  | unsupported {op : Operator} (hget : p.get? n = some op) (hop : op.kind.isIngest = false) :
      Prepared r p n (.error (.unsupportedOperator r.name n op.kind))
  | successors {op : Operator} (hget : p.get? n = some op) (hop : op.kind.isIngest = true)
      (hlen : (p.successors n).length ≠ 1) :
      Prepared r p n (.error (.successorCount r.name n (p.successors n).length))
  | tested {op : Operator} {s : OpId} (hget : p.get? n = some op) (hop : op.kind.isIngest = true)
      (hs : p.successors n = [s]) : Prepared r p n ((wrapper n op).map (Preparation.mk op s))

theorem prepared (r : CastRule) (p : LogicalPlan) (n : OpId) :
    Prepared r p n (r.prepare p n) := by
  cases hget : p.get? n with
  | none =>
    rw [prepare_of_get?_eq_none hget]
    exact .unknown hget
  | some op =>
    cases hop : op.kind.isIngest with
    | false =>
      rw [prepare_of_not_isIngest hget hop]
      exact .unsupported hget hop
    | true =>
      by_cases hlen : (p.successors n).length = 1
      · obtain ⟨s, hs⟩ := List.length_eq_one_iff.mp hlen
        rw [prepare_of_successors_eq hget hop hs]
        exact .tested hget hop hs
      · rw [prepare_of_length_ne_one hget hop hlen]
        exact .successors hget hop hlen

theorem prepare_eq_ok_iff :
    r.prepare p n = .ok ⟨op, s, f⟩ ↔
      p.get? n = some op ∧ op.kind.isIngest = true ∧ p.successors n = [s] ∧
        wrapper n op = .ok f := by
  constructor
  · intro hok
    have hprep := prepared r p n
    rw [hok] at hprep
    generalize hres : (Except.ok ⟨op, s, f⟩ : Except Error Preparation) = res at hprep
    cases hprep with
    | @tested op' s' hget hop hs =>
      cases hw : wrapper n op' with
      | error e => simp [hw, Except.map] at hres
      | ok w =>
        rw [hw] at hres
        cases hres
        exact ⟨hget, hop, hs, hw⟩
    | _ => cases hres
  · rintro ⟨hget, hop, hs, hw⟩
    rw [prepare_of_successors_eq hget hop hs, hw]
    rfl

/-! ## Carrying out -/

/-- The part of an application that changes the plan. -/
def carryOut (n : OpId) (a : Preparation) : Edit (List OpId) := do
  let new ← splice n a.next (.forEach a.wrapper)
  Edit.markCastInserted n
  return [n, new, a.next]

/-- An application prepares first, and what it has read then is all that it goes by. -/
theorem perform_apply_eq (r : CastRule) (n : OpId) (p : LogicalPlan) :
    (r.apply n).perform p = match r.prepare p n with
      | .ok a => (carryOut n a).perform p
      | .error e => (.error e, p) := by
  rw [apply, Edit.perform_bind, Edit.perform_query, prepare]
  cases p.operator n with
  | error e => rfl
  | ok op =>
    change (if op.kind.isIngest = true then _ else _ : Edit (List OpId)).perform p
      = match (if op.kind.isIngest = true then _ else _ : Except Error Preparation) with
        | .ok a => _
        | .error e => _
    cases op.kind.isIngest with
    | false => rfl
    | true =>
      rw [if_pos rfl, if_pos rfl, Edit.perform_bind_of_ok (Edit.perform_get p)]
      rcases p.successors n with _ | ⟨next, _ | ⟨other, rest⟩⟩
      · rfl
      · have hwrap := Edit.perform_query (fun _ ↦ wrapper n op) p
        refine (Edit.perform_bind _ _ p).trans ?_
        rw [hwrap]
        cases wrapper n op <;> rfl
      · rfl

/-- The plan with a for-each between an operator and its successor, and the operator marked. -/
def wrapBelow (p : LogicalPlan) (n : OpId) (a : Preparation) : LogicalPlan :=
  (p.interpose n a.next (.forEach a.wrapper)).setOperator n a.op.marked

theorem perform_carryOut (h : p.Admits n s) (hget : p.get? n = some op)
    (hop : op.kind.isIngest = true) (f : ForEach) :
    (carryOut n ⟨op, s, f⟩).perform p = (.ok [n, p.nextId, s], wrapBelow p n ⟨op, s, f⟩) := by
  -- The node is older than the wrapper, so the splice has not touched it.
  have hkept : (p.interpose n s (.forEach f)).get? n = some op := by
    rw [Plan.get?_interpose, if_neg h.source_ne, hget]
  have hmark := Edit.perform_markCastInserted hkept (Operator.markCastInserted_of_isIngest hop)
  rw [carryOut, Edit.perform_bind_of_ok (perform_splice (.forEach f) h),
    Edit.perform_bind_of_ok hmark]
  rfl

theorem perform_apply_of_admits {a : Preparation} (hprep : r.prepare p n = .ok a)
    (h : p.Admits n a.next) :
    (r.apply n).perform p = (.ok [n, p.nextId, a.next], wrapBelow p n a) := by
  obtain ⟨hget, hop, -⟩ := prepare_eq_ok_iff.mp hprep
  rw [perform_apply_eq, hprep]
  exact perform_carryOut h hget hop a.wrapper

theorem perform_apply_of_prepare_eq_error {e : Error} (h : r.prepare p n = .error e) :
    (r.apply n).perform p = (.error e, p) := by
  rw [perform_apply_eq, h]

/-- Once it is prepared, nothing stops an application. -/
theorem perform_apply (hp : p.WellFormed) (r : CastRule) (n : OpId) :
    (r.apply n).perform p = match r.prepare p n with
      | .ok a => (.ok [n, p.nextId, a.next], wrapBelow p n a)
      | .error e => (.error e, p) := by
  cases hprep : r.prepare p n with
  | error e => exact perform_apply_of_prepare_eq_error hprep
  | ok a =>
    obtain ⟨-, -, hs, -⟩ := prepare_eq_ok_iff.mp hprep
    exact perform_apply_of_admits hprep (hp.admits (hs ▸ List.mem_singleton_self a.next))

/-! ## The plan afterwards -/

/-- `q` is `p` with a new for-each `f` between `n`, which held `op` and is marked now, and its
successor `s`. -/
structure WrappedBelow (p : LogicalPlan) (n s : OpId) (op : Operator) (f : ForEach)
    (q : LogicalPlan) : Prop where
  nextId_eq : q.nextId = p.nextId.next
  get?_node : q.get? n = some op.marked
  get?_wrapper : q.get? p.nextId = some (.forEach f)
  get?_other : ∀ v, v ≠ n → v ≠ p.nextId → q.get? v = p.get? v
  successors_node : q.successors n = [p.nextId]
  successors_wrapper : q.successors p.nextId = [s]
  successors_other : ∀ v, v ≠ n → v ≠ p.nextId → q.successors v = p.successors v
  predecessors_wrapper : q.predecessors p.nextId = [n]
  /-- The for-each takes over the input slot of the node. -/
  predecessors_next : q.predecessors s
    = (p.predecessors s).set ((p.predecessors s).idxOf n) p.nextId
  predecessors_other : ∀ v, v ≠ s → v ≠ p.nextId → q.predecessors v = p.predecessors v

theorem wrappedBelow (hp : p.WellFormed) (hs : p.successors n = [s]) :
    WrappedBelow p n s op f (wrapBelow p n ⟨op, s, f⟩) := by
  have hmem : s ∈ p.successors n := hs ▸ List.mem_singleton_self s
  have hn := Plan.source_ne_nextId hp hmem
  have ht := Plan.target_ne_nextId hp hmem
  constructor
  case nextId_eq => rfl
  case get?_node => rw [wrapBelow, Plan.get?_setOperator, if_pos rfl]
  case get?_wrapper =>
    rw [wrapBelow, Plan.get?_setOperator, if_neg hn.symm, Plan.get?_interpose, if_pos rfl]
  case get?_other =>
    intro v hvn hvw
    rw [wrapBelow, Plan.get?_setOperator, if_neg hvn, Plan.get?_interpose, if_neg hvw]
  case successors_node =>
    rw [wrapBelow, Plan.successors_setOperator, Plan.successors_interpose hp hmem, if_neg hn,
      if_pos rfl, hs, List.idxOf_cons_self]
    rfl
  case successors_wrapper =>
    rw [wrapBelow, Plan.successors_setOperator, Plan.successors_interpose hp hmem, if_pos rfl]
  case successors_other =>
    intro v hvn hvw
    rw [wrapBelow, Plan.successors_setOperator, Plan.successors_interpose hp hmem, if_neg hvw,
      if_neg hvn]
  case predecessors_wrapper =>
    rw [wrapBelow, Plan.predecessors_setOperator, Plan.predecessors_interpose hp hmem, if_pos rfl]
  case predecessors_next =>
    rw [wrapBelow, Plan.predecessors_setOperator, Plan.predecessors_interpose hp hmem, if_neg ht,
      if_pos rfl]
  case predecessors_other =>
    intro v hvs hvw
    rw [wrapBelow, Plan.predecessors_setOperator, Plan.predecessors_interpose hp hmem, if_neg hvw,
      if_neg hvs]

theorem wellFormed_wrapBelow (hp : p.WellFormed) (hroom : p.nextId.toNat + 1 < UInt64.size)
    (hs : p.successors n = [s]) : (wrapBelow p n ⟨op, s, f⟩).WellFormed := by
  have hmem : s ∈ p.successors n := hs ▸ List.mem_singleton_self s
  exact (hp.interpose hmem hroom).setOperator
    (Plan.mem_ids_interpose.mpr (.inr (hp.mem_ids_of_successor hmem))) _

/-! ## Refusals -/

theorem any_casts_iff {s : Schema} {d : Option Schema} :
    (casts s d).any id = true ↔ ∃ i g, s.fields[i]? = some g ∧ needsCast g d i = true := by
  rw [List.any_eq_true]
  constructor
  · rintro ⟨c, hc, hid⟩
    obtain ⟨i, hi, rfl⟩ := List.mem_mapIdx.mp hc
    exact ⟨i, _, List.getElem?_eq_getElem hi, hid⟩
  · rintro ⟨i, g, hg, hcast⟩
    obtain ⟨hi, rfl⟩ := List.getElem?_eq_some_iff.mp hg
    exact ⟨_, List.mem_mapIdx.mpr ⟨i, hi, rfl⟩, hcast⟩

/-- A load carries its function, so only what reads the output of a command can be no function. -/
theorem converter_eq_error_iff (hop : op.kind.isIngest = true) {s : Schema} {e : Error} :
    converter op s = .error e ↔
      (∃ i g, s.fields[i]? = some g ∧ needsCast g op.determined i = true) ∧
        ∃ st, op = .stream st ∧ FunctionSpec.parse st.command.output.text = .error e := by
  rw [← any_casts_iff, converter]
  split
  · rename_i hcast
    rw [and_iff_right hcast]
    cases op with
    | load l => exact ⟨nofun, nofun⟩
    | stream st =>
      rw [Operator.outputFunction]
      cases hparse : FunctionSpec.parse st.command.output.text with
      | ok g => exact ⟨nofun, fun ⟨st', hst, hst'⟩ ↦ by cases hst; simp [hparse] at hst'⟩
      | error e' =>
        constructor
        · intro h
          cases h
          exact ⟨st, rfl, hparse⟩
        · rintro ⟨st', hst, hst'⟩
          cases hst
          rw [hparse] at hst'
          cases hst'
          rfl
    | _ => cases hop
  · rename_i hcast
    exact ⟨nofun, fun h ↦ absurd h.1 hcast⟩

/-- Why a cast rule refuses an operator. The reasons are looked for in this order: each of them
presupposes that the ones before it do not hold. -/
inductive Refusal (r : CastRule) (p : LogicalPlan) (n : OpId) : Error.Category → Error → Prop
  | unknown (hget : p.get? n = none) : Refusal r p n .plan (.unknownOperator n)
  | unsupported {op : Operator} (hget : p.get? n = some op) (hload : op.kind ≠ .load)
      (hstream : op.kind ≠ .stream) : Refusal r p n .config (.unsupportedOperator r.name n op.kind)
  | successors {op : Operator} (hget : p.get? n = some op)
      (hkind : op.kind = .load ∨ op.kind = .stream) (hlen : (p.successors n).length ≠ 1) :
      Refusal r p n .plan (.successorCount r.name n (p.successors n).length)
  | noSchema {op : Operator} (hget : p.get? n = some op)
      (hkind : op.kind = .load ∨ op.kind = .stream) (hlen : (p.successors n).length = 1)
      (hdecl : op.declared = none) : Refusal r p n .schema (.noSchema n)
  | outputSpec {st : Stream} {s : Schema} {e : Error} (hget : p.get? n = some (.stream st))
      (hlen : (p.successors n).length = 1) (hdecl : st.declared = some s)
      (hcast : ∃ i g, s.fields[i]? = some g ∧
        needsCast g (Operator.stream st).determined i = true)
      (hparse : FunctionSpec.parse st.command.output.text = .error e) : Refusal r p n .config e

theorem isIngest_iff {k : Kind} : k.isIngest = true ↔ k = .load ∨ k = .stream := by
  simp [Kind.isIngest]

theorem Refusal.category_eq {c : Error.Category} {e : Error} (h : Refusal r p n c e) :
    e.category = c ∧ c ≠ .invariant := by
  cases h with
  | outputSpec _ _ _ _ hparse =>
    exact ⟨FunctionSpec.category_of_parse_eq_error hparse, nofun⟩
  | _ => exact ⟨rfl, nofun⟩

/-- For an operator whose schema fits into memory, preparing fails for one of the reasons and for no
other. -/
theorem prepare_eq_error_iff (hfit : ∀ op, p.get? n = some op → op.Fits) {e : Error} :
    r.prepare p n = .error e ↔ ∃ c, Refusal r p n c e := by
  constructor
  · intro h
    have hprep := prepared r p n
    rw [h] at hprep
    generalize hres : (Except.error e : Except Error Preparation) = res at hprep
    cases hprep with
    | unknown hget =>
      cases hres
      exact ⟨_, .unknown hget⟩
    | @unsupported op hget hop =>
      cases hres
      have hkind : ¬ (op.kind = .load ∨ op.kind = .stream) := by
        rw [← isIngest_iff, hop]
        exact Bool.false_ne_true
      exact ⟨_, .unsupported hget (mt .inl hkind) (mt .inr hkind)⟩
    | successors hget hop hlen =>
      cases hres
      exact ⟨_, .successors hget (isIngest_iff.mp hop) hlen⟩
    | @tested op s hget hop hs =>
      have hlen : (p.successors n).length = 1 := by rw [hs, List.length_singleton]
      cases hdecl : op.declared with
      | none =>
        rw [wrapper_of_declared_eq_none hdecl] at hres
        cases hres
        exact ⟨_, .noSchema hget (isIngest_iff.mp hop) hlen hdecl⟩
      | some sch =>
        cases hconv : converter op sch with
        | ok f =>
          obtain ⟨w, hw, -⟩ := exists_wrapper_eq_ok (hfit op hget) hdecl hconv n
          rw [hw] at hres
          cases hres
        | error e' =>
          rw [wrapper_of_converter_eq_error hdecl hconv] at hres
          cases hres
          obtain ⟨hcast, st, rfl, hparse⟩ := (converter_eq_error_iff hop).mp hconv
          exact ⟨_, .outputSpec hget hlen hdecl hcast hparse⟩
  · rintro ⟨c, h⟩
    cases h with
    | unknown hget => exact prepare_of_get?_eq_none hget
    | @unsupported op hget hload hstream =>
      refine prepare_of_not_isIngest hget (Bool.eq_false_iff.mpr fun hop ↦ ?_)
      exact (isIngest_iff.mp hop).elim hload hstream
    | successors hget hkind hlen =>
      exact prepare_of_length_ne_one hget (isIngest_iff.mpr hkind) hlen
    | noSchema hget hkind hlen hdecl =>
      obtain ⟨s, hs⟩ := List.length_eq_one_iff.mp hlen
      rw [prepare_of_successors_eq hget (isIngest_iff.mpr hkind) hs,
        wrapper_of_declared_eq_none hdecl]
      rfl
    | @outputSpec st _ _ hget hlen hdecl hcast hparse =>
      obtain ⟨s, hs⟩ := List.length_eq_one_iff.mp hlen
      have hdecl' : (Operator.stream st).declared = some _ := hdecl
      have hconv := (converter_eq_error_iff rfl).mpr ⟨hcast, st, rfl, hparse⟩
      rw [prepare_of_successors_eq hget rfl hs, wrapper_of_converter_eq_error hdecl' hconv]
      rfl

/-! ## The outcome of an application -/

/-- **All or nothing.** In a well-formed plan a cast rule refuses an operator exactly for the reasons
of `Refusal`, and then the plan is as before. Otherwise the wrapper stands between the operator and
its only successor, in the slot of the operator, and nothing else has changed. -/
theorem outcome_apply (r : CastRule) (n : OpId) (hp : p.WellFormed)
    (hroom : p.nextId.toNat + 1 < UInt64.size) (hfit : ∀ op, p.get? n = some op → op.Fits) :
    (∀ e, ((r.apply n).perform p).1 = .error e ↔ ∃ c, Refusal r p n c e) ∧
    (∀ c e, Refusal r p n c e → e.category = c ∧ c ≠ .invariant) ∧
    (∀ e, ((r.apply n).perform p).1 = .error e → ((r.apply n).perform p).2 = p) ∧
    ∀ touched, ((r.apply n).perform p).1 = .ok touched →
      ∃ s op f, p.get? n = some op ∧ wrapper n op = .ok f ∧ p.successors n = [s] ∧
        n ∈ p.predecessors s ∧ touched = [n, p.nextId, s] ∧
        WrappedBelow p n s op f ((r.apply n).perform p).2 ∧
        op.marked.isCastInserted = true ∧
        ((r.apply n).perform p).2.nextId.toNat = p.nextId.toNat + 1 ∧
        ((r.apply n).perform p).2.WellFormed := by
  rw [perform_apply hp]
  refine ⟨fun e ↦ ?_, fun c e h ↦ h.category_eq, fun e h ↦ ?_, fun touched h ↦ ?_⟩
  · rw [← prepare_eq_error_iff hfit]
    cases r.prepare p n with
    | error e' => simp
    | ok a => simp
  · cases hprep : r.prepare p n with
    | error e' => rfl
    | ok a =>
      rw [hprep] at h
      cases h
  · cases hprep : r.prepare p n with
    | error e' =>
      rw [hprep] at h
      cases h
    | ok a =>
      obtain ⟨op, s, f⟩ := a
      rw [hprep] at h
      obtain ⟨hget, hop, hs, hw⟩ := prepare_eq_ok_iff.mp hprep
      have hpred : n ∈ p.predecessors s :=
        (hp.mirrored n s).mp (hs ▸ List.mem_singleton_self s)
      exact ⟨s, op, f, hget, hw, hs, hpred, (Except.ok.inj h).symm, wrappedBelow hp hs,
        Operator.isCastInserted_marked hop, OpId.toNat_next hroom,
        wellFormed_wrapBelow hp hroom hs⟩

/-- A load feeds a stream, and that stream and a second load feed a join. -/
def branchedPlan : LogicalPlan where
  operators := .ofList
    [(⟨1⟩, .load ⟨none, ⟨"in", ⟨"PigStorage", []⟩⟩, some ⟨[.named "a" .int]⟩, none, false⟩),
      (⟨2⟩, .stream ⟨none, ⟨"cat", .default⟩, some ⟨[.named "b" .chararray]⟩, false⟩),
      (⟨3⟩, .join ⟨none, []⟩),
      (⟨4⟩, .load ⟨none, ⟨"in", ⟨"PigStorage", []⟩⟩, some ⟨[.named "c" .long]⟩, none, false⟩)]
  outgoing := .ofList [(⟨1⟩, [⟨2⟩]), (⟨2⟩, [⟨3⟩]), (⟨4⟩, [⟨3⟩])]
  incoming := .ofList [(⟨2⟩, [⟨1⟩]), (⟨3⟩, [⟨2⟩, ⟨4⟩])]
  nextId := ⟨5⟩

theorem outcome_apply_branchedPlan :
    branchedPlan.WellFormed ∧ branchedPlan.nextId.toNat + 1 < UInt64.size ∧
      (∀ op, branchedPlan.get? ⟨4⟩ = some op → op.Fits) ∧
      ∃ op f, WrappedBelow branchedPlan ⟨4⟩ ⟨3⟩ op f
        ((CastRule.all.apply ⟨4⟩).perform branchedPlan).2 := by
  have hp : branchedPlan.WellFormed := by decide
  have hroom : branchedPlan.nextId.toNat + 1 < UInt64.size := by decide
  have hfit : ∀ op, branchedPlan.get? ⟨4⟩ = some op → op.Fits := by
    intro op hop s hs
    cases hop
    cases hs
    decide
  refine ⟨hp, hroom, hfit, ?_⟩
  obtain ⟨s, op, f, -, -, hs, -, -, hwrap, -⟩ :=
    (outcome_apply .all ⟨4⟩ hp hroom hfit).2.2.2 [⟨4⟩, ⟨5⟩, ⟨3⟩] (by decide)
  cases hs
  exact ⟨op, f, hwrap⟩

end CastRule

end Dataflow
