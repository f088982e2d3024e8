import Dataflow.Proofs.CastRule.Apply
import Dataflow.Proofs.Json.RoundTrip

/-!
# Applications that stop half way

When a cast rule has prepared, it adds the for-each, takes the edge away and makes two new edges. In a
well-formed plan none of these steps can fail. But a plan may come from a text, and the reader does
not compare the two tables of neighbours with each other, nor the counter with the identifiers in use.
The last three steps look these things up, after the first one has changed the plan, and nothing is
taken back when one of them fails.

What they look up is `Plan.Admits`, and it decides: if it holds the application succeeds, and if not
the plan is left in one of the five states of `Halted`, all of which differ from the plan before.
-/

namespace Dataflow

/-! ## Edges that are refused -/

namespace Plan

variable {α : Type} {p : Plan α} {s t : OpId} {op : α}

theorem disconnect_of_notMem_predecessors (h : s ∉ p.predecessors t) :
    p.disconnect s t = .error (.noEdge s t) := by
  have hedge : p.edge? s t = none := by
    rw [Option.eq_none_iff_forall_ne_some]
    exact fun e he ↦ h (edge?_eq_some_iff.mp he).2.1
  rw [disconnect, hedge]

theorem operator_of_mem_ids (h : s ∈ p.ids) : ∃ a, p.operator s = .ok a :=
  (mem_ids_iff.mp h).imp fun _ ↦ operator_eq_ok_iff.mpr

theorem connectAt_of_target_notMem_ids (hs : s ∈ p.ids) (ht : t ∉ p.ids) (i j : Nat) :
    p.connectAt s i t j = .error (.unknownOperator t) := by
  obtain ⟨a, ha⟩ := operator_of_mem_ids hs
  have hb : p.operator t = .error (.unknownOperator t) := by
    rw [operator, get?_eq_none_iff.mpr ht]
  rw [connectAt, ha, hb]
  rfl

theorem connectAt_self (hs : s ∈ p.ids) (i j : Nat) :
    p.connectAt s i s j = .error (.selfLoop s) := by
  obtain ⟨a, ha⟩ := operator_of_mem_ids hs
  rw [connectAt, ha]
  exact if_pos rfl

theorem connectAt_of_mem_successors (hs : s ∈ p.ids) (ht : t ∈ p.ids) (hne : s ≠ t)
    (h : t ∈ p.successors s) (i j : Nat) :
    p.connectAt s i t j = .error (.alreadyConnected s t) := by
  obtain ⟨a, ha⟩ := operator_of_mem_ids hs
  obtain ⟨b, hb⟩ := operator_of_mem_ids ht
  rw [connectAt, ha, hb]
  exact (if_neg hne).trans (if_pos (List.contains_iff_mem.mpr h))

end Plan

namespace Edit

variable {p : LogicalPlan} {s t : OpId} {e : Error}

theorem perform_connectAt_of_error {i j : Nat} (h : p.connectAt s i t j = .error e) :
    (connectAt s i t j).perform p = (.error e, p) := by
  refine perform_update_of_error ?_
  rw [h]
  rfl

theorem perform_disconnect_of_error (h : p.disconnect s t = .error e) :
    (disconnect s t).perform p = (.error e, p) :=
  perform_update_of_error h

end Edit

namespace CastRule

variable {r : CastRule} {p q : LogicalPlan} {n s t : OpId} {op : Operator} {e : Error}

/-! ## Splicing -/

/-- Where putting the operator `op` on the edge from `s` to `t` stops: the error, and the plan as it is
then. The cases are in the order of the steps, and each of them presupposes that the tests of those
before it are passed. -/
inductive Halted (p : LogicalPlan) (s t : OpId) (op : Operator) : Error → LogicalPlan → Prop
  /-- The target does not list the edge. The new operator stays, without edges. -/
  | unlisted (h : s ∉ p.predecessors t) : Halted p s t op (.noEdge s t) (p.add op).2
  /-- The new operator has replaced the source. The edge is gone as well. -/
  | sourceReplaced (hpred : s ∈ p.predecessors t) (h : s = p.nextId) :
      Halted p s t op (.selfLoop s) (p.erased s t op)
  /-- The new operator has replaced the target. -/
  | targetReplaced (hpred : s ∈ p.predecessors t) (hs : s ≠ p.nextId) (h : t = p.nextId) :
      Halted p s t op (.selfLoop p.nextId) (p.half s t op)
  /-- There is no target. The new operator has an input and no output. -/
  | targetUnknown (hpred : s ∈ p.predecessors t) (hs : s ≠ p.nextId) (ht : t ≠ p.nextId)
      (h : t ∉ p.ids) : Halted p s t op (.unknownOperator t) (p.half s t op)
  /-- The new operator has found an edge to the target under its identifier. -/
  | alreadyConnected (hpred : s ∈ p.predecessors t) (hs : s ≠ p.nextId) (ht : t ≠ p.nextId)
      (hmem : t ∈ p.ids) (h : t ∈ p.successors p.nextId) :
      Halted p s t op (.alreadyConnected p.nextId t) (p.half s t op)

/-- What the splice looks up at the source holds of the only edge that leaves it, so that no step can
stop there. -/
theorem admits_or_halted (hmem : s ∈ p.ids) (hs : p.successors s = [t]) (op : Operator) :
    p.Admits s t ∨ ∃ e q, Halted p s t op e q := by
  by_cases hpred : s ∈ p.predecessors t
  swap; · exact .inr ⟨_, _, .unlisted hpred⟩
  by_cases hsource : s = p.nextId
  · exact .inr ⟨_, _, .sourceReplaced hpred hsource⟩
  by_cases htarget : t = p.nextId
  · exact .inr ⟨_, _, .targetReplaced hpred hsource htarget⟩
  by_cases htmem : t ∈ p.ids
  swap; · exact .inr ⟨_, _, .targetUnknown hpred hsource htarget htmem⟩
  by_cases hfound : t ∈ p.successors p.nextId
  · exact .inr ⟨_, _, .alreadyConnected hpred hsource htarget htmem hfound⟩
  refine .inl ⟨hmem, htmem, hs ▸ List.mem_singleton_self t, hpred, hsource, htarget, ?_, hfound⟩
  rw [hs, List.erase_cons_head]
  exact List.not_mem_nil

theorem Halted.not_admits (h : Halted p s t op e q) : ¬ p.Admits s t := by
  intro ha
  cases h with
  | unlisted h => exact h ha.mem_predecessors
  | sourceReplaced _ h => exact ha.source_ne h
  | targetReplaced _ _ h => exact ha.target_ne h
  | targetUnknown _ _ _ h => exact h ha.target_mem
  | alreadyConnected _ _ _ _ h => exact ha.target_notMem h

theorem Halted.nextId_eq (h : Halted p s t op e q) : q.nextId = p.nextId.next := by
  cases h <;> rfl

theorem Halted.get?_eq (h : Halted p s t op e q) (v : OpId) :
    q.get? v = if v = p.nextId then some op else p.get? v := by
  cases h <;> exact Plan.get?_add p op v

/-- Only the edge that leaves the source has been touched. -/
theorem Halted.successors_of_ne (h : Halted p s t op e q) {v : OpId} (hv : v ≠ s) :
    q.successors v = p.successors v := by
  have herased : (p.erased s t op).successors v = p.successors v := by
    rw [Plan.erased, Plan.successors_eraseEdge, if_neg hv, Plan.successors_add]
  have hhalf : (p.half s t op).successors v = p.successors v := by
    rw [Plan.half, Plan.successors_insertEdge, if_neg hv, herased]
  cases h with
  | unlisted => rfl
  | sourceReplaced => exact herased
  | _ => exact hhalf

theorem Halted.category_eq (h : Halted p s t op e q) : e.category = .plan := by
  cases h <;> rfl

theorem Halted.ne (h : Halted p s t op e q) : q ≠ p := by
  rintro rfl
  have hval : q.nextId.val = q.nextId.val + 1 := congrArg OpId.val h.nextId_eq
  exact absurd hval (by simp)

theorem Halted.perform_splice (hmem : s ∈ p.ids) (hs : p.successors s = [t])
    (h : Halted p s t op e q) : (splice s t op).perform p = (.error e, q) := by
  have hsucc : t ∈ p.successors s := hs ▸ List.mem_singleton_self t
  -- The edge was the only one, so nothing is in the way of the edge to the new operator.
  have herase : p.nextId ∉ (p.successors s).erase t := by
    rw [hs, List.erase_cons_head]
    exact List.not_mem_nil
  have hsource : s ∈ (p.add op).2.ids := Plan.mem_ids_add.mpr (.inr hmem)
  have hnew : p.nextId ∈ (p.add op).2.ids := Plan.mem_ids_add.mpr (.inl rfl)
  cases h with
  | unlisted h =>
    have hedge := Plan.disconnect_of_notMem_predecessors (p := (p.add op).2) h
    rw [splice, Edit.perform_bind_of_ok (Edit.perform_add op p),
      Edit.perform_bind_of_error (Edit.perform_disconnect_of_error hedge)]
  | sourceReplaced hpred h =>
    have hloop := Plan.connectAt_self (p := p.erased s t op) hsource (p.edgeOf s t).outSlot 0
    rw [perform_splice_eq_erased op hsucc hpred, ← h,
      Edit.perform_bind_of_error (Edit.perform_connectAt_of_error hloop)]
  | targetReplaced hpred hne h =>
    -- The target is the new operator, so it is the second of the new edges that is a loop.
    have hloop := Plan.connectAt_self (p := p.half s t op) hnew 0 (p.edgeOf s t).inSlot
    rw [perform_splice_eq_half op hmem hsucc hpred hne herase, ← h]
    rw [← h] at hloop
    rw [Edit.perform_bind_of_error (Edit.perform_connectAt_of_error hloop)]
  | targetUnknown hpred hne ht h =>
    have htarget : t ∉ (p.add op).2.ids := fun hmem ↦ (Plan.mem_ids_add.mp hmem).elim ht h
    have hunknown := Plan.connectAt_of_target_notMem_ids (p := p.half s t op) hnew htarget 0
      (p.edgeOf s t).inSlot
    rw [perform_splice_eq_half op hmem hsucc hpred hne herase,
      Edit.perform_bind_of_error (Edit.perform_connectAt_of_error hunknown)]
  | alreadyConnected hpred hne ht htmem h =>
    have htarget : t ∈ (p.add op).2.ids := Plan.mem_ids_add.mpr (.inr htmem)
    have hfound : t ∈ (p.half s t op).successors p.nextId := by
      rwa [Plan.successors_half hsucc, if_neg hne.symm]
    have htwice := Plan.connectAt_of_mem_successors (p := p.half s t op) hnew htarget ht.symm
      hfound 0 (p.edgeOf s t).inSlot
    rw [perform_splice_eq_half op hmem hsucc hpred hne herase,
      Edit.perform_bind_of_error (Edit.perform_connectAt_of_error htwice)]

/-! ## Applying -/

/-! The for-each that stays is the only new operator, and only the node has another successor. -/

section

variable {a : Preparation} {v : OpId}

theorem get?_wrapBelow (p : LogicalPlan) (n : OpId) (a : Preparation) (v : OpId) :
    (wrapBelow p n a).get? v = if v = n then some a.op.marked
      else if v = p.nextId then some (.forEach a.wrapper) else p.get? v := by
  rw [wrapBelow, Plan.get?_setOperator, Plan.get?_interpose]

/-- An operator that reads data is the node, marked, or it was there before. -/
theorem get?_of_wrapBelow (hop : op.kind.isIngest = true)
    (h : (wrapBelow p n a).get? v = some op) :
    (v = n ∧ op = a.op.marked) ∨ (v ≠ n ∧ v ≠ p.nextId ∧ p.get? v = some op) := by
  rw [get?_wrapBelow] at h
  by_cases hvn : v = n
  · rw [if_pos hvn] at h
    exact .inl ⟨hvn, (Option.some.inj h).symm⟩
  · rw [if_neg hvn] at h
    by_cases hnew : v = p.nextId
    · rw [if_pos hnew] at h
      cases h
      cases hop
    · rw [if_neg hnew] at h
      exact .inr ⟨hvn, hnew, h⟩

variable (hs : p.successors n = [a.next])
include hs

theorem successors_wrapBelow_self (hn : n ≠ p.nextId) :
    (wrapBelow p n a).successors n = [p.nextId] := by
  rw [wrapBelow, Plan.successors_setOperator, Plan.interpose, Plan.successors_insertEdge,
    if_neg hn, Plan.successors_half (hs ▸ List.mem_singleton_self a.next), if_pos rfl, hs,
    List.idxOf_cons_self, List.set_cons_zero]

theorem successors_wrapBelow_of_ne (hv : v ≠ n) (hnew : v ≠ p.nextId) :
    (wrapBelow p n a).successors v = p.successors v := by
  rw [wrapBelow, Plan.successors_setOperator, Plan.interpose, Plan.successors_insertEdge,
    if_neg hnew, Plan.successors_half (hs ▸ List.mem_singleton_self a.next), if_neg hv]

end

theorem Halted.perform_apply {a : Preparation} (hprep : r.prepare p n = .ok a)
    (h : Halted p n a.next (.forEach a.wrapper) e q) : (r.apply n).perform p = (.error e, q) := by
  obtain ⟨op, s, f⟩ := a
  obtain ⟨hget, -, hs, -⟩ := prepare_eq_ok_iff.mp hprep
  have hsplice := h.perform_splice (Plan.mem_ids_of_get? hget) hs
  rw [perform_apply_eq, hprep]
  exact Edit.perform_bind_of_error hsplice _

theorem admits_or_halted_of_prepare {a : Preparation} (hprep : r.prepare p n = .ok a) :
    p.Admits n a.next ∨ ∃ e q, Halted p n a.next (.forEach a.wrapper) e q := by
  obtain ⟨hget, -, hs, -⟩ := prepare_eq_ok_iff.mp hprep
  exact admits_or_halted (Plan.mem_ids_of_get? hget) hs _

/-- An application is refused and leaves the plan, or it stops half way, or it is carried out. -/
inductive Applied (r : CastRule) (p : LogicalPlan) (n : OpId) :
    Except Error (List OpId) × LogicalPlan → Prop
  | refused (e : Error) (h : r.prepare p n = .error e) : Applied r p n (.error e, p)
  | halted (a : Preparation) (h : r.prepare p n = .ok a) (e : Error) (q : LogicalPlan)
      (hhalt : Halted p n a.next (.forEach a.wrapper) e q) : Applied r p n (.error e, q)
  | done (a : Preparation) (h : r.prepare p n = .ok a) (ha : p.Admits n a.next) :
      Applied r p n (.ok [n, p.nextId, a.next], wrapBelow p n a)

theorem applied (r : CastRule) (p : LogicalPlan) (n : OpId) :
    Applied r p n ((r.apply n).perform p) := by
  cases hprep : r.prepare p n with
  | error e =>
    rw [perform_apply_of_prepare_eq_error hprep]
    exact .refused e hprep
  | ok a =>
    rcases admits_or_halted_of_prepare hprep with ha | ⟨e, q, hhalt⟩
    · rw [perform_apply_of_admits hprep ha]
      exact .done a hprep ha
    · rw [hhalt.perform_apply hprep]
      exact .halted a hprep e q hhalt

theorem meets_apply {P Q E : LogicalPlan → Prop}
    (hdone : ∀ p a, P p → r.prepare p n = .ok a → p.Admits n a.next → Q (wrapBelow p n a))
    (hrefused : ∀ p, P p → E p)
    (hhalted : ∀ p a e q, P p → r.prepare p n = .ok a →
      Halted p n a.next (.forEach a.wrapper) e q → E q) : (r.apply n).Meets P Q E := by
  intro p hp
  have happ := applied r p n
  generalize (r.apply n).perform p = res at happ
  cases happ with
  | refused e hprep => exact hrefused p hp
  | halted a hprep e q hhalt => exact hhalted p a e q hp hprep hhalt
  | done a hprep ha => exact hdone p a hp hprep ha

theorem perform_apply_eq_error_iff : (r.apply n).perform p = (.error e, q) ↔
    (r.prepare p n = .error e ∧ q = p) ∨
      ∃ a, r.prepare p n = .ok a ∧ Halted p n a.next (.forEach a.wrapper) e q := by
  constructor
  · intro h
    have happ := applied r p n
    rw [h] at happ
    cases happ with
    | refused _ hprep => exact .inl ⟨hprep, rfl⟩
    | halted a hprep _ _ hhalt => exact .inr ⟨a, hprep, hhalt⟩
  · rintro (⟨hprep, rfl⟩ | ⟨a, hprep, hhalt⟩)
    · exact perform_apply_of_prepare_eq_error hprep
    · exact hhalt.perform_apply hprep

theorem perform_apply_eq_ok_iff {touched : List OpId} :
    (r.apply n).perform p = (.ok touched, q) ↔
      ∃ a, r.prepare p n = .ok a ∧ p.Admits n a.next ∧ touched = [n, p.nextId, a.next] ∧
        q = wrapBelow p n a := by
  constructor
  · intro h
    have happ := applied r p n
    rw [h] at happ
    cases happ with
    | done a hprep ha => exact ⟨a, hprep, ha, rfl, rfl⟩
  · rintro ⟨a, hprep, ha, rfl, rfl⟩
    exact perform_apply_of_admits hprep ha

/-! ## All or nothing -/

/-- A failure leaves the plan as it was. -/
def AllOrNothing (r : CastRule) (p : LogicalPlan) (n : OpId) : Prop :=
  ∀ e, ((r.apply n).perform p).1 = .error e → ((r.apply n).perform p).2 = p

theorem allOrNothing_iff :
    AllOrNothing r p n ↔ ∀ a, r.prepare p n = .ok a → p.Admits n a.next := by
  constructor
  · intro h a hprep
    rcases admits_or_halted_of_prepare hprep with ha | ⟨e, q, hhalt⟩
    · exact ha
    · -- Whatever the step that failed, the counter has moved by then.
      have hperf := hhalt.perform_apply hprep
      have hkept := h e (congrArg Prod.fst hperf)
      rw [hperf] at hkept
      exact absurd hkept hhalt.ne
  · intro h e hfails
    rcases perform_apply_eq_error_iff.mp (Prod.ext hfails rfl) with ⟨-, hq⟩ | ⟨a, hprep, hhalt⟩
    · exact hq
    · exact absurd (h a hprep) hhalt.not_admits

theorem allOrNothing_of_wellFormed (hp : p.WellFormed) (r : CastRule) (n : OpId) :
    AllOrNothing r p n := by
  refine allOrNothing_iff.mpr fun a hprep ↦ ?_
  obtain ⟨-, -, hs, -⟩ := prepare_eq_ok_iff.mp hprep
  exact hp.admits (hs ▸ List.mem_singleton_self a.next)

/-- **When an application is all or nothing.** In any plan at all, a cast rule fails either because it
is refused, and then the plan is as before, or because a step of the splice is, and then the plan is
left with a for-each that is not between the operator and its successor. So an application is all or
nothing exactly if the plan admits the splice whenever the operator, its successor and the for-each
are found, which is the case in every well-formed plan. -/
theorem failure_apply (r : CastRule) (p : LogicalPlan) (n : OpId) :
    (∀ e q, (r.apply n).perform p = (.error e, q) ↔
      (r.prepare p n = .error e ∧ q = p) ∨
        ∃ a, r.prepare p n = .ok a ∧ Halted p n a.next (.forEach a.wrapper) e q) ∧
    (∀ touched q, (r.apply n).perform p = (.ok touched, q) ↔
      ∃ a, r.prepare p n = .ok a ∧ p.Admits n a.next ∧ touched = [n, p.nextId, a.next] ∧
        q = wrapBelow p n a) ∧
    (∀ e q, (r.apply n).perform p = (.error e, q) → q ≠ p →
      e.category = .plan ∧ q.nextId = p.nextId.next ∧
        ∃ op f, p.get? n = some op ∧ wrapper n op = .ok f ∧
          q.get? p.nextId = some (.forEach f)) ∧
    (AllOrNothing r p n ↔ ∀ op s f, p.get? n = some op → op.kind.isIngest = true →
      p.successors n = [s] → wrapper n op = .ok f → p.Admits n s) ∧
    (p.WellFormed → AllOrNothing r p n) := by
  refine ⟨fun e q ↦ perform_apply_eq_error_iff, fun touched q ↦ perform_apply_eq_ok_iff,
    fun e q hperf hne ↦ ?_, ?_, fun hp ↦ allOrNothing_of_wellFormed hp r n⟩
  · rcases perform_apply_eq_error_iff.mp hperf with ⟨-, hq⟩ | ⟨⟨op, s, f⟩, hprep, hhalt⟩
    · exact absurd hq hne
    · obtain ⟨hget, -, -, hf⟩ := prepare_eq_ok_iff.mp hprep
      have hnew := hhalt.get?_eq p.nextId
      rw [if_pos rfl] at hnew
      exact ⟨hhalt.category_eq, hhalt.nextId_eq, op, f, hget, hf, hnew⟩
  · rw [allOrNothing_iff]
    constructor
    · intro h op s f hget hop hs hf
      exact h ⟨op, s, f⟩ (prepare_eq_ok_iff.mpr ⟨hget, hop, hs, hf⟩)
    · rintro h ⟨op, s, f⟩ hprep
      obtain ⟨hget, hop, hs, hf⟩ := prepare_eq_ok_iff.mp hprep
      exact h op s f hget hop hs hf

/-- A load feeds a store, and the store does not know of it. -/
def oneSidedPlan : LogicalPlan where
  operators := .ofList
    [(⟨1⟩, .load ⟨some "raw", ⟨"in.tsv", ⟨"PigStorage", []⟩⟩, some ⟨[.named "id" .int]⟩, none,
      false⟩),
      (⟨2⟩, .store ⟨none, ⟨"out", ⟨"PigStorage", []⟩⟩⟩)]
  outgoing := .ofList [(⟨1⟩, [⟨2⟩])]
  incoming := .empty
  nextId := ⟨3⟩

/-- The plan is read from a text like any other. An application to its load fails, and the plan is left
with a for-each. -/
theorem halts_apply_oneSidedPlan :
    Json.decodeText LogicalPlan.ofJson (LogicalPlan.toJson oneSidedPlan).render
      = some oneSidedPlan ∧
    ((CastRule.all.apply ⟨1⟩).perform oneSidedPlan).1 = .error (.noEdge ⟨1⟩ ⟨2⟩) ∧
    ((CastRule.all.apply ⟨1⟩).perform oneSidedPlan).2.ids = [⟨1⟩, ⟨2⟩, ⟨3⟩] ∧
    ¬ AllOrNothing .all oneSidedPlan ⟨1⟩ := by
  have hids : ((CastRule.all.apply ⟨1⟩).perform oneSidedPlan).2.ids = [⟨1⟩, ⟨2⟩, ⟨3⟩] := by
    decide
  have hfails : ((CastRule.all.apply ⟨1⟩).perform oneSidedPlan).1 = .error (.noEdge ⟨1⟩ ⟨2⟩) := by
    decide
  refine ⟨LogicalPlan.isCodec.decodeText_render (by decide), hfails, hids, fun h ↦ ?_⟩
  rw [h _ hfails] at hids
  exact absurd hids (by decide)

end CastRule

end Dataflow
