import Dataflow.Optimizer
import Dataflow.Proofs.Plan.Interpose

/-!
# Making edits

An edit hands on the plan whether it succeeds or fails, so what it does is the pair that
`Edit.perform` gives. The equations here say what each step of an edit makes of a plan; with them the
proofs about rules never look into the monad.
-/

namespace Dataflow

namespace Edit

variable {β γ : Type}

@[simp] theorem perform_pure (b : β) (p : LogicalPlan) :
    (pure b : Edit β).perform p = (.ok b, p) := rfl

@[simp] theorem perform_get (p : LogicalPlan) : (get : Edit LogicalPlan).perform p = (.ok p, p) :=
  rfl

theorem perform_bind (e : Edit β) (f : β → Edit γ) (p : LogicalPlan) :
    (e >>= f).perform p = match e.perform p with
      | (.ok b, q) => (f b).perform q
      | (.error err, q) => (.error err, q) := by
  change (ExceptT.bindCont f (e.perform p).1).run (e.perform p).2 = _
  rcases e.perform p with ⟨_ | _, _⟩ <;> rfl

/-- After a step that succeeds the rest is made of the plan that the step leaves. -/
theorem perform_bind_of_ok {e : Edit β} {p q : LogicalPlan} {b : β}
    (h : e.perform p = (.ok b, q)) (f : β → Edit γ) :
    (e >>= f).perform p = (f b).perform q := by
  rw [perform_bind, h]

/-- A step that fails is the last one. -/
theorem perform_bind_of_error {e : Edit β} {p q : LogicalPlan} {err : Error}
    (h : e.perform p = (.error err, q)) (f : β → Edit γ) :
    (e >>= f).perform p = (.error err, q) := by
  rw [perform_bind, h]

/-- Where an edit succeeds, each of its steps has succeeded. -/
theorem perform_bind_eq_ok_iff {e : Edit β} {f : β → Edit γ} {p q : LogicalPlan} {c : γ} :
    (e >>= f).perform p = (.ok c, q) ↔
      ∃ b p', e.perform p = (.ok b, p') ∧ (f b).perform p' = (.ok c, q) := by
  rw [perform_bind]
  rcases e.perform p with ⟨_ | b, p'⟩
  · simp
  · exact ⟨fun h ↦ ⟨b, p', rfl, h⟩, by rintro ⟨_, _, ⟨⟩, h⟩; exact h⟩

theorem perform_query (f : LogicalPlan → Except Error β) (p : LogicalPlan) :
    (query f).perform p = (f p, p) := by
  rw [query, perform_bind_of_ok (perform_get p)]
  cases f p <;> rfl

theorem perform_update_of_ok {f : LogicalPlan → Except Error (β × LogicalPlan)}
    {p q : LogicalPlan} {b : β} (h : f p = .ok (b, q)) : (update f).perform p = (.ok b, q) := by
  rw [update, perform_bind_of_ok (perform_get p), h]
  rfl

theorem perform_update_of_error {f : LogicalPlan → Except Error (β × LogicalPlan)}
    {p : LogicalPlan} {err : Error} (h : f p = .error err) :
    (update f).perform p = (.error err, p) := by
  rw [update, perform_bind_of_ok (perform_get p), h]
  rfl

/-! ## Primitive edits -/

theorem perform_add (op : Operator) (p : LogicalPlan) :
    (add op).perform p = (.ok p.nextId, (p.add op).2) :=
  perform_update_of_ok rfl

theorem perform_connectAt {p : LogicalPlan} {s t : OpId} {i j : Nat} (h : p.Connectable s i t j) :
    (connectAt s i t j).perform p = (.ok (), p.insertEdge s i t j) := by
  refine perform_update_of_ok ?_
  rw [Plan.connectAt_eq_ok_iff.mpr ⟨h, rfl⟩]
  rfl

theorem perform_disconnect {p : LogicalPlan} {s t : OpId} (ht : t ∈ p.successors s)
    (hs : s ∈ p.predecessors t) :
    (disconnect s t).perform p = (.ok (p.edgeOf s t), p.eraseEdge s t) :=
  perform_update_of_ok (Plan.disconnect_eq_ok_iff.mpr ⟨ht, hs, rfl, rfl⟩)

theorem perform_markCastInserted {p : LogicalPlan} {id : OpId} {op op' : Operator}
    (h : p.get? id = some op) (hop : op.markCastInserted = .ok op') :
    (markCastInserted id).perform p = (.ok (), p.setOperator id op') := by
  refine perform_update_of_ok ?_
  rw [Plan.modify_eq_ok_iff.mpr ⟨op, op', h, hop, rfl⟩]
  rfl

end Edit

/-! ## What edits lead to

A run of rules is made of applications. What each of them keeps, the whole run keeps, and what an
application brings about, it brings about if the others keep it. -/

namespace Edit

variable {β γ : Type} {P P' Q R E I : LogicalPlan → Prop}

/-- From a plan with `P`, the edit leads to a plan with `Q` if it succeeds and to one with `E` if it
fails. -/
def Meets (P Q E : LogicalPlan → Prop) (e : Edit β) : Prop :=
  ∀ p, P p → match e.perform p with
    | (.ok _, q) => Q q
    | (.error _, q) => E q

theorem meets_pure (b : β) : (pure b : Edit β).Meets P P E := fun _ h ↦ h

theorem Meets.bind {e : Edit β} {f : β → Edit γ} (he : e.Meets P Q E)
    (hf : ∀ b, (f b).Meets Q R E) : (e >>= f).Meets P R E := by
  intro p hp
  have hq := he p hp
  rw [perform_bind]
  rcases hperf : e.perform p with ⟨err | b, q⟩
  · rwa [hperf] at hq
  · rw [hperf] at hq
    exact hf b q hq

/-- A step that computes from the plan leaves the plan for the rest. -/
theorem meets_get_bind {f : LogicalPlan → Edit β} (h : ∀ p, P p → (f p).Meets (· = p) Q E) :
    ((get : Edit LogicalPlan) >>= f).Meets P Q E := by
  intro p hp
  rw [perform_bind_of_ok (perform_get p)]
  exact h p hp p rfl

theorem Meets.mono {e : Edit β} (h : e.Meets P Q E) (hP : ∀ p, P' p → P p) : e.Meets P' Q E :=
  fun p hp ↦ h p (hP p hp)

/-- Where the edit succeeds, it leads to a plan with `I`. -/
def Brings (I : LogicalPlan → Prop) (e : Edit β) : Prop :=
  e.Meets (fun _ ↦ True) I fun _ ↦ True

theorem brings_bind {e : Edit β} {f : β → Edit γ} (hf : ∀ b, (f b).Brings I) :
    (e >>= f).Brings I := by
  refine Meets.bind (Q := fun _ ↦ True) (fun p _ ↦ ?_) hf
  rcases e.perform p with ⟨_ | _, q⟩ <;> exact trivial

/-- The edit keeps a property of plans, also when it fails. -/
def Keeps (I : LogicalPlan → Prop) (e : Edit β) : Prop :=
  ∀ p, I p → I (e.perform p).2

theorem keeps_iff_meets {e : Edit β} : e.Keeps I ↔ e.Meets I I I := by
  refine forall₂_congr fun p _ ↦ ?_
  rcases e.perform p with ⟨_ | _, q⟩ <;> rfl

theorem keeps_pure (b : β) : (pure b : Edit β).Keeps I := fun _ h ↦ h

theorem keeps_throw (err : Error) : (throw err : Edit β).Keeps I := fun _ h ↦ h

theorem keeps_get : (get : Edit LogicalPlan).Keeps I := fun _ h ↦ h

theorem Keeps.bind {e : Edit β} {f : β → Edit γ} (he : e.Keeps I) (hf : ∀ b, (f b).Keeps I) :
    (e >>= f).Keeps I :=
  keeps_iff_meets.mpr ((keeps_iff_meets.mp he).bind fun b ↦ keeps_iff_meets.mp (hf b))

theorem keeps_query (f : LogicalPlan → Except Error β) : (query f).Keeps I := by
  intro p hp
  rwa [perform_query]

theorem keeps_update {f : LogicalPlan → Except Error (β × LogicalPlan)}
    (hf : ∀ p b q, f p = .ok (b, q) → I p → I q) : (update f).Keeps I := by
  intro p hp
  cases hfp : f p with
  | error err => rwa [perform_update_of_error hfp]
  | ok bq =>
    obtain ⟨b, q⟩ := bq
    rw [perform_update_of_ok hfp]
    exact hf p b q hfp hp

theorem keeps_add {op : Operator} (h : ∀ p, I p → I (p.add op).2) : (add op).Keeps I := by
  refine keeps_update fun p w q hq hp ↦ ?_
  cases hq
  exact h p hp

theorem keeps_disconnect {s t : OpId}
    (h : ∀ p, t ∈ p.successors s → I p → I (p.eraseEdge s t)) : (disconnect s t).Keeps I := by
  refine keeps_update fun p e q hq hp ↦ ?_
  obtain ⟨ht, -, -, rfl⟩ := Plan.disconnect_eq_ok_iff.mp hq
  exact h p ht hp

/-- An edit that replaces the plan and gives nothing else. -/
theorem keeps_update_map {f : LogicalPlan → Except Error LogicalPlan}
    (hf : ∀ p q, f p = .ok q → I p → I q) : (update fun p ↦ ((), ·) <$> f p).Keeps I := by
  refine keeps_update fun p u q hq hp ↦ ?_
  cases hfp : f p with
  | error e =>
    rw [hfp] at hq
    cases hq
  | ok q' =>
    rw [hfp] at hq
    cases hq
    exact hf p q hfp hp

theorem keeps_connectAt {s t : OpId} {i j : Nat}
    (h : ∀ p, p.Connectable s i t j → I p → I (p.insertEdge s i t j)) :
    (connectAt s i t j).Keeps I := by
  refine keeps_update_map fun p q hq hp ↦ ?_
  obtain ⟨hc, rfl⟩ := Plan.connectAt_eq_ok_iff.mp hq
  exact h p hc hp

theorem keeps_markCastInserted {n : OpId}
    (h : ∀ p op op', p.get? n = some op → op.markCastInserted = .ok op' → I p →
      I (p.setOperator n op')) : (markCastInserted n).Keeps I := by
  refine keeps_update_map fun p q hq hp ↦ ?_
  obtain ⟨op, op', hget, hop, rfl⟩ := Plan.modify_eq_ok_iff.mp hq
  exact h p op op' hget hop hp

end Edit

namespace Rule

open Edit

variable {P Q E I : LogicalPlan → Prop} {r : Rule} {rs : List Rule} {n : OpId} {ns : List OpId}

theorem meets_visit (hskip : ∀ p, P p → r.applies p n = false → Q p)
    (happly : (r.apply n).Meets (fun p ↦ P p ∧ r.applies p n = true) Q E) :
    (r.visit n).Meets P Q E := by
  refine meets_get_bind fun p hp ↦ ?_
  cases happ : r.applies p n with
  | true =>
    refine (happly.mono ?_).bind fun _ ↦ meets_pure _
    rintro _ rfl
    exact ⟨hp, happ⟩
  | false =>
    refine (meets_pure _).mono ?_
    rintro _ rfl
    exact hskip _ hp happ

/-! ### Invariants -/

theorem meets_visitAll (h : ∀ n, (r.visit n).Meets I I E) (ns : List OpId) :
    (r.visitAll ns).Meets I I E := by
  induction ns with
  | nil => exact meets_pure _
  | cons n ns ih => exact (h n).bind fun _ ↦ ih.bind fun _ ↦ meets_pure _

theorem meets_run (h : ∀ n, (r.visit n).Meets I I E) : r.run.Meets I I E :=
  meets_get_bind fun _ hp ↦ (meets_visitAll h _).mono fun _ hq ↦ hq ▸ hp

theorem meets_runAll (h : ∀ r ∈ rs, ∀ n, (r.visit n).Meets I I E) : (runAll rs).Meets I I E := by
  induction rs with
  | nil => exact meets_pure _
  | cons r rs ih =>
    exact (meets_run (h r List.mem_cons_self)).bind fun _ ↦
      (ih fun r' hr' ↦ h r' (List.mem_cons_of_mem r hr')).bind fun _ ↦ meets_pure _

theorem meets_iterate (h : ∀ r ∈ rs, ∀ n, (r.visit n).Meets I I E) (m : Nat) :
    (iterate rs m).Meets I I E := by
  induction m with
  | zero => exact meets_pure _
  | succ m ih =>
    refine (meets_runAll h).bind fun done ↦ ?_
    cases done.isEmpty with
    | true => exact meets_pure _
    | false => exact ih.bind fun _ ↦ meets_pure _

theorem keeps_iterate (h : ∀ r ∈ rs, ∀ n, (r.apply n).Keeps I) (m : Nat) :
    (iterate rs m).Keeps I :=
  keeps_iff_meets.mpr <| meets_iterate (fun r hr n ↦ meets_visit (fun _ hp _ ↦ hp)
    ((keeps_iff_meets.mp (h r hr n)).mono fun _ hp ↦ hp.1)) m

/-! ### What a visit brings about

If all visits keep a property and those of one rule to one operator bring it about, then a run that
succeeds brings it about. The rule need not look at the operator in plans that have the property. -/

section

variable (hkeep : ∀ n, (r.visit n).Meets I I fun _ ↦ True) (hn : (r.visit n).Brings I)
include hkeep hn

theorem brings_visitAll (hmem : n ∈ ns) : (r.visitAll ns).Brings I := by
  induction ns with
  | nil => exact absurd hmem List.not_mem_nil
  | cons n' ns ih =>
    rcases List.mem_cons.mp hmem with rfl | hmem
    · exact hn.bind fun _ ↦ (meets_visitAll hkeep ns).bind fun _ ↦ meets_pure _
    · exact brings_bind fun _ ↦ (ih hmem).bind fun _ ↦ meets_pure _

theorem brings_run (hcand : ∀ p, n ∉ r.pattern.candidates p → I p) : r.run.Brings I := by
  -- The candidates are those of the plan at the start, and whatever is none has the property already.
  refine meets_get_bind fun p _ ↦ ?_
  by_cases hmem : n ∈ r.pattern.candidates p
  · exact (brings_visitAll hkeep hn hmem).mono fun _ _ ↦ trivial
  · refine (meets_visitAll hkeep _).mono ?_
    rintro _ rfl
    exact hcand _ hmem

end

section

variable (hkeep : ∀ r ∈ rs, ∀ n, (r.visit n).Meets I I fun _ ↦ True) (hr : r ∈ rs)
  (hn : (r.visit n).Brings I) (hcand : ∀ p, n ∉ r.pattern.candidates p → I p)
include hkeep hr hn hcand

theorem brings_runAll : (runAll rs).Brings I := by
  induction rs with
  | nil => exact absurd hr List.not_mem_nil
  | cons r' rs ih =>
    have hrest : ∀ r ∈ rs, ∀ n, (r.visit n).Meets I I fun _ ↦ True := fun r hr ↦
      hkeep r (List.mem_cons_of_mem r' hr)
    rcases List.mem_cons.mp hr with rfl | hr
    · exact (brings_run (hkeep r hr) hn hcand).bind fun _ ↦
        (meets_runAll hrest).bind fun _ ↦ meets_pure _
    · exact brings_bind fun _ ↦ (ih hrest hr).bind fun _ ↦ meets_pure _

theorem brings_iterate {m : Nat} (hm : 1 ≤ m) : (iterate rs m).Brings I := by
  obtain ⟨m, rfl⟩ := Nat.exists_eq_add_of_le' hm
  refine (brings_runAll hkeep hr hn hcand).bind fun done ↦ ?_
  cases done.isEmpty with
  | true => exact meets_pure _
  | false => exact (meets_iterate hkeep m).bind fun _ ↦ meets_pure _

end

end Rule

/-! ## Splicing -/

namespace CastRule

variable {p : LogicalPlan} {s t : OpId} (op : Operator)

/-- The splice once the edge is gone. -/
theorem perform_splice_eq_erased (hsucc : t ∈ p.successors s) (hpred : s ∈ p.predecessors t) :
    (splice s t op).perform p = (do
      Edit.connectAt s (p.edgeOf s t).outSlot p.nextId 0
      Edit.connectAt p.nextId 0 t (p.edgeOf s t).inSlot
      return p.nextId : Edit OpId).perform (p.erased s t op) := by
  rw [splice, Edit.perform_bind_of_ok (Edit.perform_add op p),
    Edit.perform_bind_of_ok (Edit.perform_disconnect (p := (p.add op).2) hsucc hpred)]
  rfl

/-- The splice once the new operator has its input. -/
theorem perform_splice_eq_half (hmem : s ∈ p.ids) (hsucc : t ∈ p.successors s)
    (hpred : s ∈ p.predecessors t) (hne : s ≠ p.nextId)
    (hnew : p.nextId ∉ (p.successors s).erase t) :
    (splice s t op).perform p = (do
      Edit.connectAt p.nextId 0 t (p.edgeOf s t).inSlot
      return p.nextId : Edit OpId).perform (p.half s t op) := by
  have hfirst := Edit.perform_connectAt (Plan.connectable_erased op hmem hsucc hne hnew)
  rw [perform_splice_eq_erased op hsucc hpred, Edit.perform_bind_of_ok hfirst]
  rfl

/-- Nothing stops the splice half way in a plan that admits it. -/
theorem perform_splice (h : p.Admits s t) :
    (splice s t op).perform p = (.ok p.nextId, p.interpose s t op) := by
  rw [perform_splice_eq_half op h.source_mem h.mem_successors h.mem_predecessors h.source_ne
    h.nextId_notMem, Edit.perform_bind_of_ok (Edit.perform_connectAt h.connectable_half)]
  rfl

end CastRule

end Dataflow
