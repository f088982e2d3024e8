import Dataflow.Proofs.CastRule.Columns
import Dataflow.Proofs.CastRule.Halted
import Dataflow.Proofs.Optimizer.Outcome

/-!
# What is decided and what is cast

A cast rule decides with one test whether it applies to an operator, and with another one which fields
it casts. Where no schema was determined the tests agree, and where one was determined they are
opposite on every field with a meaning: the rule applies because of the fields that it then leaves
uncast (`Decision`).

What this means for a run holds in every plan, whether or not it is well-formed. A run that succeeds
leaves no operator that an enabled rule applies to, because a visit of the operator would have marked
it. And a run, however it ends, leaves every operator that it has marked with the for-each that was
made for it: no identifier is given out twice, even if the counter starts over, since an operator is
marked only once and there are no more operators than identifiers (`Trail`).
-/

namespace Dataflow

/-- The output column at position `i` is a cast. -/
def Generate.CastsAt (g : Generate) (i : Nat) : Prop :=
  ∃ c, g.outputs[i]? = some c ∧ c.root.isCast = true

namespace CastRule

variable {r : CastRule} {rules : List CastRule} {settings : Settings} {p q q' : LogicalPlan}
  {n v w : OpId} {op : Operator} {s : Schema} {f : ForEach} {i : Nat} {field : Field}

/-! ## One application -/

/-- The determined schema has, at position `i`, a field of the same shape as the declared one. -/
def Confirms (d : Schema) (i : Nat) (field : Field) : Prop :=
  ∃ e, d.fields[i]? = some e ∧ field.sameShape e = true

/-- The generation does not cast the column at position `i`, which has a meaning. -/
def LeavesBare (s : Schema) (g : Generate) (i : Nat) : Prop :=
  ∃ field, s.fields[i]? = some field ∧ field.type ≠ .bytearray ∧ ¬ g.CastsAt i

/-- The generation `g` is made for the operator `op`, which is declared as `s`, by a rule of which
`applies` says whether it applies. -/
structure Decision (applies : Bool) (op : Operator) (s : Schema) (g : Generate) : Prop where
  length_outputs : g.outputs.length = s.size
  castsAt_iff_of_none : op.determined = none → ∀ i field, s.fields[i]? = some field →
    (g.CastsAt i ↔ field.type ≠ .bytearray)
  applies_iff_of_none : op.determined = none → (applies = true ↔ ∃ i, g.CastsAt i)
  leavesBare_iff : ∀ d, op.determined = some d → ∀ i field, s.fields[i]? = some field →
    (LeavesBare s g i ↔ field.type ≠ .bytearray ∧ ¬ Confirms d i field)
  applies_iff_of_some : ∀ d, op.determined = some d → (applies = true ↔ ∃ i, LeavesBare s g i)
  /-- Uninterpreted payloads are not cast in either case. -/
  type_ne_of_castsAt : ∀ i field, s.fields[i]? = some field → g.CastsAt i → field.type ≠ .bytearray

theorem isCastAt_iff_of_none (h : op.determined = none) :
    IsCastAt op field i ↔ field.type ≠ .bytearray :=
  ⟨fun hc ↦ hc.type_ne, fun ht ↦ ⟨ht, by simp [h]⟩⟩

theorem isCastAt_iff_of_some {d : Schema} (h : op.determined = some d) :
    IsCastAt op field i ↔ field.type ≠ .bytearray ∧ Confirms d i field := by
  refine ⟨fun hc ↦ ⟨hc.type_ne, hc.sameShape d h⟩, fun hc ↦ ⟨hc.1, fun d' hd' ↦ ?_⟩⟩
  cases h.symm.trans hd'
  exact hc.2

theorem needsWork_none : needsWork field none i = true ↔ field.type ≠ .bytearray := by
  simp [needsWork, DataType.isOpaque]

theorem needsWork_some {d : Schema} :
    needsWork field (some d) i = true ↔ field.type ≠ .bytearray ∧ ¬ Confirms d i field := by
  have hopaque : (!field.type.isOpaque) = true ↔ field.type ≠ .bytearray := by
    simp [DataType.isOpaque]
  have hconfirmed : (!isConfirmed field d i) = true ↔ ¬ Confirms d i field := by
    rw [Bool.not_eq_true', Bool.eq_false_iff, ne_eq, isConfirmed_iff]
    rfl
  rw [needsWork, Bool.and_eq_true, hopaque, hconfirmed]

theorem isCast_column (c : Option FunctionSpec) (b : Bool) :
    (column c i field b).root.isCast = b := by
  cases b <;> rfl

/-- A wrapper casts the columns that are to be cast. -/
theorem exists_generation_of_wrapper (h : wrapper n op = .ok f) :
    ∃ s g, op.declared = some s ∧ f.generation? = some g ∧ g.outputs.length = s.size ∧
      ∀ i, g.CastsAt i ↔ ∃ field, s.fields[i]? = some field ∧ IsCastAt op field i := by
  obtain ⟨s, c, hdecl, -, -, hgen⟩ := generation?_of_wrapper_eq_ok h
  refine ⟨s, _, hdecl, hgen, length_columns s op.determined c, fun i ↦ ?_⟩
  rw [Generate.CastsAt, columns, List.getElem?_mapIdx]
  cases s.fields[i]? with
  | none => simp
  | some field => simp [isCast_column, needsCast_iff]

theorem decision_of_wrapper (hdecl : op.declared = some s) (hnew : op.isCastInserted = false)
    (h : wrapper n op = .ok f) : ∃ g, f.generation? = some g ∧ Decision (wants op) op s g := by
  obtain ⟨s', g, hdecl', hgen, hlen, hcasts⟩ := exists_generation_of_wrapper h
  obtain rfl : s = s' := Option.some.inj (hdecl.symm.trans hdecl')
  have hcastsAt : ∀ i field, s.fields[i]? = some field → (g.CastsAt i ↔ IsCastAt op field i) := by
    intro i field hfield
    rw [hcasts, hfield]
    simp
  have hwants : wants op = true ↔
      ∃ i field, s.fields[i]? = some field ∧ needsWork field op.determined i = true := by
    rw [wants_iff, hdecl]
    simp [hnew]
  have hbare : ∀ d, op.determined = some d → ∀ i field, s.fields[i]? = some field →
      (LeavesBare s g i ↔ field.type ≠ .bytearray ∧ ¬ Confirms d i field) := by
    intro d hd i field hfield
    have hcast := (hcastsAt i field hfield).trans (isCastAt_iff_of_some hd)
    constructor
    · rintro ⟨field', hfield', htype, hnot⟩
      cases hfield.symm.trans hfield'
      exact ⟨htype, fun hc ↦ hnot (hcast.mpr ⟨htype, hc⟩)⟩
    · exact fun ⟨htype, hc⟩ ↦ ⟨field, hfield, htype, fun hg ↦ hc (hcast.mp hg).2⟩
  refine ⟨g, hgen, hlen, fun hnone i field hfield ↦ ?_, fun hnone ↦ ?_, hbare, fun d hd ↦ ?_,
    fun i field hfield hg ↦ ((hcastsAt i field hfield).mp hg).type_ne⟩
  · rw [hcastsAt i field hfield, isCastAt_iff_of_none hnone]
  · rw [hwants]
    simp only [hcasts, hnone, needsWork_none, isCastAt_iff_of_none hnone]
  · -- On each field the two tests are opposite.
    rw [hwants, hd]
    refine exists_congr fun i ↦ ⟨fun ⟨field, hfield, hwork⟩ ↦ ?_, fun hleft ↦ ?_⟩
    · exact (hbare d hd i field hfield).mpr (needsWork_some.mp hwork)
    · obtain ⟨field, hfield, -⟩ := id hleft
      exact ⟨field, hfield, needsWork_some.mpr ((hbare d hd i field hfield).mp hleft)⟩

/-! ## What a run leaves to do -/

theorem applies_eq_true_iff : r.applies p v = true ↔
    ∃ op, p.get? v = some op ∧ r.targets op.kind = true ∧ wants op = true := by
  rw [applies]
  cases p.get? v <;> simp

theorem isCastInserted_of_wants (h : wants op = true) : op.isCastInserted = false := by
  obtain ⟨-, -, hnew, -⟩ := wants_iff.mp h
  exact hnew

theorem isIngest_of_wants (h : wants op = true) : op.kind.isIngest = true := by
  obtain ⟨s, hdecl, -⟩ := wants_iff.mp h
  exact isIngest_of_declared hdecl

theorem ne_of_notMem_candidates (htarget : r.targets op.kind = true)
    (h : v ∉ r.pattern.candidates q) : q.get? v ≠ some op := fun hget ↦
  h (IdTable.mem_map_fst_filter_iff.mpr
    ⟨op, hget, (matchesOperator_pattern r op).trans htarget⟩)

section

variable (hwants : wants op = true)
include hwants

/-- What a visit writes is marked or a for-each, so it does not write an operator that is due. -/
theorem meets_visit_ne (r : CastRule) (n v : OpId) :
    (r.toRule.visit n).Meets (fun q ↦ q.get? v ≠ some op) (fun q ↦ q.get? v ≠ some op)
      fun _ ↦ True := by
  refine Rule.meets_visit (fun _ h _ ↦ h) (meets_apply (fun q a hq hprep _ hget ↦ ?_)
    (fun _ _ ↦ trivial) fun _ _ _ _ _ _ _ ↦ trivial)
  obtain ⟨-, hop, -⟩ := prepare_eq_ok_iff.mp hprep
  rcases get?_of_wrapBelow (isIngest_of_wants hwants) hget with ⟨-, rfl⟩ | ⟨-, -, hold⟩
  · have hmarked := Operator.isCastInserted_marked hop
    rw [isCastInserted_of_wants hwants] at hmarked
    cases hmarked
  · exact hq.1 hold

/-- The visit of an operator that is due marks it. -/
theorem brings_visit_ne (htarget : r.targets op.kind = true) (v : OpId) :
    (r.toRule.visit v).Brings fun q ↦ q.get? v ≠ some op := by
  refine Rule.meets_visit (fun q _ happ hget ↦ ?_) (meets_apply (fun q a _ hprep _ hget ↦ ?_)
    (fun _ _ ↦ trivial) fun _ _ _ _ _ _ _ ↦ trivial)
  · have hdue : r.applies q v = true := applies_eq_true_iff.mpr ⟨op, hget, htarget, hwants⟩
    exact absurd hdue (Bool.eq_false_iff.mp happ)
  · obtain ⟨-, hop, -⟩ := prepare_eq_ok_iff.mp hprep
    have hmarked := Operator.isCastInserted_marked hop
    rw [get?_wrapBelow, if_pos rfl, Option.some.injEq] at hget
    rw [hget, isCastInserted_of_wants hwants] at hmarked
    cases hmarked

end

/-- A run that succeeds leaves nothing that an enabled rule applies to, if it makes a pass at all. -/
theorem applies_eq_false_of_optimize {done : Summary} (hm : 1 ≤ settings.maxIterations.toNat)
    (h : ((optimizer rules settings).optimize p).1 = .ok done) (hr : r ∈ enabled rules settings)
    (v : OpId) : r.applies ((optimizer rules settings).optimize p).2 v = false := by
  rw [Bool.eq_false_iff, ne_eq, applies_eq_true_iff]
  rintro ⟨op, hget, htarget, hwants⟩
  -- For this operator, that it is not at `v` is an invariant, and the visit of `v` brings it about.
  have hkeep : ∀ r' ∈ (enabled rules settings).map toRule, ∀ n,
      (r'.visit n).Meets (fun q ↦ q.get? v ≠ some op) (fun q ↦ q.get? v ≠ some op)
        fun _ ↦ True := by
    intro r' hr' n
    obtain ⟨r', -, rfl⟩ := List.mem_map.mp hr'
    exact meets_visit_ne hwants r' n v
  have hgone := Rule.brings_iterate hkeep (List.mem_map_of_mem hr)
    (brings_visit_ne hwants htarget v) (fun q ↦ ne_of_notMem_candidates htarget) hm p trivial
  rw [← optimize_eq_perform_iterate] at hgone
  generalize (optimizer rules settings).optimize p = res at h hget hgone
  obtain ⟨_ | _, q⟩ := res
  · cases h
  · exact hgone hget

/-! ## What a run leaves behind

Nothing is assumed of the plan here, so the counter may start over and a new operator may take the
place of an old one. The for-each operators that the run has made do not suffer from this. -/

/-- In `q`, the operator `op` at `v` is marked, and its only successor is the for-each made for it. -/
def Rewritten (q : LogicalPlan) (v w : OpId) (op : Operator) : Prop :=
  ∃ f, wants op = true ∧ wrapper v op = .ok f ∧ q.get? v = some op.marked ∧
    q.successors v = [w] ∧ q.get? w = some (.forEach f)

/-- What reads data in `q` is as it was in `p`, or it has been rewritten since. -/
def Traced (p q : LogicalPlan) : Prop :=
  ∀ v op, q.get? v = some op → op.kind.isIngest = true →
    p.get? v = some op ∨ ∃ op₀ w, p.get? v = some op₀ ∧ Rewritten q v w op₀

/-- `q` is left of `p` by applications to the operators `done`, in this order. -/
structure Trail (p : LogicalPlan) (done : List OpId) (q : LogicalPlan) : Prop where
  nextId_eq : q.nextId = p.nextId.plus done.length
  nodup : done.Nodup
  origin : ∀ v op, q.get? v = some op → op.kind.isIngest = true →
    (v ∉ done ∧ p.get? v = some op) ∨
      v ∈ done ∧ ∃ op₀, p.get? v = some op₀ ∧ Rewritten q v (standIn p done v) op₀

theorem plus_next (i : OpId) (k : Nat) : (i.plus k).next = i.plus (k + 1) := by
  rw [OpId.plus, OpId.plus, OpId.next, UInt64.ofNat_add, UInt64.add_assoc]
  rfl

theorem plus_inj {i : OpId} {j k : Nat} (hj : j < UInt64.size) (hk : k < UInt64.size)
    (h : i.plus j = i.plus k) : j = k := by
  have hval : UInt64.ofNat j = UInt64.ofNat k := by
    simpa [OpId.plus] using h
  have hnat := congrArg UInt64.toNat hval
  rwa [UInt64.toNat_ofNat_of_lt' hj, UInt64.toNat_ofNat_of_lt' hk] at hnat

/-- There are no more identifiers than words. -/
theorem length_le_of_nodup {l : List OpId} (h : l.Nodup) : l.length ≤ UInt64.size := by
  have hinj : Function.Injective OpId.toNat := fun _ _ ↦ OpId.toNat_inj.mp
  have hsub : l.map OpId.toNat ⊆ List.range UInt64.size := by
    intro k hk
    obtain ⟨v, -, rfl⟩ := List.mem_map.mp hk
    exact List.mem_range.mpr v.toNat_lt
  have hle := ((h.map hinj).subperm hsub).length_le
  rwa [List.length_map, List.length_range] at hle

theorem Rewritten.of_eq {w : OpId} (h : Rewritten q v w op) (hget : q'.get? v = q.get? v)
    (hsucc : q'.successors v = q.successors v) (hw : q'.get? w = q.get? w) :
    Rewritten q' v w op := by
  obtain ⟨f, hwants, hf, hv, hs, hfor⟩ := h
  exact ⟨f, hwants, hf, hget.trans hv, hsucc.trans hs, hw.trans hfor⟩

theorem Trail.refl (p : LogicalPlan) : Trail p [] p where
  nextId_eq := by simp [OpId.plus]
  nodup := List.nodup_nil
  origin _ _ hget _ := .inl ⟨List.not_mem_nil, hget⟩

namespace Trail

variable {done : List OpId}

theorem traced (h : Trail p done q) : Traced p q := by
  intro v op hget hop
  rcases h.origin v op hget hop with ⟨-, hold⟩ | ⟨-, op₀, hop₀, hr⟩
  · exact .inl hold
  · exact .inr ⟨op₀, _, hop₀, hr⟩

variable (h : Trail p done q) (happ : r.applies q n = true)
include h happ

/-- What a rule applies to is not done, and is as it was. -/
theorem due : n ∉ done ∧ ∃ op, q.get? n = some op ∧ p.get? n = some op ∧ wants op = true := by
  obtain ⟨op, hget, -, hwants⟩ := applies_eq_true_iff.mp happ
  rcases h.origin n op hget (isIngest_of_wants hwants) with
    ⟨hnew, hold⟩ | ⟨-, op₀, -, f, hwants₀, -, hmarked, -⟩
  · exact ⟨hnew, op, hget, hold, hwants⟩
  · obtain rfl : op = op₀.marked := Option.some.inj (hget.symm.trans hmarked)
    have hins := Operator.isCastInserted_marked (isIngest_of_wants hwants₀)
    rw [isCastInserted_of_wants hwants] at hins
    cases hins

theorem nodup_append : (done ++ [n]).Nodup := by
  obtain ⟨hnew, -⟩ := h.due happ
  refine List.nodup_append.mpr ⟨h.nodup, List.nodup_singleton n, ?_⟩
  rintro v hv _ hn rfl
  exact hnew (List.mem_singleton.mp hn ▸ hv)

/-- The next identifier has not been given out yet. With the operator that is due there are more
operators than identifiers that were given out. -/
theorem standIn_ne_nextId (hv : v ∈ done) : standIn p done v ≠ q.nextId := by
  have hroom := length_le_of_nodup (h.nodup_append happ)
  have hidx := List.idxOf_lt_length_of_mem hv
  rw [List.length_append, List.length_singleton] at hroom
  rw [standIn, if_pos hv, h.nextId_eq]
  -- Both were counted from the same start, and not far enough to meet again.
  intro heq
  exact absurd (plus_inj (by omega) (by omega) heq) (Nat.ne_of_lt hidx)

/-- The for-each of an operator that is done is not the operator that is due. -/
theorem standIn_ne {op₀ : Operator} (hr : Rewritten q v (standIn p done v) op₀) :
    standIn p done v ≠ n := by
  rintro heq
  obtain ⟨-, op, hget, -, hwants⟩ := h.due happ
  obtain ⟨f, -, -, -, -, hfor⟩ := hr
  rw [heq, hget] at hfor
  cases hfor
  cases isIngest_of_wants hwants

theorem step {a : Preparation} (hprep : r.prepare q n = .ok a) (ha : q.Admits n a.next) :
    Trail p (done ++ [n]) (wrapBelow q n a) := by
  obtain ⟨hnew, op, hget, hold, hwants⟩ := h.due happ
  obtain ⟨hget', -, hs, hf⟩ := prepare_eq_ok_iff.mp hprep
  obtain rfl : op = a.op := Option.some.inj (hget.symm.trans hget')
  refine ⟨?_, h.nodup_append happ, fun v op hop hingest ↦ ?_⟩
  · rw [List.length_append, List.length_singleton, ← plus_next, ← h.nextId_eq]
    rfl
  rcases get?_of_wrapBelow hingest hop with ⟨rfl, -⟩ | ⟨hvn, hvnew, hvget⟩
  · -- The node itself.
    have hstand : standIn p (done ++ [v]) v = q.nextId := by
      rw [standIn_append_self hnew, h.nextId_eq]
    refine .inr ⟨by simp, a.op, hold, a.wrapper, hwants, hf, ?_, ?_, ?_⟩
    · rw [get?_wrapBelow, if_pos rfl]
    · rw [hstand, successors_wrapBelow_self hs ha.source_ne]
    · rw [hstand, get?_wrapBelow, if_neg ha.source_ne.symm, if_pos rfl]
  · rcases h.origin v op hvget hingest with ⟨hvd, hvold⟩ | ⟨hvd, op₀, hop₀, hr⟩
    · exact .inl ⟨by simp [hvd, hvn], hvold⟩
    · refine .inr ⟨by simp [hvd], op₀, hop₀, ?_⟩
      rw [standIn_append_of_ne hvn]
      refine hr.of_eq (hop.trans hvget.symm) (successors_wrapBelow_of_ne hs hvn hvnew) ?_
      rw [get?_wrapBelow, if_neg (h.standIn_ne happ hr),
        if_neg (h.standIn_ne_nextId happ hvd)]

/-- An application that stops half way does not disturb those before it. -/
theorem halted {a : Preparation} {e : Error}
    (hhalt : Halted q n a.next (.forEach a.wrapper) e q') : Traced p q' := by
  obtain ⟨hnew, -⟩ := h.due happ
  intro v op hop hingest
  have hvget : q.get? v = some op := by
    rw [hhalt.get?_eq] at hop
    split at hop
    · cases hop
      cases hingest
    · exact hop
  rcases h.origin v op hvget hingest with ⟨-, hvold⟩ | ⟨hvd, op₀, hop₀, hr⟩
  · exact .inl hvold
  · have hvn : v ≠ n := fun heq ↦ hnew (heq ▸ hvd)
    refine .inr ⟨op₀, _, hop₀, hr.of_eq (hop.trans hvget.symm) (hhalt.successors_of_ne hvn) ?_⟩
    rw [hhalt.get?_eq, if_neg (h.standIn_ne_nextId happ hvd)]

end Trail

theorem meets_visit_trail (p : LogicalPlan) (r : CastRule) (n : OpId) :
    (r.toRule.visit n).Meets (fun q ↦ ∃ done, Trail p done q) (fun q ↦ ∃ done, Trail p done q)
      (Traced p) := by
  refine Rule.meets_visit (fun _ h _ ↦ h) (meets_apply ?_ ?_ ?_)
  · rintro q a ⟨⟨done, h⟩, happ⟩ hprep ha
    exact ⟨done ++ [n], h.step happ hprep ha⟩
  · rintro q ⟨⟨done, h⟩, -⟩
    exact h.traced
  · rintro q a e q' ⟨⟨done, h⟩, happ⟩ - hhalt
    exact h.halted happ hhalt

/-- However a run ends, what it has rewritten is as it has left it. -/
theorem traced_optimize (rules : List CastRule) (settings : Settings) (p : LogicalPlan) :
    Traced p ((optimizer rules settings).optimize p).2 := by
  have hvisit : ∀ r' ∈ (enabled rules settings).map toRule, ∀ n, (r'.visit n).Meets
      (fun q ↦ ∃ done, Trail p done q) (fun q ↦ ∃ done, Trail p done q) (Traced p) := by
    intro r' hr' n
    obtain ⟨r', -, rfl⟩ := List.mem_map.mp hr'
    exact meets_visit_trail p r' n
  have hrun := Rule.meets_iterate hvisit settings.maxIterations.toNat p ⟨[], .refl p⟩
  rw [← optimize_eq_perform_iterate] at hrun
  generalize (optimizer rules settings).optimize p = res at hrun
  obtain ⟨_ | _, q⟩ := res
  · exact hrun
  · obtain ⟨done, h⟩ := hrun
    exact h.traced

/-! ## Decisions in applications and runs -/

theorem applies_eq_wants (hget : p.get? n = some op) (htarget : r.targets op.kind = true) :
    r.applies p n = wants op := by
  rw [applies, hget]
  exact (congrArg (· && wants op) htarget).trans (Bool.true_and _)

/-- **Two tests, opposite where a schema was determined.** Where a cast rule applies to an operator
without a determined schema, it casts something, and it casts exactly the fields with a meaning. Where
it applies to one with a determined schema, it leaves a field with a meaning uncast, and these fields
are exactly those that the determined schema does not confirm.

So whatever loads with a determined schema a run rewrites, each of them ends with an uncast field with
a meaning; and whatever loads of that kind a run passes over, if it succeeds and makes a pass, have all
these fields confirmed. The plan may be any plan. -/
theorem decisions_and_casts :
    (∀ (r : CastRule) (p : LogicalPlan) (n : OpId) (op : Operator) (s : Schema)
      (touched : List OpId), p.get? n = some op → r.targets op.kind = true →
      op.isCastInserted = false → op.declared = some s →
      ((r.apply n).perform p).1 = .ok touched →
      ∃ f g, ((r.apply n).perform p).2.get? p.nextId = some (.forEach f) ∧
        f.generation? = some g ∧ Decision (r.applies p n) op s g) ∧
    (∀ (rules : List CastRule) (settings : Settings) (p q : LogicalPlan) (n : OpId)
      (op : Operator) (d : Schema), q = ((optimizer rules settings).optimize p).2 →
      q.get? n = some op → op.determined = some d → op.isCastInserted = true →
      (∀ old, p.get? n = some old → old.isCastInserted = false) →
      ∃ s w f g, op.declared = some s ∧ q.successors n = [w] ∧ q.get? w = some (.forEach f) ∧
        f.generation? = some g ∧ ∃ i, LeavesBare s g i) ∧
    ∀ (rules : List CastRule) (settings : Settings) (p q : LogicalPlan) (done : Summary)
      (r : CastRule) (n : OpId) (op : Operator) (s d : Schema),
      1 ≤ settings.maxIterations.toNat → (optimizer rules settings).optimize p = (.ok done, q) →
      r ∈ enabled rules settings → q.get? n = some op → r.targets op.kind = true →
      op.isCastInserted = false → op.declared = some s → op.determined = some d →
      ∀ i field, s.fields[i]? = some field → field.type ≠ .bytearray → Confirms d i field := by
  refine ⟨?_, ?_, ?_⟩
  · intro r p n op s touched hget htarget hnew hdecl hok
    obtain ⟨a, hprep, ha, -, hq⟩ := perform_apply_eq_ok_iff.mp (Prod.ext hok rfl)
    obtain ⟨hget', -, -, hf⟩ := prepare_eq_ok_iff.mp hprep
    obtain rfl : op = a.op := Option.some.inj (hget.symm.trans hget')
    obtain ⟨g, hgen, hdecision⟩ := decision_of_wrapper hdecl hnew hf
    refine ⟨a.wrapper, g, (congrArg (Plan.get? · p.nextId) hq).trans ?_, hgen,
      applies_eq_wants hget htarget ▸ hdecision⟩
    rw [get?_wrapBelow, if_neg ha.source_ne.symm, if_pos rfl]
  · rintro rules settings p q n op d rfl hget hdet hins hold
    have hop := Operator.isIngest_of_isCastInserted hins
    rcases traced_optimize rules settings p n op hget hop with hsame | ⟨op₀, w, -, f, hwants, hf,
      hmarked, hsucc, hfor⟩
    · rw [hold op hsame] at hins
      cases hins
    · obtain rfl : op = op₀.marked := Option.some.inj (hget.symm.trans hmarked)
      obtain ⟨s, hdecl, hnew, -⟩ := wants_iff.mp hwants
      obtain ⟨g, hgen, hdecision⟩ := decision_of_wrapper hdecl hnew hf
      rw [Operator.determined_marked] at hdet
      exact ⟨s, w, f, g, (Operator.declared_marked op₀).trans hdecl, hsucc, hfor, hgen,
        (hdecision.applies_iff_of_some d hdet).mp hwants⟩
  · intro rules settings p q done r n op s d hm hrun hr hget htarget hnew hdecl hdet i field
      hfield htype
    have happ := applies_eq_false_of_optimize hm (congrArg Prod.fst hrun) hr n
    rw [hrun, applies_eq_wants hget htarget] at happ
    by_contra hnot
    have hwants : wants op = true :=
      wants_iff.mpr ⟨s, hdecl, hnew, i, field, hfield, by
        rw [hdet]
        exact needsWork_some.mpr ⟨htype, hnot⟩⟩
    rw [happ] at hwants
    cases hwants

/-- A load whose loader has confirmed its only column. -/
def confirmedPlan : LogicalPlan :=
  (Plan.empty.add (.load ⟨none, ⟨"in", ⟨"PigStorage", []⟩⟩, some ⟨[.named "a" .int]⟩,
    some ⟨[.anonymous .int]⟩, false⟩)).2

/-- In the first plan the last column of the load is what makes the rule apply, and it is left. In the
second one there is nothing to do. -/
theorem decisions_and_casts_determinedPlan :
    (∃ op s f g, ((forLoad.apply ⟨1⟩).perform determinedPlan).2.get? ⟨3⟩ = some (.forEach f) ∧
      f.generation? = some g ∧ Decision true op s g ∧ LeavesBare s g 2) ∧
    (∃ op s w f g i, ((optimizer defaults .default).optimize determinedPlan).2.get? ⟨1⟩ = some op ∧
      op.isCastInserted = true ∧ op.declared = some s ∧
      ((optimizer defaults .default).optimize determinedPlan).2.successors ⟨1⟩ = [w] ∧
      ((optimizer defaults .default).optimize determinedPlan).2.get? w = some (.forEach f) ∧
      f.generation? = some g ∧ LeavesBare s g i) ∧
    Confirms ⟨[.anonymous .int]⟩ 0 (.named "a" .int) := by
  obtain ⟨happly, hrewritten, hpassed⟩ := decisions_and_casts
  refine ⟨?_, ?_, ?_⟩
  · obtain ⟨f, g, hfor, hgen, hdecision⟩ := happly forLoad determinedPlan ⟨1⟩ _ _
      [⟨1⟩, ⟨3⟩, ⟨2⟩] rfl (by decide) (by decide) rfl (by decide)
    have happ : forLoad.applies determinedPlan ⟨1⟩ = true := by decide
    rw [happ] at hdecision
    refine ⟨_, _, f, g, hfor, hgen, hdecision, (hdecision.leavesBare_iff _ rfl 2 _ rfl).mpr ?_⟩
    refine ⟨by decide, ?_⟩
    rintro ⟨e, he, hshape⟩
    cases he
    cases hshape
  · obtain ⟨s, w, f, g, hdecl, hsucc, hfor, hgen, i, hleft⟩ := hrewritten defaults .default
      determinedPlan _ ⟨1⟩ (.load ⟨some "A", ⟨"in", ⟨"PigStorage", [","]⟩⟩,
        some ⟨[.named "a" .int, .named "b" .bytearray, .named "c" .chararray]⟩,
        some ⟨[.named "x" .int, .named "y" .bytearray, .named "z" .long]⟩, true⟩) _ rfl
      (by decide +kernel) rfl rfl (by rintro old ⟨⟩; rfl)
    exact ⟨_, s, w, f, g, i, by decide +kernel, rfl, hdecl, hsucc, hfor, hgen, hleft⟩
  · exact hpassed defaults .default confirmedPlan confirmedPlan ⟨1, [], true⟩ forLoad ⟨1⟩ _ _ _
      (by decide) (by decide +kernel) (by decide) rfl (by decide) rfl rfl rfl 0 _ rfl (by decide)

end CastRule

end Dataflow
