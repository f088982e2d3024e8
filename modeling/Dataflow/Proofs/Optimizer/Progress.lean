import Dataflow.Proofs.CastRule.Apply

/-!
# Progress of cast rules

`Progress p done q` describes the plan `q` that is left when cast rules have been applied, starting
from `p`, to the operators `done` in this order. It gives every lookup in `q` from `p` and `done`
alone, and that is what makes rewriting plans that were already rewritten tractable: the `k`-th
for-each has the identifier `k` steps after the next one of `p`, it stands where its operator stood in
the list of its only reader, and the operators still to come are as they were in `p`.

`Progress.step` is the only place where one plan is compared with the next.
-/

namespace Dataflow

namespace OpId

/-- The identifier `k` steps later in the order of allocation. -/
def plus (i : OpId) (k : Nat) : OpId :=
  ⟨i.val + UInt64.ofNat k⟩

/-- The counter has not started over. -/
theorem toNat_plus {i : OpId} {k : Nat} (h : i.toNat + k < UInt64.size) :
    (i.plus k).toNat = i.toNat + k := by
  have hk : k < UInt64.size := Nat.lt_of_le_of_lt (Nat.le_add_left _ _) h
  simp only [plus, toNat, UInt64.toNat_add, UInt64.toNat_ofNat'] at *
  rw [Nat.mod_eq_of_lt hk]
  exact Nat.mod_eq_of_lt h

end OpId

namespace CastRule

variable {p q q' : LogicalPlan} {done : List OpId} {n s v w : OpId} {op : Operator} {f : ForEach}

/-! ## Standing in for an operator -/

/-- What stands in for an operator in the inputs of its reader: the for-each below it, if it has been
given one, and the operator itself otherwise. -/
def standIn (p : LogicalPlan) (done : List OpId) (u : OpId) : OpId :=
  if u ∈ done then p.nextId.plus (done.idxOf u) else u

theorem standIn_of_notMem (h : v ∉ done) : standIn p done v = v :=
  if_neg h

theorem standIn_append_self (h : n ∉ done) :
    standIn p (done ++ [n]) n = p.nextId.plus done.length := by
  rw [standIn, if_pos (by simp), List.idxOf_append_of_notMem h, List.idxOf_cons_self,
    Nat.add_zero]

theorem standIn_append_of_ne (h : v ≠ n) : standIn p (done ++ [n]) v = standIn p done v := by
  by_cases hv : v ∈ done
  · rw [standIn, standIn, if_pos hv, if_pos (by simp [hv]), List.idxOf_append_of_mem hv]
  · rw [standIn_of_notMem hv, standIn_of_notMem (by simp [hv, h])]

/-- Replacing the only occurrence of an entry is replacing it wherever it occurs. -/
theorem set_idxOf_eq_map {l : List OpId} (hl : l.Nodup) {x y : OpId} (hx : x ∈ l) :
    l.set (l.idxOf x) y = l.map fun u ↦ if u = x then y else u := by
  induction l with
  | nil => exact absurd hx List.not_mem_nil
  | cons a l ih =>
    rw [List.nodup_cons] at hl
    by_cases hax : a = x
    · subst hax
      have hrest : l.map (fun u ↦ if u = a then y else u) = l := by
        refine (List.map_congr_left fun u hu ↦ ?_).trans (List.map_id l)
        exact if_neg fun h : u = a ↦ hl.1 (h ▸ hu)
      rw [List.idxOf_cons_self, List.set_cons_zero, List.map_cons, if_pos rfl, hrest]
    · have hmem : x ∈ l := (List.mem_cons.mp hx).resolve_left (Ne.symm hax)
      rw [List.idxOf_cons_ne _ hax, List.set_cons_succ, ih hl.2 hmem, List.map_cons, if_neg hax]

/-! ## The invariant -/

/-- `q` is `p` after cast rules were applied to the operators `done`, in this order. -/
structure Progress (p : LogicalPlan) (done : List OpId) (q : LogicalPlan) : Prop where
  wellFormed : q.WellFormed
  nodup : done.Nodup
  nextId_eq : q.nextId.toNat = p.nextId.toNat + done.length
  /-- The operators of `p` are kept, and those that are done are marked. -/
  get?_old : ∀ v op, p.get? v = some op → q.get? v = some (if v ∈ done then op.marked else op)
  /-- The for-each below an operator that is done. -/
  wrapped : ∀ v ∈ done, ∃ op s f, p.get? v = some op ∧ op.kind.isIngest = true ∧
    p.successors v = [s] ∧ wrapper v op = .ok f ∧ q.get? (standIn p done v) = some (.forEach f) ∧
    q.predecessors (standIn p done v) = [v] ∧ q.successors (standIn p done v) = [s]
  /-- There are no further operators. -/
  old_or_wrapper : ∀ w ∈ q.ids, w ∈ p.ids ∨ ∃ v ∈ done, w = standIn p done v
  successors_old : ∀ v ∈ p.ids,
    q.successors v = if v ∈ done then [standIn p done v] else p.successors v
  predecessors_old : ∀ v ∈ p.ids, q.predecessors v = (p.predecessors v).map (standIn p done)

theorem Progress.refl (hp : p.WellFormed) : Progress p [] p where
  wellFormed := hp
  nodup := List.nodup_nil
  nextId_eq := rfl
  get?_old _ _ h := h
  wrapped := nofun
  old_or_wrapper _ h := .inl h
  successors_old _ _ := rfl
  predecessors_old _ _ := (List.map_id _).symm

namespace Progress

variable (h : Progress p done q)
include h

theorem mem_ids_of_mem_done (hv : v ∈ done) : v ∈ p.ids := by
  obtain ⟨op, -, -, hget, -⟩ := h.wrapped v hv
  exact Plan.mem_ids_of_get? hget

theorem nextId_eq_plus : q.nextId = p.nextId.plus done.length := by
  have hlt := q.nextId.toNat_lt
  rw [h.nextId_eq] at hlt
  rw [← OpId.toNat_inj, h.nextId_eq, OpId.toNat_plus hlt]

theorem toNat_standIn (hv : v ∈ done) :
    (standIn p done v).toNat = p.nextId.toNat + done.idxOf v := by
  have hlt := q.nextId.toNat_lt
  have hidx := List.idxOf_lt_length_of_mem hv
  rw [h.nextId_eq] at hlt
  rw [standIn, if_pos hv, OpId.toNat_plus (by omega)]

/-- What stands in for an operator comes after all operators of `p`. -/
theorem standIn_notMem_ids (hp : p.WellFormed) (hv : v ∈ done) : standIn p done v ∉ p.ids := by
  intro hmem
  have hlt := OpId.lt_iff.mp (hp.lt_nextId _ hmem)
  rw [h.toNat_standIn hv] at hlt
  omega

theorem standIn_ne_nextId (hv : v ∈ done) : standIn p done v ≠ q.nextId := by
  intro heq
  have htn := congrArg OpId.toNat heq
  have hidx := List.idxOf_lt_length_of_mem hv
  rw [h.toNat_standIn hv, h.nextId_eq] at htn
  omega

theorem nextId_notMem_ids (hp : p.WellFormed) : q.nextId ∉ p.ids := by
  intro hmem
  have hlt := OpId.lt_iff.mp (hp.lt_nextId _ hmem)
  rw [h.nextId_eq] at hlt
  omega

theorem standIn_inj {u : OpId} (hu : u ∈ done) (hv : v ∈ done)
    (heq : standIn p done u = standIn p done v) : u = v := by
  have htn := congrArg OpId.toNat heq
  rw [h.toNat_standIn hu, h.toNat_standIn hv] at htn
  exact (List.idxOf_inj hu).mp (Nat.add_left_cancel htn)

/-- What stands in for operators has the identifiers that were given out. -/
theorem exists_standIn_eq_iff : (∃ v ∈ done, standIn p done v = w) ↔
    p.nextId.toNat ≤ w.toNat ∧ w.toNat < p.nextId.toNat + done.length := by
  constructor
  · rintro ⟨v, hv, rfl⟩
    have hidx := List.idxOf_lt_length_of_mem hv
    rw [h.toNat_standIn hv]
    omega
  · rintro ⟨hle, hlt⟩
    have hk : w.toNat - p.nextId.toNat < done.length := by omega
    have hmem : done[w.toNat - p.nextId.toNat] ∈ done := List.getElem_mem hk
    refine ⟨_, hmem, ?_⟩
    rw [← OpId.toNat_inj, h.toNat_standIn hmem, h.nodup.idxOf_getElem]
    omega

/-- Every identifier is that of an operator of `p`, or stands in for one, or is not in use. -/
theorem mem_or_standIn_or_notMem (w : OpId) :
    w ∈ p.ids ∨ (∃ v ∈ done, w = standIn p done v) ∨ w ∉ q.ids := by
  by_cases hw : w ∈ q.ids
  · exact (h.old_or_wrapper w hw).imp_right .inl
  · exact .inr (.inr hw)

theorem mem_ids_of_mem_ids (hv : v ∈ p.ids) : v ∈ q.ids := by
  obtain ⟨op, hop⟩ := Plan.mem_ids_iff.mp hv
  exact Plan.mem_ids_of_get? (h.get?_old v op hop)

theorem standIn_mem_ids (hv : v ∈ done) : standIn p done v ∈ q.ids := by
  obtain ⟨-, -, f, -, -, -, -, hget, -⟩ := h.wrapped v hv
  exact Plan.mem_ids_of_get? hget

theorem get?_of_notMem_done (hv : v ∈ p.ids) (hnew : v ∉ done) : q.get? v = p.get? v := by
  obtain ⟨op, hop⟩ := Plan.mem_ids_iff.mp hv
  rw [h.get?_old v op hop, if_neg hnew, hop]

theorem successors_of_notMem_done (hv : v ∈ p.ids) (hnew : v ∉ done) :
    q.successors v = p.successors v := by
  rw [h.successors_old v hv, if_neg hnew]

/-! ## One more application -/

theorem ne_nextId (hp : p.WellFormed) (hv : v ∈ p.ids) : v ≠ q.nextId := by
  rintro rfl
  exact h.nextId_notMem_ids hp hv

theorem standIn_append_eq_nextId (hnew : n ∉ done) : standIn p (done ++ [n]) n = q.nextId := by
  rw [standIn_append_self hnew, h.nextId_eq_plus]

theorem standIn_ne (hp : p.WellFormed) (hn : n ∈ p.ids) (hne : v ≠ n) : standIn p done v ≠ n := by
  by_cases hv : v ∈ done
  · rintro rfl
    exact h.standIn_notMem_ids hp hv hn
  · rwa [standIn_of_notMem hv]

/-- The new for-each takes the place of the node among the inputs of its only reader, and no other
operator has the node as an input. -/
theorem predecessors_of_wrappedBelow (hp : p.WellFormed) (hn : n ∈ p.ids)
    (hs : p.successors n = [s]) (hnew : n ∉ done) (hwb : WrappedBelow q n s op f q')
    (hv : v ∈ p.ids) :
    q'.predecessors v = (p.predecessors v).map (standIn p (done ++ [n])) := by
  by_cases hvs : v = s
  · subst hvs
    have hnpred : n ∈ q.predecessors v := by
      rw [← h.wellFormed.mirrored, h.successors_of_notMem_done hn hnew, hs]
      exact List.mem_singleton_self v
    rw [hwb.predecessors_next, set_idxOf_eq_map (h.wellFormed.nodup_predecessors v) hnpred,
      h.predecessors_old v hv, List.map_map]
    refine List.map_congr_left fun u _ ↦ ?_
    by_cases hun : u = n
    · subst hun
      simp [standIn_of_notMem hnew, h.standIn_append_eq_nextId hnew]
    · simp [h.standIn_ne hp hn hun, standIn_append_of_ne hun]
  · rw [hwb.predecessors_other v hvs (h.ne_nextId hp hv), h.predecessors_old v hv]
    refine List.map_congr_left fun u hu ↦ ?_
    have hun : u ≠ n := by
      rintro rfl
      have hvmem := (hp.mirrored u v).mpr hu
      rw [hs, List.mem_singleton] at hvmem
      exact hvs hvmem
    rw [standIn_append_of_ne hun]

/-- The invariant is kept by an application to an operator of `p` that is not done. -/
theorem step (hp : p.WellFormed) (hget : p.get? n = some op) (hop : op.kind.isIngest = true)
    (hs : p.successors n = [s]) (hw : wrapper n op = .ok f) (hnew : n ∉ done)
    (hwb : WrappedBelow q n s op f q') (hq' : q'.WellFormed)
    (hroom : q.nextId.toNat + 1 < UInt64.size) : Progress p (done ++ [n]) q' := by
  have hn : n ∈ p.ids := Plan.mem_ids_of_get? hget
  have hmem : s ∈ p.successors n := hs ▸ List.mem_singleton_self s
  have hsp : s ∈ p.ids := hp.mem_ids_of_mem_successors n s hmem
  have hstand := h.standIn_append_eq_nextId hnew
  -- Every lookup is at the node, at its reader, at the new for-each or at what the application left
  -- alone. The new for-each is not among the operators of `p`.
  constructor
  case wellFormed => exact hq'
  case nodup => exact List.nodup_append.mpr ⟨h.nodup, List.nodup_singleton n, by grind⟩
  case nextId_eq =>
    rw [hwb.nextId_eq, OpId.toNat_next hroom, h.nextId_eq, List.length_append,
      List.length_singleton, Nat.add_assoc]
  case get?_old =>
    intro v op' hv
    by_cases hvn : v = n
    · subst hvn
      rw [hget] at hv
      cases hv
      rw [hwb.get?_node, if_pos (by simp)]
    · rw [hwb.get?_other v hvn (h.ne_nextId hp (Plan.mem_ids_of_get? hv)), h.get?_old v op' hv]
      simp [hvn]
  case wrapped =>
    intro v hv
    by_cases hvn : v = n
    · subst hvn
      rw [hstand]
      exact ⟨op, s, f, hget, hop, hs, hw, hwb.get?_wrapper, hwb.predecessors_wrapper,
        hwb.successors_wrapper⟩
    · have hvd : v ∈ done := by simpa [hvn] using hv
      obtain ⟨op', s', f', hget', hop', hs', hw', hgetw, hpredw, hsuccw⟩ := h.wrapped v hvd
      have hold := h.standIn_notMem_ids hp hvd
      have hne := h.standIn_ne_nextId hvd
      have hnen := h.standIn_ne hp hn hvn
      have hnes : standIn p done v ≠ s := fun he ↦ hold (he ▸ hsp)
      rw [standIn_append_of_ne hvn, hwb.get?_other _ hnen hne, hwb.predecessors_other _ hnes hne,
        hwb.successors_other _ hnen hne]
      exact ⟨op', s', f', hget', hop', hs', hw', hgetw, hpredw, hsuccw⟩
  case old_or_wrapper =>
    intro w hwmem
    by_cases hwn : w = n
    · exact .inl (hwn ▸ hn)
    · by_cases hww : w = q.nextId
      · exact .inr ⟨n, by simp, by rw [hww, hstand]⟩
      · obtain ⟨op', hop'⟩ := Plan.mem_ids_iff.mp hwmem
        rw [hwb.get?_other w hwn hww] at hop'
        rcases h.old_or_wrapper w (Plan.mem_ids_of_get? hop') with hold | ⟨v, hv, rfl⟩
        · exact .inl hold
        · have hvn : v ≠ n := fun he ↦ hnew (he ▸ hv)
          exact .inr ⟨v, by simp [hv], (standIn_append_of_ne hvn).symm⟩
  case successors_old =>
    intro v hv
    by_cases hvn : v = n
    · subst hvn
      rw [hwb.successors_node, if_pos (by simp), hstand]
    · rw [hwb.successors_other v hvn (h.ne_nextId hp hv), h.successors_old v hv,
        standIn_append_of_ne hvn]
      simp [hvn]
  case predecessors_old =>
    exact fun v hv ↦ h.predecessors_of_wrappedBelow hp hn hs hnew hwb hv

end Progress

end CastRule

end Dataflow
