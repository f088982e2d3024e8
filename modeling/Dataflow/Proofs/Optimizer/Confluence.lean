import Dataflow.Proofs.Optimizer.Outcome
import Mathlib.Data.Prod.Basic
import Mathlib.Logic.Equiv.Defs

/-!
# The order of cast rules

Cast rules that are meant for the same kinds of operators do the same, in whatever order they are
given, whatever they are called and however often one of them is repeated. Only the identifiers of
the for-each operators differ, because these are given out in the order of the applications.

## The argument

A plan in progress is known from the plan before and from the operators that are done, and of these
the order counts only in `standIn`: the for-each below an operator has the identifier of the place
at which the operator was done. So when the same operators are done in two orders, exchanging what
stands in for them (`exchange`) leads from one plan to the other. That rules for the same kinds are
due for the same operators, and that a refusal does not depend on the rule, is all there is to add.
-/

namespace Dataflow

/-! ## Renamed plans -/

namespace Plan

variable {α : Type} {p q : Plan α} {σ : Equiv.Perm OpId}

/-- `q` is `p` with its identifiers renamed: each operator has the content that it had, and it has
lists of neighbours if it had them before, with the neighbours renamed in their places. As tables
are determined by their lookups, there is only one such plan for a given `p`. -/
structure Renaming (σ : Equiv.Perm OpId) (p q : Plan α) : Prop where
  operators : ∀ v, q.operators.get? (σ v) = p.operators.get? v
  outgoing : ∀ v, q.outgoing.get? (σ v) = (p.outgoing.get? v).map (List.map σ)
  incoming : ∀ v, q.incoming.get? (σ v) = (p.incoming.get? v).map (List.map σ)
  nextId_eq : q.nextId = p.nextId

/-- A table of lists is known from its keys and from the lists that it stands for. -/
theorem get?_eq_ite_mem_keys (t : IdTable (List OpId)) (v : OpId) :
    t.get? v = if v ∈ t.keys then some ((t.get? v).getD []) else none := by
  by_cases hv : v ∈ t.keys
  · rw [if_pos hv]
    obtain ⟨l, hl⟩ := Option.isSome_iff_exists.mp (IdTable.mem_keys_iff.mp hv)
    rw [hl, Option.getD_some]
  · rw [if_neg hv]
    exact Option.not_isSome_iff_eq_none.mp (mt IdTable.mem_keys_iff.mpr hv)

theorem get?_eq_map_of_keys {t t' : IdTable (List OpId)} {v : OpId}
    (hkeys : σ v ∈ t'.keys ↔ v ∈ t.keys)
    (hlist : (t'.get? (σ v)).getD [] = ((t.get? v).getD []).map σ) :
    t'.get? (σ v) = (t.get? v).map (List.map σ) := by
  rw [get?_eq_ite_mem_keys t', get?_eq_ite_mem_keys t, hlist]
  by_cases hv : v ∈ t.keys
  · rw [if_pos hv, if_pos (hkeys.mpr hv), Option.map_some]
  · rw [if_neg hv, if_neg (mt hkeys.mp hv), Option.map_none]

theorem Renaming.successors_eq (h : Renaming σ p q) (v : OpId) :
    q.successors (σ v) = (p.successors v).map σ := by
  rw [successors, successors, h.outgoing]
  cases p.outgoing.get? v <;> rfl

/-- `q` has more operators than `p`, and all of these have lists of neighbours; for the others it
keeps a list if and only if `p` does. -/
structure ListsFrom (p q : Plan α) : Prop where
  outgoing : ∀ v, v ∈ q.outgoing.keys ↔ v ∈ p.outgoing.keys ∨ (v ∈ q.ids ∧ v ∉ p.ids)
  incoming : ∀ v, v ∈ q.incoming.keys ↔ v ∈ p.incoming.keys ∨ (v ∈ q.ids ∧ v ∉ p.ids)

theorem ListsFrom.refl (p : Plan α) : ListsFrom p p where
  outgoing v := by simp
  incoming v := by simp

end Plan

namespace CastRule

variable {p q q' : LogicalPlan} {done done' : List OpId} {n s v w : OpId} {op : Operator}
  {f : ForEach}

/-! ## Lists of neighbours in plans in progress -/

theorem listsFrom_wrapBelow (hp : p.WellFormed) (h : Progress p done q) (hl : Plan.ListsFrom p q)
    (hs : q.successors n = [s]) : Plan.ListsFrom p (wrapBelow q n ⟨op, s, f⟩) := by
  have hmem : s ∈ q.successors n := hs ▸ List.mem_singleton_self s
  have hn : n ∈ (q.interpose n s (.forEach f)).ids :=
    Plan.mem_ids_interpose.mpr (.inr (h.wellFormed.mem_ids_of_successor hmem))
  have hids : ∀ v, v ∈ (wrapBelow q n ⟨op, s, f⟩).ids ↔ v = q.nextId ∨ v ∈ q.ids := fun v ↦
    (Plan.mem_ids_setOperator hn).trans Plan.mem_ids_interpose
  have hnew : ∀ v, v = q.nextId → v ∉ p.ids := by
    rintro v rfl
    exact h.nextId_notMem_ids hp
  constructor
  · intro v
    have hkeys : v ∈ (wrapBelow q n ⟨op, s, f⟩).outgoing.keys ↔
        v = q.nextId ∨ v ∈ q.outgoing.keys :=
      Plan.mem_outgoing_keys_interpose hmem
    rw [hkeys, hl.outgoing, hids]
    have := hnew v
    tauto
  · intro v
    have hkeys : v ∈ (wrapBelow q n ⟨op, s, f⟩).incoming.keys ↔
        v = q.nextId ∨ v ∈ q.incoming.keys :=
      Plan.mem_incoming_keys_interpose h.wellFormed hmem
    rw [hkeys, hl.incoming, hids]
    have := hnew v
    tauto

theorem listsFrom_castAll (hp : p.WellFormed) (x : List (CastRule × OpId)) :
    ∀ {done : List OpId} {q q' : LogicalPlan} {applications : List Application},
      Progress p done q → Pending p done x → Plan.ListsFrom p q →
      (castAll x).perform q = (.ok applications, q') → Plan.ListsFrom p q' := by
  induction x with
  | nil =>
    intro done q q' applications _ _ hl hcast
    cases hcast
    exact hl
  | cons y x ih =>
    obtain ⟨r, n⟩ := y
    intro done q q' applications h hpend hl hcast
    have hroom := hpend.room
    rw [List.length_cons] at hroom
    obtain ⟨touched, q₁, happly, hcast⟩ := Edit.perform_bind_eq_ok_iff.mp hcast
    obtain ⟨rest, q₂, hrest, hpure⟩ := Edit.perform_bind_eq_ok_iff.mp hcast
    cases hpure
    rcases perform_apply_of_progress (r := r) hp h (hpend.mem_ids _ List.mem_cons_self)
      hpend.notMem_done (by rw [h.nextId_eq]; omega) with ⟨e, -, herror⟩ | ⟨a, q₁', -, hok, hq₁⟩
    · rw [happly] at herror
      cases herror
    · obtain rfl : q₁ = q₁' := congrArg Prod.snd (happly.symm.trans hok)
      refine ih hq₁ (Pending.append (x := [(r, n)]) hpend).2 ?_ hrest
      rw [perform_apply h.wellFormed] at happly
      cases hprep : r.prepare q n with
      | error e =>
        rw [hprep] at happly
        cases happly
      | ok a =>
        rw [hprep] at happly
        cases happly
        obtain ⟨op, s, f⟩ := a
        exact listsFrom_wrapBelow hp h hl (prepare_eq_ok_iff.mp hprep).2.2.1

/-! ## Exchanging what stands in -/

/-- Takes what stands in for an operator after `done` to what stands in for it after `done'`. -/
def exchange (p : LogicalPlan) (done done' : List OpId) (w : OpId) : OpId :=
  match done.find? (fun v ↦ standIn p done v = w) with
  | some v => standIn p done' v
  | none => w

theorem exchange_of_forall_ne (h : ∀ v ∈ done, standIn p done v ≠ w) :
    exchange p done done' w = w := by
  have hnone : done.find? (fun v ↦ standIn p done v = w) = none :=
    List.find?_eq_none.mpr fun v hv ↦ by simpa using h v hv
  rw [exchange, hnone]

namespace Progress

variable (h : Progress p done q)
include h

theorem exchange_standIn (hv : v ∈ done) :
    exchange p done done' (standIn p done v) = standIn p done' v := by
  cases hfind : done.find? (fun u ↦ standIn p done u = standIn p done v) with
  | none => simpa using List.find?_eq_none.mp hfind v hv
  | some u =>
    have heq : standIn p done u = standIn p done v := by simpa using List.find?_some hfind
    rw [exchange, hfind, h.standIn_inj (List.mem_of_find?_eq_some hfind) hv heq]

theorem exchange_of_mem_ids (hp : p.WellFormed) (hv : v ∈ p.ids) :
    exchange p done done' v = v :=
  exchange_of_forall_ne fun _ hu heq ↦ h.standIn_notMem_ids hp hu (heq ▸ hv)

theorem map_exchange_of_forall_mem (hp : p.WellFormed) {l : List OpId} (hl : ∀ u ∈ l, u ∈ p.ids) :
    l.map (exchange p done done') = l :=
  (List.map_congr_left fun u hu ↦ h.exchange_of_mem_ids hp (hl u hu)).trans (List.map_id l)

end Progress

/-! ## The same operators in two orders -/

section

variable (hp : p.WellFormed) (h : Progress p done q) (h' : Progress p done' q')
  (hperm : done.Perm done')
include hp h h' hperm

omit hp in
theorem leftInverse_exchange :
    Function.LeftInverse (exchange p done' done) (exchange p done done') := by
  intro w
  by_cases hw : ∃ v ∈ done, standIn p done v = w
  · obtain ⟨v, hv, rfl⟩ := hw
    rw [h.exchange_standIn hv, h'.exchange_standIn (hperm.mem_iff.mp hv)]
  · -- The same identifiers were given out in both plans, so `w` was given out in neither.
    have hw' : ¬ ∃ v ∈ done', standIn p done' v = w := by
      rwa [h'.exists_standIn_eq_iff, ← hperm.length_eq, ← h.exists_standIn_eq_iff]
    rw [exchange_of_forall_ne fun v hv heq ↦ hw ⟨v, hv, heq⟩,
      exchange_of_forall_ne fun v hv heq ↦ hw' ⟨v, hv, heq⟩]

omit hp in
/-- An identifier that is not in use in one of the plans is not in use in the other. -/
theorem exchange_of_notMem_ids (hw : w ∉ q.ids) : exchange p done done' w = w ∧ w ∉ q'.ids := by
  have hold : w ∉ p.ids := mt h.mem_ids_of_mem_ids hw
  have hnew : ¬ ∃ v ∈ done, standIn p done v = w := by
    rintro ⟨v, hv, rfl⟩
    exact hw (h.standIn_mem_ids hv)
  refine ⟨exchange_of_forall_ne fun v hv heq ↦ hnew ⟨v, hv, heq⟩, fun hmem ↦ ?_⟩
  obtain ⟨v, hv, rfl⟩ := (h'.old_or_wrapper w hmem).resolve_left hold
  rw [h.exists_standIn_eq_iff, hperm.length_eq, ← h'.exists_standIn_eq_iff] at hnew
  exact hnew ⟨v, hv, rfl⟩

theorem get?_exchange (w : OpId) : q'.get? (exchange p done done' w) = q.get? w := by
  rcases h.mem_or_standIn_or_notMem w with hw | ⟨v, hv, rfl⟩ | hw
  · obtain ⟨op, hop⟩ := Plan.mem_ids_iff.mp hw
    rw [h.exchange_of_mem_ids hp hw, h.get?_old w op hop, h'.get?_old w op hop]
    simp only [hperm.mem_iff]
  · obtain ⟨op, -, f, hop, -, -, hwrap, hget, -⟩ := h.wrapped v hv
    obtain ⟨op', -, f', hop', -, -, hwrap', hget', -⟩ := h'.wrapped v (hperm.mem_iff.mp hv)
    obtain rfl : op = op' := Option.some.inj (hop.symm.trans hop')
    obtain rfl : f = f' := Except.ok.inj (hwrap.symm.trans hwrap')
    rw [h.exchange_standIn hv, hget, hget']
  · obtain ⟨hfix, hw'⟩ := exchange_of_notMem_ids h h' hperm hw
    rw [hfix, Plan.get?_eq_none_iff.mpr hw, Plan.get?_eq_none_iff.mpr hw']

theorem successors_exchange (w : OpId) :
    q'.successors (exchange p done done' w) = (q.successors w).map (exchange p done done') := by
  rcases h.mem_or_standIn_or_notMem w with hw | ⟨v, hv, rfl⟩ | hw
  · rw [h.exchange_of_mem_ids hp hw, h.successors_old w hw, h'.successors_old w hw]
    by_cases hd : w ∈ done
    · rw [if_pos hd, if_pos (hperm.mem_iff.mp hd), List.map_singleton, h.exchange_standIn hd]
    · rw [if_neg hd, if_neg (mt hperm.mem_iff.mpr hd),
        h.map_exchange_of_forall_mem hp (hp.mem_ids_of_mem_successors w)]
  · obtain ⟨-, s, -, -, -, hs, -, -, -, hsucc⟩ := h.wrapped v hv
    obtain ⟨-, s', -, -, -, hs', -, -, -, hsucc'⟩ := h'.wrapped v (hperm.mem_iff.mp hv)
    obtain rfl : s = s' := List.singleton_inj.mp (hs.symm.trans hs')
    have hmem : s ∈ p.ids := hp.mem_ids_of_mem_successors v s (hs ▸ List.mem_singleton_self s)
    rw [h.exchange_standIn hv, hsucc, hsucc', List.map_singleton, h.exchange_of_mem_ids hp hmem]
  · obtain ⟨hfix, hw'⟩ := exchange_of_notMem_ids h h' hperm hw
    rw [hfix, h.wellFormed.successors_eq_nil hw, h'.wellFormed.successors_eq_nil hw', List.map_nil]

theorem predecessors_exchange (w : OpId) :
    q'.predecessors (exchange p done done' w)
      = (q.predecessors w).map (exchange p done done') := by
  rcases h.mem_or_standIn_or_notMem w with hw | ⟨v, hv, rfl⟩ | hw
  · rw [h.exchange_of_mem_ids hp hw, h.predecessors_old w hw, h'.predecessors_old w hw,
      List.map_map]
    refine List.map_congr_left fun u hu ↦ ?_
    by_cases hd : u ∈ done
    · exact (h.exchange_standIn hd).symm
    · rw [Function.comp_apply, standIn_of_notMem hd, standIn_of_notMem (mt hperm.mem_iff.mpr hd),
        h.exchange_of_mem_ids hp (hp.mem_ids_of_mem_predecessors w u hu)]
  · obtain ⟨-, -, -, -, -, -, -, -, hpred, -⟩ := h.wrapped v hv
    obtain ⟨-, -, -, -, -, -, -, -, hpred', -⟩ := h'.wrapped v (hperm.mem_iff.mp hv)
    rw [h.exchange_standIn hv, hpred, hpred', List.map_singleton,
      h.exchange_of_mem_ids hp (h.mem_ids_of_mem_done hv)]
  · obtain ⟨hfix, hw'⟩ := exchange_of_notMem_ids h h' hperm hw
    rw [hfix, h.wellFormed.predecessors_eq_nil hw, h'.wellFormed.predecessors_eq_nil hw',
      List.map_nil]

/-- Identifiers of operators of `p` are exchanged for themselves, and no others are exchanged for
them. -/
theorem exchange_mem_iff_of_subset {l : List OpId} (hl : l ⊆ p.ids) (w : OpId) :
    exchange p done done' w ∈ l ↔ w ∈ l := by
  rcases h.mem_or_standIn_or_notMem w with hw | ⟨v, hv, rfl⟩ | hw
  · rw [h.exchange_of_mem_ids hp hw]
  · rw [h.exchange_standIn hv]
    have hnew := h.standIn_notMem_ids hp hv
    have hnew' := h'.standIn_notMem_ids hp (hperm.mem_iff.mp hv)
    exact iff_of_false (mt (@hl _) hnew') (mt (@hl _) hnew)
  · rw [(exchange_of_notMem_ids h h' hperm hw).1]

theorem exchange_mem_ids_iff (w : OpId) : exchange p done done' w ∈ q'.ids ↔ w ∈ q.ids := by
  rw [Plan.mem_ids_iff, get?_exchange hp h h' hperm, ← Plan.mem_ids_iff]

omit hp in
/-- The exchange as a permutation of all identifiers. -/
def exchangeEquiv : Equiv.Perm OpId where
  toFun := exchange p done done'
  invFun := exchange p done' done
  left_inv := leftInverse_exchange h h' hperm
  right_inv := leftInverse_exchange h' h hperm.symm

/-- **Plans in progress with the same operators done** differ by an exchange of what stands in for
these operators. -/
theorem renaming_exchangeEquiv (hl : Plan.ListsFrom p q) (hl' : Plan.ListsFrom p q') :
    Plan.Renaming (exchangeEquiv h h' hperm) q q' where
  operators := get?_exchange hp h h' hperm
  outgoing w := by
    refine Plan.get?_eq_map_of_keys ?_ (successors_exchange hp h h' hperm w)
    change exchange p done done' w ∈ _ ↔ _
    rw [hl'.outgoing, hl.outgoing, exchange_mem_ids_iff hp h h' hperm,
      exchange_mem_iff_of_subset hp h h' hperm hp.mem_ids_of_mem_outgoing,
      exchange_mem_iff_of_subset hp h h' hperm (List.Subset.refl _)]
  incoming w := by
    refine Plan.get?_eq_map_of_keys ?_ (predecessors_exchange hp h h' hperm w)
    change exchange p done done' w ∈ _ ↔ _
    rw [hl'.incoming, hl.incoming, exchange_mem_ids_iff hp h h' hperm,
      exchange_mem_iff_of_subset hp h h' hperm hp.mem_ids_of_mem_incoming,
      exchange_mem_iff_of_subset hp h h' hperm (List.Subset.refl _)]
  nextId_eq := by rw [h'.nextId_eq_plus, h.nextId_eq_plus, hperm.length_eq]

end

/-! ## Rules for the same kinds -/

variable {rules rules' : List CastRule} {s s' : Settings}

theorem mem_map_agenda_iff {rs : List CastRule} :
    v ∈ (agenda p rs).map (·.2) ↔ ∃ r ∈ rs, v ∈ r.due p := by
  constructor
  · rintro hv
    obtain ⟨y, hy, rfl⟩ := List.mem_map.mp hv
    obtain ⟨hr, hdue, -⟩ := mem_agendaAfter hy
    exact ⟨y.1, hr, hdue⟩
  · rintro ⟨r, hr, hdue⟩
    exact (mem_map_agendaAfter hr hdue []).resolve_left List.not_mem_nil

/-- Rules that together target the same kinds have the same operators on their agendas. -/
theorem perm_agenda {rs rs' : List CastRule}
    (h : ∀ k, (∃ r ∈ rs, r.targets k = true) ↔ ∃ r ∈ rs', r.targets k = true) :
    ((agenda p rs).map (·.2)).Perm ((agenda p rs').map (·.2)) := by
  have hsub : ∀ {rs rs' : List CastRule}, (∀ k, (∃ r ∈ rs, r.targets k = true) →
      ∃ r ∈ rs', r.targets k = true) → ∀ v, (∃ r ∈ rs, v ∈ r.due p) → ∃ r ∈ rs', v ∈ r.due p := by
    rintro rs rs' h v ⟨r, hr, hdue⟩
    obtain ⟨op, hget, htarget, hwants⟩ := mem_due_iff.mp hdue
    obtain ⟨r', hr', htarget'⟩ := h op.kind ⟨r, hr, htarget⟩
    exact ⟨r', hr', mem_due_iff.mpr ⟨op, hget, htarget', hwants⟩⟩
  have hnodup : ∀ rs : List CastRule, ((agenda p rs).map (·.2)).Nodup := fun rs ↦
    nodup_agendaAfter rs List.nodup_nil
  refine (List.perm_ext_iff_of_nodup (hnodup rs) (hnodup rs')).mpr fun v ↦ ?_
  rw [mem_map_agenda_iff, mem_map_agenda_iff]
  exact ⟨hsub (fun k ↦ (h k).mp) v, hsub (fun k ↦ (h k).mpr) v⟩

/-- Which rule is applied shows only in the error. -/
theorem exists_prepare_eq_ok_congr (r r' : CastRule) (n : OpId) :
    (∃ a, r.prepare p n = .ok a) ↔ ∃ a, r'.prepare p n = .ok a := by
  have hiff : ∀ a, r.prepare p n = .ok a ↔ r'.prepare p n = .ok a := by
    rintro ⟨op, t, f⟩
    rw [prepare_eq_ok_iff, prepare_eq_ok_iff]
  exact exists_congr hiff

theorem exists_optimize_eq_ok_iff (hp : p.WellFormed) (hm : 1 ≤ s.maxIterations.toNat)
    (hroom : p.nextId.toNat + (agenda p (enabled rules s)).length < UInt64.size) :
    (∃ summary, ((optimizer rules s).optimize p).1 = .ok summary) ↔
      ∀ v ∈ (agenda p (enabled rules s)).map (·.2), ∃ a, all.prepare p v = .ok a := by
  have hend := ending_castAll hp _ (.refl hp) (pending_agenda hroom)
  rw [optimize_eq hp hroom hm]
  generalize (castAll (agenda p (enabled rules s))).perform p = res at hend
  cases hend with
  | finished hall hq =>
    refine ⟨fun _ v hv ↦ ?_, fun _ ↦ ⟨_, rfl⟩⟩
    obtain ⟨y, hy, rfl⟩ := List.mem_map.mp hv
    exact (exists_prepare_eq_ok_congr y.1 all y.2).mp (hall y hy)
  | @refused pre post y e q hx hall hy hq =>
    refine ⟨nofun, fun h ↦ ?_⟩
    have hmem : y ∈ agenda p (enabled rules s) := hx ▸ by simp
    obtain ⟨a, ha⟩ := (exists_prepare_eq_ok_congr all y.1 y.2).mp
      (h y.2 (List.mem_map_of_mem hmem))
    rw [hy] at ha
    cases ha

theorem progress_of_optimize_eq_ok (hp : p.WellFormed) (hm : 1 ≤ s.maxIterations.toNat)
    (hroom : p.nextId.toNat + (agenda p (enabled rules s)).length < UInt64.size)
    {summary : Summary} (h : ((optimizer rules s).optimize p).1 = .ok summary) :
    Progress p ((agenda p (enabled rules s)).map (·.2)) ((optimizer rules s).optimize p).2 ∧
      Plan.ListsFrom p ((optimizer rules s).optimize p).2 := by
  have hpend := pending_agenda hroom
  have hend := ending_castAll hp _ (.refl hp) hpend
  rw [optimize_eq hp hroom hm] at h ⊢
  generalize hres : (castAll (agenda p (enabled rules s))).perform p = res at hend h
  cases hend with
  | finished _ hq => exact ⟨hq, listsFrom_castAll hp _ (.refl hp) hpend (.refl p) hres⟩
  | refused => cases h

/-- **The order of rules does not matter.** Let two lists of cast rules be such that those of them
that are enabled target the same kinds. Then a run with one list succeeds if and only if a run with
the other does, and the plans that are left differ only by the identifiers of the for-each operators
that were added: a permutation that moves no others takes the one below an operator to the one below
the same operator, and all of one plan to all of the other. -/
theorem renaming_optimize (rules rules' : List CastRule) (s s' : Settings) (hp : p.WellFormed)
    (hm : 1 ≤ s.maxIterations.toNat) (hm' : 1 ≤ s'.maxIterations.toNat)
    (hroom : p.nextId.toNat + (agenda p (enabled rules s)).length < UInt64.size)
    (htargets : ∀ k, (∃ r ∈ enabled rules s, r.targets k = true) ↔
      ∃ r ∈ enabled rules' s', r.targets k = true) :
    ((∃ summary, ((optimizer rules s).optimize p).1 = .ok summary) ↔
      ∃ summary, ((optimizer rules' s').optimize p).1 = .ok summary) ∧
    ∀ summary summary' q q', (optimizer rules s).optimize p = (.ok summary, q) →
      (optimizer rules' s').optimize p = (.ok summary', q') →
      ∃ σ : Equiv.Perm OpId, (∀ v ∈ p.ids, σ v = v) ∧ (∀ w, σ w ≠ w → w ∈ q.ids ∧ w ∉ p.ids) ∧
        (∀ v ∈ p.ids, ∀ w, w ∉ p.ids → q.successors v = [w] →
          σ w ∉ p.ids ∧ q'.successors v = [σ w]) ∧
        Plan.Renaming σ q q' := by
  have hperm := perm_agenda (p := p) htargets
  have hlength := hperm.length_eq
  rw [List.length_map, List.length_map] at hlength
  have hroom' : p.nextId.toNat + (agenda p (enabled rules' s')).length < UInt64.size := by
    rwa [← hlength]
  constructor
  · rw [exists_optimize_eq_ok_iff hp hm hroom, exists_optimize_eq_ok_iff hp hm' hroom']
    simp only [hperm.mem_iff]
  · intro summary summary' q q' hrun hrun'
    obtain ⟨h, hl⟩ := progress_of_optimize_eq_ok hp hm hroom (congrArg Prod.fst hrun)
    obtain ⟨h', hl'⟩ := progress_of_optimize_eq_ok hp hm' hroom' (congrArg Prod.fst hrun')
    rw [hrun] at h hl
    rw [hrun'] at h' hl'
    have hrenaming := renaming_exchangeEquiv hp h h' hperm hl hl'
    have hfix : ∀ v ∈ p.ids, exchangeEquiv h h' hperm v = v := fun v hv ↦
      h.exchange_of_mem_ids hp hv
    have hold := exchange_mem_iff_of_subset hp h h' hperm (List.Subset.refl p.ids)
    refine ⟨exchangeEquiv h h' hperm, hfix, fun w hw ↦ ⟨?_, fun hmem ↦ hw (hfix w hmem)⟩,
      fun v hv w hw hs ↦ ⟨fun hmem ↦ hw ((hold w).mp hmem), ?_⟩, hrenaming⟩
    · by_contra hmem
      exact hw (exchange_of_notMem_ids h h' hperm hmem).1
    · have hsucc := hrenaming.successors_eq v
      rwa [hfix v hv, hs, List.map_singleton] at hsucc

theorem renaming_optimize_branchedPlan :
    branchedPlan.WellFormed ∧ 1 ≤ Settings.default.maxIterations.toNat ∧
      branchedPlan.nextId.toNat + (agenda branchedPlan (enabled defaults .default)).length
        < UInt64.size ∧
      (∀ k, (∃ r ∈ enabled defaults .default, r.targets k = true) ↔
        ∃ r ∈ enabled [all, forLoad] .default, r.targets k = true) ∧
      ∃ σ : Equiv.Perm OpId, σ ⟨6⟩ = ⟨7⟩ ∧ σ ⟨7⟩ = ⟨6⟩ ∧
        Plan.Renaming σ ((optimizer defaults .default).optimize branchedPlan).2
          ((optimizer [all, forLoad] .default).optimize branchedPlan).2 := by
  have hp : branchedPlan.WellFormed := by decide
  have hm : 1 ≤ Settings.default.maxIterations.toNat := by decide
  have hroom : branchedPlan.nextId.toNat + (agenda branchedPlan (enabled defaults .default)).length
      < UInt64.size := by
    decide +kernel
  have htargets : ∀ k, (∃ r ∈ enabled defaults .default, r.targets k = true) ↔
      ∃ r ∈ enabled [all, forLoad] .default, r.targets k = true := by
    intro k
    cases k <;> decide
  have hok : ((optimizer defaults .default).optimize branchedPlan).1.isOk = true := by
    decide +kernel
  -- The second load gets its for-each second by one list of rules and third by the other.
  have hload : ((optimizer defaults .default).optimize branchedPlan).2.successors ⟨4⟩ = [⟨6⟩] := by
    decide +kernel
  have hload' : ((optimizer [all, forLoad] .default).optimize branchedPlan).2.successors ⟨4⟩
      = [⟨7⟩] := by
    decide +kernel
  have hstream : ((optimizer defaults .default).optimize branchedPlan).2.successors ⟨2⟩
      = [⟨7⟩] := by
    decide +kernel
  have hstream' : ((optimizer [all, forLoad] .default).optimize branchedPlan).2.successors ⟨2⟩
      = [⟨6⟩] := by
    decide +kernel
  obtain ⟨hiff, hrenaming⟩ := renaming_optimize defaults [all, forLoad] .default .default hp hm hm
    hroom htargets
  have hex : ∃ summary, ((optimizer defaults .default).optimize branchedPlan).1 = .ok summary := by
    cases hres : ((optimizer defaults .default).optimize branchedPlan).1 with
    | ok summary => exact ⟨summary, rfl⟩
    | error e =>
      rw [hres] at hok
      cases hok
  obtain ⟨summary, hsummary⟩ := hex
  obtain ⟨summary', hsummary'⟩ := hiff.mp ⟨summary, hsummary⟩
  obtain ⟨σ, -, -, hbelow, hσ⟩ := hrenaming summary summary' _ _ (Prod.fst_eq_iff.mp hsummary)
    (Prod.fst_eq_iff.mp hsummary')
  have hsix := (hbelow ⟨4⟩ (by decide) ⟨6⟩ (by decide) hload).2
  have hseven := (hbelow ⟨2⟩ (by decide) ⟨7⟩ (by decide) hstream).2
  rw [hload'] at hsix
  rw [hstream'] at hseven
  exact ⟨hp, hm, hroom, htargets, σ, (List.singleton_inj.mp hsix).symm,
    (List.singleton_inj.mp hseven).symm, hσ⟩

end CastRule

end Dataflow
