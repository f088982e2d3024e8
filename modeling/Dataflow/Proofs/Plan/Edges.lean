import Dataflow.Explain
import Dataflow.Proofs.Plan.Restore
import Mathlib.Data.List.Sort

/-!
# The edges of a plan

There are three views of the edges of a plan: all of them in one list (`edges`), one by its ends
(`edge?`), and those that leave an operator as a listing shows them (`listedEdges`). They come by the
slots in different ways. The list counts the output slots and looks for the input slot, which it takes
to be 0 if the target does not know of the edge; a listing looks each edge up by its ends and passes
over one that it does not find.

In a consistent plan nothing is missing at either end, so all three show the edges `edgeOf`, and all of
them (`edges_eq`, `listedEdges_eq`). From the list alone the neighbours of every operator can be read
off again: the successors directly, as the edges that leave an operator come in the order of their
slots, and the predecessors by their slots.
-/

namespace Dataflow

namespace Plan

variable {α β : Type} {p : Plan α} {q : Plan β} {a b v : OpId} {e : Edge}

/-! ## Places in lists without repetition -/

theorem mapIdx_eq_map_idxOf {l : List OpId} (hl : l.Nodup) (f : Nat → OpId → β) :
    l.mapIdx f = l.map fun x ↦ f (l.idxOf x) x := by
  refine List.ext_getElem (by simp) fun i h₁ h₂ ↦ ?_
  rw [List.getElem_mapIdx, List.getElem_map, hl.idxOf_getElem]

theorem map_idxOf_self {l : List OpId} (hl : l.Nodup) :
    l.map l.idxOf = List.range l.length := by
  refine List.ext_getElem (by simp) fun i h₁ h₂ ↦ ?_
  rw [List.getElem_map, List.getElem_range, hl.idxOf_getElem]

/-- A list without repetition is known from the places of its members. -/
theorem eq_of_idxOf_eq {l l' : List OpId} (hl : l.Nodup) (hl' : l'.Nodup)
    (hmem : ∀ x, x ∈ l ↔ x ∈ l') (hidx : ∀ x ∈ l, l.idxOf x = l'.idxOf x) : l = l' := by
  have hlen := ((List.perm_ext_iff_of_nodup hl hl').mpr hmem).length_eq
  refine List.ext_getElem hlen fun i h₁ h₂ ↦ ?_
  have hi := hidx l[i] (List.getElem_mem h₁)
  rw [hl.idxOf_getElem] at hi
  have hlt : l'.idxOf l[i] < l'.length := hi ▸ h₂
  have hplace : l'[l'.idxOf l[i]] = l[i] := List.getElem_idxOf hlt
  simpa only [← hi] using hplace.symm

section

variable {γ δ : Type} {f : γ → List δ} {l : List γ}

/-- Members that contribute nothing can be left out. -/
theorem flatMap_filter_eq {t : γ → Bool} (h : ∀ x ∈ l, t x = false → f x = []) :
    (l.filter t).flatMap f = l.flatMap f := by
  induction l with
  | nil => rfl
  | cons x l ih =>
    have ih := ih fun y hy ↦ h y (List.mem_cons_of_mem x hy)
    cases ht : t x with
    | true => rw [List.filter_cons_of_pos ht, List.flatMap_cons, List.flatMap_cons, ih]
    | false =>
      rw [List.filter_cons_of_neg (by simp [ht]), List.flatMap_cons, h x List.mem_cons_self ht, ih,
        List.nil_append]

theorem flatMap_eq_of_forall_ne [DecidableEq γ] {x : γ} (hl : l.Nodup) (hx : x ∈ l)
    (h : ∀ y ∈ l, y ≠ x → f y = []) : l.flatMap f = f x := by
  have hone : l.filter (· = x) = [x] := by
    rw [List.filter_eq, List.count_eq_one_of_mem hl hx, List.replicate_one]
  have hfilter : (l.filter (· = x)).flatMap f = l.flatMap f :=
    flatMap_filter_eq fun y hy hne ↦ h y hy (of_decide_eq_false hne)
  rw [← hfilter, hone, List.flatMap_singleton]

end

/-! ## The views of a consistent plan -/

namespace Consistent

variable (hp : p.Consistent)
include hp

theorem edge?_eq_some (h : b ∈ p.successors a) : p.edge? a b = some (p.edgeOf a b) :=
  edge?_eq_some_iff.mpr ⟨h, (hp.mirrored a b).mp h, rfl⟩

/-- A listing passes over no edge. -/
theorem map_edge?_eq (a : OpId) :
    (p.successors a).map (p.edge? a) = (p.listedEdges a).map some := by
  have hsome : ∀ b ∈ p.successors a, p.edge? a b = some (p.edgeOf a b) :=
    fun b ↦ hp.edge?_eq_some
  rw [listedEdges, List.filterMap_congr hsome, List.map_congr_left hsome]
  simp

theorem listedEdges_eq (a : OpId) : p.listedEdges a = (p.successors a).map (p.edgeOf a) := by
  have hsome : ∀ b ∈ p.successors a, p.edge? a b = (some ∘ p.edgeOf a) b :=
    fun b ↦ hp.edge?_eq_some
  rw [listedEdges, List.filterMap_congr hsome, List.filterMap_eq_map]

theorem edgesFrom_eq (a : OpId) :
    p.edgesFrom a (p.successors a) = (p.successors a).map (p.edgeOf a) := by
  rw [edgesFrom, mapIdx_eq_map_idxOf (hp.nodup_successors a)]
  refine List.map_congr_left fun b hb ↦ ?_
  rw [idxOf?_of_mem ((hp.mirrored a b).mp hb), Option.getD_some, edgeOf]

/-- The operators with a list of successors are found among all. -/
theorem keys_eq : p.outgoing.keys = p.ids.filter (· ∈ p.outgoing.keys) := by
  have hids : (p.ids.filter (· ∈ p.outgoing.keys)).Pairwise (· < ·) :=
    p.operators.pairwise_keys.filter _
  refine p.outgoing.pairwise_keys.eq_of_mem_iff hids fun a ↦ ?_
  rw [List.mem_filter, decide_eq_true_eq]
  exact (and_iff_right_of_imp (hp.mem_ids_of_mem_outgoing a)).symm

theorem edges_eq : p.edges = p.ids.flatMap fun a ↦ (p.successors a).map (p.edgeOf a) := by
  have hentries : ∀ x ∈ p.outgoing.entries,
      p.edgesFrom x.1 x.2 = (p.successors x.1).map (p.edgeOf x.1) := by
    intro x hx
    rw [← hp.edgesFrom_eq, successors_of_mem_entries hx]
  have hkeys : p.edges = p.outgoing.keys.flatMap fun a ↦ (p.successors a).map (p.edgeOf a) := by
    rw [IdTable.keys, List.flatMap_map]
    exact List.flatMap_congr hentries
  rw [hkeys, hp.keys_eq]
  refine flatMap_filter_eq fun a _ hnot ↦ ?_
  rw [successors_eq_nil_of_notMem (of_decide_eq_false hnot), List.map_nil]

theorem mem_edges_iff : e ∈ p.edges ↔ p.edge? e.source e.target = some e := by
  rw [hp.edges_eq, List.mem_flatMap, edge?_eq_some_iff]
  constructor
  · rintro ⟨a, -, he⟩
    obtain ⟨b, hb, rfl⟩ := List.mem_map.mp he
    exact ⟨hb, (hp.mirrored a b).mp hb, rfl⟩
  · rintro ⟨hb, hs, he⟩
    exact ⟨e.source, hp.mem_ids_of_mem_predecessors _ _ hs, List.mem_map.mpr ⟨_, hb, he.symm⟩⟩

theorem edgeOf_mem_edges (h : b ∈ p.successors a) : p.edgeOf a b ∈ p.edges :=
  hp.mem_edges_iff.mpr (hp.edge?_eq_some h)

/-! ## The edges of one operator -/

theorem filter_source_edges (v : OpId) :
    p.edges.filter (·.source = v) = (p.successors v).map (p.edgeOf v) := by
  rw [hp.edges_eq, List.filter_flatMap]
  have hrow : ∀ a, ((p.successors a).map (p.edgeOf a)).filter (·.source = v)
      = if a = v then (p.successors a).map (p.edgeOf a) else [] := by
    intro a
    split
    · rename_i ha
      refine List.filter_eq_self.mpr fun e he ↦ ?_
      obtain ⟨b, -, rfl⟩ := List.mem_map.mp he
      exact decide_eq_true ha
    · rename_i ha
      refine List.filter_eq_nil_iff.mpr fun e he ↦ ?_
      obtain ⟨b, -, rfl⟩ := List.mem_map.mp he
      exact mt of_decide_eq_true ha
  simp only [hrow]
  by_cases hv : v ∈ p.ids
  · have hids : p.ids.Nodup := p.operators.nodup_keys
    rw [flatMap_eq_of_forall_ne hids hv fun a _ ha ↦ if_neg ha, if_pos rfl]
  · have hnil : p.successors v = [] :=
      successors_eq_nil_of_notMem (mt (hp.mem_ids_of_mem_outgoing v) hv)
    rw [hnil, List.map_nil, List.flatMap_eq_nil_iff]
    intro a ha
    have hne : a ≠ v := fun h ↦ hv (h ▸ ha)
    exact if_neg hne

/-- The edges in the order of the list: by their sources, and then by their output slots. -/
theorem pairwise_edges : p.edges.Pairwise fun e e' ↦
    e.source < e'.source ∨ (e.source = e'.source ∧ e.outSlot < e'.outSlot) := by
  rw [hp.edges_eq, List.pairwise_flatMap]
  constructor
  · intro a _
    have hslots : ((p.successors a).map (p.successors a).idxOf).Pairwise (· < ·) := by
      rw [map_idxOf_self (hp.nodup_successors a)]
      exact List.pairwise_lt_range
    exact List.pairwise_map.mpr ((List.pairwise_map.mp hslots).imp fun h ↦ .inr ⟨rfl, h⟩)
  · refine p.operators.pairwise_keys.imp fun {a a'} h e he e' he' ↦ ?_
    obtain ⟨b, -, rfl⟩ := List.mem_map.mp he
    obtain ⟨b', -, rfl⟩ := List.mem_map.mp he'
    exact .inl h

theorem nodup_edges : p.edges.Nodup := by
  refine hp.pairwise_edges.imp fun {e e'} h heq ↦ ?_
  subst heq
  exact h.elim (OpId.lt_irrefl _) fun h ↦ Nat.lt_irrefl _ h.2

theorem filter_target_edges_perm (v : OpId) :
    (p.edges.filter (·.target = v)).Perm ((p.predecessors v).map (p.edgeOf · v)) := by
  have hinj : ((p.predecessors v).map (p.edgeOf · v)).Nodup :=
    (hp.nodup_predecessors v).map fun a a' h ↦ congrArg Edge.source h
  refine (List.perm_ext_iff_of_nodup (hp.nodup_edges.filter _) hinj).mpr fun e ↦ ?_
  rw [List.mem_filter, decide_eq_true_eq, hp.mem_edges_iff, edge?_eq_some_iff, List.mem_map]
  constructor
  · rintro ⟨⟨-, hs, he⟩, rfl⟩
    exact ⟨e.source, hs, he.symm⟩
  · rintro ⟨a, ha, rfl⟩
    exact ⟨⟨(hp.mirrored a v).mpr ha, ha, rfl⟩, rfl⟩

/-- Every output slot is taken once. -/
theorem map_outSlot_edges (v : OpId) :
    (p.edges.filter (·.source = v)).map (·.outSlot) = List.range (p.successors v).length := by
  rw [hp.filter_source_edges, List.map_map]
  exact map_idxOf_self (hp.nodup_successors v)

/-- Every input slot is taken once. The order is that of the sources. -/
theorem map_inSlot_edges_perm (v : OpId) :
    ((p.edges.filter (·.target = v)).map (·.inSlot)).Perm
      (List.range (p.predecessors v).length) := by
  refine ((hp.filter_target_edges_perm v).map _).trans ?_
  rw [List.map_map]
  exact .of_eq (map_idxOf_self (hp.nodup_predecessors v))

end Consistent

/-! ## The list of edges -/

/-- The list is in order and has every edge once, in the slots that the operators give it. -/
structure EdgesComplete (p : Plan α) : Prop where
  ascending : p.edges.Pairwise fun e e' ↦
    e.source < e'.source ∨ (e.source = e'.source ∧ e.outSlot < e'.outSlot)
  mem_iff : ∀ e, e ∈ p.edges ↔ p.edge? e.source e.target = some e
  /-- No input slot stands for an edge of which the target does not know. -/
  idxOf?_eq : ∀ e ∈ p.edges, (p.predecessors e.target).idxOf? e.source = some e.inSlot
  outSlots : ∀ v,
    (p.edges.filter (·.source = v)).map (·.outSlot) = List.range (p.successors v).length
  inSlots : ∀ v, ((p.edges.filter (·.target = v)).map (·.inSlot)).Perm
    (List.range (p.predecessors v).length)

theorem Consistent.edgesComplete (hp : p.Consistent) : p.EdgesComplete where
  ascending := hp.pairwise_edges
  mem_iff _ := hp.mem_edges_iff
  idxOf?_eq e he := by
    obtain ⟨-, hs, heq⟩ := edge?_eq_some_iff.mp (hp.mem_edges_iff.mp he)
    rw [idxOf?_of_mem hs]
    exact congrArg (some ·.inSlot) heq.symm
  outSlots := hp.map_outSlot_edges
  inSlots := hp.map_inSlot_edges_perm

/-! ## The plan behind the list -/

theorem Consistent.successors_eq_of_edges_eq (hp : p.Consistent) (hq : q.Consistent)
    (h : p.edges = q.edges) (v : OpId) : p.successors v = q.successors v := by
  have hrow := congrArg (List.filter (·.source = v)) h
  rw [hp.filter_source_edges, hq.filter_source_edges] at hrow
  have htargets := congrArg (List.map Edge.target) hrow
  simpa only [List.map_map, Function.comp_def, edgeOf, List.map_id'] using htargets

theorem Consistent.predecessors_eq_of_edges_eq (hp : p.Consistent) (hq : q.Consistent)
    (h : p.edges = q.edges) (v : OpId) : p.predecessors v = q.predecessors v := by
  have hsucc := hp.successors_eq_of_edges_eq hq h
  refine eq_of_idxOf_eq (hp.nodup_predecessors v) (hq.nodup_predecessors v) (fun a ↦ ?_)
    fun a ha ↦ ?_
  · rw [← hp.mirrored, ← hq.mirrored, hsucc]
  · have he := hp.edgeOf_mem_edges ((hp.mirrored a v).mpr ha)
    rw [h, hq.mem_edges_iff] at he
    obtain ⟨-, -, heq⟩ := edge?_eq_some_iff.mp he
    exact congrArg Edge.inSlot heq

end Plan

end Dataflow
