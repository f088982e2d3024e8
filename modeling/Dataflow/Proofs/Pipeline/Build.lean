import Dataflow.Proofs.Pipeline.Wiring

/-!
# Building the plan of a document

A wiring remembers the plan so far, the names given so far and the operator that came last. `Built` says
what these three are after the first steps of a document, in terms of these steps alone, and
`Built.addStep` that one more step extends it. The names are the delicate part: what a reference means
is said in `Described` with all the steps in view, so a step that gave a name for the second time would
change what earlier references mean. It is refused, and so the meaning of a reference never changes
(`Means.append`).
-/

namespace Dataflow

namespace Pipeline

variable {steps : List Step} {s : Step} {op : Operator} {w w' : Wiring} {p q : LogicalPlan}
  {k j : Nat} {name : String} {inputs : List OpId}

/-! ## Places and names -/

theorem nameAt_lt (h : nameAt steps k = some name) : k < steps.length := by
  rw [nameAt, Option.bind_eq_some_iff] at h
  obtain ⟨s, hs, -⟩ := h
  exact (List.getElem?_eq_some_iff.mp hs).1

theorem getElem?_append_singleton_iff {s' : Step} : (steps ++ [s])[k]? = some s' ↔
    steps[k]? = some s' ∨ (k = steps.length ∧ s' = s) := by
  rcases Nat.lt_trichotomy k steps.length with hlt | rfl | hgt
  · rw [List.getElem?_append_left hlt]
    exact (or_iff_left fun h ↦ Nat.ne_of_lt hlt h.1).symm
  · simp [eq_comm]
  · have hlen : (steps ++ [s]).length ≤ k := by
      rw [List.length_append, List.length_singleton]
      exact hgt
    rw [List.getElem?_eq_none hlen, List.getElem?_eq_none (Nat.le_of_lt hgt)]
    simp [Nat.ne_of_gt hgt]

theorem nameAt_append_eq_some_iff : nameAt (steps ++ [s]) k = some name ↔
    nameAt steps k = some name ∨ (k = steps.length ∧ s.name = some name) := by
  simp only [nameAt, Option.bind_eq_some_iff, getElem?_append_singleton_iff, or_and_right, exists_or]
  simp

/-- The step gives no name that an earlier one has given. -/
def IsFresh (steps : List Step) (s : Step) : Prop :=
  ∀ name, s.name = some name → ∀ i, nameAt steps i ≠ some name

/-- A further step does not change what the references before it mean. -/
theorem Means.append {r : Step.Reference} (hfresh : IsFresh steps s) (h : Means steps k r j) :
    Means (steps ++ [s]) k r j := by
  cases r with
  | previous => exact h
  | named name =>
    obtain ⟨hlt, honly⟩ := h
    refine ⟨hlt, fun i ↦ ?_⟩
    rw [nameAt_append_eq_some_iff, honly]
    have hnot : s.name ≠ some name := fun hs ↦ hfresh name hs j ((honly j).mpr rfl)
    exact or_iff_left fun h ↦ hnot h.2

/-! ## The invariant -/

/-- The wiring after the first steps of a document. -/
structure Built (steps : List Step) (w : Wiring) : Prop where
  described : Described steps w.plan
  nextId_eq : w.plan.nextId = opId steps.length
  lookup : ∀ name id, w.names.lookup name = some id ↔
    ∃ j, nameAt steps j = some name ∧ id = opId j
  nameAt_inj : ∀ name i j, nameAt steps i = some name → nameAt steps j = some name → i = j
  current : ∀ id, w.current = some id ↔ ∃ j, j + 1 = steps.length ∧ id = opId j

theorem built_empty : Built [] .empty where
  described := {
    ids_eq := rfl
    operator := nofun
    predecessors := nofun
    successors := nofun
    wellFormed := Plan.wellFormed_empty
    ascending := nofun }
  nextId_eq := rfl
  lookup _ _ := ⟨nofun, nofun⟩
  nameAt_inj := nofun
  current _ := ⟨nofun, nofun⟩

namespace Built

variable (h : Built steps w)
include h

theorem isFresh (hnew : ∀ name, s.name = some name → w.names.lookup name = none) :
    IsFresh steps s := by
  intro name hs i hi
  have hsome := (h.lookup name (opId i)).mpr ⟨i, hi, rfl⟩
  rw [hnew name hs] at hsome
  cases hsome

/-- What a reference stands for now is what it means in the document. -/
theorem exists_means {r : Step.Reference} {id : OpId} (hfresh : IsFresh steps s)
    (hr : w.Resolves r id) : ∃ j, Means (steps ++ [s]) steps.length r j ∧ id = opId j := by
  cases r with
  | previous => exact (h.current id).mp hr
  | named name =>
    obtain ⟨j, hj, rfl⟩ := (h.lookup name id).mp hr
    refine ⟨j, Means.append hfresh ⟨nameAt_lt hj, fun i ↦ ?_⟩, rfl⟩
    exact ⟨fun hi ↦ h.nameAt_inj name i j hi hj, fun hi ↦ hi ▸ hj⟩

theorem exists_forall₂_means {rs : List Step.Reference} (hfresh : IsFresh steps s)
    (hrs : List.Forall₂ w.Resolves rs inputs) :
    ∃ js, List.Forall₂ (Means (steps ++ [s]) steps.length) rs js ∧ inputs = js.map opId := by
  induction hrs with
  | nil => exact ⟨[], .nil, rfl⟩
  | cons hr _ ih =>
    obtain ⟨j, hj, rfl⟩ := h.exists_means hfresh hr
    obtain ⟨js, hjs, rfl⟩ := ih
    exact ⟨j :: js, .cons hj hjs, rfl⟩

end Built

/-! ## One more operator -/

theorem Described.ids_add (h : Described steps p) (hnext : p.nextId = opId steps.length)
    (op : Operator) : (p.add op).2.ids = (List.range (steps.length + 1)).map opId := by
  have hkeys : (p.add op).2.ids = p.ids ++ [p.nextId] :=
    IdTable.keys_insert_of_forall_lt h.wellFormed.lt_nextId
  rw [hkeys, h.ids_eq, hnext, List.range_succ, List.map_append, List.map_singleton]

/-- The plan of a document with one more step, from the plan before. -/
theorem Described.append (h : Described steps p) (hnext : p.nextId = opId steps.length)
    (hroom : steps.length + 2 < UInt64.size) (hfresh : IsFresh steps s) (hop : s.Denotes op)
    (hq : Wiring.Attached (p.add op).2 inputs p.nextId q)
    (hinputs : ∃ js, List.Forall₂ (Means (steps ++ [s]) steps.length) s.references js ∧
      inputs = js.map opId) : Described (steps ++ [s]) q := by
  have hold : ∀ k < steps.length, opId k ≠ p.nextId := by
    intro k hk
    rw [hnext, ne_eq, opId_inj (by omega) (by omega)]
    exact Nat.ne_of_lt hk
  have hpred : ∀ k < steps.length, q.predecessors (opId k) = p.predecessors (opId k) := by
    intro k hk
    rw [hq.predecessors_eq, if_neg (hold k hk), Plan.predecessors_add]
  have hpredNew : q.predecessors (opId steps.length) = inputs := by
    rw [← hnext, hq.predecessors_eq, if_pos rfl, Plan.predecessors_add,
      h.wellFormed.predecessors_nextId, List.nil_append]
  constructor
  case ids_eq =>
    rw [hq.ids_eq, h.ids_add hnext, List.length_append, List.length_singleton]
  case operator =>
    intro k s' hs'
    rw [hq.get?_eq, Plan.get?_add]
    rcases getElem?_append_singleton_iff.mp hs' with hs' | ⟨rfl, rfl⟩
    · rw [if_neg (hold k (List.getElem?_eq_some_iff.mp hs').1)]
      exact h.operator k s' hs'
    · rw [if_pos hnext.symm]
      exact ⟨op, rfl, hop⟩
  case predecessors =>
    intro k s' hs'
    rcases getElem?_append_singleton_iff.mp hs' with hs' | ⟨rfl, rfl⟩
    · obtain ⟨js, hjs, heq⟩ := h.predecessors k s' hs'
      rw [hpred k (List.getElem?_eq_some_iff.mp hs').1]
      exact ⟨js, hjs.imp fun _ _ hm ↦ hm.append hfresh, heq⟩
    · rwa [hpredNew]
  case successors =>
    intro j hj
    rw [List.length_append, List.length_singleton] at hj ⊢
    rw [hq.successors_eq, Plan.successors_add, List.range_succ, List.filter_append, List.map_append]
    -- The readers among the earlier steps are as before, and the new step is one if it has the input.
    have hrange : (List.range steps.length).filter (fun k ↦ opId j ∈ q.predecessors (opId k))
        = (List.range steps.length).filter (fun k ↦ opId j ∈ p.predecessors (opId k)) := by
      refine List.filter_congr fun k hk ↦ ?_
      rw [hpred k (List.mem_range.mp hk)]
    have hsucc : p.successors (opId j)
        = ((List.range steps.length).filter fun k ↦ opId j ∈ p.predecessors (opId k)).map opId := by
      by_cases hlt : j < steps.length
      · exact h.successors j hlt
      · obtain rfl : j = steps.length := by omega
        rw [← hnext, h.wellFormed.successors_nextId, eq_comm, List.map_eq_nil_iff,
          List.filter_eq_nil_iff]
        intro k hk hmem
        exact h.wellFormed.nextId_notMem_ids
          (h.wellFormed.mem_ids_of_mem_predecessors _ _ (of_decide_eq_true hmem))
    rw [hrange, ← hsucc, hnext]
    by_cases hmem : opId j ∈ inputs
    · rw [if_pos hmem]
      simp [hpredNew, hmem]
    · rw [if_neg hmem]
      simp [hpredNew, hmem]
  case wellFormed => exact hq.wellFormed
  case ascending =>
    intro a b hb
    rw [hq.successors_eq, Plan.successors_add] at hb
    split at hb
    · rename_i ha
      rcases List.mem_append.mp hb with hb | hb
      · exact h.ascending a b hb
      · rw [List.mem_singleton] at hb
        have hmem := Plan.mem_ids_add.mp (hq.mem_ids a ha)
        have hne : a ≠ p.nextId := fun he ↦ hq.notMem (he ▸ ha)
        rw [hb]
        exact h.wellFormed.lt_nextId a (hmem.resolve_left hne)
    · exact h.ascending a b hb

/-- One more step extends the invariant. -/
theorem Built.addStep (h : Built steps w) (hroom : steps.length + 2 < UInt64.size)
    (hstep : w.addStep s = .ok w') : Built (steps ++ [s]) w' := by
  obtain ⟨op, inputs, hop, hrefs, hpush⟩ := Wiring.addStep_eq_ok hstep
  obtain ⟨hconnect, hnew, hnames, hcurrent⟩ := Wiring.push_eq_ok hpush
  have hfresh : IsFresh steps s := h.isFresh (hop.name_eq ▸ hnew)
  have hwf := h.described.wellFormed
  have hroom' : w.plan.nextId.toNat + 1 < UInt64.size := by
    rw [h.nextId_eq, toNat_opId (by omega)]
    omega
  have hattached := Wiring.attached_of_connectAll inputs (hwf.add hroom' op) hconnect
  constructor
  case described =>
    exact h.described.append h.nextId_eq hroom hfresh hop hattached
      (h.exists_forall₂_means hfresh hrefs)
  case nextId_eq =>
    rw [hattached.nextId_eq, Plan.nextId_add, h.nextId_eq, next_opId hroom, List.length_append,
      List.length_singleton]
  case lookup =>
    intro name id
    rw [hnames, Wiring.lookup_namesWith hnew, h.lookup, hop.name_eq, h.nextId_eq]
    simp only [nameAt_append_eq_some_iff, or_and_right, exists_or, and_assoc, exists_eq_left]
  case nameAt_inj =>
    intro name i j hi hj
    rw [nameAt_append_eq_some_iff] at hi hj
    rcases hi with hi | ⟨hi, hs⟩
    · rcases hj with hj | ⟨-, hs⟩
      · exact h.nameAt_inj name i j hi hj
      · exact absurd hi (hfresh name hs i)
    · rcases hj with hj | ⟨hj, -⟩
      · exact absurd hj (hfresh name hs j)
      · rw [hi, hj]
  case current =>
    intro id
    rw [hcurrent, h.nextId_eq, List.length_append, List.length_singleton, Option.some.injEq]
    simp [eq_comm]

theorem built_of_foldlM (rest : List Step) : ∀ {steps : List Step} {w : Wiring}, Built steps w →
    steps.length + rest.length + 1 < UInt64.size →
    rest.foldlM Wiring.addStep w = .ok w' → Built (steps ++ rest) w' := by
  induction rest with
  | nil =>
    intro steps w h _ hfold
    cases hfold
    rwa [List.append_nil]
  | cons s rest ih =>
    intro steps w h hroom hfold
    rw [List.length_cons] at hroom
    rw [List.foldlM_cons] at hfold
    obtain ⟨w₁, hstep, hfold⟩ := exists_of_bind_eq_ok hfold
    rw [List.append_cons]
    refine ih (h.addStep (by omega) hstep) ?_ hfold
    rw [List.length_append, List.length_singleton]
    omega

theorem exists_built_of_build (doc : Pipeline) {p : LogicalPlan}
    (hroom : doc.steps.length + 1 < UInt64.size) (h : doc.build = .ok p) :
    ∃ w, Built doc.steps w ∧ w.plan = p := by
  rw [build] at h
  split at h
  · cases h
  · obtain ⟨w, hw, rfl⟩ := exists_of_map_eq_ok h
    exact ⟨w, built_of_foldlM doc.steps built_empty (by simpa using hroom) hw, rfl⟩

/-- **The plan of a document.** If a document is accepted, its plan is the one that its steps describe.
The bound says no more than that there is an identifier for every step. -/
theorem described_of_build (doc : Pipeline) {p : LogicalPlan}
    (hroom : doc.steps.length + 1 < UInt64.size) (h : doc.build = .ok p) :
    Described doc.steps p := by
  rw [build] at h
  split at h
  · cases h
  · obtain ⟨w, hw, rfl⟩ := exists_of_map_eq_ok h
    exact (built_of_foldlM doc.steps built_empty (by simpa using hroom) hw).described

/-- Two loads; a stream reads the second, a filter the first by its name, and a join all but the
stream, not in the order of their steps. -/
def crossing : Pipeline where
  overrides := none
  steps := [
    .load (some "a") "a.tsv" (some "PigStorage('\t')") (some [⟨"id", "int", none⟩]) none,
    .load (some "b") "b.tsv" none none none,
    .stream none none "clean" none (some [⟨"id", "long", none⟩]),
    .filter (some "f") (some "a") "id > 10",
    .join (some "j") ["f", "b", "a"] [("id", "id")],
    .store none none "out" none]

theorem described_of_build_crossing :
    crossing.steps.length + 1 < UInt64.size ∧
    ∃ p, crossing.build = .ok p ∧ Described crossing.steps p ∧
      p.predecessors (opId 4) = [opId 3, opId 1, opId 0] ∧
      p.successors (opId 0) = [opId 3, opId 4] := by
  have hroom : crossing.steps.length + 1 < UInt64.size := by decide
  have hpred : crossing.build.toOption.map (·.predecessors (opId 4))
      = some [opId 3, opId 1, opId 0] := by decide +kernel
  have hsucc : crossing.build.toOption.map (·.successors (opId 0)) = some [opId 3, opId 4] := by
    decide +kernel
  cases hbuild : crossing.build with
  | error e =>
    rw [hbuild] at hpred
    cases hpred
  | ok p =>
    rw [hbuild] at hpred hsucc
    exact ⟨hroom, p, rfl, described_of_build crossing hroom hbuild, Option.some.inj hpred,
      Option.some.inj hsucc⟩

end Pipeline

end Dataflow
