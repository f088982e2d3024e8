import Dataflow.Plan
import Mathlib.Data.List.InsertIdx
import Mathlib.Data.List.Nodup
import Mathlib.Data.List.Perm.Basic

/-!
# Well-formed plans

The edges of a plan are stored twice, in the lists of successors and in the lists of predecessors,
and its identifiers come from a counter. `Plan.WellFormed` says that the two tables describe the same
simple graph over the operators there are, and that the counter is ahead of every identifier.

Each operation on plans is first brought into the form of a total function on the tables
(`insertEdge`, `eraseEdge`, `setOperator`) together with the exact condition under which it
succeeds. That the invariant is kept is then a fact about these functions alone, and
`WellFormed.of_mirrored` asks for no more of them than the parts that do not follow from the others.
-/

namespace Dataflow

instance : Std.Irrefl (fun i j : OpId ↦ i < j) :=
  ⟨OpId.lt_irrefl⟩

instance : Std.Antisymm (fun i j : OpId ↦ i < j) :=
  ⟨fun i _ h h' ↦ absurd (OpId.lt_trans h h') (OpId.lt_irrefl i)⟩

namespace Plan

variable {α : Type} {p q : Plan α} {a b : OpId}

/-! ## Identifiers and lookups -/

theorem mem_ids_iff {id : OpId} : id ∈ p.ids ↔ ∃ op, p.get? id = some op := by
  rw [ids, IdTable.mem_keys_iff, Option.isSome_iff_exists]
  rfl

theorem mem_ids_of_get? {id : OpId} {op : α} (h : p.get? id = some op) : id ∈ p.ids :=
  mem_ids_iff.mpr ⟨op, h⟩

theorem get?_eq_none_iff {id : OpId} : p.get? id = none ↔ id ∉ p.ids := by
  rw [mem_ids_iff, Option.eq_none_iff_forall_ne_some, not_exists]

theorem operator_eq_ok_iff {id : OpId} {op : α} : p.operator id = .ok op ↔ p.get? id = some op := by
  rw [operator]
  cases p.get? id <;> simp

theorem successors_eq_nil_of_notMem (h : a ∉ p.outgoing.keys) : p.successors a = [] := by
  rw [IdTable.mem_keys_iff, Option.not_isSome_iff_eq_none] at h
  rw [successors, h, Option.getD_none]

theorem predecessors_eq_nil_of_notMem (h : a ∉ p.incoming.keys) : p.predecessors a = [] := by
  rw [IdTable.mem_keys_iff, Option.not_isSome_iff_eq_none] at h
  rw [predecessors, h, Option.getD_none]

/-- A list of neighbours after a table was written to. -/
theorem getD_get?_insert (t : IdTable (List OpId)) (k : OpId) (l : List OpId) (a : OpId) :
    ((t.insert k l).get? a).getD [] = if a = k then l else (t.get? a).getD [] := by
  rw [IdTable.get?_insert, apply_ite (Option.getD · []), Option.getD_some]

/-! ## The invariant -/

/-- The two tables of neighbours describe one simple graph over the operators of the plan, and the
identifier that is given out next is above all that are in use. -/
structure WellFormed (p : Plan α) : Prop where
  mem_ids_of_mem_outgoing : ∀ a ∈ p.outgoing.keys, a ∈ p.ids
  mem_ids_of_mem_incoming : ∀ a ∈ p.incoming.keys, a ∈ p.ids
  mem_ids_of_mem_successors : ∀ a, ∀ b ∈ p.successors a, b ∈ p.ids
  mem_ids_of_mem_predecessors : ∀ a, ∀ b ∈ p.predecessors a, b ∈ p.ids
  mirrored : ∀ a b, b ∈ p.successors a ↔ a ∈ p.predecessors b
  nodup_successors : ∀ a, (p.successors a).Nodup
  nodup_predecessors : ∀ a, (p.predecessors a).Nodup
  irreflexive : ∀ a, a ∉ p.successors a
  lt_nextId : ∀ a ∈ p.ids, a < p.nextId

namespace WellFormed

/-- Neighbours are operators because an operator is known as soon as it has a list of its own. -/
theorem of_mirrored (hout : ∀ a ∈ p.outgoing.keys, a ∈ p.ids)
    (hin : ∀ a ∈ p.incoming.keys, a ∈ p.ids)
    (hmir : ∀ a b, b ∈ p.successors a ↔ a ∈ p.predecessors b)
    (hsucc : ∀ a, (p.successors a).Nodup) (hpred : ∀ a, (p.predecessors a).Nodup)
    (hirr : ∀ a, a ∉ p.successors a) (hlt : ∀ a ∈ p.ids, a < p.nextId) : p.WellFormed where
  mem_ids_of_mem_outgoing := hout
  mem_ids_of_mem_incoming := hin
  mem_ids_of_mem_successors a b hb := by
    refine hin b (by_contra fun hk ↦ ?_)
    rw [hmir, predecessors_eq_nil_of_notMem hk] at hb
    exact absurd hb List.not_mem_nil
  mem_ids_of_mem_predecessors a b hb := by
    refine hout b (by_contra fun hk ↦ ?_)
    rw [← hmir, successors_eq_nil_of_notMem hk] at hb
    exact absurd hb List.not_mem_nil
  mirrored := hmir
  nodup_successors := hsucc
  nodup_predecessors := hpred
  irreflexive := hirr
  lt_nextId := hlt

variable (hp : p.WellFormed)
include hp

theorem successors_eq_nil (h : a ∉ p.ids) : p.successors a = [] :=
  successors_eq_nil_of_notMem (mt (hp.mem_ids_of_mem_outgoing a) h)

theorem predecessors_eq_nil (h : a ∉ p.ids) : p.predecessors a = [] :=
  predecessors_eq_nil_of_notMem (mt (hp.mem_ids_of_mem_incoming a) h)

theorem mem_ids_of_successor (h : b ∈ p.successors a) : a ∈ p.ids :=
  hp.mem_ids_of_mem_predecessors b a ((hp.mirrored a b).mp h)

/-- The next identifier is not in use. -/
theorem nextId_notMem_ids : p.nextId ∉ p.ids :=
  fun h ↦ OpId.lt_irrefl _ (hp.lt_nextId _ h)

theorem successors_nextId : p.successors p.nextId = [] :=
  hp.successors_eq_nil hp.nextId_notMem_ids

theorem predecessors_nextId : p.predecessors p.nextId = [] :=
  hp.predecessors_eq_nil hp.nextId_notMem_ids

theorem nextId_notMem_successors (a : OpId) : p.nextId ∉ p.successors a :=
  fun h ↦ hp.nextId_notMem_ids (hp.mem_ids_of_mem_successors a _ h)

end WellFormed

/-! ## Checking the invariant

The invariant speaks of all identifiers, but only those with a list of neighbours and those of
operators can violate it, and these are listed. -/

theorem successors_of_mem_entries {l : List OpId} (h : (a, l) ∈ p.outgoing.entries) :
    p.successors a = l := by
  rw [successors, IdTable.mem_entries_iff.mp h, Option.getD_some]

theorem predecessors_of_mem_entries {l : List OpId} (h : (a, l) ∈ p.incoming.entries) :
    p.predecessors a = l := by
  rw [predecessors, IdTable.mem_entries_iff.mp h, Option.getD_some]

theorem exists_mem_entries_of_mem_keys {β : Type} {t : IdTable β} (h : a ∈ t.keys) :
    ∃ b, (a, b) ∈ t.entries := by
  obtain ⟨b, hb⟩ := Option.isSome_iff_exists.mp (IdTable.mem_keys_iff.mp h)
  exact ⟨b, IdTable.mem_entries_iff.mpr hb⟩

theorem mem_entries_of_mem_successors (h : b ∈ p.successors a) :
    (a, p.successors a) ∈ p.outgoing.entries := by
  have hk : a ∈ p.outgoing.keys := by
    by_contra hk
    rw [successors_eq_nil_of_notMem hk] at h
    exact absurd h List.not_mem_nil
  obtain ⟨l, hl⟩ := exists_mem_entries_of_mem_keys hk
  rwa [successors_of_mem_entries hl]

theorem mem_entries_of_mem_predecessors (h : b ∈ p.predecessors a) :
    (a, p.predecessors a) ∈ p.incoming.entries := by
  have hk : a ∈ p.incoming.keys := by
    by_contra hk
    rw [predecessors_eq_nil_of_notMem hk] at h
    exact absurd h List.not_mem_nil
  obtain ⟨l, hl⟩ := exists_mem_entries_of_mem_keys hk
  rwa [predecessors_of_mem_entries hl]

theorem wellFormed_iff : p.WellFormed ↔
    (∀ e ∈ p.outgoing.entries,
      e.1 ∈ p.ids ∧ e.2.Nodup ∧ e.1 ∉ e.2 ∧ ∀ b ∈ e.2, e.1 ∈ p.predecessors b) ∧
    (∀ e ∈ p.incoming.entries, e.1 ∈ p.ids ∧ e.2.Nodup ∧ ∀ a ∈ e.2, e.1 ∈ p.successors a) ∧
    ∀ a ∈ p.ids, a < p.nextId := by
  constructor
  · intro hp
    refine ⟨fun ⟨a, l⟩ h ↦ ?_, fun ⟨a, l⟩ h ↦ ?_, hp.lt_nextId⟩
    · rw [← successors_of_mem_entries h]
      exact ⟨hp.mem_ids_of_mem_outgoing a (List.mem_map_of_mem h), hp.nodup_successors a,
        hp.irreflexive a, fun b ↦ (hp.mirrored a b).mp⟩
    · rw [← predecessors_of_mem_entries h]
      exact ⟨hp.mem_ids_of_mem_incoming a (List.mem_map_of_mem h), hp.nodup_predecessors a,
        fun b ↦ (hp.mirrored b a).mpr⟩
  · rintro ⟨hout, hin, hlt⟩
    refine .of_mirrored (fun a ha ↦ ?_) (fun a ha ↦ ?_) (fun a b ↦ ⟨fun h ↦ ?_, fun h ↦ ?_⟩)
      (fun a ↦ ?_) (fun a ↦ ?_) (fun a h ↦ ?_) hlt
    · obtain ⟨l, hl⟩ := exists_mem_entries_of_mem_keys ha
      exact (hout _ hl).1
    · obtain ⟨l, hl⟩ := exists_mem_entries_of_mem_keys ha
      exact (hin _ hl).1
    · exact (hout _ (mem_entries_of_mem_successors h)).2.2.2 b h
    · exact (hin _ (mem_entries_of_mem_predecessors h)).2.2 a h
    · by_cases hk : a ∈ p.outgoing.keys
      · obtain ⟨l, hl⟩ := exists_mem_entries_of_mem_keys hk
        rw [successors_of_mem_entries hl]
        exact (hout _ hl).2.1
      · rw [successors_eq_nil_of_notMem hk]
        exact List.nodup_nil
    · by_cases hk : a ∈ p.incoming.keys
      · obtain ⟨l, hl⟩ := exists_mem_entries_of_mem_keys hk
        rw [predecessors_of_mem_entries hl]
        exact (hin _ hl).2.1
      · rw [predecessors_eq_nil_of_notMem hk]
        exact List.nodup_nil
    · exact (hout _ (mem_entries_of_mem_successors h)).2.2.1 h

instance (p : Plan α) : Decidable p.WellFormed :=
  decidable_of_iff' _ wellFormed_iff

theorem wellFormed_empty : (empty : Plan α).WellFormed :=
  wellFormed_iff.mpr ⟨nofun, nofun, nofun⟩

/-! ## Adding operators -/

@[simp] theorem add_fst (p : Plan α) (op : α) : (p.add op).1 = p.nextId := rfl

@[simp] theorem nextId_add (p : Plan α) (op : α) : (p.add op).2.nextId = p.nextId.next := rfl

@[simp] theorem successors_add (p : Plan α) (op : α) (a : OpId) :
    (p.add op).2.successors a = p.successors a := rfl

@[simp] theorem predecessors_add (p : Plan α) (op : α) (a : OpId) :
    (p.add op).2.predecessors a = p.predecessors a := rfl

theorem get?_add (p : Plan α) (op : α) (a : OpId) :
    (p.add op).2.get? a = if a = p.nextId then some op else p.get? a :=
  IdTable.get?_insert ..

theorem mem_ids_add {op : α} : a ∈ (p.add op).2.ids ↔ a = p.nextId ∨ a ∈ p.ids :=
  IdTable.mem_keys_insert

/-- Adding keeps the invariant as long as the counter does not start over. -/
theorem WellFormed.add (hp : p.WellFormed) (hroom : p.nextId.toNat + 1 < UInt64.size) (op : α) :
    (p.add op).2.WellFormed := by
  refine .of_mirrored (fun a ha ↦ ?_) (fun a ha ↦ ?_) hp.mirrored hp.nodup_successors
    hp.nodup_predecessors hp.irreflexive fun a ha ↦ ?_
  · exact mem_ids_add.mpr (.inr (hp.mem_ids_of_mem_outgoing a ha))
  · exact mem_ids_add.mpr (.inr (hp.mem_ids_of_mem_incoming a ha))
  · rw [nextId_add, OpId.lt_iff, OpId.toNat_next hroom]
    rcases mem_ids_add.mp ha with rfl | ha
    · exact Nat.lt_succ_self _
    · exact Nat.lt_succ_of_lt (OpId.lt_iff.mp (hp.lt_nextId a ha))

/-! ## Replacing operators -/

/-- The plan with another operator under an identifier. -/
def setOperator (p : Plan α) (id : OpId) (op : α) : Plan α :=
  { p with operators := p.operators.insert id op }

theorem modify_eq_ok_iff {id : OpId} {f : α → Except Error α} :
    p.modify id f = .ok q ↔
      ∃ op op', p.get? id = some op ∧ f op = .ok op' ∧ q = p.setOperator id op' := by
  rw [modify, operator]
  cases hop : p.get? id with
  | none => simp [bind, Except.bind]
  | some op => cases hf : f op <;> simp [bind, Except.bind, pure, Except.pure, hf, setOperator, eq_comm]

@[simp] theorem nextId_setOperator (id : OpId) (op : α) : (p.setOperator id op).nextId = p.nextId :=
  rfl

@[simp] theorem successors_setOperator (id : OpId) (op : α) (a : OpId) :
    (p.setOperator id op).successors a = p.successors a := rfl

@[simp] theorem predecessors_setOperator (id : OpId) (op : α) (a : OpId) :
    (p.setOperator id op).predecessors a = p.predecessors a := rfl

theorem get?_setOperator (id : OpId) (op : α) (a : OpId) :
    (p.setOperator id op).get? a = if a = id then some op else p.get? a :=
  IdTable.get?_insert ..

theorem mem_ids_setOperator {id : OpId} {op : α} (h : id ∈ p.ids) :
    a ∈ (p.setOperator id op).ids ↔ a ∈ p.ids := by
  rw [ids, setOperator, IdTable.mem_keys_insert]
  exact or_iff_right_of_imp fun ha ↦ ha ▸ h

theorem WellFormed.setOperator (hp : p.WellFormed) {id : OpId} (h : id ∈ p.ids) (op : α) :
    (p.setOperator id op).WellFormed := by
  refine .of_mirrored (fun a ha ↦ ?_) (fun a ha ↦ ?_) hp.mirrored hp.nodup_successors
    hp.nodup_predecessors hp.irreflexive fun a ha ↦ ?_
  · exact (mem_ids_setOperator h).mpr (hp.mem_ids_of_mem_outgoing a ha)
  · exact (mem_ids_setOperator h).mpr (hp.mem_ids_of_mem_incoming a ha)
  · exact hp.lt_nextId a ((mem_ids_setOperator h).mp ha)

/-! ## Inserting edges -/

/-- The plan with one more edge, put into the given slots. -/
def insertEdge (p : Plan α) (source : OpId) (outSlot : Nat) (target : OpId) (inSlot : Nat) :
    Plan α :=
  { p with
    outgoing := p.outgoing.insert source ((p.successors source).insertIdx outSlot target)
    incoming := p.incoming.insert target ((p.predecessors target).insertIdx inSlot source) }

/-- What `connectAt` asks for: two different known operators without an edge, and slots that do not
leave a gap. -/
structure Connectable (p : Plan α) (source : OpId) (outSlot : Nat) (target : OpId) (inSlot : Nat) :
    Prop where
  source_mem : source ∈ p.ids
  target_mem : target ∈ p.ids
  source_ne_target : source ≠ target
  notMem_successors : target ∉ p.successors source
  outSlot_le : outSlot ≤ (p.successors source).length
  inSlot_le : inSlot ≤ (p.predecessors target).length

theorem connectAt_eq_ok_iff {s t : OpId} {i j : Nat} :
    p.connectAt s i t j = .ok q ↔ p.Connectable s i t j ∧ q = p.insertEdge s i t j := by
  constructor
  · intro h
    rw [connectAt, operator, operator] at h
    cases hs : p.get? s with
    | none => simp [hs, bind, Except.bind] at h
    | some a =>
      cases ht : p.get? t with
      | none => simp [hs, ht, bind, Except.bind] at h
      | some b =>
        simp only [hs, ht, bind, Except.bind] at h
        split at h
        · cases h
        · rename_i hne
          split at h
          · cases h
          · rename_i hnew
            split at h
            · cases h
            · rename_i hi
              split at h
              · cases h
              · rename_i hj
                refine ⟨⟨mem_ids_of_get? hs, mem_ids_of_get? ht, hne, by simpa using hnew,
                  Nat.le_of_not_lt hi, Nat.le_of_not_lt hj⟩, ?_⟩
                exact (Except.ok.inj h).symm
  · rintro ⟨h, rfl⟩
    obtain ⟨a, hs⟩ := mem_ids_iff.mp h.source_mem
    obtain ⟨b, ht⟩ := mem_ids_iff.mp h.target_mem
    have hnew : ¬ (p.successors s).contains t = true := by simpa using h.notMem_successors
    simp only [connectAt, operator, hs, ht, bind, Except.bind]
    rw [if_neg h.source_ne_target, if_neg hnew, if_neg (Nat.not_lt.mpr h.outSlot_le),
      if_neg (Nat.not_lt.mpr h.inSlot_le)]
    rfl

@[simp] theorem nextId_insertEdge (s t : OpId) (i j : Nat) :
    (p.insertEdge s i t j).nextId = p.nextId := rfl

@[simp] theorem get?_insertEdge (s t : OpId) (i j : Nat) (a : OpId) :
    (p.insertEdge s i t j).get? a = p.get? a := rfl

@[simp] theorem ids_insertEdge (s t : OpId) (i j : Nat) : (p.insertEdge s i t j).ids = p.ids := rfl

theorem successors_insertEdge (s t : OpId) (i j : Nat) (a : OpId) :
    (p.insertEdge s i t j).successors a
      = if a = s then (p.successors s).insertIdx i t else p.successors a :=
  getD_get?_insert ..

theorem predecessors_insertEdge (s t : OpId) (i j : Nat) (a : OpId) :
    (p.insertEdge s i t j).predecessors a
      = if a = t then (p.predecessors t).insertIdx j s else p.predecessors a :=
  getD_get?_insert ..

theorem nodup_insertIdx {l : List OpId} (hl : l.Nodup) {i : Nat} {x : OpId} (hi : i ≤ l.length)
    (hx : x ∉ l) : (l.insertIdx i x).Nodup :=
  (List.perm_insertIdx x l hi).nodup_iff.mpr (List.nodup_cons.mpr ⟨hx, hl⟩)

theorem Connectable.mem_successors_insertEdge {s t : OpId} {i j : Nat} (h : p.Connectable s i t j) :
    b ∈ (p.insertEdge s i t j).successors a ↔ b ∈ p.successors a ∨ (a = s ∧ b = t) := by
  rw [successors_insertEdge]
  by_cases has : a = s
  · rw [if_pos has, List.mem_insertIdx h.outSlot_le, has, or_comm, and_iff_right rfl]
  · simp [has]

theorem Connectable.mem_predecessors_insertEdge {s t : OpId} {i j : Nat}
    (h : p.Connectable s i t j) :
    a ∈ (p.insertEdge s i t j).predecessors b ↔ a ∈ p.predecessors b ∨ (a = s ∧ b = t) := by
  rw [predecessors_insertEdge]
  by_cases hbt : b = t
  · rw [if_pos hbt, List.mem_insertIdx h.inSlot_le, hbt, or_comm, and_iff_left rfl]
  · simp [hbt]

theorem WellFormed.insertEdge (hp : p.WellFormed) {s t : OpId} {i j : Nat}
    (h : p.Connectable s i t j) : (p.insertEdge s i t j).WellFormed := by
  refine .of_mirrored (fun a ha ↦ ?_) (fun a ha ↦ ?_) (fun a b ↦ ?_) (fun a ↦ ?_) (fun a ↦ ?_)
    (fun a ↦ ?_) hp.lt_nextId
  · rcases IdTable.mem_keys_insert.mp ha with rfl | ha
    · exact h.source_mem
    · exact hp.mem_ids_of_mem_outgoing a ha
  · rcases IdTable.mem_keys_insert.mp ha with rfl | ha
    · exact h.target_mem
    · exact hp.mem_ids_of_mem_incoming a ha
  · rw [h.mem_successors_insertEdge, h.mem_predecessors_insertEdge, hp.mirrored]
  · rw [successors_insertEdge]
    split
    · exact nodup_insertIdx (hp.nodup_successors s) h.outSlot_le h.notMem_successors
    · exact hp.nodup_successors a
  · rw [predecessors_insertEdge]
    split
    · exact nodup_insertIdx (hp.nodup_predecessors t) h.inSlot_le
        (mt (hp.mirrored s t).mpr h.notMem_successors)
    · exact hp.nodup_predecessors a
  · rw [h.mem_successors_insertEdge]
    rintro (ha | ⟨rfl, hat⟩)
    · exact hp.irreflexive a ha
    · exact h.source_ne_target hat

/-! ## Erasing edges -/

/-- The plan without the edge between two operators. -/
def eraseEdge (p : Plan α) (source target : OpId) : Plan α :=
  { p with
    outgoing := p.outgoing.insert source ((p.successors source).erase target)
    incoming := p.incoming.insert target ((p.predecessors target).erase source) }

/-- The edge between two neighbours, with the slots at which either lists the other. -/
def edgeOf (p : Plan α) (source target : OpId) : Edge :=
  ⟨source, target, (p.successors source).idxOf target, (p.predecessors target).idxOf source⟩

theorem idxOf?_of_mem {l : List OpId} {x : OpId} (h : x ∈ l) : l.idxOf? x = some (l.idxOf x) := by
  obtain ⟨i, hi⟩ := Option.isSome_iff_exists.mp (List.isSome_idxOf?.mpr h)
  rw [List.idxOf_eq_getD_idxOf?, hi, Option.getD_some]

theorem edge?_eq_some_iff {s t : OpId} {e : Edge} :
    p.edge? s t = some e ↔ t ∈ p.successors s ∧ s ∈ p.predecessors t ∧ e = p.edgeOf s t := by
  rw [edge?]
  by_cases ht : t ∈ p.successors s
  · by_cases hs : s ∈ p.predecessors t
    · simp [ht, hs, idxOf?_of_mem, edgeOf, eq_comm]
    · simp [hs, List.idxOf?_eq_none_iff.mpr hs]
  · simp [ht, List.idxOf?_eq_none_iff.mpr ht]

theorem disconnect_eq_ok_iff {s t : OpId} {e : Edge} :
    p.disconnect s t = .ok (e, q) ↔
      t ∈ p.successors s ∧ s ∈ p.predecessors t ∧ e = p.edgeOf s t ∧ q = p.eraseEdge s t := by
  rw [disconnect]
  cases he : p.edge? s t with
  | none =>
    refine ⟨nofun, fun ⟨ht, hs, _⟩ ↦ ?_⟩
    rw [edge?_eq_some_iff.mpr ⟨ht, hs, rfl⟩] at he
    cases he
  | some e' =>
    obtain ⟨ht, hs, rfl⟩ := edge?_eq_some_iff.mp he
    simp [ht, hs, eraseEdge, edgeOf, eq_comm]

@[simp] theorem nextId_eraseEdge (s t : OpId) : (p.eraseEdge s t).nextId = p.nextId := rfl

@[simp] theorem get?_eraseEdge (s t : OpId) (a : OpId) : (p.eraseEdge s t).get? a = p.get? a := rfl

@[simp] theorem ids_eraseEdge (s t : OpId) : (p.eraseEdge s t).ids = p.ids := rfl

theorem successors_eraseEdge (s t a : OpId) :
    (p.eraseEdge s t).successors a
      = if a = s then (p.successors s).erase t else p.successors a :=
  getD_get?_insert ..

theorem predecessors_eraseEdge (s t a : OpId) :
    (p.eraseEdge s t).predecessors a
      = if a = t then (p.predecessors t).erase s else p.predecessors a :=
  getD_get?_insert ..

theorem WellFormed.mem_successors_eraseEdge (hp : p.WellFormed) {s t : OpId} :
    b ∈ (p.eraseEdge s t).successors a ↔ b ∈ p.successors a ∧ ¬ (a = s ∧ b = t) := by
  rw [successors_eraseEdge]
  by_cases has : a = s
  · rw [if_pos has, (hp.nodup_successors s).mem_erase_iff, has, and_comm, and_iff_right rfl]
  · simp [has]

theorem WellFormed.mem_predecessors_eraseEdge (hp : p.WellFormed) {s t : OpId} :
    a ∈ (p.eraseEdge s t).predecessors b ↔ a ∈ p.predecessors b ∧ ¬ (a = s ∧ b = t) := by
  rw [predecessors_eraseEdge]
  by_cases hbt : b = t
  · rw [if_pos hbt, (hp.nodup_predecessors t).mem_erase_iff, hbt, and_comm, and_iff_left rfl]
  · simp [hbt]

theorem WellFormed.eraseEdge (hp : p.WellFormed) {s t : OpId} (h : t ∈ p.successors s) :
    (p.eraseEdge s t).WellFormed := by
  refine .of_mirrored (fun a ha ↦ ?_) (fun a ha ↦ ?_) (fun a b ↦ ?_) (fun a ↦ ?_) (fun a ↦ ?_)
    (fun a ha ↦ hp.irreflexive a (hp.mem_successors_eraseEdge.mp ha).1) hp.lt_nextId
  · rcases IdTable.mem_keys_insert.mp ha with rfl | ha
    · exact hp.mem_ids_of_successor h
    · exact hp.mem_ids_of_mem_outgoing a ha
  · rcases IdTable.mem_keys_insert.mp ha with rfl | ha
    · exact hp.mem_ids_of_mem_successors s a h
    · exact hp.mem_ids_of_mem_incoming a ha
  · rw [hp.mem_successors_eraseEdge, hp.mem_predecessors_eraseEdge, hp.mirrored]
  · rw [successors_eraseEdge]
    split
    · exact (hp.nodup_successors s).erase t
    · exact hp.nodup_successors a
  · rw [predecessors_eraseEdge]
    split
    · exact (hp.nodup_predecessors t).erase s
    · exact hp.nodup_predecessors a

end Plan

end Dataflow
