import Dataflow.Proofs.Json.Order
import Dataflow.Proofs.Json.RoundTrip

/-!
# Plans are read back from sorted trees

The decoders of records do not mind the order of members, so they take from a sorted tree what they
take from the tree that was written. This leaves the tables of a plan. Their keys are numerals, and
as texts `10` comes before `2`, so the entries arrive in another order. But no key is written twice, and
a table is known by its lookups (`ofList_eq_of_perm`), so it is the table that was written.
-/

namespace Dataflow

open Json (IsCodec TakesSorted Unordered exists_of_depth_record_le isCodec_text slots?_record
  slots?_sortKeys variant?_record variant?_sortKeys)

/-! ## Records -/

theorem DataType.unordered : Unordered ofJson := by
  intro n j
  rw [ofJson, ofJson, Unordered.keyword n j]

namespace Field

mutual

theorem ofJson_sortKeys : (n : Nat) → (j : Json) → ofJson n j.sortKeys = ofJson n j
  | 0, _ => rfl
  | n + 1, j => by
    rw [ofJson, ofJson, slots?_sortKeys]
    rcases j.slots? layout with _ | slots
    · rfl
    · rcases slots with _ | ⟨name, _ | ⟨type, _ | ⟨schema, _ | _⟩⟩⟩ <;>
        simp [Unordered.string.nullable, DataType.unordered.required, membersOfJson_sortKeys]

/-- The members lie two levels below the slot of their schema. -/
theorem membersOfJson_sortKeys : (n : Nat) → (slot : Option Json) →
    membersOfJson n (slot.map Json.sortKeys) = membersOfJson n slot
  | _, none => by rw [Option.map_none]
  | 0, some j => by cases j <;> rfl
  | 1, some j => by cases j <;> rfl
  | n + 2, some j => by
    by_cases hj : j = .null
    · rw [hj]
      rfl
    · rw [Option.map_some, membersOfJson, membersOfJson, slots?_sortKeys]
      · rcases j.slots? schemaLayout with _ | _ | ⟨slot, _ | _⟩
        · rfl
        · rfl
        · rcases slot with _ | items
          · rfl
          · cases items <;> simp [Json.sortKeys, Json.mapM_sortKeysItems (ofJson_sortKeys n)]
        · simp
      · exact hj
      · exact mt Json.sortKeys_eq_null_iff.mp hj

end

theorem unordered : Unordered ofJson :=
  ofJson_sortKeys

end Field

theorem Schema.unordered : Unordered ofJson :=
  .record (fun _ ↦ rfl) (fun _ _ ↦ rfl) fun n slots ↦ by
    rcases slots with _ | ⟨fields, _ | _⟩ <;>
      simp [Field.unordered.list.required]

theorem FunctionSpec.unordered : Unordered ofJson :=
  .record (fun _ ↦ rfl) (fun _ _ ↦ rfl) fun n slots ↦ by
    rcases slots with _ | ⟨name, _ | ⟨args, _ | _⟩⟩ <;>
      simp [Unordered.string.required, Unordered.string.list.withDefault]

theorem FileSpec.unordered : Unordered ofJson :=
  .record (fun _ ↦ rfl) (fun _ _ ↦ rfl) fun n slots ↦ by
    rcases slots with _ | ⟨fileName, _ | ⟨function, _ | _⟩⟩ <;>
      simp [Unordered.string.required, FunctionSpec.unordered.required]

theorem OutputHandle.unordered : Unordered ofJson :=
  .record (fun _ ↦ rfl) (fun _ _ ↦ rfl) fun n slots ↦ by
    rcases slots with _ | ⟨text, _ | _⟩ <;> simp [Unordered.string.required]

theorem Command.unordered : Unordered ofJson :=
  .record (fun _ ↦ rfl) (fun _ _ ↦ rfl) fun n slots ↦ by
    rcases slots with _ | ⟨executable, _ | ⟨output, _ | _⟩⟩ <;>
      simp [Unordered.string.required, OutputHandle.unordered.required]

theorem Load.unordered : Unordered ofJson :=
  .record (fun _ ↦ rfl) (fun _ _ ↦ rfl) fun n slots ↦ by
    rcases slots with
        _ | ⟨name, _ | ⟨file, _ | ⟨declared, _ | ⟨determined, _ | ⟨castInserted, _ | _⟩⟩⟩⟩⟩ <;>
      simp [Unordered.string.nullable, FileSpec.unordered.required, Schema.unordered.nullable,
        Unordered.truth.required]

theorem Stream.unordered : Unordered ofJson :=
  .record (fun _ ↦ rfl) (fun _ _ ↦ rfl) fun n slots ↦ by
    rcases slots with _ | ⟨name, _ | ⟨command, _ | ⟨declared, _ | ⟨castInserted, _ | _⟩⟩⟩⟩ <;>
      simp [Unordered.string.nullable, Command.unordered.required, Schema.unordered.nullable,
        Unordered.truth.required]

theorem Filter.unordered : Unordered ofJson :=
  .record (fun _ ↦ rfl) (fun _ _ ↦ rfl) fun n slots ↦ by
    rcases slots with _ | ⟨name, _ | ⟨predicate, _ | _⟩⟩ <;>
      simp [Unordered.string.nullable, Unordered.string.required]

theorem Join.unordered : Unordered ofJson :=
  .record (fun _ ↦ rfl) (fun _ _ ↦ rfl) fun n slots ↦ by
    rcases slots with _ | ⟨name, _ | ⟨on, _ | _⟩⟩ <;>
      simp [Unordered.string.nullable, Unordered.string.pair.list.required]

theorem Store.unordered : Unordered ofJson :=
  .record (fun _ ↦ rfl) (fun _ _ ↦ rfl) fun n slots ↦ by
    rcases slots with _ | ⟨name, _ | ⟨file, _ | _⟩⟩ <;>
      simp [Unordered.string.nullable, FileSpec.unordered.required]

theorem Expr.ofJson_sortKeys : (n : Nat) → (j : Json) → ofJson n j.sortKeys = ofJson n j
  | 0, _ => rfl
  | 1, _ => rfl
  | n + 2, j => by
    rw [ofJson, ofJson, variant?_sortKeys]
    rcases j.variant? with _ | ⟨name, content⟩
    · rfl
    · by_cases hproject : name = "Project"
      · subst hproject
        refine Json.bind_slots?_sortKeys (fun slots ↦ ?_) content
        rcases slots with _ | ⟨input, _ | ⟨column, _ | _⟩⟩ <;> simp [Unordered.word.required]
      · by_cases hcast : name = "Cast"
        · subst hcast
          refine Json.bind_slots?_sortKeys (fun slots ↦ ?_) content
          rcases slots with _ | ⟨_ | arg, _ | ⟨target, _ | ⟨converter, _ | _⟩⟩⟩ <;>
            simp [ofJson_sortKeys n, Field.unordered.required, FunctionSpec.unordered.nullable]
        · simp [hproject, hcast]

theorem Expr.unordered : Unordered ofJson :=
  ofJson_sortKeys

theorem OutputColumn.unordered : Unordered ofJson :=
  .record (fun _ ↦ rfl) (fun _ _ ↦ rfl) fun n slots ↦ by
    rcases slots with _ | ⟨root, _ | _⟩ <;> simp [Expr.unordered.required]

theorem Generate.unordered : Unordered ofJson :=
  .record (fun _ ↦ rfl) (fun _ _ ↦ rfl) fun n slots ↦ by
    rcases slots with _ | ⟨outputs, _ | ⟨flatten, _ | _⟩⟩ <;>
      simp [OutputColumn.unordered.list.required, Unordered.truth.list.required]

theorem InnerOperator.unordered : Unordered ofJson
  | 0, _ => rfl
  | 1, _ => rfl
  | n + 2, j => by
    rw [ofJson, ofJson, variant?_sortKeys]
    rcases j.variant? with _ | ⟨name, content⟩
    · rfl
    · by_cases hgenerate : name = "Generate"
      · subst hgenerate
        simp [Generate.unordered (n + 1) content]
      · by_cases hload : name = "InnerLoad"
        · subst hload
          refine Json.bind_slots?_sortKeys (fun slots ↦ ?_) content
          rcases slots with _ | ⟨column, _ | _⟩ <;> simp [Unordered.word.required]
        · simp [hgenerate, hload]

/-! ## Tables -/

theorem OpId.unordered : Unordered ofJson := by
  intro n j
  rw [ofJson, ofJson, Unordered.word n j]

namespace IdTable

variable {α : Type}

/-- Of entries with different keys, none replaces another. -/
theorem get?_foldl_insert {l : List (OpId × α)} (hl : (l.map (·.1)).Nodup) (t : IdTable α)
    {k : OpId} {a : α} : (l.foldl (fun t e ↦ t.insert e.1 e.2) t).get? k = some a ↔
      (k, a) ∈ l ∨ k ∉ l.map (·.1) ∧ t.get? k = some a := by
  induction l generalizing t with
  | nil => simp
  | cons e l ih =>
    obtain ⟨he, hl⟩ := List.nodup_cons.mp hl
    rw [List.foldl_cons, ih hl, get?_insert]
    by_cases hk : k = e.1
    · subst hk
      have hmem : (e.1, a) ∉ l := fun h ↦ he (List.mem_map.mpr ⟨_, h, rfl⟩)
      simp [he, hmem, Prod.ext_iff, eq_comm]
    · simp [hk, Prod.ext_iff]

/-- A table is the table of its entries in any order. -/
theorem ofList_eq_of_perm {t : IdTable α} {l : List (OpId × α)} (h : t.entries.Perm l) :
    ofList l = t := by
  have hnodup : (l.map (·.1)).Nodup := (h.map Prod.fst).nodup_iff.mp t.nodup_keys
  refine ext_get? fun k ↦ Option.ext fun a ↦ ?_
  rw [ofList, get?_foldl_insert hnodup, get?_empty, ← mem_entries_iff, h.mem_iff]
  simp

end IdTable

section Plan

variable {α : Type} {f : α → Json} {d : Json.Decoder α}

theorem IdTable.takesSorted (h : TakesSorted f d) :
    TakesSorted (toJson f) (ofJson d) := by
  intro t n hn
  obtain ⟨n, rfl, hvalues⟩ := Json.exists_of_depth_obj_le hn
  rw [List.forall_mem_map] at hvalues
  let entry (m : List Char × Json) : Option (OpId × α) := do
    return (← OpId.ofKey? m.1, ← d n m.2)
  -- In the order of the table, the entries are read back one by one.
  have hentries : ((t.entries.map fun e ↦ (e.1.toKey, f e.2)).map
      fun m ↦ (m.1, m.2.sortKeys)).mapM entry = some t.entries := by
    rw [List.map_map]
    exact Json.mapM_map_eq_some fun e he ↦ by
      simp [entry, OpId.ofKey?_toKey, h e.2 (hvalues e he)]
  obtain ⟨l, hl, hperm⟩ := Json.exists_mapM_of_perm (Json.sortKeysMembers_perm _).symm hentries
  change ((Json.sortKeysMembers _).mapM entry).bind (fun l ↦ some (ofList l)) = some t
  rw [hl]
  exact congrArg some (ofList_eq_of_perm hperm)

theorem Plan.takesSorted (h : TakesSorted f d) : TakesSorted (toJson f) (ofJson d) := by
  intro p n hn
  obtain ⟨n, rfl, hoperators, houtgoing, hincoming, hnextId⟩ := exists_of_depth_record_le hn
  have hneighbours := IdTable.takesSorted (OpId.isCodec.list.takesSorted OpId.unordered.list)
  have hslots : (p.toJson f).slots? layout =
      some [some (p.operators.toJson f), some (p.outgoing.toJson (.ofList OpId.toJson)),
        some (p.incoming.toJson (.ofList OpId.toJson)), some p.nextId.toJson] :=
    slots?_record rfl
  simp [ofJson, slots?_sortKeys, hslots, Json.required, IdTable.takesSorted h _ hoperators,
    hneighbours _ houtgoing, hneighbours _ hincoming,
    OpId.isCodec.takesSorted OpId.unordered _ hnextId]

end Plan

/-! ## Operators with plans -/

theorem ForEach.takesSorted : TakesSorted toJson ofJson := by
  intro f n hn
  obtain ⟨n, rfl, hname, hinner⟩ := exists_of_depth_record_le hn
  have hplan := Plan.takesSorted (InnerOperator.isCodec.takesSorted InnerOperator.unordered)
  have hslots : f.toJson.slots? layout =
      some [some (.ofOption .ofString f.name), some (f.inner.toJson InnerOperator.toJson)] :=
    slots?_record rfl
  simp [ofJson, slots?_sortKeys, hslots, Json.required, Json.nullable,
    isCodec_text.takesSorted Unordered.string.option _ hname, hplan _ hinner]

theorem Operator.takesSorted : TakesSorted toJson ofJson := by
  intro op n hn
  cases op with
  | load op =>
    obtain ⟨n, rfl, hop⟩ := exists_of_depth_record_le hn
    simp [ofJson, toJson, variant?_sortKeys, variant?_record,
      Load.isCodec.takesSorted Load.unordered _ hop]
  | stream op =>
    obtain ⟨n, rfl, hop⟩ := exists_of_depth_record_le hn
    simp [ofJson, toJson, variant?_sortKeys, variant?_record,
      Stream.isCodec.takesSorted Stream.unordered _ hop]
  | filter op =>
    obtain ⟨n, rfl, hop⟩ := exists_of_depth_record_le hn
    simp [ofJson, toJson, variant?_sortKeys, variant?_record,
      Filter.isCodec.takesSorted Filter.unordered _ hop]
  | forEach op =>
    obtain ⟨n, rfl, hop⟩ := exists_of_depth_record_le hn
    simp [ofJson, toJson, variant?_sortKeys, variant?_record, ForEach.takesSorted _ hop]
  | join op =>
    obtain ⟨n, rfl, hop⟩ := exists_of_depth_record_le hn
    simp [ofJson, toJson, variant?_sortKeys, variant?_record,
      Join.isCodec.takesSorted Join.unordered _ hop]
  | store op =>
    obtain ⟨n, rfl, hop⟩ := exists_of_depth_record_le hn
    simp [ofJson, toJson, variant?_sortKeys, variant?_record,
      Store.isCodec.takesSorted Store.unordered _ hop]

/-- The plan of a dataflow is read back from its tree in order. -/
theorem LogicalPlan.isCodec_sortKeys : IsCodec (fun p ↦ (toJson p).sortKeys) ofJson :=
  isCodec.sortKeys (Plan.takesSorted Operator.takesSorted)

end Dataflow
