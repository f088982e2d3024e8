import Dataflow.Proofs.Pipeline.Build
import Dataflow.Proofs.Pipeline.Validity

/-!
# Which documents are accepted

Building the plan of a document carries out the checks of its steps. Some are made before anything is
built, others by the operations on plans, and that of a name comes only after the operator was added.
`Enforces` is what all these have in common: a computation fails exactly where the step fails one of a
list of checks, and with the first. Two of them in a row enforce the two lists in a row
(`Enforces.bind`), so a step enforces its checks in their order because its parts do.
-/

namespace Dataflow

namespace Pipeline

open Step

variable {earlier steps : List Step} {s : Step} {w : Wiring} {cs cs' : List Check} {c : Check}
  {e : PipelineError} {p q : LogicalPlan} {op : Operator} {inputs : List OpId} {a v : OpId}
  {α β : Type}

/-! ## Carrying out checks -/

/-- The computation fails where the step fails one of the checks, and with the first of these. -/
def Enforces (earlier : List Step) (s : Step) (cs : List Check) (x : Except PipelineError α) :
    Prop :=
  ∀ e, x = .error e ↔ ∃ c, s.FailsFirst earlier cs c e

namespace Enforces

variable {x : Except PipelineError α}

theorem nil (h : ∀ e, x ≠ .error e) : Enforces earlier s [] x := by
  refine fun e ↦ ⟨fun hx ↦ absurd hx (h e), ?_⟩
  rintro ⟨c, before, after, heq, -⟩
  simp at heq

theorem single (h : ∀ e, x = .error e ↔ s.Fails earlier c e) : Enforces earlier s [c] x := by
  intro e
  simp only [h, failsFirst_singleton, exists_eq_left]

theorem map (h : Enforces earlier s cs x) (f : α → β) : Enforces earlier s cs (f <$> x) :=
  fun e ↦ map_eq_error_iff.trans (h e)

theorem exists_eq_ok_iff (h : Enforces earlier s cs x) :
    (∃ a, x = .ok a) ↔ ∀ c ∈ cs, s.Passes earlier c := by
  rw [forall_passes_iff]
  cases hx : x with
  | ok a =>
    refine iff_of_true ⟨a, rfl⟩ fun c e hc ↦ ?_
    rw [(h e).mpr ⟨c, hc⟩] at hx
    cases hx
  | error e =>
    obtain ⟨c, hc⟩ := (h e).mp hx
    exact iff_of_false nofun fun hnot ↦ hnot c e hc

theorem bind (h : Enforces earlier s cs x) {f : α → Except PipelineError β}
    (hf : ∀ a, x = .ok a → Enforces earlier s cs' (f a)) :
    Enforces earlier s (cs ++ cs') (x >>= f) := by
  intro e
  rw [bind_eq_error_iff, h e]
  simp only [failsFirst_append, exists_or]
  refine or_congr_right ?_
  constructor
  · rintro ⟨a, ha, he⟩
    obtain ⟨c, hc⟩ := (hf a ha e).mp he
    exact ⟨c, h.exists_eq_ok_iff.mp ⟨a, ha⟩, hc⟩
  · rintro ⟨c, hcs, hc⟩
    obtain ⟨a, ha⟩ := h.exists_eq_ok_iff.mpr hcs
    exact ⟨a, ha, (hf a ha e).mpr ⟨c, hc⟩⟩

end Enforces

/-! ## Making an operator -/

theorem enforces_function {fileName : String} {function : Option String}
    (hs : s.function? = some (function.getD "PigStorage")) :
    Enforces earlier s [.function] ((FileSpec.parse fileName function).mapError .model) := by
  refine .single fun e ↦ ?_
  change (FileSpec.mk fileName <$> FunctionSpec.parse _).mapError _ = _ ↔ _
  simp only [mapError_eq_error_iff, map_eq_error_iff]
  constructor
  · rintro ⟨e, he, rfl⟩
    exact .function hs he
  · intro h
    cases h with
    | function function_eq refused =>
      cases hs.symm.trans function_eq
      exact ⟨_, refused, rfl⟩

theorem enforces_declared {declared : Option (List FieldDecl)} (hs : s.declared? = declared) :
    Enforces earlier s [.declared] ((FieldDecl.toSchema? declared).mapError .model) := by
  refine .single fun e ↦ ?_
  simp only [mapError_eq_error_iff, FieldDecl.toSchema?_eq_error_iff, ← hs]
  constructor
  · rintro ⟨e, ⟨ds, hds, he⟩, rfl⟩
    exact .declared hds he
  · intro h
    cases h with
    | declared declared_eq fault => exact ⟨_, ⟨_, declared_eq, fault⟩, rfl⟩

theorem enforces_determined {determined : Option (List FieldDecl)}
    (hs : s.determined? = determined) :
    Enforces earlier s [.determined] ((FieldDecl.toSchema? determined).mapError .model) := by
  refine .single fun e ↦ ?_
  simp only [mapError_eq_error_iff, FieldDecl.toSchema?_eq_error_iff, ← hs]
  constructor
  · rintro ⟨e, ⟨ds, hds, he⟩, rfl⟩
    exact .determined hds he
  · intro h
    cases h with
    | determined determined_eq fault => exact ⟨_, ⟨_, determined_eq, fault⟩, rfl⟩

theorem enforces_pairing {l : Load} {d : Schema} {ds : List FieldDecl}
    (hdeclared : l.declared.map Schema.size = s.declared?.map List.length)
    (hds : s.determined? = some ds) (hd : d.size = ds.length) :
    Enforces earlier s [.pairing] ((l.withDetermined d).mapError .model) := by
  refine .single fun e ↦ ?_
  rw [mapError_eq_error_iff, Load.withDetermined]
  cases hs : s.declared? with
  | none =>
    rw [hs, Option.map_none, Option.map_eq_none_iff] at hdeclared
    rw [hdeclared]
    constructor
    · rintro ⟨e, ⟨⟩, rfl⟩
      exact .undeclared hds hs
    · intro h
      cases h with
      | undeclared _ _ => exact ⟨_, rfl, rfl⟩
      | unequal _ declared_eq _ => cases hs.symm.trans declared_eq
  | some ds' =>
    rw [hs, Option.map_some, Option.map_eq_some_iff] at hdeclared
    obtain ⟨d', hd', hsize⟩ := hdeclared
    simp only [hd', hsize, hd]
    constructor
    · rintro ⟨e, he, rfl⟩
      split at he
      · cases he
      · rename_i hne
        cases he
        exact .unequal hds hs (Ne.symm hne)
    · intro h
      cases h with
      | undeclared _ declared_eq => cases hs.symm.trans declared_eq
      | unequal determined_eq declared_eq length_ne =>
        cases hds.symm.trans determined_eq
        cases hs.symm.trans declared_eq
        exact ⟨_, if_neg length_ne.symm, rfl⟩

theorem enforces_pairing_of_none {x : Except PipelineError α} (hx : ∀ e, x ≠ .error e)
    (hs : s.determined? = none) : Enforces earlier s [.pairing] x := by
  refine .single fun e ↦ iff_of_false (hx e) fun h ↦ ?_
  cases h with
  | undeclared determined_eq _ => cases hs.symm.trans determined_eq
  | unequal determined_eq _ _ => cases hs.symm.trans determined_eq

theorem enforces_load {name loader : Option String} {source : String}
    {schema determined : Option (List FieldDecl)} :
    Enforces earlier (.load name source loader schema determined)
      ([.function] ++ ([.declared] ++ ([.determined] ++ [.pairing])))
      ((Load.make name source loader schema determined).mapError .model) := by
  rw [Load.make, mapError_bind]
  refine (enforces_function rfl).bind fun file _ ↦ ?_
  rw [mapError_bind]
  refine (enforces_declared rfl).bind fun d hd ↦ ?_
  rw [mapError_bind]
  refine (enforces_determined rfl).bind fun found hfound ↦ ?_
  have hdeclared := FieldDecl.toSchema?_eq_ok (eq_ok_of_mapError hd)
  have hsize := FieldDecl.toSchema?_eq_ok (eq_ok_of_mapError hfound)
  cases found with
  | none =>
    rw [Option.map_none, eq_comm, Option.map_eq_none_iff] at hsize
    exact enforces_pairing_of_none nofun hsize
  | some found =>
    rw [Option.map_some, eq_comm, Option.map_eq_some_iff] at hsize
    obtain ⟨ds, hds, hlength⟩ := hsize
    exact enforces_pairing hdeclared hds hlength.symm

theorem enforces_stream {name input output : Option String} {command : String}
    {schema : Option (List FieldDecl)} :
    Enforces earlier (.stream name input command output schema) [.declared]
      ((Stream.make name command output schema).mapError .model) := by
  rw [Stream.make, mapError_bind]
  exact (enforces_declared rfl).bind fun d _ ↦ .nil nofun

/-! ## Finding the inputs -/

theorem enforces_count {x : Except PipelineError α} {n : Nat} (hs : s.references.length = n)
    (hx : Enforces earlier s cs x) : Enforces earlier s ([.count] ++ cs)
      (if n < 2 then .error (.wiring (.tooFewInputs n)) else x) := by
  subst hs
  have hcount : Enforces earlier s [.count] (if s.references.length < 2 then
      .error (.wiring (.tooFewInputs s.references.length)) else .ok () : Except _ Unit) := by
    refine .single fun e ↦ ?_
    split
    · rename_i hfew
      refine ⟨fun he ↦ Except.error.inj he ▸ .count hfew, fun he ↦ ?_⟩
      cases he with
      | count => rfl
    · rename_i hmany
      refine iff_of_false nofun fun he ↦ ?_
      cases he with
      | count few => exact hmany few
  have hbind := hcount.bind fun _ _ ↦ hx
  split at hbind
  · rwa [if_pos ‹_›]
  · rwa [if_neg ‹_›]

theorem input_eq_error_iff (h : Built earlier w) {reader : String} (input : Option String) :
    w.input reader input = .error e ↔
      ¬ Available earlier (.ofInput input) ∧ .wiring ((Reference.ofInput input).fault reader) = e := by
  cases input with
  | none =>
    rw [Wiring.input]
    cases hcurrent : w.current with
    | none =>
      have hnil : ¬ Available earlier .previous := by
        intro hne
        have hpos : earlier.length - 1 + 1 = earlier.length :=
          Nat.sub_add_cancel (List.length_pos_iff.mpr hne)
        rw [(h.current _).mpr ⟨_, hpos, rfl⟩] at hcurrent
        cases hcurrent
      simp [Reference.ofInput, Reference.fault, hnil]
    | some id =>
      have hcons : Available earlier .previous := by
        obtain ⟨j, hj, -⟩ := (h.current id).mp hcurrent
        exact List.ne_nil_of_length_eq_add_one hj.symm
      simp [Reference.ofInput, hcons]
  | some name =>
    rw [Wiring.input, Wiring.named]
    cases hlookup : w.names.lookup name with
    | none =>
      have hnone : ¬ Available earlier (.named name) := by
        rintro ⟨j, hj⟩
        rw [(h.lookup _ _).mpr ⟨j, hj, rfl⟩] at hlookup
        cases hlookup
      simp [Reference.ofInput, Reference.fault, hnone]
    | some id =>
      have hsome : Available earlier (.named name) := by
        obtain ⟨j, hj, -⟩ := (h.lookup _ _).mp hlookup
        exact ⟨j, hj⟩
      simp [Reference.ofInput, hsome]

theorem exists_input_eq_ok_iff (h : Built earlier w) {reader : String} (input : Option String) :
    (∃ id, w.input reader input = .ok id) ↔ Available earlier (.ofInput input) := by
  cases hinput : w.input reader input with
  | ok id =>
    refine iff_of_true ⟨id, rfl⟩ (by_contra fun hnot ↦ ?_)
    rw [(input_eq_error_iff h input).mpr ⟨hnot, rfl⟩] at hinput
    cases hinput
  | error e => exact iff_of_false nofun ((input_eq_error_iff h input).mp hinput).1

theorem enforces_input (h : Built earlier w) {input : Option String}
    (hs : s.references = [.ofInput input]) :
    Enforces earlier s [.inputs] (w.input s.word input) := by
  refine .single fun e ↦ ?_
  rw [input_eq_error_iff h]
  constructor
  · rintro ⟨hmissing, rfl⟩
    have hsplit : s.references = [] ++ .ofInput input :: [] := hs
    exact .inputs hsplit (List.forall_mem_nil _) hmissing
  · intro h
    cases h with
    | @inputs before after r references_eq available missing =>
      rw [hs] at references_eq
      cases before with
      | nil =>
        cases references_eq
        exact ⟨missing, rfl⟩
      | cons b before => simp at references_eq

theorem enforces_inputs (h : Built earlier w) {names : List String}
    (hs : s.references = names.map .named) :
    Enforces earlier s [.inputs] (names.mapM (w.named s.word)) := by
  refine .single fun e ↦ ?_
  rw [mapM_eq_error_iff]
  constructor
  · rintro ⟨before, name, after, rfl, hbefore, he⟩
    obtain ⟨hmissing, rfl⟩ := (input_eq_error_iff h (some name)).mp he
    rw [List.map_append, List.map_cons] at hs
    refine .inputs hs (List.forall_mem_map.mpr fun b hb ↦ ?_) hmissing
    exact (exists_input_eq_ok_iff h (some b)).mp (hbefore b hb)
  · intro h'
    cases h' with
    | inputs references_eq available missing =>
      rw [hs] at references_eq
      obtain ⟨before, rest, rfl, rfl, hrest⟩ := List.map_eq_append_iff.mp references_eq
      obtain ⟨name, after, rfl, rfl, rfl⟩ := List.map_eq_cons_iff.mp hrest
      refine ⟨before, name, after, rfl, fun b hb ↦ ?_, ?_⟩
      · exact (exists_input_eq_ok_iff h (some b)).mpr
          (available _ (List.mem_map_of_mem hb))
      · exact (input_eq_error_iff h (some name)).mpr ⟨missing, rfl⟩

/-- What a reference stands for is the operator of an earlier step. -/
theorem exists_opId_of_resolves (h : Built earlier w) {r : Reference} (hr : w.Resolves r a) :
    ∃ j < earlier.length, a = opId j := by
  cases r with
  | previous =>
    obtain ⟨j, hj, rfl⟩ := (h.current a).mp hr
    exact ⟨j, by omega, rfl⟩
  | named name =>
    obtain ⟨j, hj, rfl⟩ := (h.lookup name a).mp hr
    exact ⟨j, nameAt_lt hj, rfl⟩

theorem exists_map_of_mapM_named {names : List String} {reader : String}
    (h : names.mapM (w.named reader) = .ok inputs) : ∃ f : String → OpId,
      inputs = names.map f ∧ ∀ name ∈ names, w.names.lookup name = some (f name) := by
  have hall : List.Forall₂ (fun name id ↦ w.names.lookup name = some id) names inputs :=
    (forall₂_of_mapM_eq_ok h).imp fun _ _ ↦ Wiring.resolves_of_named
  let f := fun name ↦ (w.names.lookup name).getD w.plan.nextId
  have hf : List.Forall₂ (fun name id ↦ f name = id) names inputs :=
    hall.imp fun name id hid ↦ by simp only [f, hid, Option.getD_some]
  have hinputs : names.map f = inputs := by
    rwa [← List.forall₂_map_left_iff (R := Eq), List.forall₂_eq_eq_eq] at hf
  rw [← hinputs, List.forall₂_map_right_iff, List.forall₂_same] at hall
  exact ⟨f, hinputs.symm, hall⟩

/-! ## Connecting the inputs -/

theorem connect_eq_error_iff {e : Error} (ha : a ∈ p.ids) (hv : v ∈ p.ids) (hne : a ≠ v) :
    p.connect a v = .error e ↔ v ∈ p.successors a ∧ .alreadyConnected a v = e := by
  obtain ⟨op, hop⟩ := Plan.mem_ids_iff.mp ha
  obtain ⟨op', hop'⟩ := Plan.mem_ids_iff.mp hv
  rw [Plan.connect, Plan.connectAt, Plan.operator, Plan.operator, hop, hop']
  by_cases hmem : v ∈ p.successors a
  · simp [bind, Except.bind, hne, hmem]
  · simp [bind, Except.bind, hne, hmem, pure, Except.pure]

/-- Connecting operators to one that nothing feeds fails at the first that comes again. -/
theorem connectAll_eq_error_iff {e : Error} (hp : p.WellFormed) (hv : v ∈ p.ids)
    (hnil : p.predecessors v = []) (hinputs : ∀ a ∈ inputs, a ∈ p.ids ∧ a ≠ v) :
    Wiring.connectAll p inputs v = .error e ↔ ∃ before a after, inputs = before ++ a :: after ∧
      before.Nodup ∧ a ∈ before ∧ .alreadyConnected a v = e := by
  have hattached : ∀ {before q}, Wiring.connectAll p before v = .ok q →
      Wiring.Attached p before v q ∧ q.predecessors v = before := by
    intro before q hq
    have h := Wiring.attached_of_connectAll before hp hq
    refine ⟨h, ?_⟩
    rw [h.predecessors_eq, if_pos rfl, hnil, List.nil_append]
  have hconnect : ∀ {before a q e}, a ∈ inputs → Wiring.connectAll p before v = .ok q →
      (q.connect a v = .error e ↔ a ∈ before ∧ .alreadyConnected a v = e) := by
    intro before a q e ha hq
    obtain ⟨h, hpred⟩ := hattached hq
    obtain ⟨hmem, hne⟩ := hinputs a ha
    rw [connect_eq_error_iff (h.ids_eq ▸ hmem) (h.ids_eq ▸ hv) hne, h.wellFormed.mirrored, hpred]
  have hforth : ∀ {l e}, (∀ a ∈ l, a ∈ inputs) → Wiring.connectAll p l v = .error e →
      ∃ before a after, l = before ++ a :: after ∧ before.Nodup ∧ a ∈ before ∧
        .alreadyConnected a v = e := by
    intro l e hl he
    rw [Wiring.connectAll, foldlM_eq_error_iff] at he
    obtain ⟨before, a, after, q, rfl, hq, he⟩ := he
    obtain ⟨h, hpred⟩ := hattached hq
    obtain ⟨hmem, rfl⟩ := (hconnect (hl a (by simp)) hq).mp he
    exact ⟨before, a, after, rfl, hpred ▸ h.wellFormed.nodup_predecessors v, hmem, rfl⟩
  refine ⟨hforth fun a ha ↦ ha, ?_⟩
  rintro ⟨before, a, after, rfl, hnodup, hmem, rfl⟩
  rw [Wiring.connectAll, foldlM_eq_error_iff]
  cases hq : Wiring.connectAll p before v with
  | ok q => exact ⟨before, a, after, q, rfl, hq, (hconnect (by simp) hq).mpr ⟨hmem, rfl⟩⟩
  | error e =>
    obtain ⟨before', a', after', rfl, -, hmem', -⟩ :=
      hforth (fun b hb ↦ List.mem_append_left _ hb) hq
    exact absurd hmem' (List.disjoint_left.mp (List.disjoint_of_nodup_append hnodup) · (by simp))

/-! ## Adding the operator -/

section

variable (h : Built earlier w) (hroom : earlier.length + 2 < UInt64.size)
include h

theorem enforces_name (p : LogicalPlan) (id : OpId) :
    Enforces earlier s [.name] (({ w with plan := p } : Wiring).define id s.name) := by
  refine .single fun e ↦ ?_
  cases hname : s.name with
  | none =>
    refine iff_of_false nofun fun he ↦ ?_
    cases he with
    | name name_eq _ => cases hname.symm.trans name_eq
  | some name =>
    rw [Wiring.define]
    constructor
    · intro he
      cases hlookup : w.names.lookup name with
      | none =>
        rw [hlookup] at he
        cases he
      | some id =>
        rw [hlookup] at he
        cases he
        obtain ⟨j, hj, -⟩ := (h.lookup name id).mp hlookup
        exact .name hname hj
    · intro he
      cases he with
      | name name_eq given =>
        cases hname.symm.trans name_eq
        rw [(h.lookup name _).mpr ⟨_, given, rfl⟩]

theorem enforces_push (hs : op.name = s.name) (hconnect : Enforces earlier s cs
      ((Wiring.connectAll (w.plan.add op).2 inputs w.plan.nextId).mapError .model)) :
    Enforces earlier s (cs ++ [.name]) (w.push op inputs) := by
  refine hconnect.bind fun p _ ↦ ?_
  have hname := (enforces_name h (s := s) p w.plan.nextId).map fun w' ↦
    ({ w' with current := some w.plan.nextId } : Wiring)
  rwa [← hs] at hname

include hroom

theorem connectAll_add_eq_error_iff {e : Error} (op : Operator)
    (hinputs : ∀ a ∈ inputs, ∃ j < earlier.length, a = opId j) :
    Wiring.connectAll (w.plan.add op).2 inputs w.plan.nextId = .error e ↔
      ∃ before a after, inputs = before ++ a :: after ∧ before.Nodup ∧ a ∈ before ∧
        .alreadyConnected a (opId earlier.length) = e := by
  have hwf := h.described.wellFormed
  have hnext : w.plan.nextId.toNat + 1 < UInt64.size := by
    rw [h.nextId_eq, toNat_opId (by omega)]
    omega
  rw [connectAll_eq_error_iff (hwf.add hnext op) (Plan.mem_ids_add.mpr (.inl rfl)), h.nextId_eq]
  · rw [Plan.predecessors_add, hwf.predecessors_nextId]
  · intro a ha
    obtain ⟨j, hj, rfl⟩ := hinputs a ha
    have hmem : opId j ∈ w.plan.ids := by
      rw [h.described.ids_eq]
      exact List.mem_map_of_mem (List.mem_range.mpr hj)
    exact ⟨Plan.mem_ids_add.mpr (.inr hmem), fun heq ↦ hwf.nextId_notMem_ids (heq ▸ hmem)⟩

/-- A single input is not given again. -/
theorem enforces_connect {r : Reference} (op : Operator) (hr : w.Resolves r a) :
    Enforces earlier s []
      ((Wiring.connectAll (w.plan.add op).2 [a] w.plan.nextId).mapError .model) := by
  refine .nil fun e he ↦ ?_
  obtain ⟨e, he, -⟩ := mapError_eq_error_iff.mp he
  have hinputs : ∀ b ∈ [a], ∃ j < earlier.length, b = opId j :=
    List.forall_mem_singleton.mpr (exists_opId_of_resolves h hr)
  obtain ⟨before, b, after, heq, -, hb, -⟩ :=
    (connectAll_add_eq_error_iff h hroom op hinputs).mp he
  cases before with
  | nil => cases hb
  | cons b' before => simp at heq

theorem eq_of_lookup_eq {m n : String} (hm : w.names.lookup m = some a)
    (hn : w.names.lookup n = some a) : m = n := by
  obtain ⟨i, hi, rfl⟩ := (h.lookup m a).mp hm
  obtain ⟨j, hj, heq⟩ := (h.lookup n _).mp hn
  have hlt := nameAt_lt hi
  have hlt' := nameAt_lt hj
  rw [opId_inj (by omega) (by omega)] at heq
  rw [heq, hj] at hi
  exact (Option.some.inj hi).symm

theorem enforces_repetition {names : List String} {f : String → OpId} (op : Operator)
    (hs : s.references = names.map .named)
    (hf : ∀ name ∈ names, w.names.lookup name = some (f name)) :
    Enforces earlier s [.repetition]
      ((Wiring.connectAll (w.plan.add op).2 (names.map f) w.plan.nextId).mapError .model) := by
  have hinj : ∀ m ∈ names, ∀ n ∈ names, f m = f n → m = n :=
    fun m hm n hn heq ↦ eq_of_lookup_eq h hroom (hf m hm) (heq ▸ hf n hn)
  have hinputs : ∀ a ∈ names.map f, ∃ j < earlier.length, a = opId j := by
    refine List.forall_mem_map.mpr fun name hname ↦ ?_
    exact exists_opId_of_resolves h (r := .named name) (hf name hname)
  refine .single fun e ↦ ?_
  simp only [mapError_eq_error_iff, connectAll_add_eq_error_iff h hroom op hinputs]
  constructor
  · rintro ⟨e, ⟨before, a, after, heq, hnodup, hmem, rfl⟩, rfl⟩
    obtain ⟨names₁, rest, rfl, rfl, hrest⟩ := List.map_eq_append_iff.mp heq
    obtain ⟨name, names₂, rfl, rfl, rfl⟩ := List.map_eq_cons_iff.mp hrest
    obtain ⟨m, hm, hfm⟩ := List.mem_map.mp hmem
    obtain rfl := hinj m (by simp [hm]) name (by simp) hfm
    obtain ⟨j, hj, hfj⟩ := (h.lookup m _).mp (hf m (by simp))
    rw [List.map_append, List.map_cons] at hs
    rw [hfj]
    refine .repetition hs (hnodup.of_map.map fun _ _ heq ↦ Reference.named.inj heq) ?_ hj
    exact List.mem_map_of_mem hm
  · intro h'
    cases h' with
    | @repetition before after name j references_eq nodup again given =>
      rw [hs] at references_eq
      obtain ⟨names₁, rest, rfl, rfl, hrest⟩ := List.map_eq_append_iff.mp references_eq
      obtain ⟨name, names₂, rfl, hname, rfl⟩ := List.map_eq_cons_iff.mp hrest
      cases hname
      obtain ⟨m, hm, hname⟩ := List.mem_map.mp again
      cases hname
      have hfj : f name = opId j :=
        Option.some.inj ((hf name (by simp)).symm.trans ((h.lookup name _).mpr ⟨j, given, rfl⟩))
      refine ⟨_, ⟨names₁.map f, f name, names₂.map f, by simp, ?_, List.mem_map_of_mem hm, rfl⟩, ?_⟩
      · exact List.Nodup.map_on (fun a ha b hb ↦ hinj a (by simp [ha]) b (by simp [hb])) nodup.of_map
      · rw [hfj]

/-- **A step enforces its checks**, in their order. -/
theorem enforces_addStep (s : Step) : Enforces earlier s s.checks (w.addStep s) := by
  cases s with
  | load name source loader schema determined =>
    change Enforces _ _ ([.function, .declared, .determined, .pairing] ++ [.name]) _
    refine enforces_load.bind fun l hl ↦ ?_
    have hdenotes := Wiring.denotes_of_make (eq_ok_of_mapError hl)
    have hconnect : Enforces earlier (.load name source loader schema determined) []
        ((Wiring.connectAll (w.plan.add (.load l)).2 [] w.plan.nextId).mapError .model) :=
      .nil nofun
    exact enforces_push h hdenotes.name_eq hconnect
  | stream name input command output schema =>
    change Enforces _ _ ([.inputs] ++ ([.declared] ++ [.name])) _
    refine (enforces_input h rfl).bind fun source hsource ↦ ?_
    refine enforces_stream.bind fun st hst ↦ ?_
    obtain ⟨d, -, hst⟩ := exists_of_bind_eq_ok (eq_ok_of_mapError hst)
    cases hst
    exact enforces_push h rfl (enforces_connect h hroom _ (Wiring.resolves_of_input hsource))
  | filter name input predicate =>
    change Enforces _ _ ([.inputs] ++ [.name]) _
    refine (enforces_input h rfl).bind fun source hsource ↦ ?_
    exact enforces_push h rfl (enforces_connect h hroom _ (Wiring.resolves_of_input hsource))
  | join name inputs on =>
    change Enforces _ _ ([.count] ++ ([.inputs] ++ ([.repetition] ++ [.name]))) _
    refine enforces_count (List.length_map _) ((enforces_inputs h rfl).bind fun sources hsources ↦ ?_)
    obtain ⟨f, rfl, hf⟩ := exists_map_of_mapM_named hsources
    exact enforces_push h rfl (enforces_repetition h hroom _ rfl hf)
  | store name input destination storer =>
    change Enforces _ _ ([.inputs] ++ ([.function] ++ [.name])) _
    refine (enforces_input h rfl).bind fun source hsource ↦ ?_
    refine (enforces_function rfl).bind fun file _ ↦ ?_
    exact enforces_push h rfl (enforces_connect h hroom _ (Wiring.resolves_of_input hsource))

end

/-! ## Building a document -/

/-- **The run over the steps** comes to its end if they are all valid. -/
theorem allValid_iff_exists_wiring (hroom : steps.length + 1 < UInt64.size) :
    AllValid steps ↔ ∃ w, steps.foldlM Wiring.addStep .empty = .ok w := by
  induction steps using List.reverseRecOn with
  | nil => exact iff_of_true (fun before s after heq ↦ absurd heq (by simp)) ⟨_, rfl⟩
  | append_singleton steps s ih =>
    rw [List.length_append, List.length_singleton] at hroom
    have hstep : ∀ {w}, steps.foldlM Wiring.addStep .empty = .ok w →
        ((∃ w', w.addStep s = .ok w') ↔ s.Valid steps) := by
      intro w hw
      have hbuilt : Built steps w := built_of_foldlM steps built_empty (by simp; omega) hw
      exact (enforces_addStep hbuilt hroom s).exists_eq_ok_iff
    rw [allValid_append_singleton, ih (by omega), List.foldlM_append]
    constructor
    · rintro ⟨⟨w, hw⟩, hs⟩
      obtain ⟨w', hw'⟩ := (hstep hw).mpr hs
      refine ⟨w', ?_⟩
      rw [hw]
      change [s].foldlM Wiring.addStep w = _
      rw [List.foldlM_cons, hw']
      rfl
    · rintro ⟨w', h⟩
      obtain ⟨w, hw, h⟩ := exists_of_bind_eq_ok h
      rw [List.foldlM_cons] at h
      obtain ⟨w'', hw'', -⟩ := exists_of_bind_eq_ok h
      exact ⟨⟨w, hw⟩, (hstep hw).mp ⟨w'', hw''⟩⟩

/-- The run stops with the first fault. -/
theorem foldlM_addStep_eq_error_iff (hroom : steps.length + 1 < UInt64.size) :
    steps.foldlM Wiring.addStep .empty = .error e ↔ FirstFault steps e := by
  have hstep : ∀ {before s after w}, steps = before ++ s :: after →
      before.foldlM Wiring.addStep .empty = .ok w →
      (w.addStep s = .error e ↔ ∃ c, s.FailsFirst before s.checks c e) := by
    rintro before s after w rfl hw
    rw [List.length_append, List.length_cons] at hroom
    have hbuilt : Built before w := built_of_foldlM before built_empty (by simp; omega) hw
    exact enforces_addStep hbuilt (by omega) s e
  have hbefore : ∀ {before s after}, steps = before ++ s :: after →
      (AllValid before ↔ ∃ w, before.foldlM Wiring.addStep .empty = .ok w) := by
    rintro before s after rfl
    rw [List.length_append] at hroom
    exact allValid_iff_exists_wiring (by omega)
  rw [foldlM_eq_error_iff]
  constructor
  · rintro ⟨before, s, after, w, heq, hw, he⟩
    obtain ⟨c, hc⟩ := (hstep heq hw).mp he
    exact ⟨before, s, after, c, heq, (hbefore heq).mpr ⟨w, hw⟩, hc⟩
  · rintro ⟨before, s, after, c, heq, hvalid, hc⟩
    obtain ⟨w, hw⟩ := (hbefore heq).mp hvalid
    exact ⟨before, s, after, w, heq, hw, (hstep heq hw).mpr ⟨c, hc⟩⟩

theorem exists_build_iff (doc : Pipeline) (hroom : doc.steps.length + 1 < UInt64.size) :
    (∃ p, doc.build = .ok p) ↔ doc.steps ≠ [] ∧ AllValid doc.steps := by
  rw [allValid_iff_exists_wiring hroom, build]
  split
  · rename_i hempty
    rw [List.isEmpty_iff] at hempty
    refine iff_of_false ?_ fun h ↦ h.1 hempty
    rintro ⟨p, hp⟩
    cases hp
  · rename_i hne
    rw [List.isEmpty_iff] at hne
    rw [and_iff_right hne]
    constructor
    · rintro ⟨p, hp⟩
      obtain ⟨w, hw, -⟩ := exists_of_map_eq_ok hp
      exact ⟨w, hw⟩
    · rintro ⟨w, hw⟩
      exact ⟨w.plan, by rw [hw]; rfl⟩

theorem build_eq_error_iff (doc : Pipeline) (hroom : doc.steps.length + 1 < UInt64.size) :
    doc.build = .error e ↔ (doc.steps = [] ∧ .wiring .empty = e) ∨ FirstFault doc.steps e := by
  rw [build]
  split
  · rename_i hempty
    rw [List.isEmpty_iff] at hempty
    have hnone : ¬ FirstFault [] e := by
      rintro ⟨before, s, after, c, heq, -⟩
      simp at heq
    simp [hempty, hnone]
  · rename_i hne
    rw [List.isEmpty_iff] at hne
    rw [map_eq_error_iff, foldlM_addStep_eq_error_iff hroom]
    simp [hne]

/-- **What becomes of a document.** It has a plan if there are steps and each is valid after those
before it. What is reported of another one is the first check that is failed by the first step that is
not valid, and the family of the error is that of the check. The functions that read the output of a
command have no part in it. -/
theorem outcome_build (doc : Pipeline) (hroom : doc.steps.length + 1 < UInt64.size) :
    ((∃ p, doc.build = .ok p) ↔ doc.steps ≠ [] ∧ AllValid doc.steps) ∧
    (∀ e, doc.build = .error e ↔ (doc.steps = [] ∧ .wiring .empty = e) ∨
      ∃ before s after c, doc.steps = before ++ s :: after ∧ AllValid before ∧
        s.FailsFirst before s.checks c e ∧ e.family = c.family) ∧
    ∀ doc' : Pipeline, doc'.steps.map withoutOutput = doc.steps.map withoutOutput →
      ∀ e, doc'.build = .error e ↔ doc.build = .error e := by
  refine ⟨exists_build_iff doc hroom, fun e ↦ ?_, fun doc' hsteps e ↦ ?_⟩
  · rw [build_eq_error_iff doc hroom]
    refine or_congr_right ?_
    constructor
    · rintro ⟨before, s, after, c, heq, hvalid, hc⟩
      exact ⟨before, s, after, c, heq, hvalid, hc, hc.family_eq⟩
    · rintro ⟨before, s, after, c, heq, hvalid, hc, -⟩
      exact ⟨before, s, after, c, heq, hvalid, hc⟩
  · have hlength : doc'.steps.length = doc.steps.length := by
      simpa only [List.length_map] using congrArg List.length hsteps
    have hnil : doc'.steps = [] ↔ doc.steps = [] := by
      rw [← List.length_eq_zero_iff, hlength, List.length_eq_zero_iff]
    rw [build_eq_error_iff doc' (hlength ▸ hroom), build_eq_error_iff doc hroom, hnil]
    exact or_congr_right ⟨.congr hsteps.symm, .congr hsteps⟩

/-- A join that reads an input twice and has a name that was given before; the store after it reads
something that is not there. The output of the stream is to be read by what is no function. -/
def repeating : Pipeline where
  overrides := none
  steps := [
    .load (some "a") "a.tsv" none (some [⟨"id", "int", none⟩]) none,
    .stream (some "s") none "clean" (some ")(") none,
    .filter (some "f") (some "a") "id > 10",
    .join (some "a") ["f", "s", "f"] [("id", "id")],
    .store none (some "b") "out" none]

theorem outcome_build_repeating :
    repeating.steps.length + 1 < UInt64.size ∧ ¬ AllValid repeating.steps ∧
    (∃ before s after, repeating.steps = before ++ s :: after ∧ AllValid before ∧
      s.FailsFirst before s.checks .repetition (.model (.alreadyConnected (opId 2) (opId 3)))) ∧
    ∀ doc : Pipeline, doc.steps.map withoutOutput = repeating.steps.map withoutOutput →
      doc.build = .error (.model (.alreadyConnected (opId 2) (opId 3))) := by
  have hroom : repeating.steps.length + 1 < UInt64.size := by decide
  have hbuild : repeating.build = .error (.model (.alreadyConnected (opId 2) (opId 3))) := by
    decide +kernel
  obtain ⟨haccept, hreport, hlike⟩ := outcome_build repeating hroom
  refine ⟨hroom, fun hvalid ↦ ?_, ?_, fun doc hdoc ↦ (hlike doc hdoc _).mpr hbuild⟩
  · obtain ⟨p, hp⟩ := haccept.mpr ⟨nofun, hvalid⟩
    rw [hbuild] at hp
    cases hp
  · obtain ⟨hnil, -⟩ | ⟨before, s, after, c, heq, hvalid, hc, hfamily⟩ := (hreport _).mp hbuild
    · cases hnil
    · cases c with
      | repetition => exact ⟨before, s, after, heq, hvalid, hc⟩
      | _ => cases hfamily

end Pipeline

end Dataflow
