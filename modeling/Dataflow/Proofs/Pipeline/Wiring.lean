import Dataflow.Proofs.Pipeline.Described
import Mathlib.Data.List.Forall2

/-!
# Adding one step

What a step does to a wiring if it is accepted. `addStep_eq_ok` takes the five kinds of steps apart once
and for all: whatever the kind, the step's references are resolved, its operator is made, and the two
are handed to `push`. So what follows is about `push` alone, and there about `connectAll`, which
appends: the inputs to the predecessors of the new operator in their order, and the new operator to the
successors of each.
-/

namespace Dataflow

/-! ## Steps that succeed -/

section

variable {ε ε' α β : Type} {x : Except ε α} {b : β}

theorem exists_of_bind_eq_ok {f : α → Except ε β} (h : (x >>= f) = .ok b) :
    ∃ a, x = .ok a ∧ f a = .ok b := by
  cases x with
  | error e => cases h
  | ok a => exact ⟨a, rfl, h⟩

theorem eq_ok_of_mapError {f : ε → ε'} {a : α} (h : x.mapError f = .ok a) : x = .ok a := by
  cases x with
  | error e => cases h
  | ok a' => exact congrArg Except.ok (Except.ok.inj h)

theorem exists_of_map_eq_ok {f : α → β} (h : f <$> x = .ok b) : ∃ a, x = .ok a ∧ f a = b := by
  cases x with
  | error e => cases h
  | ok a => exact ⟨a, rfl, Except.ok.inj h⟩

theorem forall₂_of_mapM_eq_ok {f : α → Except ε β} {l : List α} {bs : List β}
    (h : l.mapM f = .ok bs) : List.Forall₂ (fun a b ↦ f a = .ok b) l bs := by
  induction l generalizing bs with
  | nil =>
    cases h
    exact .nil
  | cons a l ih =>
    rw [List.mapM_cons] at h
    obtain ⟨b, hb, h⟩ := exists_of_bind_eq_ok h
    obtain ⟨bs', hbs, h⟩ := exists_of_bind_eq_ok h
    cases h
    exact .cons hb (ih hbs)

end

/-! ## Steps that fail -/

section

variable {ε ε' α β : Type} {x : Except ε α} {e : ε} {l : List α}

theorem bind_eq_error_iff {f : α → Except ε β} :
    (x >>= f) = .error e ↔ x = .error e ∨ ∃ a, x = .ok a ∧ f a = .error e := by
  cases x <;> simp [bind, Except.bind]

theorem map_eq_error_iff {f : α → β} : f <$> x = .error e ↔ x = .error e := by
  cases x <;> simp [Functor.map, Except.map]

theorem mapError_eq_error_iff {f : ε → ε'} {e : ε'} :
    x.mapError f = .error e ↔ ∃ e', x = .error e' ∧ f e' = e := by
  cases x <;> simp [Except.mapError]

theorem mapError_bind {f : α → Except ε β} {g : ε → ε'} :
    (x >>= f).mapError g = x.mapError g >>= fun a ↦ (f a).mapError g := by
  cases x <;> rfl

/-- A pass over a list fails where a first element fails. -/
theorem mapM_eq_error_iff {f : α → Except ε β} : l.mapM f = .error e ↔
    ∃ before a after, l = before ++ a :: after ∧ (∀ b ∈ before, ∃ c, f b = .ok c) ∧
      f a = .error e := by
  induction l with
  | nil => simp [pure, Except.pure]
  | cons a l ih =>
    rw [List.mapM_cons, bind_eq_error_iff]
    constructor
    · rintro (ha | ⟨c, hc, h⟩)
      · exact ⟨[], a, l, rfl, nofun, ha⟩
      · obtain ⟨before, b, after, rfl, hbefore, hb⟩ := ih.mp (map_eq_error_iff.mp h)
        exact ⟨a :: before, b, after, rfl, List.forall_mem_cons.mpr ⟨⟨c, hc⟩, hbefore⟩, hb⟩
    · rintro ⟨before, b, after, heq, hbefore, hb⟩
      cases before with
      | nil =>
        cases heq
        exact .inl hb
      | cons a' before =>
        cases heq
        obtain ⟨⟨c, hc⟩, hbefore⟩ := List.forall_mem_cons.mp hbefore
        exact .inr ⟨c, hc, map_eq_error_iff.mpr (ih.mpr ⟨before, b, after, rfl, hbefore, hb⟩)⟩

/-- A run fails at a first element, from what the run over those before it gave. -/
theorem foldlM_eq_error_iff {f : β → α → Except ε β} {b : β} : l.foldlM f b = .error e ↔
    ∃ before a after c, l = before ++ a :: after ∧ before.foldlM f b = .ok c ∧ f c a = .error e := by
  induction l generalizing b with
  | nil => simp [pure, Except.pure]
  | cons a l ih =>
    rw [List.foldlM_cons, bind_eq_error_iff]
    constructor
    · rintro (ha | ⟨b', hb', h⟩)
      · exact ⟨[], a, l, b, rfl, rfl, ha⟩
      · obtain ⟨before, a', after, c, rfl, hc, ha'⟩ := ih.mp h
        refine ⟨a :: before, a', after, c, rfl, ?_, ha'⟩
        rw [List.foldlM_cons, hb']
        exact hc
    · rintro ⟨before, a', after, c, heq, hc, ha'⟩
      cases before with
      | nil =>
        cases heq
        cases hc
        exact .inl ha'
      | cons a'' before =>
        cases heq
        rw [List.foldlM_cons] at hc
        obtain ⟨b', hb', hc⟩ := exists_of_bind_eq_ok hc
        exact .inr ⟨b', hb', ih.mpr ⟨before, a', after, c, rfl, hc, ha'⟩⟩

end

namespace Wiring

variable {w w' : Wiring} {s : Step} {p q : LogicalPlan} {v : OpId} {op : Operator}
  {inputs : List OpId}

/-! ## Connecting an operator to its inputs -/

/-- The operators `inputs`, all of them different from `v`, have been connected to `v`. -/
structure Attached (p : LogicalPlan) (inputs : List OpId) (v : OpId) (q : LogicalPlan) : Prop where
  wellFormed : q.WellFormed
  nextId_eq : q.nextId = p.nextId
  get?_eq : ∀ a, q.get? a = p.get? a
  ids_eq : q.ids = p.ids
  mem_ids : ∀ a ∈ inputs, a ∈ p.ids
  notMem : v ∉ inputs
  predecessors_eq : ∀ a,
    q.predecessors a = if a = v then p.predecessors v ++ inputs else p.predecessors a
  successors_eq : ∀ a,
    q.successors a = if a ∈ inputs then p.successors a ++ [v] else p.successors a

theorem attached_nil (hp : p.WellFormed) (v : OpId) : Attached p [] v p where
  wellFormed := hp
  nextId_eq := rfl
  get?_eq _ := rfl
  ids_eq := rfl
  mem_ids := nofun
  notMem := List.not_mem_nil
  predecessors_eq a := by
    by_cases h : a = v
    · rw [if_pos h, List.append_nil, h]
    · rw [if_neg h]
  successors_eq a := by rw [if_neg List.not_mem_nil]

theorem attached_of_connectAll (inputs : List OpId) : ∀ {p : LogicalPlan}, p.WellFormed →
    connectAll p inputs v = .ok q → Attached p inputs v q := by
  induction inputs with
  | nil =>
    intro p hp h
    cases h
    exact attached_nil hp v
  | cons i inputs ih =>
    intro p hp h
    rw [connectAll, List.foldlM_cons] at h
    obtain ⟨p', hp', h⟩ := exists_of_bind_eq_ok h
    obtain ⟨hc, rfl⟩ := Plan.connectAt_eq_ok_iff.mp hp'
    have hrest := ih (hp.insertEdge hc) h
    have hpred : ∀ a, q.predecessors a
        = if a = v then p.predecessors v ++ i :: inputs else p.predecessors a := by
      intro a
      rw [hrest.predecessors_eq, Plan.predecessors_insertEdge, if_pos rfl,
        List.insertIdx_length_self, List.append_assoc, List.singleton_append]
      by_cases ha : a = v
      · rw [if_pos ha, if_pos ha]
      · rw [if_neg ha, if_neg ha, Plan.predecessors_insertEdge, if_neg ha]
    -- An input that came twice would be refused the second time.
    have hnodup : (p.predecessors v ++ i :: inputs).Nodup := by
      have h := hrest.wellFormed.nodup_predecessors v
      rwa [hpred, if_pos rfl] at h
    have hi : i ∉ inputs := (List.nodup_cons.mp hnodup.of_append_right).1
    refine ⟨hrest.wellFormed, hrest.nextId_eq, hrest.get?_eq, hrest.ids_eq,
      List.forall_mem_cons.mpr ⟨hc.source_mem, hrest.mem_ids⟩,
      List.not_mem_cons_of_ne_of_not_mem hc.source_ne_target.symm hrest.notMem, hpred, fun a ↦ ?_⟩
    rw [hrest.successors_eq, Plan.successors_insertEdge, List.insertIdx_length_self]
    by_cases ha : a = i
    · rw [if_neg (ha ▸ hi), if_pos ha, if_pos (ha ▸ List.mem_cons_self), ha]
    · by_cases hmem : a ∈ inputs
      · rw [if_pos hmem, if_neg ha, if_pos (List.mem_cons_of_mem i hmem)]
      · rw [if_neg hmem, if_neg ha, if_neg (List.not_mem_cons_of_ne_of_not_mem ha hmem)]

/-! ## Adding an operator -/

/-- The names after an operator was added. -/
def namesWith (w : Wiring) (op : Operator) : List (String × OpId) :=
  match op.name with
  | none => w.names
  | some name => (name, w.plan.nextId) :: w.names

theorem push_eq_ok (h : w.push op inputs = .ok w') :
    connectAll (w.plan.add op).2 inputs w.plan.nextId = .ok w'.plan ∧
      (∀ name, op.name = some name → w.names.lookup name = none) ∧
      w'.names = w.namesWith op ∧ w'.current = some w.plan.nextId := by
  obtain ⟨plan, hplan, h⟩ := exists_of_bind_eq_ok h
  obtain ⟨w'', hdefine, h⟩ := exists_of_bind_eq_ok h
  cases h
  rw [namesWith]
  cases hname : op.name with
  | none =>
    rw [hname] at hdefine
    cases hdefine
    exact ⟨eq_ok_of_mapError hplan, nofun, rfl, rfl⟩
  | some name =>
    rw [hname, define] at hdefine
    cases hlookup : w.names.lookup name with
    | some id =>
      rw [hlookup] at hdefine
      cases hdefine
    | none =>
      rw [hlookup] at hdefine
      cases hdefine
      refine ⟨eq_ok_of_mapError hplan, fun name' heq ↦ ?_, rfl, rfl⟩
      rwa [← Option.some.inj heq]

theorem lookup_namesWith (hnew : ∀ name, op.name = some name → w.names.lookup name = none)
    (name : String) (id : OpId) : (w.namesWith op).lookup name = some id ↔
      w.names.lookup name = some id ∨ (op.name = some name ∧ id = w.plan.nextId) := by
  rw [namesWith]
  cases hname : op.name with
  | none => simp
  | some given =>
    by_cases heq : name = given
    · subst heq
      simp [hnew name hname, eq_comm]
    · have hbeq : (name == given) = false := beq_false_of_ne heq
      simp [List.lookup_cons, hbeq, Ne.symm heq]

/-! ## Adding a step -/

/-- A reference stands for an operator at this point. -/
def Resolves (w : Wiring) : Step.Reference → OpId → Prop
  | .previous, id => w.current = some id
  | .named name, id => w.names.lookup name = some id

theorem resolves_of_named {reader name : String} {id : OpId} (h : w.named reader name = .ok id) :
    w.Resolves (.named name) id := by
  rw [named] at h
  split at h
  · rename_i hlookup
    cases h
    exact hlookup
  · cases h

theorem resolves_of_input {reader : String} {input : Option String} {id : OpId}
    (h : w.input reader input = .ok id) : w.Resolves (.ofInput input) id := by
  cases input with
  | some name => exact resolves_of_named h
  | none =>
    rw [Wiring.input] at h
    split at h
    · rename_i hcurrent
      cases h
      exact hcurrent
    · cases h

theorem forall₂_resolves_of_input {reader : String} {input : Option String} {id : OpId}
    (h : w.input reader input = .ok id) : List.Forall₂ w.Resolves [.ofInput input] [id] :=
  .cons (resolves_of_input h) .nil

theorem denotes_of_make {name loader : Option String} {source : String}
    {schema determined : Option (List FieldDecl)} {l : Load}
    (h : Load.make name source loader schema determined = .ok l) :
    (Step.load name source loader schema determined).Denotes (.load l) := by
  obtain ⟨file, hfile, h⟩ := exists_of_bind_eq_ok h
  obtain ⟨f, hf, hfile⟩ := exists_of_bind_eq_ok hfile
  cases hfile
  obtain ⟨s, hs, h⟩ := exists_of_bind_eq_ok h
  obtain ⟨d, hd, h⟩ := exists_of_bind_eq_ok h
  cases d with
  | none =>
    cases h
    exact .load hf hs hd
  | some d =>
    -- A determined schema is only added beside a declared one.
    cases s with
    | none => cases h
    | some s =>
      change (if _ then _ else _ : Except Error Load) = _ at h
      split at h
      · cases h
        exact .load hf hs hd
      · cases h

/-- **A step that is accepted** has its references resolved and its operator added. -/
theorem addStep_eq_ok (h : w.addStep s = .ok w') :
    ∃ op inputs, s.Denotes op ∧ List.Forall₂ w.Resolves s.references inputs ∧
      w.push op inputs = .ok w' := by
  cases s with
  | load name source loader schema determined =>
    obtain ⟨l, hl, h⟩ := exists_of_bind_eq_ok h
    exact ⟨_, _, denotes_of_make (eq_ok_of_mapError hl), .nil, h⟩
  | stream name input command output schema =>
    obtain ⟨source, hsource, h⟩ := exists_of_bind_eq_ok h
    obtain ⟨st, hst, h⟩ := exists_of_bind_eq_ok h
    obtain ⟨d, hd, hst⟩ := exists_of_bind_eq_ok (eq_ok_of_mapError hst)
    cases hst
    have hdenotes : (Step.stream name input command output schema).Denotes
        (.stream ⟨name, ⟨command, (output.map OutputHandle.mk).getD .default⟩, d, false⟩) := by
      cases output <;> exact .stream hd
    exact ⟨_, _, hdenotes, forall₂_resolves_of_input hsource, h⟩
  | filter name input predicate =>
    obtain ⟨source, hsource, h⟩ := exists_of_bind_eq_ok h
    exact ⟨_, _, .filter, forall₂_resolves_of_input hsource, h⟩
  | join name inputs on =>
    rw [addStep] at h
    split at h
    · cases h
    · obtain ⟨sources, hsources, h⟩ := exists_of_bind_eq_ok h
      refine ⟨_, _, .join, ?_, h⟩
      exact List.forall₂_map_left_iff.mpr
        ((forall₂_of_mapM_eq_ok hsources).imp fun _ _ h ↦ resolves_of_named h)
  | store name input destination storer =>
    obtain ⟨source, hsource, h⟩ := exists_of_bind_eq_ok h
    obtain ⟨file, hfile, h⟩ := exists_of_bind_eq_ok h
    obtain ⟨f, hf, hfile⟩ := exists_of_bind_eq_ok (eq_ok_of_mapError hfile)
    cases hfile
    exact ⟨_, _, .store hf, forall₂_resolves_of_input hsource, h⟩

end Wiring

end Dataflow
