import Dataflow.Proofs.Plan.WellFormed

/-!
# Changes in place

The operations on edges give a new plan or an error, so nothing is left of one that fails. Carried
out in place they are sequences of tests and writes, and what was written before a test failed would
stay written. Here they are spelled out in this way, with the two tables written one after the other.
`perform_connectAt`, `perform_connect` and `perform_disconnect` say that the two accounts agree; in
particular no test comes after a write.
-/

namespace Dataflow

namespace Plan

variable {α β γ : Type}

/-- A sequence of tests and writes that gives a value or fails. -/
abbrev InPlace (α β : Type) :=
  ExceptT Error (StateM (Plan α)) β

namespace InPlace

/-- Makes a change of a plan: what it gives, and the plan as it then is. -/
def perform (c : InPlace α β) (p : Plan α) : Except Error β × Plan α :=
  c.run.run p

/-- A test of the plan, which may fail. -/
def check (f : Plan α → Except Error β) : InPlace α β := do
  match f (← get) with
  | .ok b => return b
  | .error e => throw e

/-- A write to the plan. -/
def write (f : Plan α → Plan α) : InPlace α Unit := do
  set (f (← get))

/-- An error under a condition. -/
def refuse (c : Prop) [Decidable c] (e : Error) : Except Error Unit :=
  if c then .error e else .ok ()

/-- The value there is, or an error. -/
def demand (b : Option β) (e : Error) : Except Error β :=
  b.elim (.error e) .ok

/-- Changes the list of successors of an operator. -/
def writeSuccessors (a : OpId) (f : List OpId → List OpId) : InPlace α Unit :=
  write fun p ↦ { p with outgoing := p.outgoing.insert a (f (p.successors a)) }

/-- Changes the list of predecessors of an operator. -/
def writePredecessors (a : OpId) (f : List OpId → List OpId) : InPlace α Unit :=
  write fun p ↦ { p with incoming := p.incoming.insert a (f (p.predecessors a)) }

/-! ## The operations -/

/-- Inserts an edge at given slots. -/
def connectAt (source : OpId) (outSlot : Nat) (target : OpId) (inSlot : Nat) : InPlace α Unit := do
  let _ ← check (·.operator source)
  let _ ← check (·.operator target)
  check fun _ ↦ refuse (source = target) (.selfLoop source)
  check fun p ↦ refuse (target ∈ p.successors source) (.alreadyConnected source target)
  check fun p ↦ refuse ((p.successors source).length < outSlot)
    (.outputOutOfRange outSlot source (p.successors source).length)
  check fun p ↦ refuse ((p.predecessors target).length < inSlot)
    (.inputOutOfRange inSlot target (p.predecessors target).length)
  writeSuccessors source (·.insertIdx outSlot target)
  writePredecessors target (·.insertIdx inSlot source)

/-- Adds an edge after the edges there are. -/
def connect (source target : OpId) : InPlace α Unit := do
  let outSlot ← check fun p ↦ .ok (p.successors source).length
  let inSlot ← check fun p ↦ .ok (p.predecessors target).length
  connectAt source outSlot target inSlot

/-- Removes the edge between two operators and gives the slots it held. -/
def disconnect (source target : OpId) : InPlace α (Nat × Nat) := do
  let outSlot ← check fun p ↦
    demand ((p.successors source).idxOf? target) (.noEdge source target)
  let inSlot ← check fun p ↦
    demand ((p.predecessors target).idxOf? source) (.noEdge source target)
  writeSuccessors source (·.eraseIdx outSlot)
  writePredecessors target (·.eraseIdx inSlot)
  return (outSlot, inSlot)

/-! ## Steps -/

variable {p : Plan α} {s t : OpId} {i j : Nat} {e : Error} {f : Plan α → Except Error β}

theorem perform_bind (c : InPlace α β) (d : β → InPlace α γ) (p : Plan α) :
    (c >>= d).perform p = match c.perform p with
      | (.ok b, q) => (d b).perform q
      | (.error e, q) => (.error e, q) := by
  change (ExceptT.bindCont d (c.perform p).1).run (c.perform p).2 = _
  rcases c.perform p with ⟨_ | _, _⟩ <;> rfl

theorem perform_check (f : Plan α → Except Error β) (p : Plan α) :
    (check f).perform p = (f p, p) := by
  have hget : (get : InPlace α (Plan α)).perform p = (.ok p, p) := rfl
  rw [check, perform_bind, hget]
  cases hf : f p <;> simp only [hf] <;> rfl

theorem perform_check_bind_of_ok {b : β} (h : f p = .ok b) (c : β → InPlace α γ) :
    (check f >>= c).perform p = (c b).perform p := by
  rw [perform_bind, perform_check, h]

theorem perform_check_bind_of_error (h : f p = .error e) (c : β → InPlace α γ) :
    (check f >>= c).perform p = (.error e, p) := by
  rw [perform_bind, perform_check, h]

theorem refuse_of_not {c : Prop} [Decidable c] (h : ¬ c) : refuse c e = .ok () := if_neg h

theorem refuse_of {c : Prop} [Decidable c] (h : c) : refuse c e = .error e := if_pos h

/-! ## Agreement -/

/-- What an operation that gives a new plan or an error makes of a plan. -/
def outcome (p : Plan α) : Except Error (β × Plan α) → Except Error β × Plan α
  | .ok (b, q) => (.ok b, q)
  | .error e => (.error e, p)

/-- An operation that fails leaves the plan. -/
theorem outcome_map_eq_error_iff {r : Except Error γ} {f : γ → β × Plan α} {q : Plan α} :
    outcome p (f <$> r) = (.error e, q) ↔ r = .error e ∧ q = p := by
  cases r with
  | ok c => exact ⟨nofun, nofun⟩
  | error e' =>
    constructor
    · intro h
      cases h
      exact ⟨rfl, rfl⟩
    · rintro ⟨⟨⟩, rfl⟩
      rfl

theorem perform_connectAt (s : OpId) (i : Nat) (t : OpId) (j : Nat) (p : Plan α) :
    (connectAt s i t j).perform p = outcome p (((), ·) <$> p.connectAt s i t j) := by
  rw [connectAt, Plan.connectAt]
  cases hs : p.operator s with
  | error e => exact perform_check_bind_of_error hs _
  | ok a =>
  rw [perform_check_bind_of_ok hs]
  cases ht : p.operator t with
  | error e => exact perform_check_bind_of_error ht _
  | ok b =>
  rw [perform_check_bind_of_ok ht]
  by_cases hst : s = t
  · rw [perform_check_bind_of_error (refuse_of hst)]
    simp [bind, Except.bind, hst, outcome]
  rw [perform_check_bind_of_ok (refuse_of_not hst)]
  by_cases hmem : t ∈ p.successors s
  · rw [perform_check_bind_of_error (refuse_of hmem)]
    simp [bind, Except.bind, hst, hmem, outcome]
  rw [perform_check_bind_of_ok (refuse_of_not hmem)]
  by_cases hi : (p.successors s).length < i
  · rw [perform_check_bind_of_error (refuse_of hi)]
    simp [bind, Except.bind, hst, hmem, hi, outcome]
  rw [perform_check_bind_of_ok (refuse_of_not hi)]
  by_cases hj : (p.predecessors t).length < j
  · rw [perform_check_bind_of_error (refuse_of hj)]
    simp [bind, Except.bind, hst, hmem, hi, hj, outcome]
  rw [perform_check_bind_of_ok (refuse_of_not hj)]
  have hmem' : ¬ (p.successors s).contains t = true := by simpa using hmem
  simp only [bind, Except.bind, if_neg hst, if_neg hmem', if_neg hi, if_neg hj]
  rfl

theorem perform_connect (s t : OpId) (p : Plan α) :
    (connect s t).perform p = outcome p (((), ·) <$> p.connect s t) := by
  rw [connect, perform_check_bind_of_ok (b := (p.successors s).length) (by rfl),
    perform_check_bind_of_ok (b := (p.predecessors t).length) (by rfl), perform_connectAt]
  rfl

theorem perform_disconnect (s t : OpId) (p : Plan α) :
    (disconnect s t).perform p
      = outcome p ((fun r ↦ ((r.1.outSlot, r.1.inSlot), r.2)) <$> p.disconnect s t) := by
  rw [disconnect, Plan.disconnect, edge?]
  cases hi : (p.successors s).idxOf? t with
  | none => exact perform_check_bind_of_error (by rw [hi]; rfl) _
  | some i =>
  rw [perform_check_bind_of_ok (b := i) (by rw [hi]; rfl)]
  cases hj : (p.predecessors t).idxOf? s with
  | none => exact perform_check_bind_of_error (by rw [hj]; rfl) _
  | some j =>
  rw [perform_check_bind_of_ok (b := j) (by rw [hj]; rfl)]
  rfl

end InPlace

end Plan

end Dataflow
