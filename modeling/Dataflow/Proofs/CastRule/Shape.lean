import Dataflow.CastRule

/-!
# Names do not decide

Both tests of a cast rule compare fields by their shape. Two fields have the same shape exactly if they
are equal once all names are taken away, at every depth (`Field.sameShape_iff`): the types agree, the
members are the same in number and order, and where one field has no list of members the other has none
either, not an empty one.

So whatever is done to names in the schemas of an operator, the rule applies to it or not as before and
casts the same fields.
-/

namespace Dataflow

/-! ## Taking names away -/

namespace Field

mutual

/-- The field without its name and, at every depth, without the names of its members. -/
def unnamed : Field → Field
  | ⟨_, t, none⟩ => ⟨none, t, none⟩
  | ⟨_, t, some members⟩ => ⟨none, t, some (unnamedEach members)⟩

/-- The fields without names. -/
def unnamedEach : List Field → List Field
  | [] => []
  | f :: fs => unnamed f :: unnamedEach fs

end

theorem unnamedEach_eq_map (fs : List Field) : unnamedEach fs = fs.map unnamed := by
  induction fs with
  | nil => rfl
  | cons f fs ih => rw [unnamedEach, ih, List.map_cons]

@[simp] theorem type_unnamed (f : Field) : f.unnamed.type = f.type := by
  obtain ⟨_, _, _ | _⟩ := f <;> rfl

@[simp] theorem members_unnamed (f : Field) :
    f.unnamed.members = f.members.map (·.map unnamed) := by
  obtain ⟨_, _, _ | ms⟩ := f
  · rfl
  · exact congrArg some (unnamedEach_eq_map ms)

mutual

@[simp] theorem unnamed_unnamed : ∀ f : Field, f.unnamed.unnamed = f.unnamed
  | ⟨_, _, none⟩ => rfl
  | ⟨_, t, some ms⟩ => congrArg (fun ms ↦ mk none t (some ms)) (unnamedEach_unnamedEach ms)

theorem unnamedEach_unnamedEach : ∀ fs, unnamedEach (unnamedEach fs) = unnamedEach fs
  | [] => rfl
  | f :: fs => by rw [unnamedEach, unnamedEach, unnamed_unnamed f, unnamedEach_unnamedEach fs]

end

/-! ## Shapes -/

mutual

/-- The induction follows the fields and their members together. -/
theorem sameShape_iff : ∀ f g : Field, f.sameShape g = true ↔ f.unnamed = g.unnamed
  | ⟨_, t, none⟩, ⟨_, t', none⟩ => by simp [sameShape, unnamed]
  | ⟨_, t, some ms⟩, ⟨_, t', some ms'⟩ => by
    simp [sameShape, unnamed, sameShapes_iff ms ms']
  | ⟨_, _, none⟩, ⟨_, _, some _⟩ => by simp [sameShape, unnamed]
  | ⟨_, _, some _⟩, ⟨_, _, none⟩ => by simp [sameShape, unnamed]

theorem sameShapes_iff : ∀ fs gs : List Field,
    sameShapes fs gs = true ↔ unnamedEach fs = unnamedEach gs
  | [], [] => by simp [sameShapes]
  | f :: fs, g :: gs => by
    simp [sameShapes, unnamedEach, sameShape_iff f g, sameShapes_iff fs gs]
  | [], _ :: _ => by simp [sameShapes, unnamedEach]
  | _ :: _, [] => by simp [sameShapes, unnamedEach]

end

theorem sameShape_unnamed (f g : Field) : f.unnamed.sameShape g.unnamed = f.sameShape g := by
  rw [Bool.eq_iff_iff, sameShape_iff, sameShape_iff, unnamed_unnamed, unnamed_unnamed]

theorem isSome_members_of_sameShape {f g : Field} (h : f.sameShape g = true) :
    f.members.isSome = g.members.isSome := by
  have hm := congrArg members ((sameShape_iff f g).mp h)
  rw [members_unnamed, members_unnamed] at hm
  simpa using congrArg Option.isSome hm

theorem equivalence_sameShape : Equivalence fun f g : Field ↦ f.sameShape g = true := by
  simp only [sameShape_iff]
  exact ⟨fun _ ↦ rfl, Eq.symm, Eq.trans⟩

end Field

namespace Schema

/-- The schema without names. -/
def unnamed (s : Schema) : Schema :=
  ⟨s.fields.map Field.unnamed⟩

@[simp] theorem field?_unnamed (s : Schema) (i : Nat) :
    s.unnamed.field? i = (s.field? i).map Field.unnamed :=
  List.getElem?_map ..

theorem sameShape_iff (s s' : Schema) : s.sameShape s' = true ↔ s.unnamed = s'.unnamed := by
  rw [sameShape, Field.sameShapes_iff, Field.unnamedEach_eq_map, Field.unnamedEach_eq_map, unnamed,
    unnamed, mk.injEq]

theorem equivalence_sameShape : Equivalence fun s s' : Schema ↦ s.sameShape s' = true := by
  simp only [sameShape_iff]
  exact ⟨fun _ ↦ rfl, Eq.symm, Eq.trans⟩

end Schema

/-! ## The two tests -/

section

variable (f : Field) (d : Option Schema) (i : Nat)

theorem isConfirmed_unnamed (s : Schema) :
    isConfirmed f.unnamed s.unnamed i = isConfirmed f s i := by
  rw [isConfirmed, isConfirmed, Schema.field?_unnamed]
  cases s.field? i with
  | none => rfl
  | some g => exact Field.sameShape_unnamed f g

theorem needsCast_unnamed :
    needsCast f.unnamed (d.map Schema.unnamed) i = needsCast f d i := by
  cases d with
  | none => simp [needsCast]
  | some s => simp [needsCast, isConfirmed_unnamed]

theorem needsWork_unnamed :
    needsWork f.unnamed (d.map Schema.unnamed) i = needsWork f d i := by
  cases d with
  | none => simp [needsWork]
  | some s => simp [needsWork, isConfirmed_unnamed]

end

/-! ## Operators -/

namespace Operator

/-- The operator without the names in its schemas. -/
def unnamed : Operator → Operator
  | load op =>
    load { op with
      declared := op.declared.map Schema.unnamed
      determined := op.determined.map Schema.unnamed }
  | stream op => stream { op with declared := op.declared.map Schema.unnamed }
  | op => op

@[simp] theorem kind_unnamed (op : Operator) : op.unnamed.kind = op.kind := by
  cases op <;> rfl

@[simp] theorem isCastInserted_unnamed (op : Operator) :
    op.unnamed.isCastInserted = op.isCastInserted := by
  cases op <;> rfl

@[simp] theorem declared_unnamed (op : Operator) :
    op.unnamed.declared = op.declared.map Schema.unnamed := by
  cases op <;> rfl

@[simp] theorem determined_unnamed (op : Operator) :
    op.unnamed.determined = op.determined.map Schema.unnamed := by
  cases op <;> rfl

end Operator

namespace CastRule

theorem wants_unnamed (op : Operator) : wants op.unnamed = wants op := by
  rw [wants, wants, Operator.declared_unnamed]
  cases op.declared with
  | none => rfl
  | some s =>
    -- Both schemas are gone through by position, and the fields at one position have the same shape.
    have hwork : (s.unnamed.fields.mapIdx fun i f ↦ needsWork f op.unnamed.determined i) =
        s.fields.mapIdx fun i f ↦ needsWork f op.determined i := by
      refine List.ext_getElem? fun i ↦ ?_
      rw [List.getElem?_mapIdx, List.getElem?_mapIdx, Schema.unnamed, List.getElem?_map]
      cases s.fields[i]? with
      | none => rfl
      | some f => simp [needsWork_unnamed]
    simp only [Option.map_some, hwork, Operator.isCastInserted_unnamed]

/-- Whether a rule applies is read off the operator without its names. -/
theorem applies_eq_unnamed (r : CastRule) (p : LogicalPlan) (v : OpId) :
    r.applies p v = ((p.get? v).map Operator.unnamed).any fun op ↦ r.targets op.kind && wants op := by
  rw [applies]
  cases p.get? v with
  | none => rfl
  | some op => simp [wants_unnamed]

end CastRule

/-- **Shapes are fields up to names.** Two fields, or two schemas, have the same shape exactly if they
are equal without names. So having the same shape is an equivalence that contains equality, and no
change of names in the schemas of an operator makes a difference to which of its fields a cast rule
casts or to whether the rule applies. -/
theorem sameShape_iff_unnamed :
    (∀ f g : Field, f.sameShape g = true ↔ f.unnamed = g.unnamed) ∧
    (∀ s s' : Schema, s.sameShape s' = true ↔ s.unnamed = s'.unnamed) ∧
    (∀ f g : Field, f.sameShape g = true → f.members.isSome = g.members.isSome) ∧
    (Equivalence fun f g : Field ↦ f.sameShape g = true) ∧
    (Equivalence fun s s' : Schema ↦ s.sameShape s' = true) ∧
    (∀ f g : Field, f = g → f.sameShape g = true) ∧
    (∀ s s' : Schema, s = s' → s.sameShape s' = true) ∧
    (∀ (f f' : Field) (d d' : Option Schema) (i : Nat), f.unnamed = f'.unnamed →
      d.map Schema.unnamed = d'.map Schema.unnamed → needsCast f d i = needsCast f' d' i) ∧
    ∀ (r : CastRule) (p q : LogicalPlan) (v : OpId),
      (p.get? v).map Operator.unnamed = (q.get? v).map Operator.unnamed →
      r.applies p v = r.applies q v := by
  refine ⟨Field.sameShape_iff, Schema.sameShape_iff, fun _ _ ↦ Field.isSome_members_of_sameShape,
    Field.equivalence_sameShape, Schema.equivalence_sameShape, ?_, ?_, ?_, ?_⟩
  · rintro f _ rfl
    exact Field.equivalence_sameShape.refl f
  · rintro s _ rfl
    exact Schema.equivalence_sameShape.refl s
  · intro f f' d d' i hf hd
    rw [← needsCast_unnamed f, ← needsCast_unnamed f', hf, hd]
  · intro r p q v h
    rw [CastRule.applies_eq_unnamed, CastRule.applies_eq_unnamed, h]

/-- A plan that loads bags, which the loader has found to be bags of numbers. -/
def bagPlan (member : Option String) (found : DataType) : LogicalPlan :=
  (Plan.empty.add (.load ⟨none, ⟨"in", ⟨"PigStorage", []⟩⟩,
    some ⟨[⟨some "b", .bag, some [⟨member, .int, none⟩]⟩]⟩,
    some ⟨[⟨none, .bag, some [⟨none, found, none⟩]⟩]⟩, false⟩)).2

theorem sameShape_iff_unnamed_bagPlan :
    CastRule.all.applies (bagPlan (some "n") .int) ⟨1⟩ = CastRule.all.applies (bagPlan none .int) ⟨1⟩ ∧
    CastRule.all.applies (bagPlan none .int) ⟨1⟩ = false ∧
    CastRule.all.applies (bagPlan none .long) ⟨1⟩ = true :=
  ⟨sameShape_iff_unnamed.2.2.2.2.2.2.2.2 .all _ _ ⟨1⟩ (by decide), by decide, by decide⟩

end Dataflow
