import Dataflow.Proofs.Pipeline.Wiring

/-!
# Declarations that are refused

A declaration is a tree, and it is read from the type at its root on. `FieldDecl.Converts` says which
declarations give a field, and `FieldDecl.Fault` with which error another one is refused: a fault of
the type comes first, then the faults of the members in their order, and only when there is none of
these that the type can have no members.
-/

namespace Dataflow

namespace FieldDecl

/-- A declaration that gives a field: the types at every depth are known, and only a tuple or a bag
has members. -/
inductive Converts : FieldDecl → Prop
  | leaf {name type : String} {t : DataType} (known : DataType.parse type = .ok t) :
      Converts ⟨name, type, none⟩
  | nested {name type : String} {members : List FieldDecl} {t : DataType}
      (known : DataType.parse type = .ok t) (complex : t.isComplex = true)
      (all_convert : ∀ m ∈ members, Converts m) : Converts ⟨name, type, some members⟩

/-- The fault for which a declaration is refused. -/
inductive Fault : FieldDecl → Error → Prop
  | type {name type : String} {members : Option (List FieldDecl)} {e : Error}
      (unknown : DataType.parse type = .error e) : Fault ⟨name, type, members⟩ e
  | member {name type : String} {before after : List FieldDecl} {m : FieldDecl} {t : DataType}
      {e : Error} (known : DataType.parse type = .ok t) (before_converts : ∀ b ∈ before, Converts b)
      (fault : Fault m e) : Fault ⟨name, type, some (before ++ m :: after)⟩ e
  | notNestable {name type : String} {members : List FieldDecl} {t : DataType}
      (known : DataType.parse type = .ok t) (simple : t.isComplex = false)
      (all_convert : ∀ m ∈ members, Converts m) : Fault ⟨name, type, some members⟩ (.notNestable t)

/-- The fault of a list of declarations is that of the first one with a fault. -/
def FirstFault (ds : List FieldDecl) (e : Error) : Prop :=
  ∃ before d after, ds = before ++ d :: after ∧ (∀ b ∈ before, Converts b) ∧ Fault d e

variable {d : FieldDecl} {ds : List FieldDecl} {e : Error}

/-! ## Every fault concerns the schema -/

theorem category_of_parse_eq_error {type : String} (h : DataType.parse type = .error e) :
    e.category = .schema := by
  rw [DataType.parse] at h
  split at h
  · cases h
  · cases h
    rfl

theorem Fault.category_eq (h : Fault d e) : e.category = .schema := by
  induction h with
  | type unknown => exact category_of_parse_eq_error unknown
  | member _ _ _ ih => exact ih
  | notNestable => rfl

/-! ## Reading a declaration -/

theorem toFields_eq_mapM (ds : List FieldDecl) : toFields ds = ds.mapM toField := by
  induction ds with
  | nil => rfl
  | cons d ds ih => rw [toFields, ih, List.mapM_cons]

theorem length_of_toFields_eq_ok {fs : List Field} (h : toFields ds = .ok fs) :
    fs.length = ds.length := by
  rw [toFields_eq_mapM] at h
  exact (forall₂_of_mapM_eq_ok h).length_eq.symm

theorem exists_toFields_eq_ok (h : ∀ d ∈ ds, ∃ f, toField d = .ok f) : ∃ fs, toFields ds = .ok fs := by
  cases hds : toFields ds with
  | ok fs => exact ⟨fs, rfl⟩
  | error e =>
    rw [toFields_eq_mapM, mapM_eq_error_iff] at hds
    obtain ⟨before, d, after, rfl, -, hd⟩ := hds
    obtain ⟨f, hf⟩ := h d (by simp)
    rw [hd] at hf
    cases hf

theorem Converts.exists_toField_eq_ok (h : Converts d) : ∃ f, toField d = .ok f := by
  induction h with
  | @leaf name type t known => exact ⟨.named name t, by rw [toField, known]; rfl⟩
  | @nested name type members t known complex _ ih =>
    obtain ⟨fs, hfs⟩ := exists_toFields_eq_ok ih
    refine ⟨⟨some name, t, some fs⟩, ?_⟩
    rw [toField, known, hfs]
    exact if_pos complex

theorem Fault.toField_eq_error (h : Fault d e) : toField d = .error e := by
  induction h with
  | @type name type members e unknown => cases members <;> rw [toField, unknown] <;> rfl
  | @member name type before after m t e known before_converts _ ih =>
    have hmembers : toFields (before ++ m :: after) = .error e := by
      rw [toFields_eq_mapM, mapM_eq_error_iff]
      exact ⟨before, m, after, rfl, fun b hb ↦ (before_converts b hb).exists_toField_eq_ok, ih⟩
    rw [toField, known, hmembers]
    rfl
  | @notNestable name type members t known simple all_convert =>
    obtain ⟨fs, hfs⟩ :=
      exists_toFields_eq_ok fun m hm ↦ (all_convert m hm).exists_toField_eq_ok
    rw [toField, known, hfs]
    exact if_neg (Bool.eq_false_iff.mp simple)

/-! ## Every declaration converts or has a fault -/

mutual

theorem converts_or_fault : ∀ d : FieldDecl, Converts d ∨ ∃ e, Fault d e
  | ⟨name, type, none⟩ => by
    cases ht : DataType.parse type with
    | error e => exact .inr ⟨e, .type ht⟩
    | ok t => exact .inl (.leaf ht)
  | ⟨name, type, some members⟩ => by
    cases ht : DataType.parse type with
    | error e => exact .inr ⟨e, .type ht⟩
    | ok t =>
      rcases forall_converts_or_firstFault members with hm | ⟨e, before, m, after, rfl, hb, hm⟩
      · cases hc : t.isComplex with
        | true => exact .inl (.nested ht hc hm)
        | false => exact .inr ⟨_, .notNestable ht hc hm⟩
      · exact .inr ⟨e, .member ht hb hm⟩

theorem forall_converts_or_firstFault :
    ∀ ds : List FieldDecl, (∀ d ∈ ds, Converts d) ∨ ∃ e, FirstFault ds e
  | [] => .inl nofun
  | d :: ds => by
    rcases converts_or_fault d with hd | ⟨e, hd⟩
    · rcases forall_converts_or_firstFault ds with hds | ⟨e, before, d', after, rfl, hb, hd'⟩
      · exact .inl (List.forall_mem_cons.mpr ⟨hd, hds⟩)
      · exact .inr ⟨e, d :: before, d', after, rfl, List.forall_mem_cons.mpr ⟨hd, hb⟩, hd'⟩
    · exact .inr ⟨e, [], d, ds, rfl, nofun, hd⟩

end

theorem toFields_eq_error_iff : toFields ds = .error e ↔ FirstFault ds e := by
  have herror : ∀ {e}, FirstFault ds e → toFields ds = .error e := by
    rintro e ⟨before, d, after, rfl, hb, hd⟩
    rw [toFields_eq_mapM, mapM_eq_error_iff]
    exact ⟨before, d, after, rfl, fun b hb' ↦ (hb b hb').exists_toField_eq_ok, hd.toField_eq_error⟩
  refine ⟨fun h ↦ ?_, herror⟩
  rcases forall_converts_or_firstFault ds with hds | ⟨e', he'⟩
  · obtain ⟨fs, hfs⟩ := exists_toFields_eq_ok fun d hd ↦ (hds d hd).exists_toField_eq_ok
    rw [hfs] at h
    cases h
  · rw [herror he'] at h
    cases h
    exact he'

/-- A list of declarations is refused for its first fault. -/
theorem toSchema?_eq_error_iff {declared : Option (List FieldDecl)} :
    toSchema? declared = .error e ↔ ∃ ds, declared = some ds ∧ FirstFault ds e := by
  cases declared with
  | none => exact ⟨nofun, nofun⟩
  | some ds =>
    rw [toSchema?, toSchema, map_eq_error_iff, map_eq_error_iff, toFields_eq_error_iff]
    simp

/-- The schema of a list of declarations has a field for each. -/
theorem toSchema?_eq_ok {declared : Option (List FieldDecl)} {s : Option Schema}
    (h : toSchema? declared = .ok s) : s.map Schema.size = declared.map List.length := by
  cases declared with
  | none =>
    cases h
    rfl
  | some ds =>
    obtain ⟨s', hs', rfl⟩ := exists_of_map_eq_ok h
    obtain ⟨fs, hfs, rfl⟩ := exists_of_map_eq_ok hs'
    exact congrArg some (length_of_toFields_eq_ok hfs)

end FieldDecl

end Dataflow
