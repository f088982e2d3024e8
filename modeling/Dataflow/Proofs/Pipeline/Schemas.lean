import Dataflow.Proofs.Pipeline.Declared
import Dataflow.Proofs.Text.Blank

/-!
# The schemas of a document

A list of declarations gives a schema exactly if every declaration at every depth is legal: its type is
spelled in one of the known ways, and if it lists members, be it none, it is a tuple or a bag. The schema
then mirrors the declarations: the same tree, with the same names in the same order (`toFields_eq_ok_iff`).

Nothing else makes schemas when a plan is built, and a determined schema is only taken beside a declared
one of its size. So what holds of these schemas holds in every plan that is built, whatever the number
of its steps (`wellDeclared_of_build`).
-/

namespace Dataflow

open Text (Blanks isBlank trim)

/-! ## Spellings -/

namespace DataType

/-- The names under which a type is read. -/
def spellings (t : DataType) : List String :=
  t.name :: t.synonyms

/-- The text is one of the names of the type, in upper or lower case letters and with blanks around
it. -/
def Spells (text : String) (t : DataType) : Prop :=
  ∃ b w b', text.toList = b ++ w ++ b' ∧ Blanks b ∧ Blanks b' ∧
    String.ofList (w.map Char.toLower) ∈ t.spellings

/-- No name is that of two types. -/
theorem ofSpelling?_of_mem {t : DataType} {name : String} (h : name ∈ t.spellings) :
    ofSpelling? name = some t := by
  have hall : ∀ t ∈ all, ∀ name ∈ t.spellings, ofSpelling? name = some t := by decide
  exact hall t (mem_all t) name h

theorem ofSpelling?_eq_some_iff {t : DataType} {name : String} :
    ofSpelling? name = some t ↔ name ∈ t.spellings := by
  refine ⟨fun h ↦ ?_, ofSpelling?_of_mem⟩
  have hfound := List.find?_some h
  rw [Bool.or_eq_true, decide_eq_true_eq, List.contains_iff_mem] at hfound
  exact List.mem_cons.mpr (hfound.imp_left Eq.symm)

/-- Blanks have no case. -/
theorem toLower_of_isBlank {c : Char} (h : isBlank c = true) : c.toLower = c := by
  have hupper : ¬ (c.val ≥ 'A'.val ∧ c.val ≤ 'Z'.val) := by
    rintro ⟨hA, hZ⟩
    have hA' : 65 ≤ c.toNat := UInt32.le_iff_toNat_le.mp hA
    have hZ' : c.toNat ≤ 90 := UInt32.le_iff_toNat_le.mp hZ
    simp only [isBlank, Bool.or_eq_true, Bool.and_eq_true, decide_eq_true_eq, beq_iff_eq] at h
    omega
  exact dif_neg hupper

theorem isBlank_eq_false_of_mem_spelling {t : DataType} {name : String} (h : name ∈ t.spellings) :
    ∀ c ∈ name.toList, isBlank c = false := by
  have hall : ∀ t ∈ all, ∀ name ∈ t.spellings, (name.toList.all fun c ↦ !isBlank c) = true := by
    decide
  simpa using hall t (mem_all t) name h

theorem spells_iff_normalize {text : String} {t : DataType} :
    Spells text t ↔ normalize text ∈ t.spellings := by
  constructor
  · rintro ⟨b, w, b', htext, hb, hb', hw⟩
    -- There are no blanks in a name, so the text is trimmed to the word between its blanks.
    have hplain : ∀ c ∈ w, isBlank c = false := by
      intro c hc
      have hlower := isBlank_eq_false_of_mem_spelling hw c.toLower (by
        rw [String.toList_ofList]
        exact List.mem_map_of_mem hc)
      by_contra hblank
      rw [Bool.not_eq_false] at hblank
      rw [toLower_of_isBlank hblank, hblank] at hlower
      cases hlower
    rwa [normalize, htext, Text.trim_append_of_forall hb hb' hplain]
  · intro h
    obtain ⟨b, b', hb, hb', htext⟩ := Text.exists_eq_append_trim text.toList
    exact ⟨b, _, b', htext, hb, hb', h⟩

theorem parse_eq_ok_iff {text : String} {t : DataType} : parse text = .ok t ↔ Spells text t := by
  rw [spells_iff_normalize, ← ofSpelling?_eq_some_iff, parse]
  cases ofSpelling? (normalize text) <;> simp

theorem Spells.unique {text : String} {t t' : DataType} (h : Spells text t) (h' : Spells text t') :
    t = t' :=
  Except.ok.inj ((parse_eq_ok_iff.mpr h).symm.trans (parse_eq_ok_iff.mpr h'))

end DataType

open DataType (Spells)

/-! ## Trees of fields -/

/-- `a` is in the list or, at some depth, among the members of what is in it. -/
inductive Within {α : Type} (members : α → Option (List α)) (a : α) : List α → Prop
  | root {l : List α} (h : a ∈ l) : Within members a l
  | member {l l' : List α} {b : α} (hb : b ∈ l) (hl : members b = some l')
      (h : Within members a l') : Within members a l

theorem Within.mono {α : Type} {members : α → Option (List α)} {a : α} {l l' : List α}
    (h : Within members a l) (hsub : l ⊆ l') : Within members a l' := by
  cases h with
  | root h => exact .root (hsub h)
  | member hb hl h => exact .member (hsub hb) hl h

namespace FieldDecl

/-- The type is spelled in a known way, and only a tuple or a bag lists members. -/
def Legal (d : FieldDecl) : Prop :=
  ∃ t, Spells d.type t ∧ (d.members.isSome = true → t = .tuple ∨ t = .bag)

/-- The field has the name and the type of the declaration, and it has a list of members exactly if the
declaration has one; these mirror each other one by one. -/
inductive Mirrors : FieldDecl → Field → Prop
  | leaf {name type : String} {t : DataType} (spells : Spells type t) :
      Mirrors ⟨name, type, none⟩ ⟨some name, t, none⟩
  | nested {name type : String} {t : DataType} {ds : List FieldDecl} {fs : List Field}
      (spells : Spells type t) (members : List.Forall₂ Mirrors ds fs) :
      Mirrors ⟨name, type, some ds⟩ ⟨some name, t, some fs⟩

variable {d : FieldDecl} {ds : List FieldDecl} {f : Field} {fs : List Field}

mutual

theorem converts_of_legal : ∀ d : FieldDecl, (∀ m, Within members m [d] → m.Legal) → Converts d
  | ⟨name, type, none⟩, h => by
    obtain ⟨t, ht, -⟩ := h _ (.root List.mem_cons_self)
    exact .leaf (DataType.parse_eq_ok_iff.mpr ht)
  | ⟨name, type, some ds⟩, h => by
    obtain ⟨t, ht, hcomplex⟩ := h _ (.root List.mem_cons_self)
    refine .nested (DataType.parse_eq_ok_iff.mpr ht) ?_ (forall_converts_of_legal ds fun m hm ↦
      h m (.member List.mem_cons_self rfl hm))
    rcases hcomplex rfl with rfl | rfl <;> rfl

theorem forall_converts_of_legal : ∀ ds : List FieldDecl,
    (∀ m, Within members m ds → m.Legal) → ∀ d ∈ ds, Converts d
  | [], _ => nofun
  | d :: ds, h => by
    refine List.forall_mem_cons.mpr ⟨converts_of_legal d fun m hm ↦ h m (hm.mono ?_),
      forall_converts_of_legal ds fun m hm ↦ h m (hm.mono (List.subset_cons_self d ds))⟩
    exact List.cons_subset_cons d (List.nil_subset ds)

end

theorem Converts.legal (h : Converts d) : d.Legal := by
  cases h with
  | leaf known => exact ⟨_, DataType.parse_eq_ok_iff.mp known, nofun⟩
  | nested known complex _ =>
    refine ⟨_, DataType.parse_eq_ok_iff.mp known, fun _ ↦ ?_⟩
    simpa [DataType.isComplex] using complex

theorem forall_converts_iff : (∀ d ∈ ds, Converts d) ↔ ∀ d, Within members d ds → d.Legal := by
  refine ⟨fun h d hd ↦ ?_, forall_converts_of_legal ds⟩
  induction hd with
  | root hmem => exact (h _ hmem).legal
  | member hb hl _ ih =>
    refine ih fun m hm ↦ ?_
    cases h _ hb with
    | leaf => cases hl
    | nested _ _ hall =>
      cases hl
      exact hall m hm

mutual

theorem toField_eq_ok_iff : ∀ (d : FieldDecl) {f : Field},
    toField d = .ok f ↔ Converts d ∧ Mirrors d f
  | ⟨name, type, none⟩, f => by
    constructor
    · intro h
      obtain ⟨t, ht, h⟩ := exists_of_bind_eq_ok h
      cases h
      exact ⟨.leaf ht, .leaf (DataType.parse_eq_ok_iff.mp ht)⟩
    · rintro ⟨-, hf⟩
      cases hf with
      | leaf spells =>
        rw [toField, DataType.parse_eq_ok_iff.mpr spells]
        rfl
  | ⟨name, type, some ds⟩, f => by
    constructor
    · intro h
      obtain ⟨t, ht, h⟩ := exists_of_bind_eq_ok h
      obtain ⟨fs, hfs, h⟩ := exists_of_bind_eq_ok h
      obtain ⟨hconv, hmirrors⟩ := (toFields_eq_ok_iff ds).mp hfs
      rw [Field.nested] at h
      split at h
      · rename_i hcomplex
        cases h
        exact ⟨.nested ht hcomplex hconv, .nested (DataType.parse_eq_ok_iff.mp ht) hmirrors⟩
      · cases h
    · rintro ⟨hd, hf⟩
      cases hf with
      | @nested _ _ t _ fs spells members =>
        have ht := DataType.parse_eq_ok_iff.mpr spells
        cases hd with
        | nested known complex all_convert =>
          cases ht.symm.trans known
          rw [toField, ht, (toFields_eq_ok_iff ds).mpr ⟨all_convert, members⟩]
          exact if_pos complex

theorem toFields_eq_ok_iff : ∀ (ds : List FieldDecl) {fs : List Field},
    toFields ds = .ok fs ↔ (∀ d ∈ ds, Converts d) ∧ List.Forall₂ Mirrors ds fs
  | [], fs => by
    constructor
    · intro h
      cases h
      exact ⟨nofun, .nil⟩
    · rintro ⟨-, h⟩
      cases h
      rfl
  | d :: ds, fs => by
    rw [List.forall_mem_cons]
    constructor
    · intro h
      obtain ⟨f, hf, h⟩ := exists_of_bind_eq_ok h
      obtain ⟨fs, hfs, h⟩ := exists_of_bind_eq_ok h
      cases h
      obtain ⟨hd, hf⟩ := (toField_eq_ok_iff d).mp hf
      obtain ⟨hds, hfs⟩ := (toFields_eq_ok_iff ds).mp hfs
      exact ⟨⟨hd, hds⟩, .cons hf hfs⟩
    · rintro ⟨⟨hd, hds⟩, h⟩
      cases h with
      | cons hf hfs =>
        rw [toFields, (toField_eq_ok_iff d).mpr ⟨hd, hf⟩, (toFields_eq_ok_iff ds).mpr ⟨hds, hfs⟩]
        rfl

end

theorem toSchema_eq_ok_iff {s : Schema} : toSchema ds = .ok s ↔
    (∀ d, Within members d ds → d.Legal) ∧ List.Forall₂ Mirrors ds s.fields := by
  rw [← forall_converts_iff, ← toFields_eq_ok_iff, toSchema]
  constructor
  · intro h
    obtain ⟨fs, hfs, rfl⟩ := exists_of_map_eq_ok h
    exact hfs
  · intro h
    rw [h]
    rfl

theorem toSchema_eq_error_iff {e : Error} : toSchema ds = .error e ↔ FirstFault ds e := by
  rw [toSchema, map_eq_error_iff, toFields_eq_error_iff]

theorem category_of_toSchema_eq_error {e : Error} (h : toSchema ds = .error e) :
    e.category = .schema := by
  obtain ⟨_, _, _, _, _, hfault⟩ := toSchema_eq_error_iff.mp h
  exact hfault.category_eq

theorem exists_toSchema_eq_ok_iff :
    (∃ s, toSchema ds = .ok s) ↔ ∀ d, Within members d ds → d.Legal := by
  refine ⟨fun ⟨s, hs⟩ ↦ (toSchema_eq_ok_iff.mp hs).1, fun h ↦ ?_⟩
  cases hs : toSchema ds with
  | ok s => exact ⟨s, rfl⟩
  | error e =>
    obtain ⟨fs, hfs⟩ := exists_toFields_eq_ok fun d hd ↦
      (forall_converts_iff.mpr h d hd).exists_toField_eq_ok
    rw [toSchema, hfs] at hs
    cases hs

end FieldDecl

/-! ## Schemas in plans -/

/-- Only tuples and bags have members, at every depth. -/
def Schema.NestsSoundly (s : Schema) : Prop :=
  ∀ f, Within Field.members f s.fields → f.members.isSome = true → f.type = .tuple ∨ f.type = .bag

/-- The schemas of an operator are sound, and a determined schema goes with a declared one of its
size. -/
structure Operator.WellDeclared (op : Operator) : Prop where
  declared_sound : ∀ s, op.declared = some s → s.NestsSoundly
  determined_sound : ∀ d, op.determined = some d → d.NestsSoundly
  paired : ∀ d, op.determined = some d → ∃ s, op.declared = some s ∧ s.size = d.size

theorem Operator.wellDeclared_of_eq_none {op : Operator} (hdeclared : op.declared = none)
    (hdetermined : op.determined = none) : op.WellDeclared where
  declared_sound s hs := by cases hdeclared.symm.trans hs
  determined_sound d hd := by cases hdetermined.symm.trans hd
  paired d hd := by cases hdetermined.symm.trans hd

namespace FieldDecl

variable {ds : List FieldDecl} {f : Field} {fs : List Field}

theorem exists_mem_of_forall₂ {R : FieldDecl → Field → Prop} (h : List.Forall₂ R ds fs)
    (hf : f ∈ fs) : ∃ d ∈ ds, R d f := by
  induction h with
  | nil => cases hf
  | @cons d _ ds _ hd _ ih =>
    rcases List.mem_cons.mp hf with rfl | hf
    · exact ⟨d, List.mem_cons_self, hd⟩
    · obtain ⟨d', hmem, hd'⟩ := ih hf
      exact ⟨d', List.mem_cons_of_mem d hmem, hd'⟩

/-- Wherever there is a field, there is the declaration that it mirrors. -/
theorem exists_mirrors_of_within (hf : Within Field.members f fs) :
    ∀ {ds : List FieldDecl}, List.Forall₂ Mirrors ds fs →
      ∃ d, Within members d ds ∧ Mirrors d f := by
  -- On the way down to the field, the list of declarations changes with the list of fields.
  induction hf with
  | root h =>
    intro ds hds
    obtain ⟨d, hd, hmirrors⟩ := exists_mem_of_forall₂ hds h
    exact ⟨d, .root hd, hmirrors⟩
  | member hb hl _ ih =>
    intro ds hds
    obtain ⟨d, hd, hmirrors⟩ := exists_mem_of_forall₂ hds hb
    cases hmirrors with
    | leaf => cases hl
    | nested _ hmembers =>
      cases hl
      obtain ⟨d', hd', hmirrors'⟩ := ih hmembers
      exact ⟨d', .member hd rfl hd', hmirrors'⟩

theorem nestsSoundly_of_toSchema_eq_ok {s : Schema} (h : toSchema ds = .ok s) :
    s.NestsSoundly := by
  obtain ⟨hlegal, hmirrors⟩ := toSchema_eq_ok_iff.mp h
  intro f hf hmembers
  obtain ⟨d, hd, hdf⟩ := exists_mirrors_of_within hf hmirrors
  obtain ⟨t, ht, hcomplex⟩ := hlegal d hd
  cases hdf with
  | leaf => cases hmembers
  | nested spells =>
    obtain rfl := spells.unique ht
    exact hcomplex rfl

theorem nestsSoundly_of_toSchema?_eq_ok {declared : Option (List FieldDecl)} {s : Option Schema}
    (h : toSchema? declared = .ok s) : ∀ d, s = some d → d.NestsSoundly := by
  rintro d rfl
  cases declared with
  | none => cases h
  | some ds =>
    obtain ⟨s, hs, hd⟩ := exists_of_map_eq_ok h
    cases hd
    exact nestsSoundly_of_toSchema_eq_ok hs

end FieldDecl

open FieldDecl in
theorem Load.wellDeclared_of_make {name loader : Option String} {source : String}
    {schema determined : Option (List FieldDecl)} {l : Load}
    (h : Load.make name source loader schema determined = .ok l) :
    (Operator.load l).WellDeclared := by
  obtain ⟨file, -, h⟩ := exists_of_bind_eq_ok h
  obtain ⟨s, hs, h⟩ := exists_of_bind_eq_ok h
  obtain ⟨d, hd, h⟩ := exists_of_bind_eq_ok h
  have hdeclared := nestsSoundly_of_toSchema?_eq_ok hs
  cases d with
  | none =>
    cases h
    exact ⟨hdeclared, nofun, nofun⟩
  | some d =>
    -- It is refused unless there is a declared schema of the same size.
    have hdetermined := nestsSoundly_of_toSchema?_eq_ok hd
    cases s with
    | none => cases h
    | some s =>
      change (if s.size = d.size then _ else _ : Except Error Load) = _ at h
      split at h
      · rename_i hsize
        cases h
        refine ⟨hdeclared, hdetermined, fun d' hd' ↦ ⟨s, rfl, ?_⟩⟩
        cases hd'
        exact hsize
      · cases h

theorem Stream.wellDeclared_of_make {name output : Option String} {command : String}
    {schema : Option (List FieldDecl)} {st : Stream}
    (h : Stream.make name command output schema = .ok st) :
    (Operator.stream st).WellDeclared := by
  obtain ⟨s, hs, h⟩ := exists_of_bind_eq_ok h
  cases h
  exact ⟨FieldDecl.nestsSoundly_of_toSchema?_eq_ok hs, nofun, nofun⟩

namespace Wiring

variable {w w' : Wiring} {p q : LogicalPlan}

theorem get?_of_connectAll {reader : OpId} (inputs : List OpId) : ∀ {p : LogicalPlan},
    connectAll p inputs reader = .ok q → ∀ v, q.get? v = p.get? v := by
  induction inputs with
  | nil =>
    intro p h v
    cases h
    rfl
  | cons i inputs ih =>
    intro p h v
    rw [connectAll, List.foldlM_cons] at h
    obtain ⟨p', hp', h⟩ := exists_of_bind_eq_ok h
    obtain ⟨-, rfl⟩ := Plan.connectAt_eq_ok_iff.mp hp'
    exact ih h v

/-- The schemas of all operators are sound. -/
def WellDeclared (p : LogicalPlan) : Prop :=
  ∀ v op, p.get? v = some op → op.WellDeclared

theorem wellDeclared_empty : WellDeclared Wiring.empty.plan := by
  intro v op h
  cases h

theorem wellDeclared_push {op : Operator} {inputs : List OpId} (hw : WellDeclared w.plan)
    (hop : op.WellDeclared) (h : w.push op inputs = .ok w') : WellDeclared w'.plan := by
  obtain ⟨hplan, -⟩ := push_eq_ok h
  intro v op' hv
  rw [get?_of_connectAll inputs hplan, Plan.get?_add] at hv
  split at hv
  · cases hv
    exact hop
  · exact hw v op' hv

/-- Loads and streams have the schemas of their steps, and other operators have none. -/
theorem wellDeclared_addStep {s : Step} (hw : WellDeclared w.plan) (h : w.addStep s = .ok w') :
    WellDeclared w'.plan := by
  cases s with
  | load name source loader schema determined =>
    obtain ⟨l, hl, h⟩ := exists_of_bind_eq_ok h
    exact wellDeclared_push hw (Load.wellDeclared_of_make (eq_ok_of_mapError hl)) h
  | stream name input command output schema =>
    obtain ⟨source, -, h⟩ := exists_of_bind_eq_ok h
    obtain ⟨st, hst, h⟩ := exists_of_bind_eq_ok h
    exact wellDeclared_push hw (Stream.wellDeclared_of_make (eq_ok_of_mapError hst)) h
  | filter name input predicate =>
    obtain ⟨source, -, h⟩ := exists_of_bind_eq_ok h
    exact wellDeclared_push hw (Operator.wellDeclared_of_eq_none rfl rfl) h
  | join name inputs on =>
    rw [addStep] at h
    split at h
    · cases h
    · obtain ⟨sources, -, h⟩ := exists_of_bind_eq_ok h
      exact wellDeclared_push hw (Operator.wellDeclared_of_eq_none rfl rfl) h
  | store name input destination storer =>
    obtain ⟨source, -, h⟩ := exists_of_bind_eq_ok h
    obtain ⟨file, -, h⟩ := exists_of_bind_eq_ok h
    exact wellDeclared_push hw (Operator.wellDeclared_of_eq_none rfl rfl) h

theorem wellDeclared_foldlM (steps : List Step) : ∀ {w : Wiring}, WellDeclared w.plan →
    steps.foldlM addStep w = .ok w' → WellDeclared w'.plan := by
  induction steps with
  | nil =>
    intro w hw h
    cases h
    exact hw
  | cons s steps ih =>
    intro w hw h
    rw [List.foldlM_cons] at h
    obtain ⟨w₁, hs, h⟩ := exists_of_bind_eq_ok h
    exact ih (wellDeclared_addStep hw hs) h

end Wiring

theorem Pipeline.wellDeclared_of_build {doc : Pipeline} {p : LogicalPlan}
    (h : doc.build = .ok p) : Wiring.WellDeclared p := by
  rw [build] at h
  split at h
  · cases h
  · obtain ⟨w, hw, rfl⟩ := exists_of_map_eq_ok h
    exact Wiring.wellDeclared_foldlM doc.steps Wiring.wellDeclared_empty hw

/-- **Schemas mirror their declarations.** A list of declarations gives a schema exactly if every
declaration in it is legal, at every depth. The schema then is the only one that mirrors the list, and
every other list is refused with an error about schemas. So in every plan that is built from a
document, only tuples and bags have members, and a determined schema goes with a declared one of its
size. -/
theorem schemas_mirror_declarations :
    (∀ (ds : List FieldDecl) (s : Schema), FieldDecl.toSchema ds = .ok s ↔
      (∀ d, Within FieldDecl.members d ds → d.Legal) ∧
        List.Forall₂ FieldDecl.Mirrors ds s.fields) ∧
    (∀ ds : List FieldDecl, (∃ s, FieldDecl.toSchema ds = .ok s) ↔
      ∀ d, Within FieldDecl.members d ds → d.Legal) ∧
    (∀ ds : List FieldDecl, (¬ ∀ d, Within FieldDecl.members d ds → d.Legal) →
      ∃ e, FieldDecl.toSchema ds = .error e ∧ e.category = .schema) ∧
    (∀ (text : String) (t : DataType),
      Spells text t ↔ DataType.normalize text = t.name ∨ DataType.normalize text ∈ t.synonyms) ∧
    ∀ (doc : Pipeline) (p : LogicalPlan), doc.build = .ok p →
      ∀ v op, p.get? v = some op → op.WellDeclared := by
  refine ⟨fun _ _ ↦ FieldDecl.toSchema_eq_ok_iff, fun _ ↦ FieldDecl.exists_toSchema_eq_ok_iff,
    fun ds hds ↦ ?_, fun text t ↦ DataType.spells_iff_normalize.trans List.mem_cons,
    fun _ _ h ↦ Pipeline.wellDeclared_of_build h⟩
  cases hs : FieldDecl.toSchema ds with
  | ok s => exact absurd (FieldDecl.exists_toSchema_eq_ok_iff.mp ⟨s, hs⟩) hds
  | error e => exact ⟨e, rfl, FieldDecl.category_of_toSchema_eq_error hs⟩

/-- A bag of tuples, spelled in different ways. -/
def nestedDecls : List FieldDecl :=
  [⟨"b", " Bag\t", some [⟨"t", "TUPLE", some [⟨"n", "Int32", none⟩]⟩]⟩]

/-- A load with a determined schema. -/
def nestedDocument : Pipeline :=
  ⟨none, [.load none "in" none (some nestedDecls) (some [⟨"c", "bytes", none⟩])]⟩

theorem schemas_mirror_declarations_nestedDecls :
    List.Forall₂ FieldDecl.Mirrors nestedDecls
      [⟨some "b", .bag, some [⟨some "t", .tuple, some [⟨some "n", .int, none⟩]⟩]⟩] ∧
    (∃ e, FieldDecl.toSchema [⟨"m", "map", some []⟩] = .error e ∧ e.category = .schema) ∧
    ∃ p op, nestedDocument.build = .ok p ∧ p.get? ⟨1⟩ = some op ∧ op.WellDeclared := by
  obtain ⟨hschema, -, herror, hspells, hbuild⟩ := schemas_mirror_declarations
  refine ⟨?_, ?_, ?_⟩
  · exact ((hschema nestedDecls ⟨_⟩).mp (by decide +kernel)).2
  · refine herror _ fun h ↦ ?_
    obtain ⟨t, ht, hcomplex⟩ := h _ (.root List.mem_cons_self)
    rcases hcomplex rfl with rfl | rfl
    · exact absurd ((hspells _ _).mp ht) (by decide +kernel)
    · exact absurd ((hspells _ _).mp ht) (by decide +kernel)
  · have hsome : (nestedDocument.build.toOption.bind (·.get? ⟨1⟩)).isSome = true := by
      decide +kernel
    cases hp : nestedDocument.build with
    | error e =>
      rw [hp] at hsome
      cases hsome
    | ok p =>
      rw [hp] at hsome
      obtain ⟨op, hop⟩ := Option.isSome_iff_exists.mp hsome
      exact ⟨p, op, rfl, hop, hbuild nestedDocument p hp ⟨1⟩ op hop⟩

end Dataflow
