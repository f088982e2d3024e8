import Dataflow.Proofs.Json.Codec

/-!
# The order of members

`sortKeys` brings the members of every object into the order of their keys, at every depth. It keeps
the literals and the levels of a tree (`Legible.sortKeys`, `depth_sortKeys`), and the members of an
object are as before up to their order (`sortKeysMembers_perm`).

A decoder is `Unordered` if it takes the same from a tree in order as from the tree itself. Records
are: their slots are looked up by name, and a name that occurs twice is refused wherever it stands
(`slots?_sortKeys`). Tables are not, because of two entries with one key the later counts.
-/

namespace Dataflow

/-! ## Slots and the order of members -/

namespace Layout

variable {β γ : Type} {fields : Layout} {members members' : List (String × β)}

/-- What the members of the right name make of a slot. -/
theorem lookup?_eq {field : String × Presence} {l : List (String × β)}
    (h : members.filter (fun m ↦ m.1 = field.1) = l) :
    lookup? members field = match (motive := List (String × β) → Option (Option β)) l with
      | [] => if field.2 = .required then none else some none
      | [m] => some (some m.2)
      | _ => none := by
  subst h
  rfl

theorem lookup?_perm (h : members.Perm members') (field : String × Presence) :
    lookup? members field = lookup? members' field := by
  have hfilter := h.filter fun m ↦ m.1 = field.1
  generalize hl : members.filter (fun m ↦ m.1 = field.1) = l at hfilter
  generalize hl' : members'.filter (fun m ↦ m.1 = field.1) = l' at hfilter
  rw [lookup?_eq hl, lookup?_eq hl']
  -- A list of at most one member has one order, and longer ones are refused.
  rcases l with _ | ⟨m, _ | ⟨m', ms⟩⟩
  · rw [hfilter.nil_eq]
  · rw [hfilter.singleton_eq]
  · rcases l' with _ | ⟨n, _ | ⟨n', ns⟩⟩
    · cases hfilter.eq_nil
    · cases hfilter.eq_singleton
    · rfl

theorem byName?_perm (h : members.Perm members') (fields : Layout) :
    byName? fields members = byName? fields members' := by
  rw [byName?, byName?, funext (lookup?_perm h)]

theorem lookup?_map (g : β → γ) (members : List (String × β)) (field : String × Presence) :
    lookup? (members.map fun m ↦ (m.1, g m.2)) field
      = (lookup? members field).map (Option.map g) := by
  have hfilter : (members.map fun m ↦ (m.1, g m.2)).filter (fun m ↦ m.1 = field.1)
      = (members.filter fun m ↦ m.1 = field.1).map fun m ↦ (m.1, g m.2) :=
    List.filter_map
  generalize hl : members.filter (fun m ↦ m.1 = field.1) = l at hfilter
  rw [lookup?_eq hfilter, lookup?_eq hl]
  rcases l with _ | ⟨m, _ | ⟨m', ms⟩⟩
  · by_cases h : field.2 = .required <;> simp [h]
  · rfl
  · rfl

theorem byName?_map (g : β → γ) (members : List (String × β)) :
    byName? fields (members.map fun m ↦ (m.1, g m.2))
      = (byName? fields members).map (List.map (Option.map g)) := by
  rw [byName?, byName?, funext (lookup?_map g members)]
  induction fields with
  | nil => rfl
  | cons field fields ih =>
    rw [List.mapM_cons, List.mapM_cons, ih]
    cases lookup? members field with
    | none => rfl
    | some b => cases fields.mapM (lookup? members) <;> rfl

theorem byPlace?_map (g : β → γ) : ∀ (fields : Layout) (l : List β),
    byPlace? fields (l.map g) = (byPlace? fields l).map (List.map (Option.map g))
  | [], [] => rfl
  | [], _ :: _ => rfl
  | field :: fields, [] => by
    have ih := byPlace?_map g fields []
    rw [List.map_nil] at ih ⊢
    rw [byPlace?, byPlace?, ih]
    by_cases h : field.2 = .optional
    · rw [if_pos h, if_pos h]
      cases byPlace? fields ([] : List β) <;> rfl
    · rw [if_neg h, if_neg h]
      rfl
  | _ :: fields, b :: l => by
    rw [List.map_cons, byPlace?, byPlace?, byPlace?_map g fields l]
    cases byPlace? fields l <;> rfl

end Layout

namespace Json

variable {α : Type}

/-! ## Trees in order -/

theorem sortKeysItems_eq_map (items : List Json) : sortKeysItems items = items.map sortKeys := by
  induction items with
  | nil => rfl
  | cons j js ih => rw [sortKeysItems, ih, List.map_cons]

theorem insertMember_perm (m : List Char × Json) (ms : List (List Char × Json)) :
    (insertMember m ms).Perm (m :: ms) := by
  induction ms with
  | nil => exact .refl _
  | cons m' ms ih =>
    rw [insertMember]
    split
    · exact .refl _
    · exact (ih.cons m').trans (.swap m m' ms)

/-- The members in order are the members, with their values in order. -/
theorem sortKeysMembers_perm (ms : List (List Char × Json)) :
    (sortKeysMembers ms).Perm (ms.map fun m ↦ (m.1, sortKeys m.2)) := by
  induction ms with
  | nil => exact .refl _
  | cons m ms ih => exact (insertMember_perm _ _).trans (ih.cons _)

theorem forall_mem_sortKeysMembers {ms : List (List Char × Json)}
    {P : List Char × Json → Prop} :
    (∀ m ∈ sortKeysMembers ms, P m) ↔ ∀ m ∈ ms, P (m.1, sortKeys m.2) := by
  have hmem (m : List Char × Json) := (sortKeysMembers_perm ms).mem_iff (a := m)
  simp only [hmem, List.forall_mem_map]

/-- No key comes before a lesser one. -/
def Ascending (members : List (List Char × Json)) : Prop :=
  members.Pairwise fun m m' ↦ ¬ m'.1 < m.1

/-- The keys of every object in a tree ascend. -/
inductive InOrder : Json → Prop
  | null : InOrder null
  | bool (b : Bool) : InOrder (bool b)
  | num (n : List Char) : InOrder (num n)
  | str (b : List Char) : InOrder (str b)
  | arr {items : List Json} (h : ∀ j ∈ items, InOrder j) : InOrder (arr items)
  | obj {members : List (List Char × Json)} (hk : Ascending members)
      (h : ∀ m ∈ members, InOrder m.2) : InOrder (obj members)

theorem ascending_insertMember {m : List Char × Json} {ms : List (List Char × Json)}
    (h : Ascending ms) : Ascending (insertMember m ms) := by
  induction ms with
  | nil => exact List.pairwise_singleton _ _
  | cons m' ms ih =>
    obtain ⟨hm', hms⟩ := List.pairwise_cons.mp h
    rw [insertMember]
    split
    · rename_i hlt
      refine List.pairwise_cons.mpr ⟨fun a ha hlt' ↦ ?_, h⟩
      rcases List.mem_cons.mp ha with rfl | ha
      · exact List.lt_asymm hlt hlt'
      · exact hm' a ha (List.lt_trans hlt' hlt)
    · rename_i hle
      refine List.pairwise_cons.mpr ⟨fun a ha ↦ ?_, ih hms⟩
      rcases List.mem_cons.mp ((insertMember_perm m ms).mem_iff.mp ha) with rfl | ha
      · exact hle
      · exact hm' a ha

theorem ascending_sortKeysMembers (ms : List (List Char × Json)) :
    Ascending (sortKeysMembers ms) := by
  induction ms with
  | nil => exact .nil
  | cons m ms ih => exact ascending_insertMember ih

/-- Keys are compared as texts, so the numeral of a greater number may come first. -/
example : sortKeys (obj [(['2'], null), (['1', '0'], bool true)]) =
    obj [(['1', '0'], bool true), (['2'], null)] := by
  rfl

theorem Legible.sortKeys {j : Json} (h : Legible j) : Legible j.sortKeys := by
  induction h with
  | null => exact .null
  | bool b => exact .bool b
  | num h hc => exact .num h hc
  | str h => exact .str h
  | arr _ ih =>
    rw [Json.sortKeys, sortKeysItems_eq_map]
    exact .arr (List.forall_mem_map.mpr ih)
  | obj hk _ ih =>
    exact .obj (forall_mem_sortKeysMembers.mpr hk) (forall_mem_sortKeysMembers.mpr ih)

theorem Legible.inOrder_sortKeys {j : Json} (h : Legible j) : InOrder j.sortKeys := by
  induction h with
  | null => exact .null
  | bool b => exact .bool b
  | num _ _ => exact .num _
  | str _ => exact .str _
  | arr _ ih =>
    rw [Json.sortKeys, sortKeysItems_eq_map]
    exact .arr (List.forall_mem_map.mpr ih)
  | @obj members _ _ ih =>
    exact .obj (ascending_sortKeysMembers members) (forall_mem_sortKeysMembers.mpr ih)

theorem Legible.depth_sortKeys_le_iff {j : Json} (h : Legible j) {n : Nat} :
    j.sortKeys.depth ≤ n ↔ j.depth ≤ n := by
  induction h generalizing n with
  | arr _ ih =>
    cases n with
    | zero => simp [Json.sortKeys, depth]
    | succ n =>
      rw [Json.sortKeys, depth, depth, Nat.succ_le_succ_iff, Nat.succ_le_succ_iff,
        depthItems_le_iff, depthItems_le_iff, sortKeysItems_eq_map, List.forall_mem_map]
      exact forall₂_congr fun j hj ↦ ih j hj
  | obj _ _ ih =>
    cases n with
    | zero => simp [Json.sortKeys, depth]
    | succ n =>
      rw [Json.sortKeys, depth, depth, Nat.succ_le_succ_iff, Nat.succ_le_succ_iff,
        depthMembers_le_iff, depthMembers_le_iff, forall_mem_sortKeysMembers]
      exact forall₂_congr fun m hm ↦ ih m hm
  | _ => exact .rfl

/-- The levels of a tree do not depend on the order of its members. -/
theorem Legible.depth_sortKeys {j : Json} (h : Legible j) : j.sortKeys.depth = j.depth :=
  Nat.le_antisymm (h.depth_sortKeys_le_iff.mpr (Nat.le_refl _))
    (h.depth_sortKeys_le_iff.mp (Nat.le_refl _))

theorem sortKeys_eq_null_iff {j : Json} : j.sortKeys = null ↔ j = null := by
  cases j <;> simp [sortKeys]

/-! ## Decoders that do not mind the order -/

/-- The decoder takes the same from a tree in order as from the tree itself. -/
def Unordered (d : Decoder α) : Prop :=
  ∀ n j, d n j.sortKeys = d n j

theorem exists_mapM_of_perm {β γ : Type} {g : β → Option γ} {l l' : List β} (h : l.Perm l') :
    ∀ {r : List γ}, l.mapM g = some r → ∃ r', l'.mapM g = some r' ∧ r.Perm r' := by
  induction h with
  | nil => exact fun hr ↦ ⟨_, hr, .refl _⟩
  | @cons a l l' _ ih =>
    intro r hr
    rw [List.mapM_cons] at hr
    obtain ⟨b, hb, hr⟩ := Option.bind_eq_some_iff.mp hr
    obtain ⟨bs, hbs, hr⟩ := Option.bind_eq_some_iff.mp hr
    cases hr
    obtain ⟨bs', hbs', hperm⟩ := ih hbs
    exact ⟨b :: bs', by simp [hb, hbs'], hperm.cons b⟩
  | swap a a' l =>
    intro r hr
    simp only [List.mapM_cons, Option.bind_eq_bind, Option.pure_def, Option.bind_eq_some_iff,
      Option.some.injEq] at hr
    obtain ⟨b', hb', _, ⟨b, hb, bs, hbs, rfl⟩, rfl⟩ := hr
    exact ⟨b :: b' :: bs, by simp [hb, hb', hbs], .swap b b' bs⟩
  | trans _ _ ih ih' =>
    intro r hr
    obtain ⟨r', hr', hperm⟩ := ih hr
    obtain ⟨r'', hr'', hperm'⟩ := ih' hr'
    exact ⟨r'', hr'', hperm.trans hperm'⟩

/-- A member with its name read. -/
def named? (m : List Char × Json) : Option (String × Json) :=
  (text? m.1).map (·, m.2)

theorem slots?_obj (fields : Layout) (members : List (List Char × Json)) :
    (obj members).slots? fields = (members.mapM named?).bind fields.byName? :=
  rfl

/-- The slots of a record are looked up by name. -/
theorem slots?_obj_perm {members members' : List (List Char × Json)} (h : members.Perm members')
    (fields : Layout) : (obj members).slots? fields = (obj members').slots? fields := by
  rw [slots?_obj, slots?_obj]
  cases hm : members.mapM named? with
  | some named =>
    obtain ⟨named', hm', hperm⟩ := exists_mapM_of_perm h hm
    rw [hm']
    exact Layout.byName?_perm hperm fields
  | none =>
    cases hm' : members'.mapM named? with
    | none => rfl
    | some named' =>
      obtain ⟨named, hsome, -⟩ := exists_mapM_of_perm h.symm hm'
      rw [hm] at hsome
      cases hsome

theorem mapM_named?_map (g : Json → Json) (members : List (List Char × Json)) :
    (members.map fun m ↦ (m.1, g m.2)).mapM named?
      = (members.mapM named?).map (List.map fun m ↦ (m.1, g m.2)) := by
  induction members with
  | nil => rfl
  | cons m members ih =>
    have hm : named? (m.1, g m.2) = (named? m).map fun m ↦ (m.1, g m.2) := by
      rw [named?, named?, Option.map_map]
      rfl
    rw [List.map_cons, List.mapM_cons, List.mapM_cons, ih, hm]
    cases named? m with
    | none => rfl
    | some m' => cases members.mapM named? <;> rfl

theorem slots?_obj_map (g : Json → Json) (fields : Layout) (members : List (List Char × Json)) :
    (obj (members.map fun m ↦ (m.1, g m.2))).slots? fields
      = ((obj members).slots? fields).map (List.map (Option.map g)) := by
  rw [slots?_obj, slots?_obj, mapM_named?_map]
  cases members.mapM named? with
  | none => rfl
  | some named => exact Layout.byName?_map g named

/-- The slots of a tree in order are the slots of the tree, with their values in order. -/
theorem slots?_sortKeys (fields : Layout) (j : Json) :
    j.sortKeys.slots? fields = (j.slots? fields).map (List.map (Option.map sortKeys)) := by
  cases j with
  | obj members =>
    rw [sortKeys, slots?_obj_perm (sortKeysMembers_perm members), slots?_obj_map]
  | arr items =>
    rw [sortKeys, sortKeysItems_eq_map]
    exact Layout.byPlace?_map sortKeys fields items
  | _ => rfl

/-- What is taken from the slots of a record does not depend on the order of its members. -/
theorem bind_slots?_sortKeys {fields : Layout} {build : List (Option Json) → Option α}
    (h : ∀ slots, build (slots.map (Option.map sortKeys)) = build slots) (j : Json) :
    (j.sortKeys.slots? fields).bind build = (j.slots? fields).bind build := by
  rw [slots?_sortKeys, Option.bind_map]
  exact congrArg _ (funext h)

theorem exists_sortKeysMembers_eq_cons_cons (m m' : List Char × Json)
    (ms : List (List Char × Json)) :
    ∃ m₁ m₂ rest, sortKeysMembers (m :: m' :: ms) = m₁ :: m₂ :: rest := by
  have hlen := (sortKeysMembers_perm (m :: m' :: ms)).length_eq
  match hs : sortKeysMembers (m :: m' :: ms) with
  | [] => simp [hs] at hlen
  | [_] => simp [hs] at hlen
  | m₁ :: m₂ :: rest => exact ⟨m₁, m₂, rest, rfl⟩

theorem variant?_sortKeys (j : Json) :
    j.sortKeys.variant? = j.variant?.map fun (name, content) ↦ (name, content.sortKeys) := by
  cases j with
  | obj members =>
    rcases members with _ | ⟨⟨k, j⟩, _ | ⟨m, ms⟩⟩
    · rfl
    · change (text? k).map (·, j.sortKeys) = ((text? k).map (·, j)).map _
      rw [Option.map_map]
      rfl
    · -- An object of several members is not an alternative, in whatever order they are.
      obtain ⟨m₁, m₂, rest, hrest⟩ := exists_sortKeysMembers_eq_cons_cons (k, j) m ms
      rw [sortKeys, hrest]
      rfl
  | _ => rfl

theorem mapM_sortKeysItems {g : Json → Option α} (h : ∀ j, g j.sortKeys = g j)
    (items : List Json) : (sortKeysItems items).mapM g = items.mapM g := by
  rw [sortKeysItems_eq_map, List.mapM_map, Function.comp_def, funext h]

namespace Unordered

variable {d : Decoder α}

theorem string : Unordered string := by
  intro n j
  cases j <;> rfl

theorem truth : Unordered truth := by
  intro n j
  cases j <;> rfl

theorem word : Unordered word := by
  intro n j
  cases j <;> rfl

theorem keyword : Unordered keyword := by
  intro n j
  cases j with
  | obj members =>
    rcases members with _ | ⟨⟨k, j⟩, _ | ⟨m, ms⟩⟩
    · rfl
    · cases n <;> cases j <;> rfl
    · obtain ⟨m₁, m₂, rest, hrest⟩ := exists_sortKeysMembers_eq_cons_cons (k, j) m ms
      rw [sortKeys, hrest]
      cases n <;> simp [Json.keyword]
  | _ => cases n <;> rfl

theorem option (h : Unordered d) : Unordered (Json.option d) := by
  intro n j
  unfold Json.option
  cases j with
  | null => rfl
  | _ => exact congrArg (Option.map some) (h n _)

theorem list (h : Unordered d) : Unordered (Json.list d) := by
  intro n j
  cases n <;> cases j <;> first | rfl | exact mapM_sortKeysItems (h _) _

theorem pair (h : Unordered d) : Unordered (Json.pair d) := by
  intro n j
  cases n with
  | zero => cases j <;> rfl
  | succ n =>
    cases j with
    | arr items =>
      rcases items with _ | ⟨i, _ | ⟨j, _ | ⟨k, ks⟩⟩⟩
      · rfl
      · rfl
      · simp only [sortKeys, sortKeysItems, Json.pair, h n]
      · rfl
    | _ => rfl

/-! ## Records -/

theorem required (h : Unordered d) (n : Nat) (slot : Option Json) :
    Json.required d n (slot.map sortKeys) = Json.required d n slot := by
  cases slot with
  | none => rfl
  | some j => exact h n j

theorem nullable (h : Unordered d) (n : Nat) (slot : Option Json) :
    Json.nullable d n (slot.map sortKeys) = Json.nullable d n slot := by
  cases slot with
  | none => rfl
  | some j => exact h.option n j

theorem withDefault (h : Unordered d) (a : α) (n : Nat) (slot : Option Json) :
    Json.withDefault a d n (slot.map sortKeys) = Json.withDefault a d n slot := by
  cases slot with
  | none => rfl
  | some j => exact h n j

/-- A decoder that takes a value from the slots of a record. -/
theorem record {fields : Layout} {build : Nat → List (Option Json) → Option α}
    (hzero : ∀ j, d 0 j = none) (hsucc : ∀ n j, d (n + 1) j = (j.slots? fields).bind (build n))
    (hbuild : ∀ n slots, build n (slots.map (Option.map sortKeys)) = build n slots) :
    Unordered d := by
  intro n j
  cases n with
  | zero => rw [hzero, hzero]
  | succ n => rw [hsucc, hsucc, bind_slots?_sortKeys (hbuild n)]

end Unordered

/-- The decoder takes back from the tree in order what `f` has written. -/
def TakesSorted (f : α → Json) (d : Decoder α) : Prop :=
  ∀ a {n}, (f a).depth ≤ n → d n (f a).sortKeys = some a

theorem IsCodec.takesSorted {f : α → Json} {d : Decoder α} (h : IsCodec f d) (hd : Unordered d) :
    TakesSorted f d :=
  fun a n hn ↦ by rw [hd, h.decode a hn]

/-- A codec with the members in order. -/
theorem IsCodec.sortKeys {f : α → Json} {d : Decoder α} (h : IsCodec f d) (hd : TakesSorted f d) :
    IsCodec (fun a ↦ (f a).sortKeys) d where
  legible a := (h.legible a).sortKeys
  decode a _ hn := hd a ((h.legible a).depth_sortKeys_le_iff.mp hn)

end Json

end Dataflow
