import Dataflow.OpId

/-!
# Tables keyed by operator identifiers

A table is a list of entries in strictly ascending order of their keys, so two tables with the same
lookups are equal (`IdTable.ext_get?`) and walking the entries is walking the keys in order.
-/

namespace Dataflow

universe u
variable {α : Type u}

/-- A finite map from operator identifiers, held in ascending order of the keys. -/
structure IdTable (α : Type u) where
  entries : List (OpId × α)
  ascending : entries.Pairwise (fun a b ↦ a.1 < b.1)
deriving DecidableEq

namespace IdTable

/-- The table without entries. -/
def empty : IdTable α :=
  ⟨[], .nil⟩

instance : Inhabited (IdTable α) :=
  ⟨empty⟩

/-- The value at a key in a list of entries. -/
def find? (k : OpId) : List (OpId × α) → Option α
  | [] => none
  | (j, b) :: r => if k = j then some b else find? k r

/-- The value at a key. -/
def get? (t : IdTable α) (k : OpId) : Option α :=
  find? k t.entries

/-- The keys, in ascending order. -/
def keys (t : IdTable α) : List OpId :=
  t.entries.map (·.1)

/-- The number of entries. -/
def size (t : IdTable α) : Nat :=
  t.entries.length

/-! ## Insertion -/

/-- Puts an entry at its place in an ascending list; an entry with the same key is replaced. -/
def insertEntry (k : OpId) (a : α) : List (OpId × α) → List (OpId × α)
  | [] => [(k, a)]
  | (j, b) :: r =>
    if k < j then (k, a) :: (j, b) :: r
    else if k = j then (k, a) :: r
    else (j, b) :: insertEntry k a r

theorem mem_insertEntry {k : OpId} {a : α} {e : OpId × α} {l : List (OpId × α)}
    (h : e ∈ insertEntry k a l) : e = (k, a) ∨ e ∈ l := by
  induction l with
  | nil => simpa [insertEntry] using h
  | cons hd r ih =>
    obtain ⟨j, b⟩ := hd
    rw [insertEntry] at h
    split at h
    · simpa using h
    · split at h
      · rcases List.mem_cons.mp h with h | h
        · exact Or.inl h
        · exact Or.inr (List.mem_cons_of_mem _ h)
      · rcases List.mem_cons.mp h with h | h
        · exact Or.inr (h ▸ List.mem_cons_self)
        · exact (ih h).imp_right (List.mem_cons_of_mem _)

theorem ascending_insertEntry (k : OpId) (a : α) {l : List (OpId × α)}
    (h : l.Pairwise (fun a b ↦ a.1 < b.1)) :
    (insertEntry k a l).Pairwise (fun a b ↦ a.1 < b.1) := by
  induction l with
  | nil => simp [insertEntry]
  | cons hd r ih =>
    obtain ⟨j, b⟩ := hd
    rw [List.pairwise_cons] at h
    rw [insertEntry]
    split
    · rename_i hkj
      refine List.pairwise_cons.mpr ⟨fun e he ↦ ?_, List.pairwise_cons.mpr h⟩
      rcases List.mem_cons.mp he with rfl | he
      · exact hkj
      · exact OpId.lt_trans hkj (h.1 e he)
    · rename_i hkj
      split
      · rename_i heq
        subst heq
        exact List.pairwise_cons.mpr h
      · rename_i hne
        refine List.pairwise_cons.mpr ⟨fun e he ↦ ?_, ih h.2⟩
        rcases mem_insertEntry he with rfl | he
        · exact OpId.lt_of_not_lt_of_ne hkj hne
        · exact h.1 e he

/-- A key above all others goes to the end. -/
theorem insertEntry_of_forall_lt {k : OpId} {a : α} {l : List (OpId × α)}
    (h : ∀ e ∈ l, e.1 < k) : insertEntry k a l = l ++ [(k, a)] := by
  induction l with
  | nil => rfl
  | cons e l ih =>
    have hlt : e.1 < k := h e List.mem_cons_self
    have hnlt : ¬ k < e.1 := fun h' ↦ OpId.lt_irrefl k (OpId.lt_trans h' hlt)
    have hne : k ≠ e.1 := fun h' ↦ OpId.lt_irrefl k (h' ▸ hlt)
    rw [insertEntry, if_neg hnlt, if_neg hne, ih fun e' he' ↦ h e' (List.mem_cons_of_mem e he'),
      List.cons_append]

/-- Sets the value at a key. -/
def insert (t : IdTable α) (k : OpId) (a : α) : IdTable α :=
  ⟨insertEntry k a t.entries, ascending_insertEntry k a t.ascending⟩

/-- The table of a list of entries; of two entries with one key the later counts. -/
def ofList (l : List (OpId × α)) : IdTable α :=
  l.foldl (fun t e ↦ t.insert e.1 e.2) empty

theorem entries_foldl_insert {l : List (OpId × α)} (hl : l.Pairwise (fun a b ↦ a.1 < b.1))
    {t : IdTable α} (h : ∀ e ∈ t.entries, ∀ e' ∈ l, e.1 < e'.1) :
    (l.foldl (fun t e ↦ t.insert e.1 e.2) t).entries = t.entries ++ l := by
  induction l generalizing t with
  | nil => rw [List.foldl_nil, List.append_nil]
  | cons a l ih =>
    obtain ⟨hal, hl⟩ := List.pairwise_cons.mp hl
    have hentries : (t.insert a.1 a.2).entries = t.entries ++ [a] :=
      insertEntry_of_forall_lt fun e he ↦ h e he a List.mem_cons_self
    rw [List.foldl_cons, ih hl, hentries, List.append_assoc, List.singleton_append]
    intro e he e' he'
    rw [hentries, List.mem_append, List.mem_singleton] at he
    rcases he with he | rfl
    · exact h e he e' (List.mem_cons_of_mem a he')
    · exact hal e' he'

/-- A table is the table of its entries. -/
@[simp] theorem ofList_entries (t : IdTable α) : ofList t.entries = t := by
  have h : (ofList t.entries).entries = empty.entries ++ t.entries :=
    entries_foldl_insert t.ascending nofun
  cases t
  exact mk.injEq .. ▸ h

/-! ## Lookups -/

@[simp] theorem get?_empty (k : OpId) : (empty : IdTable α).get? k = none := rfl

theorem get?_insert (t : IdTable α) (k j : OpId) (a : α) :
    (t.insert k a).get? j = if j = k then some a else t.get? j := by
  obtain ⟨l, hl⟩ := t
  simp only [insert, get?]
  clear hl
  induction l with
  | nil => simp [insertEntry, find?]
  | cons hd r ih =>
    obtain ⟨i, b⟩ := hd
    rw [insertEntry]
    split
    · simp [find?]
    · split
      · rename_i h
        subst h
        by_cases h : j = k <;> simp [find?, h]
      · rename_i hne
        by_cases h : j = i
        · subst h
          simp [find?, Ne.symm hne]
        · simp [find?, h, ih]

theorem mem_keys_iff {t : IdTable α} {k : OpId} : k ∈ t.keys ↔ (t.get? k).isSome := by
  obtain ⟨l, hl⟩ := t
  simp only [keys, get?]
  clear hl
  induction l with
  | nil => simp [find?]
  | cons hd r ih =>
    obtain ⟨i, b⟩ := hd
    by_cases h : k = i
    · simp [find?, h]
    · rw [List.map_cons, List.mem_cons, ih]
      simp [find?, h]

private theorem find?_eq_none_of_lt {k : OpId} {l : List (OpId × α)}
    (h : ∀ e ∈ l, k < e.1) : find? k l = none := by
  induction l with
  | nil => rfl
  | cons hd r ih =>
    obtain ⟨i, b⟩ := hd
    have hne : k ≠ i := fun he ↦ OpId.lt_irrefl i (he ▸ h (i, b) List.mem_cons_self)
    simp [find?, hne, ih fun e he ↦ h e (List.mem_cons_of_mem _ he)]

private theorem eq_of_find?_eq {l l' : List (OpId × α)}
    (hl : l.Pairwise (fun a b ↦ a.1 < b.1)) (hl' : l'.Pairwise (fun a b ↦ a.1 < b.1))
    (h : ∀ k, find? k l = find? k l') : l = l' := by
  induction l generalizing l' with
  | nil =>
    cases l' with
    | nil => rfl
    | cons e' r' => simpa [find?] using h e'.1
  | cons e r ih =>
    cases l' with
    | nil => simpa [find?] using h e.1
    | cons e' r' =>
      obtain ⟨k, a⟩ := e
      obtain ⟨k', a'⟩ := e'
      have hr := hl
      have hr' := hl'
      rw [List.pairwise_cons] at hl hl'
      have hkk : k = k' := by
        by_cases hne : k = k'
        · exact hne
        · exfalso
          by_cases hlt : k < k'
          · have hk := h k
            rw [find?_eq_none_of_lt (l := (k', a') :: r') fun e he ↦ ?_] at hk
            · simp [find?] at hk
            · rcases List.mem_cons.mp he with rfl | he
              · exact hlt
              · exact OpId.lt_trans hlt (hl'.1 e he)
          · have hgt := OpId.lt_of_not_lt_of_ne hlt hne
            have hk := h k'
            rw [find?_eq_none_of_lt (l := (k, a) :: r) fun e he ↦ ?_] at hk
            · simp [find?] at hk
            · rcases List.mem_cons.mp he with rfl | he
              · exact hgt
              · exact OpId.lt_trans hgt (hl.1 e he)
      subst hkk
      have haa : a = a' := by simpa [find?] using h k
      subst haa
      congr 1
      refine ih hl.2 hl'.2 fun j ↦ ?_
      by_cases hj : j = k
      · subst hj
        rw [find?_eq_none_of_lt hl.1, find?_eq_none_of_lt hl'.1]
      · simpa [find?, hj] using h j

/-- A table is determined by its lookups. -/
theorem ext_get? {t t' : IdTable α} (h : ∀ k, t.get? k = t'.get? k) : t = t' := by
  obtain ⟨l, hl⟩ := t
  obtain ⟨l', hl'⟩ := t'
  have : l = l' := eq_of_find?_eq hl hl' h
  subst this
  rfl

/-! ## Entries and keys -/

theorem mem_entries_iff {t : IdTable α} {k : OpId} {a : α} :
    (k, a) ∈ t.entries ↔ t.get? k = some a := by
  obtain ⟨l, hl⟩ := t
  simp only [get?]
  induction l with
  | nil => simp [find?]
  | cons hd r ih =>
    obtain ⟨i, b⟩ := hd
    rw [List.pairwise_cons] at hl
    rw [List.mem_cons, ih hl.2, find?]
    by_cases h : k = i
    · subst h
      have hr : find? k r = none := find?_eq_none_of_lt hl.1
      simp [hr, eq_comm]
    · simp [h]

/-- The keys of the entries that pass a test. -/
theorem mem_map_fst_filter_iff {t : IdTable α} {k : OpId} {f : OpId × α → Bool} :
    k ∈ (t.entries.filter f).map (·.1) ↔ ∃ a, t.get? k = some a ∧ f (k, a) = true := by
  rw [List.mem_map]
  constructor
  · rintro ⟨⟨k, a⟩, he, rfl⟩
    obtain ⟨hmem, ha⟩ := List.mem_filter.mp he
    exact ⟨a, mem_entries_iff.mp hmem, ha⟩
  · rintro ⟨a, hget, ha⟩
    exact ⟨(k, a), List.mem_filter.mpr ⟨mem_entries_iff.mpr hget, ha⟩, rfl⟩

theorem mem_keys_insert {t : IdTable α} {k j : OpId} {a : α} :
    j ∈ (t.insert k a).keys ↔ j = k ∨ j ∈ t.keys := by
  rw [mem_keys_iff, mem_keys_iff, get?_insert]
  by_cases h : j = k <;> simp [h]

theorem keys_insert_of_forall_lt {t : IdTable α} {k : OpId} {a : α} (h : ∀ j ∈ t.keys, j < k) :
    (t.insert k a).keys = t.keys ++ [k] := by
  have hlt : ∀ e ∈ t.entries, e.1 < k := fun e he ↦ h e.1 (List.mem_map_of_mem he)
  exact (congrArg (List.map (·.1)) (insertEntry_of_forall_lt hlt)).trans List.map_append

theorem pairwise_keys (t : IdTable α) : t.keys.Pairwise (· < ·) :=
  List.pairwise_map.mpr t.ascending

theorem nodup_keys (t : IdTable α) : t.keys.Nodup := by
  rw [List.Nodup]
  refine t.pairwise_keys.imp fun h heq ↦ ?_
  rw [heq] at h
  exact OpId.lt_irrefl _ h

private theorem length_insertEntry (k : OpId) (a : α) {l : List (OpId × α)}
    (hl : l.Pairwise (fun a b ↦ a.1 < b.1)) :
    (insertEntry k a l).length = if k ∈ l.map (·.1) then l.length else l.length + 1 := by
  induction l with
  | nil => simp [insertEntry]
  | cons hd r ih =>
    obtain ⟨i, b⟩ := hd
    rw [List.pairwise_cons] at hl
    rw [insertEntry]
    split
    · rename_i hki
      have hr : k ∉ ((i, b) :: r).map (·.1) := by
        intro hk
        obtain ⟨e, he, rfl⟩ := List.mem_map.mp hk
        rcases List.mem_cons.mp he with rfl | he
        · exact OpId.lt_irrefl _ hki
        · exact OpId.lt_irrefl _ (OpId.lt_trans hki (hl.1 e he))
      rw [if_neg hr, List.length_cons]
    · split
      · rename_i h
        simp [h]
      · rename_i h
        rw [List.length_cons, ih hl.2]
        by_cases hk : k ∈ r.map (·.1)
        · rw [if_pos hk, List.map_cons, if_pos (List.mem_cons_of_mem _ hk), List.length_cons]
        · rw [if_neg hk, if_neg (by simp [h, hk]), List.length_cons]

/-- An entry is added or replaced. -/
theorem size_insert (t : IdTable α) (k : OpId) (a : α) :
    (t.insert k a).size = if k ∈ t.keys then t.size else t.size + 1 :=
  length_insertEntry k a t.ascending

end IdTable

end Dataflow
