import Dataflow.Json.Printer
import Dataflow.Json.Reader
import Dataflow.Proofs.Json.Literal

/-!
# Trees are read back from their text

A tree whose literals are literals of JSON is `Legible`, and reading the text that `write` gives for
it gives the tree again (`parse_render`).

## The reader over text

`Reader.run` takes a state of the reader over a whole text. A token at the front of the text is one
step (`Reader.run_of_token?`), so the proof is a walk along the text: wherever a value is awaited, the
text of a legible tree leads to the state in which this tree is done (`IsRead`). The text that follows
is arbitrary, but it must not go on with a character of a numeral, because numerals have no end mark.
-/

namespace Dataflow.Json

/-! ## Legible trees -/

/-- The literals of a tree are literals of JSON. -/
inductive Legible : Json → Prop
  | null : Legible null
  | bool (b : Bool) : Legible (bool b)
  | num {n : List Char} (h : isNumeral n) (hc : ∀ c ∈ n, isNumeralChar c) : Legible (num n)
  | str {b : List Char} (h : IsQuotable b) : Legible (str b)
  | arr {items : List Json} (h : ∀ j ∈ items, Legible j) : Legible (arr items)
  | obj {members : List (List Char × Json)} (hk : ∀ m ∈ members, IsQuotable m.1)
      (h : ∀ m ∈ members, Legible m.2) : Legible (obj members)

/-! ## Tokens -/

/-- A numeral does not go on at the front of a text. -/
def Ends (s : List Char) : Prop :=
  ∀ c ∈ s.head?, ¬ isNumeralChar c

theorem ends_nil : Ends [] := by
  simp [Ends]

theorem ends_cons {c : Char} (h : isNumeralChar c = false) (s : List Char) : Ends (c :: s) := by
  simp [Ends, h]

theorem Ends.takeWhile_eq {s : List Char} (h : Ends s) : s.takeWhile isNumeralChar = [] := by
  cases s with
  | nil => rfl
  | cons c s => exact List.takeWhile_cons_of_neg (h c rfl)

theorem Ends.dropWhile_eq {s : List Char} (h : Ends s) : s.dropWhile isNumeralChar = s := by
  cases s with
  | nil => rfl
  | cons c s => exact List.dropWhile_cons_of_neg (h c rfl)

theorem token?_quoted {b : List Char} (h : IsQuotable b) (rest : List Char) :
    token? (quoted b ++ rest) = some (.str b, rest) := by
  rw [quoted, List.cons_append, List.append_assoc, List.singleton_append, token?, if_pos rfl,
    h.closeString]
  exact if_pos h.isBody

theorem token?_numeral {n rest : List Char} (h : isNumeral n) (hc : ∀ c ∈ n, isNumeralChar c)
    (hrest : Ends rest) : token? (n ++ rest) = some (.num n, rest) := by
  cases n with
  | nil => exact absurd h (by decide)
  | cons c n =>
    -- The first character selects the branch for numerals, and the others are taken up to `rest`.
    have hcn : isNumeralChar c := hc c List.mem_cons_self
    have hq : c ≠ '"' := by
      rintro rfl
      exact absurd hcn (by decide)
    have hn : ∀ c' ∈ n, isNumeralChar c' := fun c' hc' ↦ hc c' (List.mem_cons_of_mem c hc')
    have htake : (n ++ rest).takeWhile isNumeralChar = n := by
      rw [List.takeWhile_append_of_pos hn, hrest.takeWhile_eq, List.append_nil]
    have hdrop : (n ++ rest).dropWhile isNumeralChar = rest := by
      rw [List.dropWhile_append_of_pos hn, hrest.dropWhile_eq]
    rw [List.cons_append, token?, if_neg hq, if_pos hcn, htake, hdrop, if_pos h]

theorem token?_eq_none_of_isSpace {c : Char} (h : isSpace c) (s : List Char) :
    token? (c :: s) = none := by
  simp only [isSpace, Bool.or_eq_true, beq_iff_eq] at h
  obtain ((rfl | rfl) | rfl) | rfl := h <;> rfl

theorem tokens_eq {s rest : List Char} {t : Token} (h : token? s = some (t, rest)) :
    tokens s = (tokens rest).map (t :: ·) := by
  cases s with
  | nil => cases h
  | cons c s =>
    have hc : ¬ isSpace c := by
      intro hc
      rw [token?_eq_none_of_isSpace hc] at h
      cases h
    rw [tokens, if_neg hc]
    split
    next hnone => rw [h] at hnone; cases hnone
    next hsome =>
      rw [h] at hsome
      cases hsome
      exact Option.map_eq_bind.symm

/-! ## The reader over text -/

namespace Reader

/-- The reader after the tokens of a text. -/
def run (r : Reader) (s : List Char) : Option Reader := do
  (← tokens s).foldlM step r

theorem run_nil (r : Reader) : r.run [] = some r := by
  rw [run, tokens]
  rfl

theorem run_of_token? {r r' : Reader} {s rest : List Char} {t : Token}
    (ht : token? s = some (t, rest)) (hr : r.step t = some r') : r.run s = r'.run rest := by
  rw [run, run, tokens_eq ht]
  cases tokens rest with
  | none => rfl
  | some ts => simp [hr]

/-- A value must come next, within what the stack holds. -/
def Awaits (r : Reader) (stack : List Frame) : Prop :=
  ∀ t, t ≠ .closeArr → r.step t = beginValue stack t

theorem awaits_value (stack : List Frame) : (value stack).Awaits stack :=
  fun _ _ ↦ rfl

theorem awaits_firstItem (stack : List Frame) : (firstItem stack).Awaits (.arr [] :: stack) := by
  intro t ht
  cases t <;> first | rfl | exact absurd rfl ht

end Reader

open Reader (run_of_token? awaits_value awaits_firstItem)

/-- The text of a tree leads from where a value is awaited to where the tree is done. -/
def IsRead (j : Json) : Prop :=
  ∀ (r : Reader) (stack : List Frame) (rest : List Char), r.Awaits stack → Ends rest →
    r.run (write j ++ rest) = (Reader.done j stack).run rest

theorem ends_writeItems (js : List Json) (rest : List Char) :
    Ends (writeItems js ++ ']' :: rest) := by
  cases js <;> exact ends_cons rfl _

theorem ends_writeMembers (ms : List (List Char × Json)) (rest : List Char) :
    Ends (writeMembers ms ++ '}' :: rest) := by
  cases ms <;> exact ends_cons rfl _

theorem run_writeItems {js : List Json} (h : ∀ j ∈ js, IsRead j) (j : Json) (items : List Json)
    (stack : List Frame) (rest : List Char) :
    (Reader.done j (.arr items :: stack)).run (writeItems js ++ ']' :: rest) =
      (Reader.done (.arr (items.reverse ++ j :: js)) stack).run rest := by
  induction js generalizing j items with
  | nil => exact run_of_token? rfl (by simp [Reader.step, Reader.afterValue])
  | cons j' js ih =>
    have hj' : IsRead j' := h j' List.mem_cons_self
    rw [writeItems, List.cons_append, List.append_assoc, run_of_token? rfl rfl,
      hj' _ _ _ (awaits_value _) (ends_writeItems js rest),
      ih fun i hi ↦ h i (List.mem_cons_of_mem j' hi)]
    simp

/-- A key is taken, then the colon, then the value. -/
theorem run_member {k : List Char} {j : Json} (hk : IsQuotable k) (hj : IsRead j) {r : Reader}
    {members : List (List Char × Json)} {stack : List Frame} {rest : List Char}
    (hr : r.step (.str k) = some (.colon members k stack)) (hrest : Ends rest) :
    r.run (quoted k ++ ':' :: (write j ++ rest)) =
      (Reader.done j (.obj members k :: stack)).run rest := by
  rw [run_of_token? (token?_quoted hk _) hr, run_of_token? rfl rfl]
  exact hj _ _ _ (awaits_value _) hrest

theorem run_writeMembers {ms : List (List Char × Json)} (hk : ∀ m ∈ ms, IsQuotable m.1)
    (h : ∀ m ∈ ms, IsRead m.2) (k : List Char) (j : Json) (members : List (List Char × Json))
    (stack : List Frame) (rest : List Char) :
    (Reader.done j (.obj members k :: stack)).run (writeMembers ms ++ '}' :: rest) =
      (Reader.done (.obj (members.reverse ++ (k, j) :: ms)) stack).run rest := by
  induction ms generalizing k j members with
  | nil => exact run_of_token? rfl (by simp [Reader.step, Reader.afterValue])
  | cons m ms ih =>
    obtain ⟨k', j'⟩ := m
    have htext : writeMembers ((k', j') :: ms) ++ '}' :: rest =
        ',' :: (quoted k' ++ ':' :: (write j' ++ (writeMembers ms ++ '}' :: rest))) := by
      simp [writeMembers]
    have hk' : IsQuotable k' := hk (k', j') List.mem_cons_self
    have hj' : IsRead j' := h (k', j') List.mem_cons_self
    rw [htext, run_of_token? rfl rfl, run_member hk' hj' rfl (ends_writeMembers ms rest),
      ih (fun i hi ↦ hk i (List.mem_cons_of_mem _ hi)) fun i hi ↦ h i (List.mem_cons_of_mem _ hi)]
    simp

/-! ## Whole trees -/

theorem isRead_arr {items : List Json} (h : ∀ j ∈ items, IsRead j) : IsRead (arr items) := by
  intro r stack rest hr _
  have hopen : r.step .openArr = some (.firstItem stack) := hr .openArr (by decide)
  cases items with
  | nil =>
    rw [write, List.cons_append, List.singleton_append, run_of_token? rfl hopen,
      run_of_token? rfl rfl]
  | cons j js =>
    have htext : write (arr (j :: js)) ++ rest =
        '[' :: (write j ++ (writeItems js ++ ']' :: rest)) := by
      simp [write]
    have hj : IsRead j := h j List.mem_cons_self
    -- The first item is awaited within the array just opened, which holds nothing yet.
    rw [htext, run_of_token? rfl hopen, hj _ _ _ (awaits_firstItem _) (ends_writeItems js rest)]
    exact run_writeItems (fun i hi ↦ h i (List.mem_cons_of_mem j hi)) j [] stack rest

theorem isRead_obj {members : List (List Char × Json)} (hk : ∀ m ∈ members, IsQuotable m.1)
    (h : ∀ m ∈ members, IsRead m.2) : IsRead (obj members) := by
  intro r stack rest hr _
  have hopen : r.step .openObj = some (.firstKey stack) := hr .openObj (by decide)
  cases members with
  | nil =>
    rw [write, List.cons_append, List.singleton_append, run_of_token? rfl hopen,
      run_of_token? rfl rfl]
  | cons m ms =>
    obtain ⟨k, j⟩ := m
    have htext : write (obj ((k, j) :: ms)) ++ rest =
        '{' :: (quoted k ++ ':' :: (write j ++ (writeMembers ms ++ '}' :: rest))) := by
      simp [write]
    have hk' : IsQuotable k := hk (k, j) List.mem_cons_self
    have hj : IsRead j := h (k, j) List.mem_cons_self
    rw [htext, run_of_token? rfl hopen, run_member hk' hj rfl (ends_writeMembers ms rest)]
    exact run_writeMembers (fun i hi ↦ hk i (List.mem_cons_of_mem _ hi))
      (fun i hi ↦ h i (List.mem_cons_of_mem _ hi)) k j [] stack rest

theorem Legible.isRead {j : Json} (h : Legible j) : IsRead j := by
  induction h with
  | null => exact fun r stack rest hr _ ↦ run_of_token? rfl (hr (.word .null) (by decide))
  | bool b =>
    intro r stack rest hr _
    cases b with
    | false => exact run_of_token? rfl (hr (.word .false) (by decide))
    | true => exact run_of_token? rfl (hr (.word .true) (by decide))
  | num h hc =>
    exact fun r stack rest hr hrest ↦
      run_of_token? (token?_numeral h hc hrest) (hr (.num _) (by simp))
  | str h =>
    exact fun r stack rest hr _ ↦ run_of_token? (token?_quoted h rest) (hr (.str _) (by simp))
  | arr _ ih => exact isRead_arr ih
  | obj hk _ ih => exact isRead_obj hk ih

/-- A legible tree is read back from its text. -/
theorem parse_render {j : Json} (h : Legible j) : parse j.render = some j := by
  have hread (s : List Char) : read s = ((Reader.value []).run s).bind Reader.result := by
    rw [read, Reader.run]
    cases tokens s <;> rfl
  have hrun := h.isRead (.value []) [] [] (awaits_value []) ends_nil
  rw [List.append_nil, Reader.run_nil] at hrun
  rw [parse, render, String.toList_ofList, hread, hrun]
  rfl

end Dataflow.Json
