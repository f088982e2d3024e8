import Dataflow.FunctionSpec
import Mathlib.Data.List.TakeWhile

/-!
# Reading back a written function spec

A written spec is read back as it was if and only if its name is plain: not empty, and without blanks
and parentheses. The arguments may be any texts at all.

## Why two rules for backslashes agree

The writer escapes a backslash only before the quote, before another backslash and at the end; the
reader pairs a backslash with what follows it only before the quote and before another backslash. They
look at different texts, since the writer looks ahead in the argument and the reader in what was
written. What joins them is that a character which needs no escape is written as itself
(`escape_cons_of_ne`): a backslash that was left alone is followed by the same character on both sides,
and one at the end, which would meet the closing quote, was not left alone.
-/

namespace Dataflow

namespace FunctionSpec

variable {q c d : Char} {s r arg rest : List Char}

/-! ## Arguments -/

theorem unquote_quote (q : Char) (rest : List Char) : unquote q (q :: rest) = some ([], rest) := by
  cases rest <;> simp [unquote]

theorem unquote_escaped (hq : q ≠ '\\') (hd : d = q ∨ d = '\\') (r : List Char) :
    unquote q ('\\' :: d :: r) = (unquote q r).map fun (arg, rest) ↦ (d :: arg, rest) := by
  rw [unquote, if_neg hq.symm, if_pos ⟨rfl, hd⟩]

theorem unquote_plain (hc : c ≠ q) (h : ¬ (c = '\\' ∧ (d = q ∨ d = '\\'))) (r : List Char) :
    unquote q (c :: d :: r) = (unquote q (d :: r)).map fun (arg, rest) ↦ (c :: arg, rest) := by
  rw [unquote, if_neg hc, if_neg h]

/-- A character that is neither the quote nor a backslash is written as itself. -/
theorem escape_cons_of_ne (hq : d ≠ q) (hd : d ≠ '\\') (r : List Char) :
    escape q (d :: r) = d :: escape q r := by
  cases r <;> simp [escape, hq, hd]

theorem escape_cons_ne_nil (q d : Char) (r : List Char) : escape q (d :: r) ≠ [] := by
  cases r <;> (rw [escape]; split <;> simp)

/-- **An escaped argument is read back**, whatever follows its closing quote. -/
theorem unquote_escape (hq : q ≠ '\\') (arg rest : List Char) :
    unquote q (escape q arg ++ q :: rest) = some (arg, rest) := by
  fun_induction escape q arg with
  | case1 => exact unquote_quote q rest
  | case2 c hc => simp [unquote_escaped hq hc, unquote_quote]
  | case3 c hc =>
    rw [not_or] at hc
    rw [List.singleton_append, unquote_plain hc.1 (fun h ↦ hc.2 h.1), unquote_quote]
    rfl
  | case4 c d r hc ih =>
    have hc' : c = q ∨ c = '\\' := hc.imp_right And.left
    rw [List.cons_append, List.cons_append, unquote_escaped hq hc', ih]
    rfl
  | case5 c d r hc ih =>
    rw [not_or] at hc
    -- The reader sees what was written for `d`, which is `d` itself if `c` is a backslash.
    obtain ⟨e, t, he⟩ := List.exists_cons_of_ne_nil (escape_cons_ne_nil q d r)
    have hplain : ¬ (c = '\\' ∧ (e = q ∨ e = '\\')) := by
      rintro ⟨rfl, hed⟩
      obtain ⟨hdq, hd⟩ := not_or.mp fun h ↦ hc.2 ⟨rfl, h⟩
      rw [escape_cons_of_ne hdq hd, List.cons.injEq] at he
      rw [← he.1] at hed
      exact hed.elim hdq hd
    rw [he] at ih ⊢
    rw [List.cons_append] at ih
    rw [List.cons_append, List.cons_append, unquote_plain hc.1 hplain, ih]
    rfl

theorem quoteFor_eq_or (arg : List Char) : quoteFor arg = '\'' ∨ quoteFor arg = '"' := by
  rw [quoteFor]
  split
  · exact .inr rfl
  · exact .inl rfl

/-! ## Lists of arguments -/

/-- The equation of `readArgs`, without the proof that it ends. -/
theorem readArgs_eq (s : List Char) : readArgs s = match Text.skipBlanks s with
    | [] => .ok []
    | q :: body =>
      if q = '\'' ∨ q = '"' then
        match unquote q body with
        | none => .error .unterminatedArgument
        | some (arg, rest) =>
          match Text.skipBlanks rest with
          | [] => .ok [String.ofList arg]
          | ',' :: more => (String.ofList arg :: ·) <$> readArgs more
          | c :: _ => .error (.unexpected c)
      else .error .unquotedArgument := by
  rw [readArgs]
  split
  · rename_i hs
    simp only [hs]
  · rename_i q body hs
    simp only [hs]
    split
    · split
      · rename_i hu
        simp only [hu]
      · rename_i hu
        simp only [hu]
        split <;> (rename_i hr; simp [hr])
    · rfl

theorem readArgs_space (s : List Char) : readArgs (' ' :: s) = readArgs s := by
  have hskip : Text.skipBlanks (' ' :: s) = Text.skipBlanks s := rfl
  rw [readArgs_eq, readArgs_eq s, hskip]

/-- A written argument is read, and then what comes after it. -/
theorem readArgs_quoted_append (arg rest : List Char) :
    readArgs (quoted arg ++ rest) = match Text.skipBlanks rest with
      | [] => .ok [String.ofList arg]
      | ',' :: more => (String.ofList arg :: ·) <$> readArgs more
      | c :: _ => .error (.unexpected c) := by
  have hq := quoteFor_eq_or arg
  have hblank : Text.isBlank (quoteFor arg) = false := by
    rcases hq with h | h <;> rw [h] <;> decide
  have hslash : quoteFor arg ≠ '\\' := by
    rcases hq with h | h <;> rw [h] <;> decide
  have hbody : quoted arg ++ rest
      = quoteFor arg :: (escape (quoteFor arg) arg ++ quoteFor arg :: rest) := by
    simp [quoted]
  rw [hbody, readArgs_eq, Text.skipBlanks_cons, hblank]
  simp only [Bool.false_eq_true, if_false, if_pos hq, unquote_escape hslash]

theorem readArgs_writeArgs (args : List String) : readArgs (writeArgs args) = .ok args := by
  fun_induction writeArgs args with
  | case1 =>
    rw [readArgs_eq]
    rfl
  | case2 arg =>
    have h := readArgs_quoted_append arg.toList []
    rwa [List.append_nil, String.ofList_toList] at h
  | case3 arg args _ ih =>
    have h := readArgs_quoted_append arg.toList (',' :: ' ' :: writeArgs args)
    rw [h, String.ofList_toList]
    change (arg :: ·) <$> readArgs (' ' :: writeArgs args) = _
    rw [readArgs_space, ih]
    rfl

/-! ## Names -/

/-- A name that a spec can be read back with: not empty, and without blanks and parentheses. -/
def IsPlainName (name : String) : Prop :=
  name ≠ "" ∧ ∀ c ∈ name.toList, Text.isBlank c = false ∧ c ≠ '(' ∧ c ≠ ')'

instance (name : String) : Decidable (IsPlainName name) :=
  @instDecidableAnd _ _ _ (List.decidableBAll _ _)

theorem isPlainName_iff {name : String} :
    IsPlainName name ↔ isName name.toList = true ∧ ∀ c ∈ name.toList, c ≠ '(' := by
  simp only [IsPlainName, isName, Bool.and_eq_true, Bool.not_eq_true', List.isEmpty_eq_false_iff,
    ne_eq, String.toList_eq_nil_iff, List.all_eq_true, Bool.or_eq_false_iff, beq_eq_false_iff_ne]
  constructor
  · rintro ⟨hne, h⟩
    exact ⟨⟨hne, fun c hc ↦ ⟨(h c hc).1, (h c hc).2.2⟩⟩, fun c hc ↦ (h c hc).2.1⟩
  · rintro ⟨⟨hne, h⟩, hopen⟩
    exact ⟨hne, fun c hc ↦ ⟨(h c hc).1, hopen c hc, (h c hc).2⟩⟩

/-! ## Whole specs -/

section

variable {f : FunctionSpec} (h : IsPlainName f.name)
include h

theorem exists_toList_eq_cons : ∃ c r, f.name.toList = c :: r :=
  List.exists_cons_of_ne_nil fun hnil ↦ h.1 (String.toList_eq_nil_iff.mp hnil)

theorem trim_name : Text.trim f.name.toList = f.name.toList :=
  Text.trim_eq_self (fun c hc ↦ (h.2 c (List.mem_of_mem_head? hc)).1)
    fun c hc ↦ (h.2 c (List.mem_of_mem_getLast? hc)).1

/-- The written form begins with the name, and ends with the name or a parenthesis. -/
theorem trim_write : Text.trim f.write = f.write := by
  rw [write]
  split
  · exact trim_name h
  · obtain ⟨c, r, hname⟩ := exists_toList_eq_cons h
    have hc : Text.isBlank c = false := (h.2 c (hname ▸ List.mem_cons_self)).1
    refine Text.trim_eq_self (fun d hd ↦ ?_) fun d hd ↦ ?_
    · rw [hname] at hd
      cases hd
      exact hc
    · rw [← List.cons_append, ← List.append_assoc, List.getLast?_concat] at hd
      cases hd
      decide

theorem readParts_write : readParts f.write = .ok (f.name.toList, f.args) := by
  have hopen : ∀ c ∈ f.name.toList, decide (c ≠ '(') = true := fun c hc ↦
    decide_eq_true (h.2 c hc).2.1
  rw [write]
  split
  · rename_i hargs
    rw [readParts, List.dropWhile_eq_nil_iff.mpr hopen, List.isEmpty_iff.mp hargs]
  · have hdrop : (f.name.toList ++ '(' :: (writeArgs f.args ++ [')'])).dropWhile (· ≠ '(')
        = '(' :: (writeArgs f.args ++ [')']) := by
      rw [List.dropWhile_append_of_pos hopen]
      rfl
    have htake : (f.name.toList ++ '(' :: (writeArgs f.args ++ [')'])).takeWhile (· ≠ '(')
        = f.name.toList := by
      rw [List.takeWhile_append_of_pos hopen]
      simp
    simp only [readParts, hdrop, htake, List.getLast?_concat, List.dropLast_concat,
      readArgs_writeArgs, trim_name h]
    rfl

theorem read_of_readParts (hparts : readParts s = .ok (f.name.toList, f.args)) :
    read s = .ok f := by
  have hname : isName f.name.toList = true := (isPlainName_iff.mp h).1
  rw [read, hparts]
  change (if isName f.name.toList = true then _ else _ : Except SpecFault FunctionSpec) = _
  rw [if_pos hname, String.ofList_toList]
  rfl

theorem parse_render : parse f.render = .ok f := by
  rw [parse, render, String.toList_ofList, trim_write h, read_of_readParts h (readParts_write h)]
  rfl

end

/-- A name ends at the first opening parenthesis. -/
theorem ne_paren_of_readParts {name : List Char} {args : List String}
    (h : readParts s = .ok (name, args)) : ∀ c ∈ name, c ≠ '(' := by
  intro c hc
  rw [readParts] at h
  split at h
  · rename_i hdrop
    cases h
    exact of_decide_eq_true (List.dropWhile_eq_nil_iff.mp hdrop c hc)
  · rename_i inner hdrop
    split at h
    · cases hargs : readArgs inner.dropLast with
      | error e =>
        rw [hargs] at h
        cases h
      | ok args' =>
        rw [hargs] at h
        cases h
        have hne := List.mem_takeWhile_imp (Text.mem_of_mem_trim hc)
        exact of_decide_eq_true hne
    · cases h

/-- What is read was split into a name that is plain and its arguments. -/
theorem exists_readParts_of_read {f : FunctionSpec} (h : read s = .ok f) :
    IsPlainName f.name ∧ readParts s = .ok (f.name.toList, f.args) := by
  cases hparts : readParts s with
  | error e =>
    rw [read, hparts] at h
    cases h
  | ok parts =>
    obtain ⟨name, args⟩ := parts
    have hread : read s = if isName name = true then .ok ⟨String.ofList name, args⟩
        else .error .invalidName := by
      rw [read, hparts]
      rfl
    rw [hread] at h
    split at h
    · rename_i hname
      cases h
      rw [isPlainName_iff, String.toList_ofList]
      exact ⟨⟨hname, ne_paren_of_readParts hparts⟩, rfl⟩
    · cases h

/-- Whatever is read has a plain name. -/
theorem isPlainName_of_parse {text : String} {f : FunctionSpec} (h : parse text = .ok f) :
    IsPlainName f.name := by
  rw [parse] at h
  cases hread : read (Text.trim text.toList) with
  | error e =>
    rw [hread] at h
    cases h
  | ok g =>
    rw [hread] at h
    cases h
    exact (exists_readParts_of_read hread).1

/-! ## The round trip -/

/-- **A written spec is read back** exactly if its name is plain. What was read from any text is
therefore written in a form that is read as the same spec again, and specs with plain names have
different written forms. -/
theorem parse_render_eq_ok_iff :
    (∀ f : FunctionSpec, parse f.render = .ok f ↔ IsPlainName f.name) ∧
    (∀ (text : String) (f : FunctionSpec), parse text = .ok f → parse f.render = .ok f) ∧
    ∀ f g : FunctionSpec, IsPlainName f.name → IsPlainName g.name → f.render = g.render → f = g := by
  refine ⟨fun f ↦ ⟨isPlainName_of_parse, parse_render⟩,
    fun text f h ↦ parse_render (isPlainName_of_parse h), fun f g hf hg heq ↦ ?_⟩
  have hparse := parse_render hf
  rw [heq, parse_render hg] at hparse
  exact (Except.ok.inj hparse).symm

/-- Both kinds of quotes, backslashes before each and at the end, and a text with blanks around. -/
theorem parse_render_eq_ok_iff_mixed :
    IsPlainName "X" ∧
    (let f : FunctionSpec := ⟨"X", ["it's \\\\\"a\\' ", "\\", ",)("]⟩
     parse f.render = .ok f) ∧
    (let f : FunctionSpec := ⟨"X", ["it's"]⟩
     parse " X ( \"it's\", ) " = .ok f ∧ parse f.render = .ok f) := by
  have hname : IsPlainName "X" := by decide
  have hread : parse " X ( \"it's\", ) " = .ok ⟨"X", ["it's"]⟩ := by decide +kernel
  exact ⟨hname, (parse_render_eq_ok_iff.1 _).mpr hname, hread,
    parse_render_eq_ok_iff.2.1 _ _ hread⟩

end FunctionSpec

end Dataflow
