import Dataflow.Proofs.FunctionSpec.RoundTrip
import Dataflow.Proofs.Text.Blank

/-!
# The grammar of function specs

`Denotes text f` says by a grammar that a text is a form of the spec `f`, without any reference to how
texts are read. `FunctionSpec.parse` accepts exactly the texts of this grammar and gives the spec that
they denote, and every other text is an error of the configuration.

## Where an argument ends

The inside of an argument is a sequence of units, and a backslash is a unit of its own only if neither
the quote nor a backslash comes next. `Body` therefore takes a text up to and including the closing
quote: the last unit is then followed by that quote like any other, and a backslash right before it can
only be part of an escaped quote. So the first two characters of a text determine the unit at its front,
as they do for the reader (`Body.unquote_append`, `exists_body_of_unquote`).
-/

namespace Dataflow

namespace FunctionSpec

variable {q c : Char} {b s t u body arg rest : List Char} {args : List String}

/-! ## The grammar -/

/-- An argument after its opening quote `q`: units and the closing quote, and the text that the units
stand for. -/
inductive Body (q : Char) : List Char → List Char → Prop
  | close : Body q [q] []
  | escapedQuote {s arg : List Char} (h : Body q s arg) : Body q ('\\' :: q :: s) (q :: arg)
  | escapedBackslash {s arg : List Char} (h : Body q s arg) :
      Body q ('\\' :: '\\' :: s) ('\\' :: arg)
  /-- A backslash before anything else stands for itself. -/
  | backslash {c : Char} {s arg : List Char} (hq : c ≠ q) (hb : c ≠ '\\')
      (h : Body q (c :: s) arg) : Body q ('\\' :: c :: s) ('\\' :: arg)
  | plain {c : Char} {s arg : List Char} (hq : c ≠ q) (hb : c ≠ '\\') (h : Body q s arg) :
      Body q (c :: s) (c :: arg)

/-- An argument between quotes of either kind, with blanks around it. -/
inductive Argument : List Char → String → Prop
  | quoted {q : Char} {b s b' arg : List Char} (hq : q = '\'' ∨ q = '"') (hb : Text.Blanks b)
      (h : Body q s arg) (hb' : Text.Blanks b') :
      Argument (b ++ q :: (s ++ b')) (String.ofList arg)

/-- What stands between the parentheses: arguments with commas between them. One comma may also follow
the last argument, since what comes after a comma may be blank. -/
inductive Arguments : List Char → List String → Prop
  | blank {b : List Char} (hb : Text.Blanks b) : Arguments b []
  | last {s : List Char} {arg : String} (h : Argument s arg) : Arguments s [arg]
  | cons {s t : List Char} {arg : String} {args : List String} (h : Argument s arg)
      (ht : Arguments t args) : Arguments (s ++ ',' :: t) (arg :: args)

/-- A spec without blanks around it: a name, perhaps followed by arguments in parentheses. -/
inductive Form : List Char → FunctionSpec → Prop
  | bare {name : String} (h : IsPlainName name) : Form name.toList ⟨name, []⟩
  | applied {name : String} {b s : List Char} {args : List String} (h : IsPlainName name)
      (hb : Text.Blanks b) (hs : Arguments s args) :
      Form (name.toList ++ b ++ '(' :: (s ++ [')'])) ⟨name, args⟩

/-- The text is a form of the spec with blanks around it. -/
def Denotes (text : String) (f : FunctionSpec) : Prop :=
  ∃ b s b', Text.Blanks b ∧ Form s f ∧ Text.Blanks b' ∧ text.toList = b ++ s ++ b'

/-! ## Arguments -/

theorem isBlank_of_isQuote (hq : q = '\'' ∨ q = '"') : Text.isBlank q = false := by
  rcases hq with rfl | rfl <;> decide

theorem ne_backslash_of_isQuote (hq : q = '\'' ∨ q = '"') : q ≠ '\\' := by
  rcases hq with rfl | rfl <;> decide

theorem unquote_cons_of_ne (hq : c ≠ q) (hb : c ≠ '\\') (r : List Char) :
    unquote q (c :: r) = (unquote q r).map fun (arg, rest) ↦ (c :: arg, rest) := by
  cases r with
  | nil => simp [unquote, hq]
  | cons d r => exact unquote_plain hq (fun h ↦ hb h.1) r

theorem Body.unquote_append (hq : q ≠ '\\') (h : Body q body arg) (rest : List Char) :
    unquote q (body ++ rest) = some (arg, rest) := by
  induction h with
  | close => exact unquote_quote q rest
  | escapedQuote _ ih =>
    rw [List.cons_append, List.cons_append, unquote_escaped hq (.inl rfl), ih, Option.map_some]
  | escapedBackslash _ ih =>
    rw [List.cons_append, List.cons_append, unquote_escaped hq (.inr rfl), ih, Option.map_some]
  | backslash hcq hcb _ ih =>
    rw [List.cons_append] at ih
    rw [List.cons_append, List.cons_append, unquote_plain hq.symm (fun h ↦ h.2.elim hcq hcb), ih,
      Option.map_some]
  | plain hcq hcb _ ih => rw [List.cons_append, unquote_cons_of_ne hcq hcb, ih, Option.map_some]

theorem exists_body_of_unquote (h : unquote q s = some (arg, rest)) :
    ∃ body, s = body ++ rest ∧ Body q body arg := by
  fun_induction unquote q s generalizing arg rest with
  | case1 => cases h
  | case2 =>
    cases h
    exact ⟨[q], rfl, .close⟩
  | case3 => cases h
  | case4 d r =>
    cases h
    exact ⟨[q], rfl, .close⟩
  | case5 c d r _ hcd ih =>
    obtain ⟨⟨arg', rest'⟩, hrest, heq⟩ := Option.map_eq_some_iff.mp h
    cases heq
    obtain ⟨body, rfl, hbody⟩ := ih hrest
    obtain ⟨rfl, rfl | rfl⟩ := hcd
    · exact ⟨'\\' :: d :: body, rfl, .escapedQuote hbody⟩
    · exact ⟨'\\' :: '\\' :: body, rfl, .escapedBackslash hbody⟩
  | case6 c d r hcq hcd ih =>
    obtain ⟨⟨arg', rest'⟩, hrest, heq⟩ := Option.map_eq_some_iff.mp h
    cases heq
    obtain ⟨body, hsplit, hbody⟩ := ih hrest
    refine ⟨c :: body, by rw [List.cons_append, hsplit], ?_⟩
    by_cases hc : c = '\\'
    · -- The reader left the backslash alone, so the next character is neither of the two.
      obtain ⟨hdq, hdb⟩ := not_or.mp fun hd ↦ hcd ⟨hc, hd⟩
      subst hc
      cases body with
      | nil => cases hbody
      | cons d' body =>
        rw [List.cons_append, List.cons.injEq] at hsplit
        obtain ⟨rfl, -⟩ := hsplit
        exact .backslash hdq hdb hbody
    · exact .plain hcq hc hbody

/-- An argument of the grammar is read, and then what comes after it. -/
theorem Argument.readArgs_append {arg : String} (h : Argument s arg) (t : List Char) :
    readArgs (s ++ t) = match Text.skipBlanks t with
      | [] => .ok [arg]
      | ',' :: more => (arg :: ·) <$> readArgs more
      | c :: _ => .error (.unexpected c) := by
  obtain ⟨hq, hb, hbody, hb'⟩ := h
  rename_i q b body b' arg
  have hsplit : b ++ q :: (body ++ b') ++ t = b ++ q :: (body ++ (b' ++ t)) := by simp
  have hunquote : unquote q (body ++ (b' ++ t)) = some (arg, b' ++ t) :=
    hbody.unquote_append (ne_backslash_of_isQuote hq) _
  rw [hsplit, readArgs_eq, Text.skipBlanks_append hb,
    Text.skipBlanks_cons_of_not_isBlank (isBlank_of_isQuote hq), ← Text.skipBlanks_append hb' t]
  exact (if_pos hq).trans (hunquote ▸ rfl)

theorem Arguments.readArgs_eq_ok (h : Arguments s args) : readArgs s = .ok args := by
  induction h with
  | blank hb => rw [readArgs_eq, Text.skipBlanks_of_blanks hb]
  | last h => simpa using h.readArgs_append []
  | @cons s t arg args h _ ih =>
    have hcomma : Text.skipBlanks (',' :: t) = ',' :: t :=
      Text.skipBlanks_cons_of_not_isBlank (by decide) t
    rw [h.readArgs_append, hcomma]
    simp only [ih]
    rfl

theorem arguments_of_readArgs {s : List Char} {args : List String} (h : readArgs s = .ok args) :
    Arguments s args := by
  rw [readArgs_eq] at h
  split at h
  · rename_i hs
    cases h
    obtain ⟨b, hb, rfl⟩ := Text.exists_of_skipBlanks_eq hs
    rw [List.append_nil]
    exact .blank hb
  · rename_i q r hs
    obtain ⟨b, hb, rfl⟩ := Text.exists_of_skipBlanks_eq hs
    split at h
    · rename_i hq
      split at h
      · cases h
      · rename_i arg rest hu
        obtain ⟨body, rfl, hbody⟩ := exists_body_of_unquote hu
        split at h
        · rename_i hrest
          cases h
          obtain ⟨b', hb', rfl⟩ := Text.exists_of_skipBlanks_eq hrest
          rw [List.append_nil]
          exact .last (.quoted hq hb hbody hb')
        · rename_i more hrest
          obtain ⟨b', hb', rfl⟩ := Text.exists_of_skipBlanks_eq hrest
          have hsplit : b ++ q :: (body ++ (b' ++ ',' :: more))
              = (b ++ q :: (body ++ b')) ++ ',' :: more := by simp
          cases hmore : readArgs more with
          | error e =>
            rw [hmore] at h
            cases h
          | ok args' =>
            rw [hmore] at h
            cases h
            rw [hsplit]
            exact .cons (.quoted hq hb hbody hb') (arguments_of_readArgs hmore)
        · cases h
    · cases h
termination_by s.length
decreasing_by
  subst_vars
  simp
  omega

/-! ## Whole specs -/

variable {f g : FunctionSpec}

theorem Form.exists_cons (h : Form s f) : ∃ c r, s = c :: r ∧ Text.isBlank c = false := by
  cases h with
  | bare h =>
    obtain ⟨c, r, hname⟩ := exists_toList_eq_cons (f := ⟨_, []⟩) h
    exact ⟨c, r, hname, (h.2 c (hname ▸ List.mem_cons_self)).1⟩
  | @applied name b s args h hb hs =>
    obtain ⟨c, r, hname⟩ := exists_toList_eq_cons (f := ⟨name, args⟩) h
    have hc : Text.isBlank c = false := (h.2 c (hname ▸ List.mem_cons_self)).1
    exact ⟨c, r ++ b ++ '(' :: (s ++ [')']), by simp [hname], hc⟩

theorem Form.not_isBlank_of_mem_getLast? (h : Form s f) :
    ∀ c ∈ s.getLast?, Text.isBlank c = false := by
  intro c hc
  cases h with
  | bare h => exact (h.2 c (List.mem_of_mem_getLast? hc)).1
  | @applied name b s args h hb hs =>
    rw [← List.cons_append, ← List.append_assoc, List.getLast?_concat] at hc
    cases hc
    decide

theorem Form.trim_append (h : Form s f) {b b' : List Char} (hb : Text.Blanks b)
    (hb' : Text.Blanks b') : Text.trim (b ++ s ++ b') = s := by
  obtain ⟨c, r, hs, hc⟩ := h.exists_cons
  refine Text.trim_append hb hb' (fun d hd ↦ ?_) h.not_isBlank_of_mem_getLast?
  rw [hs] at hd
  cases hd
  exact hc

/-- The name and the blanks behind it hold no parenthesis, so the first one of the text opens the
arguments. -/
theorem Form.read_eq_ok (h : Form s f) : read s = .ok f := by
  cases h with
  | @bare name h =>
    have hdrop : name.toList.dropWhile (· ≠ '(') = [] :=
      List.dropWhile_eq_nil_iff.mpr fun c hc ↦ decide_eq_true (h.2 c hc).2.1
    exact read_of_readParts (f := ⟨name, []⟩) h (by rw [readParts, hdrop])
  | @applied name b s args h hb hs =>
    have hopen : ∀ c ∈ name.toList ++ b, decide (c ≠ '(') = true := by
      intro c hc
      rcases List.mem_append.mp hc with hc | hc
      · exact decide_eq_true (h.2 c hc).2.1
      · refine decide_eq_true fun hparen ↦ absurd (hb c hc) ?_
        rw [hparen]
        decide
    have hdrop : (name.toList ++ b ++ '(' :: (s ++ [')'])).dropWhile (· ≠ '(')
        = '(' :: (s ++ [')']) := by
      rw [List.dropWhile_append_of_pos hopen]
      rfl
    have htake : (name.toList ++ b ++ '(' :: (s ++ [')'])).takeWhile (· ≠ '(')
        = name.toList ++ b := by
      rw [List.takeWhile_append_of_pos hopen]
      simp
    have htrim : Text.trim (name.toList ++ b) = name.toList :=
      Form.trim_append (.bare h) Text.blanks_nil hb
    refine read_of_readParts (f := ⟨name, args⟩) h ?_
    simp only [readParts, hdrop, htake, List.getLast?_concat, List.dropLast_concat,
      hs.readArgs_eq_ok, htrim]
    rfl

theorem exists_form_of_read (h : read s = .ok f) :
    ∃ b t, Text.Blanks b ∧ Form t f ∧ s = b ++ t := by
  obtain ⟨hname, hparts⟩ := exists_readParts_of_read h
  obtain ⟨name, args⟩ := f
  rw [readParts] at hparts
  split at hparts
  · cases hparts
    exact ⟨[], name.toList, Text.blanks_nil, .bare hname, rfl⟩
  · rename_i c inner hdrop
    have hsplit : s = s.takeWhile (· ≠ '(') ++ c :: inner := by
      rw [← hdrop, List.takeWhile_append_dropWhile]
    have hc : c = '(' := by
      have hhead := List.head?_dropWhile_not (· ≠ '(') s
      rw [hdrop] at hhead
      simpa using hhead
    split at hparts
    · rename_i hlast
      obtain ⟨u, rfl⟩ := List.getLast?_eq_some_iff.mp hlast
      rw [List.dropLast_concat] at hparts
      cases hargs : readArgs u with
      | error e =>
        rw [hargs] at hparts
        cases hparts
      | ok args' =>
        rw [hargs] at hparts
        obtain ⟨htrim, hargs'⟩ := Prod.mk.inj (Except.ok.inj hparts)
        dsimp only at htrim hargs'
        -- Blanks before the name belong to those around the whole text.
        obtain ⟨b, b', hb, hb', htake⟩ := Text.exists_eq_append_trim (s.takeWhile (· ≠ '('))
        refine ⟨b, _, hb, .applied hname hb' (arguments_of_readArgs (hargs' ▸ hargs)), ?_⟩
        rw [hsplit, hc, htake, htrim]
        simp only [List.append_assoc]
    · cases hparts

theorem denotes_of_parse {text : String} (h : parse text = .ok f) : Denotes text f := by
  cases hread : read (Text.trim text.toList) with
  | error e =>
    rw [parse, hread] at h
    cases h
  | ok g =>
    rw [parse, hread] at h
    cases h
    obtain ⟨b₁, s, hb₁, hs, htrim⟩ := exists_form_of_read hread
    obtain ⟨b, b', hb, hb', htext⟩ := Text.exists_eq_append_trim text.toList
    refine ⟨b ++ b₁, s, b', hb.append hb₁, hs, hb', ?_⟩
    rw [htext, htrim, ← List.append_assoc b b₁ s]

theorem Denotes.parse_eq_ok {text : String} (h : Denotes text f) : parse text = .ok f := by
  obtain ⟨b, s, b', hb, hs, hb', htext⟩ := h
  rw [parse, htext, hs.trim_append hb hb', hs.read_eq_ok]
  rfl

/-- **Exactly the texts of the grammar are read**, each as the only spec that it denotes. Any other
text is an error of the configuration. -/
theorem parse_eq_ok_iff_denotes :
    (∀ (text : String) (f : FunctionSpec), parse text = .ok f ↔ Denotes text f) ∧
    (∀ (text : String) (f g : FunctionSpec), Denotes text f → Denotes text g → f = g) ∧
    ∀ text : String, (∀ f, ¬ Denotes text f) →
      ∃ e, parse text = .error e ∧ e.category = .config := by
  refine ⟨fun text f ↦ ⟨denotes_of_parse, Denotes.parse_eq_ok⟩, fun text f g hf hg ↦ ?_,
    fun text h ↦ ?_⟩
  · have hparse := hf.parse_eq_ok
    rw [hg.parse_eq_ok] at hparse
    exact (Except.ok.inj hparse).symm
  · cases hparse : parse text with
    | ok f => exact absurd (denotes_of_parse hparse) (h f)
    | error e => exact ⟨e, rfl, category_of_parse_eq_error hparse⟩

/-- An escaped quote, a backslash that stands for itself and a trailing comma, with blanks between all
parts; and two arguments without a comma. -/
theorem parse_eq_ok_iff_denotes_quoted :
    Denotes " X ( 'it\\'s\\n' , ) " ⟨"X", ["it's\\n"]⟩ ∧
    parse " X ( 'it\\'s\\n' , ) " = .ok ⟨"X", ["it's\\n"]⟩ ∧
    (∀ g, Denotes " X ( 'it\\'s\\n' , ) " g → g = ⟨"X", ["it's\\n"]⟩) ∧
    (∀ f, ¬ Denotes "X('a' 'b')" f) ∧
    ∃ e, parse "X('a' 'b')" = .error e ∧ e.category = .config := by
  obtain ⟨hiff, hunique, herror⟩ := parse_eq_ok_iff_denotes
  have hbody : Body '\'' "it\\'s\\n'".toList "it's\\n".toList :=
    .plain (by decide) (by decide) <| .plain (by decide) (by decide) <| .escapedQuote <|
      .plain (by decide) (by decide) <| .backslash (by decide) (by decide) <|
      .plain (by decide) (by decide) .close
  have hblank : Text.Blanks [' '] := Text.blanks_singleton_iff.mpr rfl
  have hargument : Argument ([' '] ++ '\'' :: ("it\\'s\\n'".toList ++ [' '])) "it's\\n" := by
    rw [← @String.ofList_toList "it's\\n"]
    exact .quoted (.inl rfl) hblank hbody hblank
  have hform : Form ("X".toList ++ [' '] ++ '(' :: (" 'it\\'s\\n' , ".toList ++ [')']))
      ⟨"X", ["it's\\n"]⟩ :=
    .applied (by decide) hblank (.cons hargument (.blank hblank))
  have hdenotes : Denotes " X ( 'it\\'s\\n' , ) " ⟨"X", ["it's\\n"]⟩ :=
    ⟨[' '], _, [' '], hblank, hform, hblank, by decide⟩
  have hnone : ∀ f, ¬ Denotes "X('a' 'b')" f := by
    intro f hf
    have hfault : parse "X('a' 'b')" = .error (.functionSpec (.unexpected '\'') "X('a' 'b')") := by
      decide +kernel
    rw [(hiff _ f).mpr hf] at hfault
    cases hfault
  exact ⟨hdenotes, (hiff _ _).mpr hdenotes, fun g hg ↦ hunique _ _ _ hg hdenotes, hnone,
    herror _ hnone⟩

end FunctionSpec

end Dataflow
