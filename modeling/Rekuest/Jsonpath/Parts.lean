import Rekuest.Jsonpath.Writing

/-!
# Rekuest.Jsonpath.Parts

The parts that predicates are written with: paths, scalars, comparisons and parentheses.

* `pathText`: a path of names. It is read where no name begins with a digit, and breaks otherwise:
  `writes_comparison`, `writes_existence` and `breaks_path`.
* `writes_parens`, `writes_negation`: a predicate in parentheses.
* `writes_constant`, `writes_numeral`, `writes_quoted`: scalars. `breaks_mark`, `breaks_word`: other words.
* `breaks_bracketed_path` and the others like it: what is no constant.
-/

namespace Jsonpath

open Coding

variable {ws : List (List Char)} {w cs tail value inner : List Char} {ts : List Token} {depth : Nat}
  {pred : List Token → Option (Predicate × List Token)} {p : Predicate} {s : Scalar}

/-! ## Paths -/

def memberText (ws : List (List Char)) : List Char := ws.flatMap ('.' :: ·)

def pathText (ws : List (List Char)) : List Char := '$' :: memberText ws

def memberTokens (ws : List (List Char)) : List Token :=
  ws.flatMap fun w => [.dot, .word (String.ofList w)]

def members (ws : List (List Char)) : List Step := ws.map fun w => .member (String.ofList w)

def IsWord (w : List Char) : Prop := w ≠ [] ∧ ∀ c ∈ w, isOther c = true

instance (w : List Char) : Decidable (IsWord w) :=
  have : Decidable (∀ c ∈ w, isOther c = true) := List.decidableBAll _ w
  inferInstanceAs (Decidable (_ ∧ _))

def StartsWithDigit (w : List Char) : Prop := w.head?.any Char.isDigit = true

instance (w : List Char) : Decidable (StartsWithDigit w) :=
  inferInstanceAs (Decidable (_ = true))

theorem parted_memberText {r : List Char} (hr : Parted r) : Parted (memberText ws ++ r) := by
  cases ws with
  | nil => exact hr
  | cons w ws => exact parted_cons (by decide)

theorem head_of_plain (h : ¬ StartsWithDigit w) : ∀ c ∈ w.head?, c.isDigit = false := by
  intro c hc
  rw [StartsWithDigit, Option.mem_def.mp hc] at h
  simpa using h

theorem lexes_member (hword : IsWord w) (hplain : ¬ StartsWithDigit w) :
    Lexes Parted ('.' :: w) [.dot, .word (String.ofList w)] := by
  have hhead := head_of_plain hplain
  have hlex : Lexes Parted ([] ++ w) [.word (String.ofList w)] :=
    lexes_word allBlank_nil hword.1 hword.2 hhead
  refine Reads.append lexes_dot hlex ?_
  intro r _
  cases w with
  | nil => exact absurd rfl hword.1
  | cons c w => exact hhead c rfl

theorem lexes_members (hwords : ∀ w ∈ ws, IsWord w) (hplain : ∀ w ∈ ws, ¬ StartsWithDigit w) :
    Lexes Parted (memberText ws) (memberTokens ws) := by
  induction ws with
  | nil => exact reads_nil
  | cons w ws ih =>
    have hmember := lexes_member (hwords w (by simp)) (hplain w (by simp))
    exact hmember.append (ih (fun w hw => hwords w (by simp [hw])) fun w hw => hplain w (by simp [hw]))
      fun _ => parted_memberText

theorem lexes_path (hne : ws ≠ []) (hwords : ∀ w ∈ ws, IsWord w)
    (hplain : ∀ w ∈ ws, ¬ StartsWithDigit w) {bs : List Char} (hbs : AllBlank bs) :
    Lexes Parted (bs ++ pathText ws) (.root :: memberTokens ws) := by
  have hlex := (lexes_root hbs).append (lexes_members hwords hplain) fun r _ => by
    cases ws with
    | nil => exact absurd rfl hne
    | cons w ws => rfl
  simpa [pathText] using hlex

theorem steps_members : steps (memberTokens ws ++ ts) = (members ws ++ (steps ts).1, (steps ts).2) := by
  induction ws with
  | nil => rfl
  | cons w ws ih =>
    show ((.member (String.ofList w) :: (steps (memberTokens ws ++ ts)).1,
      (steps (memberTokens ws ++ ts)).2) : List Step × List Token) = _
    rw [ih]
    rfl

/-- A member that begins with a digit is a number behind the ones before it. -/
theorem steps_of_digit (hwords : ∀ w ∈ ws, IsWord w) (hdigit : ∃ w ∈ ws, StartsWithDigit w)
    {r l : List Char} (hmany : many blankOnly nextToken (memberText ws ++ r) = some (ts, l)) :
    ∃ ss q ts', steps ts = (ss, .number q :: ts') := by
  induction ws generalizing ts with
  | nil =>
    obtain ⟨w, hw, _⟩ := hdigit
    cases hw
  | cons w ws ih =>
    by_cases hplain : StartsWithDigit w
    · cases w with
      | nil => cases hplain
      | cons c w =>
        have hnext : nextToken (memberText ((c :: w) :: ws) ++ r) =
            (numeral (memberText ((c :: w) :: ws) ++ r)).map fun p => (.number p.1, p.2) := by
          have hc : c.isDigit = true := hplain
          show readToken ('.' :: c :: (w ++ memberText ws ++ r)) = _
          simp [readToken, hc, memberText]
        rcases many_eq_some hmany with ⟨hstop, _⟩ | ⟨a, r', bs, _, hread, _, _, rfl⟩
        · cases hstop
        · rw [hnext] at hread
          obtain ⟨p, _, heq⟩ := Option.map_eq_some_iff.mp hread
          cases heq
          exact ⟨[], p.1, bs, rfl⟩
    · obtain ⟨w', hw', hdigit'⟩ := hdigit
      have hin : w' ∈ ws := by
        rcases List.mem_cons.mp hw' with rfl | hin
        · exact absurd hdigit' hplain
        · exact hin
      have hparted : Parted (memberText ws ++ r) := by
        cases ws with
        | nil => cases hin
        | cons v ws => exact parted_cons (by decide)
      have htext : memberText (w :: ws) ++ r = '.' :: w ++ (memberText ws ++ r) := by
        simp [memberText]
      rw [htext] at hmany
      obtain ⟨ts', hmany', rfl⟩ := (lexes_member (hwords w (by simp)) hplain).split hparted hmany
      obtain ⟨ss, q, ts'', hsteps⟩ :=
        ih (fun w hw => hwords w (by simp [hw])) ⟨w', hin, hdigit'⟩ hmany'
      refine ⟨.member (String.ofList w) :: ss, q, ts'', ?_⟩
      show ((.member (String.ofList w) :: (steps ts').1, (steps ts').2) : List Step × List Token) = _
      rw [hsteps]

theorem path_of_digit (hne : ws ≠ []) (hwords : ∀ w ∈ ws, IsWord w)
    (hdigit : ∃ w ∈ ws, StartsWithDigit w) {bs r l : List Char} (hbs : AllBlank bs)
    (hmany : many blankOnly nextToken (bs ++ pathText ws ++ r) = some (ts, l)) :
    ∃ ts' ss q ts'', ts = .root :: ts' ∧ path ts = some (ss, .number q :: ts'') := by
  have htext : bs ++ pathText ws ++ r = bs ++ ['$'] ++ (memberText ws ++ r) := by simp [pathText]
  rw [htext] at hmany
  have hdot : (memberText ws ++ r).head? = some '.' := by
    cases ws with
    | nil => exact absurd rfl hne
    | cons w ws => rfl
  obtain ⟨ts', hmany', rfl⟩ := (lexes_root hbs).split hdot hmany
  obtain ⟨ss, q, ts'', hsteps⟩ := steps_of_digit hwords hdigit hmany'
  refine ⟨ts', ss, q, ts'', rfl, ?_⟩
  show some (steps ts') = _
  rw [hsteps]

/-- A comparison breaks on the number. -/
theorem breaks_path (hne : ws ≠ []) (hwords : ∀ w ∈ ws, IsWord w)
    (hdigit : ∃ w ∈ ws, StartsWithDigit w) : Breaks (unit pred) (pathText ws ++ tail) := by
  intro bs r ts l hbs _ hmany
  rw [← List.append_assoc, List.append_assoc] at hmany
  obtain ⟨ts', ss, q, ts'', rfl, hpath⟩ := path_of_digit hne hwords hdigit hbs hmany
  show comparison _ = none
  rw [comparison, hpath]

/-- Blanks, and a character that ends words, end words. -/
theorem parted_blank {lead r : List Char} {c : Char} (hlead : AllBlank lead)
    (hc : isOther c = false) : Parted (lead ++ c :: r) := by
  cases lead with
  | nil => exact parted_cons hc
  | cons b lead =>
    have hb : isBlank b = true := hlead b (by simp)
    refine parted_cons ?_
    by_contra hother
    rw [isBlank_of_isOther (Bool.not_eq_false _ ▸ hother)] at hb
    cases hb

/-! ## Comparisons -/

section

variable {conn : List Char} {acc : List Token} {more : List Step} {op : Comparison}

/-- What stands between the names and the scalar: blanks or `[*]`, and the operator. -/
structure Connects (conn : List Char) (acc : List Token) (more : List Step) (op : Comparison) :
    Prop where
  lexes : Lexes anyRest conn (acc ++ [.comparison op])
  parted : ∀ r, Parted (conn ++ r)
  steps : ∀ ts, steps (acc ++ .comparison op :: ts) = (more, .comparison op :: ts)

/-- An operator behind a blank. -/
theorem connects_operator {lead : List Char} {c : Char} (hlead : AllBlank lead)
    (hc : c ∉ ['$', '.', '"'] ∧ isOther c = false ∧ isBlank c = false)
    (h : ∀ r, operator (c :: cs ++ r) = some (.comparison op, r)) :
    Connects (lead ++ ' ' :: c :: cs) [] [] op where
  lexes := by
    have hbs : AllBlank (lead ++ [' ']) := by
      intro b hb
      rcases List.mem_append.mp hb with hb | hb
      · exact hlead b hb
      · exact allBlank_space b hb
    have hlex : Lexes anyRest ((lead ++ [' ']) ++ c :: cs) [.comparison op] :=
      lexes_operator hbs hc fun r _ => h r
    simpa using hlex
  parted r := by
    rw [List.append_assoc]
    exact parted_blank hlead (by decide)
  steps _ := rfl

/-- `[*]` before the operator. -/
theorem connects_elements {lead conn : List Char} (hlead : AllBlank lead)
    (h : Connects conn [] [] op) :
    Connects (lead ++ "[*]".toList ++ conn) [.mark '[', .star, .mark ']'] [.elements] op where
  lexes := by
    have hopen : Lexes anyRest (lead ++ ['[']) [.mark '['] :=
      lexes_operator hlead (by decide) fun _ _ => rfl
    have hstar : Lexes (fun r => r.head? = some ']') ([] ++ ['*']) [.star] :=
      lexes_operator allBlank_nil (by decide) fun r hr => by
        cases r with
        | nil => cases hr
        | cons c r =>
          cases hr
          rfl
    have hclose : Lexes anyRest ([] ++ [']']) [.mark ']'] :=
      lexes_operator allBlank_nil (by decide) fun _ _ => rfl
    have hall := hopen.append (hstar.append (hclose.append h.lexes fun _ _ => trivial)
      fun _ _ => rfl) fun _ _ => trivial
    simpa using hall
  parted r := by
    rw [List.append_assoc, List.append_assoc]
    exact parted_blank hlead (by decide)
  steps ts := by
    show ((.elements :: (steps (.comparison op :: ts)).1,
      (steps (.comparison op :: ts)).2) : List Step × List Token) = _
    rfl

variable (hconn : Connects conn acc more op) (hne : ws ≠ []) (hwords : ∀ w ∈ ws, IsWord w)
  (hplain : ∀ w ∈ ws, ¬ StartsWithDigit w)

include hconn hne hwords hplain

theorem lexes_operand {bs : List Char} (hbs : AllBlank bs) :
    Lexes anyRest (bs ++ pathText ws ++ conn)
      (.root :: memberTokens ws ++ (acc ++ [.comparison op])) :=
  (lexes_path hne hwords hplain hbs).append hconn.lexes fun r _ => hconn.parted r

omit hne hwords hplain in
theorem unit_of_scalar :
    unit pred (.root :: memberTokens ws ++ (acc ++ [.comparison op]) ++ ts) =
      (scalar ts).map fun q => (.compare (members ws ++ more) op q.1, q.2) := by
  have hpath : path (.root :: memberTokens ws ++ (acc ++ [.comparison op]) ++ ts) =
      some (members ws ++ more, .comparison op :: ts) := by
    show some (steps (memberTokens ws ++ (acc ++ [.comparison op]) ++ ts)) = _
    rw [List.append_assoc, List.append_assoc, steps_members]
    show some (members ws ++ (steps (acc ++ .comparison op :: ts)).1,
      (steps (acc ++ .comparison op :: ts)).2) = _
    rw [hconn.steps]
  show comparison (.root :: memberTokens ws ++ (acc ++ [.comparison op]) ++ ts) = _
  rw [comparison, hpath]

theorem writes_comparison (hvalue : Writes scalar anyToken value s) :
    Writes (unit pred) anyToken (pathText ws ++ (conn ++ ' ' :: value))
      (.compare (members ws ++ more) op s) := by
  obtain ⟨toks, hread, hparse⟩ := hvalue
  refine ⟨.root :: memberTokens ws ++ (acc ++ [.comparison op]) ++ toks, fun bs hbs => ?_,
    fun ts _ => ?_⟩
  · have htext : bs ++ (pathText ws ++ (conn ++ ' ' :: value)) =
        bs ++ pathText ws ++ conn ++ ([' '] ++ value) := by simp
    rw [htext]
    exact (lexes_operand hconn hne hwords hplain hbs).append (hread [' '] allBlank_space)
      fun _ _ => trivial
  · rw [List.append_assoc _ toks, unit_of_scalar hconn, hparse ts trivial]
    rfl

theorem breaks_comparison (hvalue : Breaks scalar value) :
    Breaks (unit pred) (pathText ws ++ (conn ++ ' ' :: value)) := by
  intro bs r ts l hbs hr hmany
  have htext : bs ++ (pathText ws ++ (conn ++ ' ' :: value)) ++ r =
      bs ++ pathText ws ++ conn ++ ([' '] ++ value ++ r) := by simp
  rw [htext] at hmany
  obtain ⟨ts', hmany', rfl⟩ := (lexes_operand hconn hne hwords hplain hbs).split trivial hmany
  rw [unit_of_scalar hconn, hvalue [' '] r ts' l allBlank_space hr hmany']
  rfl

end

/-! ## Parentheses -/

theorem lexes_opening {bs : List Char} (hbs : AllBlank bs) :
    Lexes anyRest (bs ++ ['(']) [.opening] :=
  lexes_operator hbs (by decide) fun _ _ => rfl

theorem lexes_closing {bs : List Char} (hbs : AllBlank bs) :
    Lexes anyRest (bs ++ [')']) [.closing] :=
  lexes_operator hbs (by decide) fun _ _ => rfl

/-- The sign before parentheses. -/
theorem lexes_not {bs : List Char} (hbs : AllBlank bs) :
    Lexes anyRest (bs ++ ['!', '(']) [.not, .opening] := by
  have hlex : Lexes (fun r => r.head? = some '(') (bs ++ ['!']) [.not] :=
    lexes_operator hbs (by decide) fun r hr => by
      cases r with
      | nil => cases hr
      | cons c r =>
        cases hr
        rfl
  have hboth := hlex.append (lexes_opening allBlank_nil) fun _ _ => rfl
  simpa using hboth

theorem clear_closing (r : List Char) : Clear (')' :: r) := clear_cons (by decide) (by decide)

section

variable {ok : List Token → Prop} (hok : ∀ ts, ok (.closing :: ts)) (h : Writes pred ok inner p)

include hok h

theorem writes_closed : ∃ toks, Lexes anyRest (inner ++ [')']) (toks ++ [.closing]) ∧
    ∀ ts, closed (pred (toks ++ .closing :: ts)) = some (p, ts) := by
  obtain ⟨toks, hread, hparse⟩ := h
  have hlex := (hread [] allBlank_nil).append (lexes_closing allBlank_nil) fun r _ => clear_closing r
  refine ⟨toks, by simpa using hlex, fun ts => ?_⟩
  rw [hparse _ (hok ts)]
  rfl

theorem writes_parens : Writes (unit pred) anyToken ('(' :: (inner ++ [')'])) p := by
  obtain ⟨toks, hlex, hparse⟩ := writes_closed hok h
  refine ⟨[.opening] ++ (toks ++ [.closing]), fun bs hbs => ?_, fun ts _ => ?_⟩
  · have hboth := (lexes_opening hbs).append hlex fun _ _ => trivial
    simpa using Lexes.clear hboth
  · rw [List.append_assoc, List.append_assoc]
    exact hparse ts

theorem writes_negation : Writes (unit pred) anyToken ('!' :: '(' :: (inner ++ [')'])) (.not p) := by
  obtain ⟨toks, hlex, hparse⟩ := writes_closed hok h
  refine ⟨[.not, .opening] ++ (toks ++ [.closing]), fun bs hbs => ?_, fun ts _ => ?_⟩
  · have hboth := (lexes_not hbs).append hlex fun _ _ => trivial
    simpa using Lexes.clear hboth
  · rw [List.append_assoc, List.append_assoc]
    show (closed (pred (toks ++ .closing :: ts))).map _ = _
    rw [hparse ts]
    rfl

end

theorem breaks_parens (h : Breaks pred inner) : Breaks (unit pred) ('(' :: (inner ++ [')'])) := by
  intro bs r ts l hbs _ hmany
  have htext : bs ++ '(' :: (inner ++ [')']) ++ r = bs ++ ['('] ++ ([] ++ inner ++ ')' :: r) := by
    simp
  rw [htext] at hmany
  obtain ⟨ts', hmany', rfl⟩ := (lexes_opening hbs).split trivial hmany
  show closed (pred ts') = none
  rw [h [] _ ts' l allBlank_nil (clear_closing r) hmany']
  rfl

theorem breaks_negation (h : Breaks pred inner) :
    Breaks (unit pred) ('!' :: '(' :: (inner ++ [')'])) := by
  intro bs r ts l hbs _ hmany
  have htext : bs ++ '!' :: '(' :: (inner ++ [')']) ++ r =
      bs ++ ['!', '('] ++ ([] ++ inner ++ ')' :: r) := by simp
  rw [htext] at hmany
  obtain ⟨ts', hmany', rfl⟩ := (lexes_not hbs).split trivial hmany
  show (closed (pred ts')).map _ = none
  rw [h [] _ ts' l allBlank_nil (clear_closing r) hmany']
  rfl

/-! ## Existence -/

theorem lexes_exists {bs : List Char} (hbs : AllBlank bs) :
    Lexes anyRest (bs ++ "exists(".toList) [.word "exists", .opening] := by
  have hname : IsWord "exists".toList := by decide
  have hword : Lexes Parted (bs ++ "exists".toList) [.word "exists"] :=
    lexes_word hbs hname.1 hname.2 (head_of_plain (by decide))
  have hboth := hword.append (lexes_opening allBlank_nil) fun _ _ => parted_cons (by decide)
  simpa using hboth

/-- A test for existence, with blanks before its end. -/
theorem writes_existence {lead : List Char} (hlead : AllBlank lead) (hne : ws ≠ [])
    (hwords : ∀ w ∈ ws, IsWord w) (hplain : ∀ w ∈ ws, ¬ StartsWithDigit w) :
    Writes (unit pred) anyToken ("exists(".toList ++ (pathText ws ++ (lead ++ [')'])))
      (.existence (members ws)) := by
  refine ⟨[.word "exists", .opening] ++ (.root :: memberTokens ws ++ [.closing]), fun bs hbs => ?_,
    fun ts _ => ?_⟩
  · have hpath := (lexes_path hne hwords hplain allBlank_nil).append (lexes_closing hlead) fun r _ => by
      rw [List.append_assoc]
      exact parted_blank hlead (by decide)
    have hboth := (lexes_exists hbs).append hpath fun _ _ => trivial
    simpa using Lexes.clear hboth
  · have hpath : path (.root :: memberTokens ws ++ .closing :: ts) =
        some (members ws ++ [], .closing :: ts) := by
      show some (steps (memberTokens ws ++ .closing :: ts)) = _
      rw [steps_members]
      rfl
    rw [List.append_assoc, List.append_assoc]
    show (closed (path (.root :: memberTokens ws ++ .closing :: ts))).map _ = _
    rw [hpath, List.append_nil]
    rfl

theorem breaks_existence (hne : ws ≠ []) (hwords : ∀ w ∈ ws, IsWord w)
    (hdigit : ∃ w ∈ ws, StartsWithDigit w) :
    Breaks (unit pred) ("exists(".toList ++ (pathText ws ++ tail)) := by
  intro bs r ts l hbs _ hmany
  have htext : bs ++ ("exists(".toList ++ (pathText ws ++ tail)) ++ r =
      bs ++ "exists(".toList ++ ([] ++ pathText ws ++ (tail ++ r)) := by simp
  rw [htext] at hmany
  obtain ⟨ts', hmany', rfl⟩ := (lexes_exists hbs).split trivial hmany
  obtain ⟨ts'', ss, q, rest, rfl, hpath⟩ := path_of_digit hne hwords hdigit allBlank_nil hmany'
  show (closed (path (.root :: ts''))).map _ = none
  rw [hpath]
  rfl

/-! ## Scalars -/

/-- The tokens of a scalar, with blanks before them. -/
theorem writes_scalar {toks : List Token} (hlex : ∀ bs, AllBlank bs → Lexes Clear (bs ++ value) toks)
    (hscalar : ∀ ts, scalar (toks ++ ts) = some (s, ts)) : Writes scalar anyToken value s :=
  ⟨toks, hlex, fun ts _ => hscalar ts⟩

theorem writes_constant (hw : IsWord w) (hdigit : ¬ StartsWithDigit w)
    (h : constant (String.ofList w) = some s) : Writes scalar anyToken w s := by
  have hhead := head_of_plain hdigit
  refine writes_scalar (fun bs hbs => (lexes_word hbs hw.1 hw.2 hhead).mono fun _ => Clear.parted)
    fun ts => ?_
  · show (constant (String.ofList w)).map _ = _
    rw [h]
    rfl

theorem writes_numeral {q : ℚ} (h : numeral value = some (q, [])) :
    Writes scalar anyToken value (.number q) :=
  writes_scalar (fun _ hbs => lexes_numeral hbs h) fun _ => rfl

theorem lexes_minus {bs : List Char} (hbs : AllBlank bs) : Lexes anyRest (bs ++ ['-']) [.minus] :=
  lexes_operator hbs (by decide) fun _ _ => rfl

theorem writes_negative {q : ℚ} (h : numeral value = some (q, [])) :
    Writes scalar anyToken ('-' :: value) (.number (-q)) := by
  have hlex : ∀ bs, AllBlank bs → Lexes Clear (bs ++ '-' :: value) [.minus, .number q] := by
    intro bs hbs
    have hboth := (lexes_minus hbs).append (lexes_numeral allBlank_nil h) fun _ _ => trivial
    simpa using hboth
  exact writes_scalar hlex fun _ => rfl

theorem writes_quoted {encode : Char → List Char} {cs : List Char}
    (h : ∀ c ∈ cs, ∀ r, character (encode c ++ r) = some (c, r))
    (hquote : ∀ c ∈ cs, ∀ r, (encode c ++ r).head? ≠ some '"') :
    Writes scalar anyToken ('"' :: (cs.flatMap encode ++ ['"'])) (.string (String.ofList cs)) :=
  writes_scalar (fun _ hbs => (lexes_quoted hbs h hquote).mono fun _ _ => trivial) fun _ => rfl

/-- A text whose first token no scalar begins with. -/
theorem breaks_scalar {rest : List Char → Prop} {toks : List Token}
    (hlex : ∀ bs, AllBlank bs → Lexes rest (bs ++ cs) toks) (hrest : ∀ r, Clear r → rest (tail ++ r))
    (hscalar : ∀ ts, scalar (toks ++ ts) = none) : Breaks scalar (cs ++ tail) := by
  intro bs r ts l hbs hr hmany
  rw [← List.append_assoc, List.append_assoc] at hmany
  obtain ⟨ts', _, rfl⟩ := (hlex bs hbs).split (hrest r hr) hmany
  exact hscalar ts'

/-- A bracket or a brace. -/
theorem breaks_mark {c : Char} (hc : c ∉ ['$', '.', '"'] ∧ isOther c = false ∧ isBlank c = false)
    (hmark : ∀ r, operator (c :: r) = some (.mark c, r)) : Breaks scalar (c :: tail) :=
  have hlex : ∀ bs, AllBlank bs → Lexes anyRest (bs ++ [c]) [.mark c] := fun _ hbs =>
    lexes_operator hbs hc fun r _ => hmark r
  breaks_scalar hlex (fun _ _ => trivial) fun _ => rfl

theorem breaks_word (hw : IsWord w) (hdigit : ¬ StartsWithDigit w)
    (h : constant (String.ofList w) = none) : Breaks scalar w := by
  have hhead := head_of_plain hdigit
  have hscalar : ∀ ts, scalar ([.word (String.ofList w)] ++ ts) = none := by
    intro ts
    show (constant (String.ofList w)).map _ = none
    rw [h]
    rfl
  have hbreaks : Breaks scalar (w ++ []) :=
    breaks_scalar (fun _ hbs => lexes_word hbs hw.1 hw.2 hhead) (fun _ => Clear.parted) hscalar
  simpa using hbreaks

theorem breaks_negative_word (hw : IsWord w) (hdigit : ¬ StartsWithDigit w) :
    Breaks scalar ('-' :: w) := by
  have hhead := head_of_plain hdigit
  have hlex : ∀ bs, AllBlank bs →
      Lexes Parted (bs ++ '-' :: w) [.minus, .word (String.ofList w)] := by
    intro bs hbs
    have hboth := (lexes_minus hbs).append (lexes_word allBlank_nil hw.1 hw.2 hhead)
      fun _ _ => trivial
    simpa using hboth
  have hbreaks : Breaks scalar ('-' :: w ++ []) :=
    breaks_scalar hlex (fun _ => Clear.parted) fun _ => rfl
  simpa using hbreaks

/-- A word alone is no predicate. -/
theorem breaks_bare_word (hw : IsWord w) (hdigit : ¬ StartsWithDigit w)
    (h : String.ofList w ≠ "exists") : Breaks (unit pred) w := by
  intro bs r ts l hbs hr hmany
  obtain ⟨ts', _, rfl⟩ := (lexes_word hbs hw.1 hw.2 (head_of_plain hdigit)).split hr.parted hmany
  show delimited pred (.word (String.ofList w) :: ts') = none
  unfold delimited
  split
  · rename_i heq
    cases heq
  · rename_i heq
    cases heq
    rw [if_neg h]
  · rfl

/-- A string with an escape that is no character. -/
theorem breaks_quoted {encode : Char → List Char} {cs : List Char} {c : Char}
    (h : ∀ c ∈ cs, ∀ r, character (encode c ++ r) = some (c, r))
    (hquote : ∀ c, ∀ r, (encode c ++ r).head? ≠ some '"')
    (hnone : ∀ r, character (encode c ++ r) = none) :
    Breaks scalar ('"' :: (cs.flatMap encode ++ (encode c ++ tail))) := by
  intro bs r ts l hbs _ hmany
  have hchars : Reads (fun r => r.head? = some '"') character anyRest (cs.flatMap encode) cs :=
    reads_encoded h fun c _ => hquote c
  have htext : bs ++ '"' :: (cs.flatMap encode ++ (encode c ++ tail)) ++ r =
      bs ++ '"' :: (cs.flatMap encode ++ (encode c ++ (tail ++ r))) := by simp
  have hquoted : quoted (cs.flatMap encode ++ (encode c ++ (tail ++ r))) = none := by
    rw [quoted, hchars _ trivial, many_none (by simpa using hquote c (tail ++ r)) (hnone _)]
    rfl
  have hnext : nextToken (bs ++ '"' :: (cs.flatMap encode ++ (encode c ++ (tail ++ r)))) = none := by
    rw [nextToken, List.dropWhile_append_of_pos hbs]
    show readToken ('"' :: _) = none
    rw [readToken, hquoted]
    rfl
  have hstop : blankOnly (bs ++ '"' :: (cs.flatMap encode ++ (encode c ++ (tail ++ r)))) = false := by
    rw [blankOnly, List.dropWhile_append_of_pos hbs]
    rfl
  rw [htext, many_none hstop hnext] at hmany
  cases hmany

/-! ## Constants -/

end Jsonpath
