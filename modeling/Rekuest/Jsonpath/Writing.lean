import Rekuest.Jsonpath.Parser

/-!
# Rekuest.Jsonpath.Writing

Texts that are put together from parts, and what they are read as.

* `Writes item ok cs a`: the text is read as `a`, with any rest after it that words and numbers do
  not go on with, and before any tokens that meet `ok`.
* `Breaks item cs`: no text that begins with it is read at all.
* `writes_sequence`, `breaks_sequence`: parts with a separator between them. A sequence breaks where
  one of its parts does. `writes_conjunction`, `writes_predicate`: with `&&` and with `||`.
* `parse_of_writes`, `parse_of_breaks`: what becomes of the whole text.
-/

namespace Jsonpath

open Coding

variable {α : Type}

def AllBlank (bs : List Char) : Prop := ∀ b ∈ bs, isBlank b = true

def Writes (item : List Token → Option (α × List Token)) (ok : List Token → Prop) (cs : List Char)
    (a : α) : Prop :=
  ∃ toks, (∀ bs, AllBlank bs → Lexes Clear (bs ++ cs) toks) ∧
    ∀ ts, ok ts → item (toks ++ ts) = some (a, ts)

def Breaks (item : List Token → Option (α × List Token)) (cs : List Char) : Prop :=
  ∀ bs r ts l, AllBlank bs → Clear r → many blankOnly nextToken (bs ++ cs ++ r) = some (ts, l) →
    item ts = none

def anyToken : List Token → Prop := fun _ => True

/-- The separator does not come next. -/
def Past (sep : Token) (ts : List Token) : Prop := ts.head? ≠ some sep

variable {item : List Token → Option (α × List Token)} {ok : List Token → Prop} {sep : Token}
  {a : α} {as : List α} {cs ds : List Char} {texts : List (List Char)} {join : α → α → α}

theorem allBlank_nil : AllBlank [] := by
  intro b hb
  cases hb

theorem allBlank_space : AllBlank [' '] := by
  intro b hb
  obtain rfl := List.mem_singleton.mp hb
  rfl

/-- A text before more of it: the rest is read on its own. -/
theorem Lexes.split {rest : List Char → Prop} {toks ts : List Token} {r l : List Char}
    (h : Lexes rest cs toks) (hr : rest r) (hmany : many blankOnly nextToken (cs ++ r) = some (ts, l)) :
    ∃ ts', many blankOnly nextToken r = some (ts', l) ∧ ts = toks ++ ts' := by
  rw [h r hr] at hmany
  obtain ⟨q, hq, heq⟩ := Option.map_eq_some_iff.mp hmany
  cases heq
  exact ⟨q.1, hq, rfl⟩

theorem Lexes.clear {toks : List Token} (h : Lexes anyRest cs toks) : Lexes Clear cs toks :=
  h.mono fun _ _ => trivial

/-! ## Sequences -/

section

variable (hitem : Shrinks item) (hok : ∀ ts, ok (sep :: ts)) (hlex : Lexes anyRest ds [sep])
  (hclear : ∀ r, Clear (ds ++ r))

include hitem hok hlex hclear

theorem writes_sequence (hne : texts ≠ []) (h : List.Forall₂ (Writes item ok) texts as) :
    Writes (sequence sep item) (fun ts => ok ts ∧ Past sep ts)
      (List.intercalate (ds ++ [' ']) texts) as := by
  induction h with
  | nil => exact absurd rfl hne
  | @cons t a texts as hfirst hrest ih =>
    obtain ⟨toks, hread, hparse⟩ := hfirst
    cases hrest with
    | nil =>
      refine ⟨toks, fun bs hbs => by simpa using hread bs hbs, fun ts hts => ?_⟩
      exact sequence_last (hparse ts hts.1) hts.2
    | @cons t' a' texts as hnext hmore =>
      obtain ⟨toks', hread', hparse'⟩ := ih (List.cons_ne_nil _ _)
      have hsplit : List.intercalate (ds ++ [' ']) (t :: t' :: texts) =
          t ++ (ds ++ ([' '] ++ List.intercalate (ds ++ [' ']) (t' :: texts))) := by
        simp [List.intercalate]
      refine ⟨toks ++ ([sep] ++ toks'), fun bs hbs => ?_, fun ts hts => ?_⟩
      · rw [hsplit, ← List.append_assoc]
        refine (hread bs hbs).append (hlex.append (hread' [' '] allBlank_space) ?_) ?_
        · exact fun _ _ => trivial
        · intro r _
          rw [List.append_assoc]
          exact hclear _
      · have hcons : item (toks ++ ([sep] ++ toks') ++ ts) = some (a, sep :: (toks' ++ ts)) := by
          rw [List.append_assoc]
          exact hparse _ (hok _)
        rw [sequence_cons hitem hcons, hparse' ts hts]
        rfl

/-- The first part that is not read takes the others with it. -/
theorem breaks_sequence
    (hall : ∀ t ∈ texts, (∃ a, Writes item ok t a) ∨ Breaks item t)
    (hbad : ∃ t ∈ texts, Breaks item t) :
    Breaks (sequence sep item) (List.intercalate (ds ++ [' ']) texts) := by
  induction texts with
  | nil =>
    obtain ⟨t, ht, _⟩ := hbad
    cases ht
  | cons t texts ih =>
    intro bs r ts l hbs hr hmany
    have htail : ∃ tail, List.intercalate (ds ++ [' ']) (t :: texts) = t ++ tail ∧
        Clear (tail ++ r) ∧ (texts ≠ [] →
          tail = ds ++ ([' '] ++ List.intercalate (ds ++ [' ']) texts)) := by
      cases texts with
      | nil => exact ⟨[], by simp [List.intercalate], hr, fun h => absurd rfl h⟩
      | cons t' texts =>
        refine ⟨_, by simp [List.intercalate], ?_, fun _ => rfl⟩
        rw [List.append_assoc]
        exact hclear _
    obtain ⟨tail, hsplit, hcleared, hmore⟩ := htail
    rw [hsplit, ← List.append_assoc, List.append_assoc] at hmany
    rcases hall t (by simp) with ⟨a, toks, hread, hparse⟩ | hbreaks
    · by_cases hone : Breaks item t
      · exact sequence_none (hone bs _ ts l hbs hcleared hmany)
      obtain ⟨t', ht', hbreaks⟩ := hbad
      have hin : t' ∈ texts := by
        rcases List.mem_cons.mp ht' with rfl | hin
        · exact absurd hbreaks hone
        · exact hin
      obtain ⟨ts', hmany', rfl⟩ := (hread bs hbs).split hcleared hmany
      rw [hmore (List.ne_nil_of_mem hin), List.append_assoc] at hmany'
      obtain ⟨ts'', hmany'', rfl⟩ := hlex.split trivial hmany'
      have hnone := ih (fun t ht => hall t (by simp [ht])) ⟨t', hin, hbreaks⟩ [' '] r ts'' l
        allBlank_space hr hmany''
      have hcons : item (toks ++ ([sep] ++ ts'')) = some (a, sep :: ts'') := hparse _ (hok _)
      rw [sequence_cons hitem hcons, hnone]
      rfl
    · exact sequence_none (hbreaks bs _ ts l hbs hcleared hmany)

end

theorem Writes.combine (join : α → α → α) {f : List Token → Option (List α × List Token)}
    (h : Writes f ok cs (a :: as)) :
    Writes (fun ts => combine join (f ts)) ok cs (as.foldl join a) := by
  obtain ⟨toks, hread, hparse⟩ := h
  refine ⟨toks, hread, fun ts hts => ?_⟩
  dsimp only
  rw [hparse ts hts]
  rfl

theorem Breaks.combine {f : List Token → Option (List α × List Token)} (h : Breaks f cs) :
    Breaks (fun ts => Jsonpath.combine join (f ts)) cs := by
  intro bs r ts l hbs hr hmany
  dsimp only
  rw [h bs r ts l hbs hr hmany]
  rfl

/-! ## Conjunctions and alternatives -/

section

variable {pred : List Token → Option (Predicate × List Token)} {p : Predicate} {ps : List Predicate}
  {depth : Nat}

theorem lexes_and : Lexes anyRest " &&".toList [.and] :=
  by
  have hlex : Lexes anyRest ([' '] ++ ['&', '&']) [.and] :=
    lexes_operator allBlank_space (by decide) fun _ _ => rfl
  exact hlex

theorem lexes_or : Lexes anyRest " ||".toList [.or] :=
  by
  have hlex : Lexes anyRest ([' '] ++ ['|', '|']) [.or] :=
    lexes_operator allBlank_space (by decide) fun _ _ => rfl
  exact hlex

theorem clear_blank (r : List Char) : Clear (' ' :: r) := clear_cons (by decide) (by decide)

theorem writes_conjunction (hpred : Shrinks pred)
    (h : List.Forall₂ (Writes (unit pred) anyToken) texts (p :: ps)) :
    Writes (conjunction pred) (Past .and) (List.intercalate " && ".toList texts)
      (ps.foldl .and p) := by
  have hne : texts ≠ [] := by
    rintro rfl
    cases h
  obtain ⟨toks, hread, hparse⟩ := (writes_sequence (unit_shrinks hpred) (fun _ => trivial) lexes_and
    (fun _ => clear_blank _) hne h).combine .and
  exact ⟨toks, hread, fun ts hts => hparse ts ⟨trivial, hts⟩⟩

theorem breaks_conjunction (hpred : Shrinks pred)
    (hall : ∀ t ∈ texts, (∃ p, Writes (unit pred) anyToken t p) ∨ Breaks (unit pred) t)
    (hbad : ∃ t ∈ texts, Breaks (unit pred) t) :
    Breaks (conjunction pred) (List.intercalate " && ".toList texts) :=
  (breaks_sequence (unit_shrinks hpred) (fun _ => trivial) lexes_and (fun _ => clear_blank _) hall
    hbad).combine

theorem writes_predicate
    (h : List.Forall₂ (Writes (conjunction (predicate depth)) (Past .and)) texts (p :: ps)) :
    Writes (predicate (depth + 1)) (fun ts => Past .and ts ∧ Past .or ts)
      (List.intercalate " || ".toList texts) (ps.foldl .or p) := by
  have hne : texts ≠ [] := by
    rintro rfl
    cases h
  exact (writes_sequence (conjunction_shrinks (predicate_shrinks depth)) (fun _ => by simp [Past])
    lexes_or (fun _ => clear_blank _) hne h).combine .or

theorem breaks_predicate
    (hall : ∀ t ∈ texts, (∃ p, Writes (conjunction (predicate depth)) (Past .and) t p) ∨
      Breaks (conjunction (predicate depth)) t)
    (hbad : ∃ t ∈ texts, Breaks (conjunction (predicate depth)) t) :
    Breaks (predicate (depth + 1)) (List.intercalate " || ".toList texts) :=
  (breaks_sequence (conjunction_shrinks (predicate_shrinks depth)) (fun _ => by simp [Past]) lexes_or
    (fun _ => clear_blank _) hall hbad).combine

/-- One part is a conjunction. -/
theorem Writes.conjunction (hpred : Shrinks pred) (h : Writes (unit pred) anyToken cs p) :
    Writes (conjunction pred) (Past .and) cs p := by
  have hone := writes_conjunction hpred (.cons h .nil)
  simpa [List.intercalate] using hone

theorem Breaks.conjunction (hpred : Shrinks pred) (h : Breaks (unit pred) cs) :
    Breaks (conjunction pred) cs := by
  have hone : Breaks (Jsonpath.conjunction pred) (List.intercalate " && ".toList [cs]) :=
    breaks_conjunction hpred (by simp [h]) (by simp [h])
  simpa [List.intercalate] using hone

/-- One conjunction is a predicate. -/
theorem Writes.predicate (h : Writes (Jsonpath.conjunction (Jsonpath.predicate depth)) (Past .and) cs p) :
    Writes (Jsonpath.predicate (depth + 1)) (fun ts => Past .and ts ∧ Past .or ts) cs p := by
  have hone := writes_predicate (.cons h .nil)
  simpa [List.intercalate] using hone

theorem Breaks.predicate (h : Breaks (Jsonpath.conjunction (Jsonpath.predicate depth)) cs) :
    Breaks (Jsonpath.predicate (depth + 1)) cs := by
  have hone : Breaks (Jsonpath.predicate (depth + 1)) (List.intercalate " || ".toList [cs]) :=
    breaks_predicate (by simp [h]) (by simp [h])
  simpa [List.intercalate] using hone

/-! ## Whole texts -/

theorem many_of_lex {text : List Char} {ts : List Token} (h : lex text = some ts) :
    ∃ l, many blankOnly nextToken ([] ++ text ++ []) = some (ts, l) := by
  obtain ⟨q, hq, rfl⟩ := Option.map_eq_some_iff.mp h
  rw [List.nil_append, List.append_nil]
  exact ⟨q.2, hq⟩

theorem clear_nil : Clear [] := by
  intro c hc
  cases hc

/-- At every depth the text is read, so also at the one that its length allows. -/
theorem parse_of_writes (h : ∀ depth, Writes (Jsonpath.predicate (depth + 2))
    (fun ts => Past .and ts ∧ Past .or ts) cs p) : parse (String.ofList cs) = some p := by
  have hlex : ∀ depth, ∃ toks, lex cs = some toks ∧
      Jsonpath.predicate (depth + 2) toks = some (p, []) := by
    intro depth
    obtain ⟨toks, hread, hparse⟩ := h depth
    refine ⟨toks, ?_, ?_⟩
    · have hmany := hread [] allBlank_nil [] clear_nil
      rw [List.nil_append, List.append_nil] at hmany
      rw [lex, hmany, many_stop rfl]
      simp
    · rw [← List.append_nil toks]
      exact hparse [] (by simp [Past])
  obtain ⟨toks, htoks, hzero⟩ := hlex 0
  cases toks with
  | nil => cases hzero
  | cons t ts =>
    obtain ⟨toks', htoks', hparse⟩ := hlex ts.length
    obtain rfl := Option.some.inj (htoks.symm.trans htoks')
    have hfull : Jsonpath.predicate ((t :: ts).length + 1) (t :: ts) = some (p, []) := hparse
    rw [parse, String.toList_ofList, htoks, Option.bind_some, parseTokens, hfull]

theorem parse_of_breaks (h : ∀ depth, Breaks (Jsonpath.predicate (depth + 2)) cs) :
    parse (String.ofList cs) = none := by
  rw [parse, String.toList_ofList]
  cases hlex : lex cs with
  | none => rfl
  | some ts =>
    obtain ⟨l, hmany⟩ := many_of_lex hlex
    cases ts with
    | nil => rfl
    | cons t ts =>
      have hnone : Jsonpath.predicate ((t :: ts).length + 1) (t :: ts) = none :=
        h ts.length [] [] _ l allBlank_nil clear_nil hmany
      rw [Option.bind_some, parseTokens, hnone]

end

end Jsonpath
