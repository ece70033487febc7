import Rekuest.Sql.Query

/-!
# Rekuest.Sql.Identifiers

Conditions as a server reads them that keeps only so much of an identifier.

* `Cond.renamed`: a condition with its aliases read in one way. `clip`: the first characters.
* `Cond.Scoped`: every alias that a condition mentions is in scope.
* `evalAll_renamed`: a condition whose aliases stay apart as they are read means what it meant.
-/

namespace Sql

/-! ## What is kept of a name -/

def clip (n : Nat) (name : String) : String := String.ofList (name.toList.take n)

section

variable {n : Nat} {a b : String}

theorem length_clip : (clip n a).length = min n a.length := by
  simp [clip, String.length]

theorem clip_of_le (h : a.length ≤ n) : clip n a = a := by
  have hlength : a.toList.length ≤ n := h
  rw [clip, List.take_of_length_le hlength, String.ofList_toList]

/-- A name that is clipped hides what goes on from it. -/
theorem clip_append (h : n ≤ a.length) : clip n (a ++ b) = clip n a := by
  have hlength : n ≤ a.toList.length := h
  rw [clip, clip, String.toList_append, List.take_append_of_le_length hlength]

end

/-! ## Conditions under other names -/

section

variable {O P V : Type}

def Term.renamed (f : String → String) : Term O V → Term O V
  | column label name => column (f label) name
  | bare name => bare name
  | param key => param key
  | const v => const v
  | app op t => app op (t.renamed f)

def Source.renamed (f : String → String) : Source O V → Source O V
  | table name label => table name (f label)
  | join name label joined joinedLabel l r =>
    join name (f label) joined (f joinedLabel) (l.renamed f) (r.renamed f)
  | elements t label item ordinality => elements (t.renamed f) (f label) item ordinality

mutual
def Cond.renamed (f : String → String) : Cond O P V → Cond O P V
  | eq l r => eq (l.renamed f) (r.renamed f)
  | isNull t => isNull (t.renamed f)
  | test p l r => test p (l.renamed f) (r.renamed f)
  | or c d => or (c.renamed f) (d.renamed f)
  | exists_ source whose => exists_ (source.renamed f) (Cond.renamedAll f whose)
  | count source whose n => count (source.renamed f) (Cond.renamedAll f whose) (n.renamed f)
  | isIn t column source whose =>
    isIn (t.renamed f) (column.renamed f) (source.renamed f) (Cond.renamedAll f whose)

def Cond.renamedAll (f : String → String) : List (Cond O P V) → List (Cond O P V)
  | [] => []
  | c :: cs => c.renamed f :: Cond.renamedAll f cs
end

variable {f : String → String}

theorem Cond.renamedAll_append (cs ds : List (Cond O P V)) :
    Cond.renamedAll f (cs ++ ds) = Cond.renamedAll f cs ++ Cond.renamedAll f ds := by
  induction cs with
  | nil => rfl
  | cons c cs ih => rw [List.cons_append, Cond.renamedAll, ih, Cond.renamedAll, List.cons_append]

theorem Source.aliases_renamed (source : Source O V) :
    (source.renamed f).aliases = source.aliases.map f := by
  cases source <;> rfl

/-! ## Scopes -/

def Term.Scoped (scope : List String) : Term O V → Prop
  | column label _ => label ∈ scope
  | bare _ => True
  | param _ => True
  | const _ => True
  | app _ t => t.Scoped scope

def Source.Scoped (scope : List String) : Source O V → Prop
  | table _ _ => True
  | join _ label _ joinedLabel l r =>
    l.Scoped (joinedLabel :: label :: scope) ∧ r.Scoped (joinedLabel :: label :: scope)
  | elements t _ _ _ => t.Scoped scope

mutual
/-- Every alias that is mentioned is in scope. -/
def Cond.Scoped (scope : List String) : Cond O P V → Prop
  | eq l r => l.Scoped scope ∧ r.Scoped scope
  | isNull t => t.Scoped scope
  | test _ l r => l.Scoped scope ∧ r.Scoped scope
  | or c d => c.Scoped scope ∧ d.Scoped scope
  | exists_ source whose => source.Scoped scope ∧ Cond.ScopedAll (source.aliases ++ scope) whose
  | count source whose n =>
    source.Scoped scope ∧ Cond.ScopedAll (source.aliases ++ scope) whose ∧ n.Scoped scope
  | isIn t column source whose =>
    t.Scoped scope ∧ column.Scoped (source.aliases ++ scope) ∧ source.Scoped scope ∧
      Cond.ScopedAll (source.aliases ++ scope) whose

def Cond.ScopedAll (scope : List String) : List (Cond O P V) → Prop
  | [] => True
  | c :: cs => c.Scoped scope ∧ Cond.ScopedAll scope cs
end

theorem scopedAll_iff {scope : List String} {cs : List (Cond O P V)} :
    Cond.ScopedAll scope cs ↔ ∀ c ∈ cs, c.Scoped scope := by
  induction cs with
  | nil => simp [Cond.ScopedAll]
  | cons c cs ih => simp [Cond.ScopedAll, ih]

def Scope.labels (s : Scope V) : List String := s.map Prod.fst

def Scope.renamed (f : String → String) (s : Scope V) : Scope V := s.map fun row => (f row.1, row.2)

theorem lookup_renamed {s : Scope V} {label : String} (hnodup : (s.labels.map f).Nodup)
    (hmem : label ∈ s.labels) : (s.renamed f).lookup (f label) = s.lookup label := by
  induction s with
  | nil => cases hmem
  | cons row s ih =>
    obtain ⟨hother, hrest⟩ := List.nodup_cons.mp hnodup
    show List.lookup (f label) ((f row.1, row.2) :: Scope.renamed f s) =
      List.lookup label ((row.1, row.2) :: s)
    rcases List.mem_cons.mp hmem with rfl | hmem
    · rw [List.lookup_cons_self, List.lookup_cons_self]
    · have hne : label ≠ row.1 := by
        intro heq
        rw [heq] at hmem
        exact hother (List.mem_map_of_mem hmem)
      have hfne : f label ≠ f row.1 := by
        intro heq
        exact hother (heq ▸ List.mem_map_of_mem hmem)
      rw [List.lookup_cons, List.lookup_cons, beq_false_of_ne hne, beq_false_of_ne hfne]
      exact ih hrest hmem

end

/-! ## Meaning -/

section

variable {O P V : Type} {D : Dialect O P V} {db : String → List (Row V)}
  {params : String → Option V} {f : String → String} {s : Scope V}

theorem Term.eval_renamed {t : Term O V} (hnodup : (s.labels.map f).Nodup)
    (ht : t.Scoped s.labels) :
    (t.renamed f).eval D params (s.renamed f) = t.eval D params s := by
  induction t with
  | column label name =>
    show ((s.renamed f).lookup (f label)).bind _ = (s.lookup label).bind _
    rw [lookup_renamed hnodup ht]
  | bare name =>
    cases s with
    | nil => rfl
    | cons row s => rfl
  | param key => rfl
  | const v => rfl
  | app op t ih =>
    show ((t.renamed f).eval D params (s.renamed f)).bind _ = (t.eval D params s).bind _
    rw [ih ht]

theorem Source.labels_scopes {source : Source O V} {s' : Scope V}
    (h : s' ∈ source.scopes D db params s) : s'.labels = source.aliases ++ s.labels := by
  cases source with
  | table name label =>
    obtain ⟨row, _, rfl⟩ := List.mem_map.mp h
    rfl
  | join name label joined joinedLabel l r =>
    obtain ⟨row, _, hrow⟩ := List.mem_flatMap.mp (List.mem_filter.mp h).1
    obtain ⟨row', _, rfl⟩ := List.mem_map.mp hrow
    rfl
  | elements t label item ordinality =>
    obtain ⟨p, _, rfl⟩ := List.mem_map.mp h
    rfl

theorem Source.scopes_renamed {source : Source O V}
    (hnodup : ((source.aliases ++ s.labels).map f).Nodup) (hsource : source.Scoped s.labels) :
    (source.renamed f).scopes D db params (s.renamed f) =
      (source.scopes D db params s).map (Scope.renamed f) := by
  have hbelow : (s.labels.map f).Nodup := by
    rw [List.map_append] at hnodup
    exact (List.nodup_append.mp hnodup).2.1
  cases source with
  | table name label =>
    show (db name).map _ = ((db name).map _).map _
    rw [List.map_map]
    rfl
  | join name label joined joinedLabel l r =>
    have hpairs : ((db name).flatMap fun row => (db joined).map fun row' =>
        (f joinedLabel, row') :: (f label, row) :: s.renamed f) =
        ((db name).flatMap fun row => (db joined).map fun row' =>
          (joinedLabel, row') :: (label, row) :: s).map (Scope.renamed f) := by
      simp [List.map_flatMap, Function.comp_def, Scope.renamed]
    show List.filter _ ((db name).flatMap fun row => (db joined).map fun row' =>
      (f joinedLabel, row') :: (f label, row) :: s.renamed f) = _
    rw [hpairs, List.filter_map]
    refine congrArg (List.map _) (List.filter_congr fun s' hs' => ?_)
    obtain ⟨row, _, hrow⟩ := List.mem_flatMap.mp hs'
    obtain ⟨row', _, rfl⟩ := List.mem_map.mp hrow
    have hl : (l.renamed f).eval D params (Scope.renamed f ((joinedLabel, row') :: (label, row) :: s)) =
        l.eval D params ((joinedLabel, row') :: (label, row) :: s) :=
      Term.eval_renamed hnodup hsource.1
    have hr : (r.renamed f).eval D params (Scope.renamed f ((joinedLabel, row') :: (label, row) :: s)) =
        r.eval D params ((joinedLabel, row') :: (label, row) :: s) :=
      Term.eval_renamed hnodup hsource.2
    rw [Function.comp_apply, hl, hr]
  | elements t label item ordinality =>
    show ((((t.renamed f).eval D params (s.renamed f)).map D.items).getD []).zipIdx.map _ = _
    rw [Term.eval_renamed hbelow hsource]
    show _ = ((((t.eval D params s).map D.items).getD []).zipIdx.map _).map _
    rw [List.map_map]
    rfl

/-- The scopes of a subquery, and its conditions in them. -/
theorem subquery_renamed (D : Dialect O P V) (db : String → List (Row V))
    (params : String → Option V) {source : Source O V} {whose : List (Cond O P V)}
    (hs : Cond.ScopedAll (source.aliases ++ s.labels) whose)
    (hf : ((source.renamed f).aliases ++ s.labels.map f).Nodup ∧
      Cond.FreshAll ((source.renamed f).aliases ++ s.labels.map f) (Cond.renamedAll f whose))
    (ih : ∀ s' : Scope V, (s'.labels.map f).Nodup → Cond.ScopedAll s'.labels whose →
      Cond.FreshAll (s'.labels.map f) (Cond.renamedAll f whose) →
      Cond.evalAll D db params (s'.renamed f) (Cond.renamedAll f whose) =
        Cond.evalAll D db params s' whose) :
    ((source.aliases ++ s.labels).map f).Nodup ∧ ∀ s' ∈ source.scopes D db params s,
      Cond.evalAll D db params (s'.renamed f) (Cond.renamedAll f whose) =
        Cond.evalAll D db params s' whose := by
  rw [Source.aliases_renamed, ← List.map_append] at hf
  refine ⟨hf.1, fun s' hs' => ?_⟩
  have hlabels := Source.labels_scopes hs'
  refine ih s' ?_ ?_ ?_
  · rw [hlabels]
    exact hf.1
  · rw [hlabels]
    exact hs
  · rw [hlabels]
    exact hf.2

mutual
/-- **Names.** A condition means the same under names that stay apart in every scope. -/
theorem Cond.eval_renamed : ∀ (c : Cond O P V) (s : Scope V), (s.labels.map f).Nodup →
    c.Scoped s.labels → (c.renamed f).Fresh (s.labels.map f) →
    (c.renamed f).eval D db params (s.renamed f) = c.eval D db params s
  | eq l r, s, hn, hs, _ => by
    simp only [renamed, eval, Term.eval_renamed hn hs.1, Term.eval_renamed hn hs.2]
  | isNull t, s, hn, hs, _ => by
    have ht : t.Scoped s.labels := hs
    simp only [renamed, eval, Term.eval_renamed hn ht]
  | test p l r, s, hn, hs, _ => by
    simp only [renamed, eval, Term.eval_renamed hn hs.1, Term.eval_renamed hn hs.2]
  | or c d, s, hn, hs, hf => by
    simp only [renamed, eval, Cond.eval_renamed c s hn hs.1 hf.1, Cond.eval_renamed d s hn hs.2 hf.2]
  | exists_ source whose, s, hn, hs, hf => by
    obtain ⟨hnodup, hwhose⟩ := subquery_renamed D db params hs.2 hf
      fun s' => Cond.evalAll_renamed whose s'
    simp only [renamed, eval, Source.scopes_renamed hnodup hs.1, List.any_map]
    refine congrArg some (Bool.eq_iff_iff.mpr ?_)
    simp only [List.any_eq_true, Function.comp_apply]
    refine exists_congr fun s' => and_congr_right fun hs' => ?_
    rw [hwhose s' hs']
  | count source whose n, s, hn, hs, hf => by
    obtain ⟨hnodup, hwhose⟩ := subquery_renamed D db params hs.2.1 hf
      fun s' => Cond.evalAll_renamed whose s'
    simp only [renamed, eval, Source.scopes_renamed hnodup hs.1, List.countP_map,
      Term.eval_renamed hn hs.2.2]
    refine congrArg (fun n => same D.equal (some (D.count n)) _) (List.countP_congr ?_)
    intro s' hs'
    rw [Function.comp_apply, hwhose s' hs']
  | isIn t column source whose, s, hn, hs, hf => by
    obtain ⟨ht, hcolumn, hsource, hscoped⟩ := hs
    obtain ⟨hnodup, hwhose⟩ := subquery_renamed D db params hscoped hf
      fun s' => Cond.evalAll_renamed whose s'
    simp only [renamed, eval, Source.scopes_renamed hnodup hsource, List.filter_map, List.map_map,
      Term.eval_renamed hn ht]
    refine congrArg (fun l => List.foldr either (some false) l) ?_
    have hsame : (source.scopes D db params s).filter ((fun s' => Cond.evalAll D db params s'
        (Cond.renamedAll f whose) == some true) ∘ Scope.renamed f) =
        (source.scopes D db params s).filter fun s' =>
          Cond.evalAll D db params s' whose == some true :=
      List.filter_congr fun s' hs' => by rw [Function.comp_apply, hwhose s' hs']
    rw [hsame]
    refine List.map_congr_left fun s' hs' => ?_
    have hlabels := Source.labels_scopes (List.mem_filter.mp hs').1
    rw [Function.comp_apply, Term.eval_renamed (by rw [hlabels]; exact hnodup)
      (by rw [hlabels]; exact hcolumn)]

theorem Cond.evalAll_renamed : ∀ (cs : List (Cond O P V)) (s : Scope V), (s.labels.map f).Nodup →
    Cond.ScopedAll s.labels cs → Cond.FreshAll (s.labels.map f) (Cond.renamedAll f cs) →
    Cond.evalAll D db params (s.renamed f) (Cond.renamedAll f cs) = Cond.evalAll D db params s cs
  | [], _, _, _, _ => rfl
  | c :: cs, s, hn, hs, hf => by
    simp only [Cond.renamedAll, Cond.evalAll, Cond.eval_renamed c s hn hs.1 hf.1,
      Cond.evalAll_renamed cs s hn hs.2 hf.2]
end

end
end Sql
