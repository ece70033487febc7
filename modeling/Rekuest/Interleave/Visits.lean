import Rekuest.Interleave.Wp

/-!
# Rekuest.Interleave.Visits

Runs that come past a certain statement, and where they end.

* `Visits X hit p i s`: the run of `p` issues a statement that meets `hit`.
* `Leads X hit I R p`: from `I` every run of `p` ends in `I`, a run that starts in `R` stays in it,
  and a run that visits `hit` ends in `R`. Sequencing keeps this.
-/

namespace Interleave
namespace Prog

variable {L : Lang} {ε α β ι σ : Type} {X : Exec L ι σ} {hit : ι → L.Stmt → σ → Prop}
  {I R : σ → Prop} {P : L.Stmt → Prop}

/-- Some statement that the run issues meets `hit` in the state it is issued in. -/
def Visits (X : Exec L ι σ) (hit : ι → L.Stmt → σ → Prop) : Prog L ε α → (Nat → ι) → σ → Prop
  | .ret _, _, _ => False
  | .fail _, _, _ => False
  | .stmt c k, i, s =>
    hit (i 0) c s ∨ Visits X hit (k (X (i 0) c s).1) (fun n => i (n + 1)) (X (i 0) c s).2

instance [∀ i c s, Decidable (hit i c s)] : (p : Prog L ε α) → (i : Nat → ι) → (s : σ) →
    Decidable (Visits X hit p i s)
  | .ret _, _, _ => .isFalse id
  | .fail _, _, _ => .isFalse id
  | .stmt c k, i, s =>
    have := instDecidableVisits (k (X (i 0) c s).1) (fun n => i (n + 1)) (X (i 0) c s).2
    inferInstanceAs (Decidable (hit (i 0) c s ∨
      Visits X hit (k (X (i 0) c s).1) (fun n => i (n + 1)) (X (i 0) c s).2))

theorem visits_bind {p : Prog L ε α} {f : α → Prog L ε β} {i : Nat → ι} {s : σ}
    (h : Visits X hit (p.bind f) i s) : Visits X hit p i s ∨
      ∃ a i' s', run X p i s = ⟨.ok a, i', s'⟩ ∧ Visits X hit (f a) i' s' := by
  induction p generalizing i s with
  | ret a => exact .inr ⟨a, i, s, rfl, h⟩
  | fail e => exact h.elim
  | stmt c k ih =>
    rcases h with h | h
    · exact .inl (.inl h)
    · rcases ih _ h with h | h
      · exact .inl (.inr h)
      · exact .inr h

/-- A program visits only statements that it can issue. -/
theorem Issues.not_visits (h : ∀ i c s, P c → ¬ hit i c s) {p : Prog L ε α} (hp : p.Issues P)
    {i : Nat → ι} {s : σ} : ¬ Visits X hit p i s := by
  induction p generalizing i s with
  | ret a => exact id
  | fail e => exact id
  | stmt c k ih =>
    rintro (hc | hk)
    · exact h _ _ _ hp.1 hc
    · exact ih _ (hp.2 _) hk

/-- Where the runs of a program lead that start in `I`. -/
structure Leads (X : Exec L ι σ) (hit : ι → L.Stmt → σ → Prop) (I R : σ → Prop)
    (p : Prog L ε α) : Prop where
  keeps : ∀ i s, I s → I (run X p i s).state
  stays : ∀ i s, I s → R s → R (run X p i s).state
  leads : ∀ i s, I s → Visits X hit p i s → R (run X p i s).state

namespace Leads

theorem of_keeps {p : Prog L ε α} (hI : Keeps X anyStep I p)
    (hR : Keeps X anyStep (fun s => I s ∧ R s) p) (hv : ∀ i s, ¬ Visits X hit p i s) :
    Leads X hit I R p where
  keeps _ _ hs := hI.run hs meets_any
  stays _ _ hs hr := (hR.run ⟨hs, hr⟩ meets_any).2
  leads i s _ h := absurd h (hv i s)

/-- A statement that may itself be visited: what comes after the visit ends in `R`. -/
theorem stmt {c : L.Stmt} {k : L.Ans c → Prog L ε α} (hI : ∀ i s, I s → I (X i c s).2)
    (hR : ∀ i s, I s → R s → R (X i c s).2) (hk : ∀ a, Leads X hit I R (k a))
    (hhit : ∀ i s, I s → hit i c s →
      wp X anyStep (k (X i c s).1) (fun _ s => R s) (X i c s).2) : Leads X hit I R (.stmt c k) where
  keeps i s hs := (hk _).keeps _ _ (hI (i 0) s hs)
  stays i s hs hr := (hk _).stays _ _ (hI (i 0) s hs) (hR (i 0) s hs hr)
  leads i s hs h := h.elim (fun h => wp_run (hhit (i 0) s hs h) meets_any)
    ((hk _).leads _ _ (hI (i 0) s hs))

theorem bind {p : Prog L ε α} {f : α → Prog L ε β} (hp : Leads X hit I R p)
    (hf : ∀ a, Leads X hit I R (f a)) : Leads X hit I R (p.bind f) := by
  have hcases : ∀ {i : Nat → ι} {s : σ} {Q : σ → Prop}, Q (run X p i s).state →
      (∀ a i' s', run X p i s = ⟨.ok a, i', s'⟩ → Q s' → Q (run X (f a) i' s').state) →
      Q (run X (p.bind f) i s).state := by
    intro i s Q hQ hnext
    rw [run_bind]
    generalize run X p i s = o at hQ hnext ⊢
    obtain ⟨r, i', s'⟩ := o
    cases r with
    | error e => exact hQ
    | ok a => exact hnext a i' s' rfl hQ
  have hboth : ∀ {i : Nat → ι} {s : σ}, I s → R (run X p i s).state →
      R (run X (p.bind f) i s).state := by
    intro i s hs hR
    refine (hcases (Q := fun s => I s ∧ R s) ⟨hp.keeps i s hs, hR⟩ ?_).2
    rintro a i' s' _ ⟨hI, hR⟩
    exact ⟨(hf a).keeps i' s' hI, (hf a).stays i' s' hI hR⟩
  refine ⟨fun i s hs => ?_, fun i s hs hr => hboth hs (hp.stays i s hs hr), fun i s hs h => ?_⟩
  · exact hcases (hp.keeps i s hs) fun a i' s' _ hI => (hf a).keeps i' s' hI
  · rcases visits_bind h with h | ⟨a, i', s', hrun, hv⟩
    · exact hboth hs (hp.leads i s hs h)
    · have hI : I s' := by
        have := hp.keeps i s hs
        rwa [hrun] at this
      rw [run_bind_ok X i s hrun]
      exact (hf a).leads i' s' hI hv

theorem compositional : Compositional (L := L) (ε := ε) fun _ p => Leads X hit I R p where
  ret _ := ⟨fun _ _ hs => hs, fun _ _ _ hr => hr, fun _ _ _ h => h.elim⟩
  fail _ := ⟨fun _ _ hs => hs, fun _ _ _ hr => hr, fun _ _ _ h => h.elim⟩
  bind := bind

end Leads
end Prog
end Interleave
