import Mathlib.Order.Basic

/-!
# Rekuest.Interleave.Fencing

Fencing tokens. One holder at a time is told the current token; whoever takes over, or takes
the holding away, moves the token on, and a check with a token succeeds only while that token
is the current one. The tokens are of any preorder.

* `Step`, `Run`: what the token does in one move, and along a run of moves.
* `Run.granted_pairwise`: the tokens handed out along a run grow, so no two are equal.
* `Run.fenced`: a token once passed never checks again.
-/

namespace Interleave
namespace Fencing

variable {τ : Type}

inductive Move (τ : Type) where
  /-- The token moves to `e`, and a new holder is told. -/
  | grant (e : τ)
  /-- The token moves to `e`, and nobody is told. -/
  | revoke (e : τ)
  /-- Somebody checks `e`. -/
  | check (e : τ) (ok : Bool)
  | idle

inductive Step [LT τ] : τ → Move τ → τ → Prop where
  | grant {c e : τ} (h : c < e) : Step c (.grant e) e
  | revoke {c e : τ} (h : c < e) : Step c (.revoke e) e
  | check {c e : τ} {ok : Bool} (h : ok = true ↔ e = c) : Step c (.check e ok) c
  | idle {c : τ} : Step c .idle c

inductive Run [LT τ] : τ → List (Move τ) → τ → Prop where
  | nil {c : τ} : Run c [] c
  | cons {c d e : τ} {m : Move τ} {ms : List (Move τ)} (h : Step c m d) (hs : Run d ms e) :
      Run c (m :: ms) e

def Move.Bumps : Move τ → Prop
  | .grant _ => True
  | .revoke _ => True
  | _ => False

/-- The tokens handed out to holders, in order. -/
def granted : List (Move τ) → List τ
  | [] => []
  | .grant e :: ms => e :: granted ms
  | _ :: ms => granted ms

variable [Preorder τ] {c d e : τ} {m : Move τ} {ms ns : List (Move τ)}

theorem Step.le (h : Step c m d) : c ≤ d := by
  cases h with
  | grant h => exact h.le
  | revoke h => exact h.le
  | check _ => exact le_rfl
  | idle => exact le_rfl

theorem Step.lt_of_bumps (h : Step c m d) (hm : m.Bumps) : c < d := by
  cases h with
  | grant h => exact h
  | revoke h => exact h
  | check _ => exact hm.elim
  | idle => exact hm.elim

theorem Run.le (h : Run c ms d) : c ≤ d := by
  induction h with
  | nil => exact le_rfl
  | cons h _ ih => exact h.le.trans ih

theorem run_append : Run c (ms ++ ns) e ↔ ∃ d, Run c ms d ∧ Run d ns e := by
  constructor
  · intro h
    induction ms generalizing c with
    | nil => exact ⟨c, .nil, h⟩
    | cons m ms ih =>
      cases h with
      | cons h hs =>
        obtain ⟨d, hd, he⟩ := ih hs
        exact ⟨d, .cons h hd, he⟩
  · rintro ⟨d, hd, he⟩
    induction hd with
    | nil => exact he
    | cons h _ ih => exact .cons h (ih he)

/-- Every token handed out lies above the one the run starts with. -/
theorem Run.lt_granted (h : Run c ms d) : ∀ e ∈ granted ms, c < e := by
  induction h with
  | nil => intro e he; cases he
  | cons h hs ih =>
    intro e he
    cases h with
    | grant h =>
      rcases List.mem_cons.mp he with rfl | he
      · exact h
      · exact h.trans (ih e he)
    | revoke h => exact h.trans (ih e he)
    | check _ => exact ih e he
    | idle => exact ih e he

theorem Run.granted_pairwise (h : Run c ms d) : (granted ms).Pairwise (· < ·) := by
  induction h with
  | nil => exact .nil
  | cons h hs ih =>
    cases h with
    | grant _ => exact .cons hs.lt_granted ih
    | revoke _ => exact ih
    | check _ => exact ih
    | idle => exact ih

/-- A token below the current one fails every check from now on. -/
theorem Run.check_stale (h : Run c ms d) (he : e < c) {ok : Bool} (hm : .check e ok ∈ ms) :
    ok = false := by
  induction h with
  | nil => cases hm
  | cons hstep hs ih =>
    rcases List.mem_cons.mp hm with rfl | hm
    · cases hstep with
      | check hok =>
        by_contra hne
        exact he.ne (hok.mp (by simpa using hne))
    · exact ih (he.trans_le hstep.le) hm

theorem Run.lt_of_bumps (h : Run c ms d) (hm : ∃ m ∈ ms, m.Bumps) : c < d := by
  induction h with
  | nil => obtain ⟨m, hm, _⟩ := hm; cases hm
  | cons hstep hs ih =>
    obtain ⟨m, hmem, hbump⟩ := hm
    rcases List.mem_cons.mp hmem with rfl | hmem
    · exact (hstep.lt_of_bumps hbump).trans_le hs.le
    · exact hstep.le.trans_lt (ih ⟨m, hmem, hbump⟩)

/-- **Fencing.** Once the token moved on after it was handed out, no check with it succeeds. -/
theorem Run.fenced {pre mid post : List (Move τ)} {ok : Bool}
    (h : Run c (pre ++ .grant e :: (mid ++ .check e ok :: post)) d)
    (hbump : ∃ m ∈ mid, m.Bumps) : ok = false := by
  obtain ⟨_, _, h⟩ := run_append.mp h
  cases h with
  | cons hgrant h =>
    cases hgrant with
    | grant _ =>
      obtain ⟨f, hmid, hrest⟩ := run_append.mp h
      exact hrest.check_stale (hmid.lt_of_bumps hbump) (List.mem_cons_self ..)

end Fencing
end Interleave
