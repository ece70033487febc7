import Rekuest.Projection.Coverage
import Rekuest.Registry.Qualifiers
import Rekuest.Registry.Wiring
import Rekuest.Tasks.Assign

/-!
# Rekuest.Registry.Pairing

What `set_higher_order` checks of a wrapper and of what it wraps, in every database that links
and registrations lead to.

* `WellPaired`: every link is as it would be accepted now.
* `Balanced`: the same for the links of a database, while the wrapped implementations are known.
* `Respects`: what a registration has to do with the pairings as they are, so that they stay.
* `paired_along`: the pairings stay, and no child of a wrapper runs on a wrapper.
-/

namespace Rekuest
namespace Registration

open Fallible
open HigherOrder (Covers)
open Interleave

/-- The link of `h` to `l`, as `set_higher_order` would accept it. -/
structure Paired (db : Database) (h : ImplementationId) (higher : Implementation)
    (l : ImplementationId) : Prop where
  apart : h ≠ l
  lower : ∃ lower a b, db.implementations.get l = some lower ∧ lower.higherOrderFor = none ∧
    lower.agent = higher.agent ∧ db.actions.get higher.action = some a ∧
    db.actions.get lower.action = some b ∧ a.kind = b.kind
  covers : Covers higher.higherOrderConfig (dependencyKeys db l) (dependencyKeys db h)

def WellPaired (db : Database) : Prop :=
  ∀ h higher l, db.implementations.get h = some higher → higher.higherOrderFor = some l →
    Paired db h higher l

/-- Something wraps the implementation. -/
def Wrapped (db : Database) (l : ImplementationId) : Prop :=
  ∃ h higher, db.implementations.get h = some higher ∧ higher.higherOrderFor = some l

/-- The links lead from implementations that are not in `W` to such as are, and are accepted. The
kinds are compared where there are actions. -/
structure Balanced (W : Set ImplementationId) (db : Database) : Prop where
  apart : ∀ h higher l, db.implementations.get h = some higher → higher.higherOrderFor = some l →
    h ∉ W ∧ l ∈ W
  lower : ∀ h higher l, db.implementations.get h = some higher → higher.higherOrderFor = some l →
    ∃ lower, db.implementations.get l = some lower ∧ lower.agent = higher.agent ∧
      ∀ a b, db.actions.get higher.action = some a → db.actions.get lower.action = some b →
        a.kind = b.kind
  covers : ∀ h higher l, db.implementations.get h = some higher → higher.higherOrderFor = some l →
    Covers higher.higherOrderConfig (dependencyKeys db l) (dependencyKeys db h)

variable {H : Hashing} {db db' db₁ : Database} {agentId : AgentId} {agent : Agent}
  {input : ImplementationInput} {found : Option (Instance Action)}
  {current : Option ImplementationRef} {k : ActionId} {r : Registered} {W : Set ImplementationId}

theorem balanced_of_wellPaired (h : WellPaired db) : Balanced {l | Wrapped db l} db where
  apart h' higher l hget hlink := by
    refine ⟨fun hwrapped => ?_, ⟨h', higher, hget, hlink⟩⟩
    obtain ⟨j, other, hj, hother⟩ := hwrapped
    obtain ⟨lower, _, _, hlower, hnone, _⟩ := (h j other h' hj hother).lower
    rw [hget] at hlower
    rw [Option.some.inj hlower, hnone] at hlink
    cases hlink
  lower h' higher l hget hlink := by
    obtain ⟨lower, a, b, hlower, _, hagent, ha, hb, hkind⟩ := (h h' higher l hget hlink).lower
    refine ⟨lower, hlower, hagent, fun a' b' ha' hb' => ?_⟩
    rw [ha] at ha'
    rw [hb] at hb'
    rw [← Option.some.inj ha', ← Option.some.inj hb', hkind]
  covers h' higher l hget hlink := (h h' higher l hget hlink).covers

theorem Balanced.wellPaired (h : Balanced W db) (hlinked : Linked db) : WellPaired db := by
  intro h' higher l hget hlink
  obtain ⟨hout, hin⟩ := h.apart h' higher l hget hlink
  obtain ⟨lower, hlower, hagent, hkinds⟩ := h.lower h' higher l hget hlink
  obtain ⟨a, ha⟩ := Option.isSome_iff_exists.mp (hlinked h' higher hget)
  obtain ⟨b, hb⟩ := Option.isSome_iff_exists.mp (hlinked l lower hlower)
  refine ⟨fun hsame => hout (hsame ▸ hin), ⟨lower, a, b, hlower, ?_, hagent, ha, hb,
    hkinds a b ha hb⟩, h.covers h' higher l hget hlink⟩
  cases hl : lower.higherOrderFor with
  | none => rfl
  | some other => exact absurd hin (h.apart l lower other hlower hl).1

/-! ## One registration -/

/-- The kind of the action of a definition, once it is registered: a row with the hash of the
definition stays as it is. -/
def declaredKind (H : Hashing) (definition : Definition) : Option (Instance Action) → ActionKind
  | some action =>
    if action.row.hash = H.definition definition.toIdentity then action.row.kind
    else definition.kind
  | none => definition.kind

/-- The keys under which an input declares its dependencies. -/
def declaredKeys (input : ImplementationInput) : List String :=
  input.dependencies.map AgentDependency.key

/-- What a registration has to do with the pairings as they are, for them to stay: `k` is the key
of the action, and `i` that of the implementation. -/
structure Respects (H : Hashing) (db : Database) (input : ImplementationInput)
    (found : Option (Instance Action)) (current : Option ImplementationRef) (k : ActionId)
    (i : ImplementationId) : Prop where
  /-- An action of another pairing gets the kind of the other side. -/
  redefined : ∀ h higher l lower, db.implementations.get h = some higher →
    higher.higherOrderFor = some l → db.implementations.get l = some lower → h ≠ i → l ≠ i →
    (higher.action = k → lower.action ≠ k → ∀ b, db.actions.get lower.action = some b →
      b.kind = declaredKind H input.definition found) ∧
    (lower.action = k → higher.action ≠ k → ∀ a, db.actions.get higher.action = some a →
      a.kind = declaredKind H input.definition found)
  /-- What is wrapped gets an action of the wrapper's kind, and declares no dependency that the
  wrapper does not cover. A deletion takes its links away. -/
  wrapped : ∀ h higher, db.implementations.get h = some higher → higher.higherOrderFor = some i →
    ¬Abandons db current k →
    (higher.action ≠ k → ∀ a, db.actions.get higher.action = some a →
      a.kind = declaredKind H input.definition found) ∧
    Covers higher.higherOrderConfig (declaredKeys input) (dependencyKeys db h)
  /-- A wrapper gets an action of the kind of what it wraps. -/
  wrapper : ∀ ref l lower, current = some ref → ref.2.higherOrderFor = some l →
    db.implementations.get l = some lower → lower.action ≠ k →
    ∀ b, db.actions.get lower.action = some b → b.kind = declaredKind H input.definition found
  /-- Where the action that a wrapper leaves is deleted, and its dependencies with it, it declares
  anew what the config needs. -/
  lost : ∀ ref l, current = some ref → ref.2.higherOrderFor = some l → Abandons db current k →
    Covers ref.2.higherOrderConfig (dependencyKeys db l) (declaredKeys input)
  /-- Where the object of a wrapper has a link that its row lost, what it declares covers again. -/
  restored : ∀ ref l own, current = some ref → ref.2.higherOrderFor = some l →
    db.implementations.get ref.1 = some own → own.higherOrderFor ≠ some l →
    ¬Abandons db current k →
    Covers ref.2.higherOrderConfig (dependencyKeys db l) (dependencyKeys db i ++ declaredKeys input)

/-- The key of the action that a registration writes. -/
def foundKey (db : Database) (found : Option (Instance Action)) : ActionId :=
  (found.bind Instance.pk).getD db.actions.next

/-- The key of the implementation that a registration writes. -/
def currentKey (db : Database) (current : Option ImplementationRef) : ImplementationId :=
  (current.map (·.1)).getD db.implementations.next

theorem Turned.key (h : Turned H db agentId agent input found current r k db₁) :
    k = foundKey db found := by
  unfold foundKey
  cases hf : found with
  | none => exact h.new fun a ha => (by rw [hf] at ha; cases ha)
  | some a =>
    cases hpk : a.pk with
    | none =>
      rw [Option.bind_some, hpk]
      refine h.new fun a' ha' => ?_
      rw [hf] at ha'
      rw [← Option.some.inj ha', hpk]
    | some j =>
      rw [Option.bind_some, hpk]
      exact h.same a j hf hpk

/-- The row of the action has the declared kind. -/
theorem Turned.kind (h : Turned H db agentId agent input found current r k db₁) {row : Action}
    (hget : r.db.actions.get k = some row) : row.kind = declaredKind H input.definition found := by
  obtain ⟨hrow, _, hacted⟩ := h.own_row hget
  rw [hrow]
  rcases hacted with hwritten | ⟨before, hkept⟩
  · have hobject := hwritten.object
    have hkind : r.action.row.kind = (upserted H agent input.definition found).kind := by
      have hrow := congrArg (fun a : Instance Action => a.row.kind) hobject
      exact hrow
    rw [hkind]
    cases hf : found with
    | none => rfl
    | some action =>
      simp only [upserted, declaredKind]
      split <;> rfl
  · have hobject := congrArg (fun a : Instance Action => a.row.kind) hkept.object
    have hkind : r.action.row.kind = before.kind := hobject
    rw [hkind, hkept.found]
    simp [declaredKind, hkept.hash]

/-- The kinds of two actions after a registration, by what they were and what was declared. -/
theorem Turned.kinds (h : Turned H db agentId agent input found current r k db₁)
    {x y : ActionId} {a b : Action} (ha : r.db.actions.get x = some a)
    (hb : r.db.actions.get y = some b)
    (hboth : x ≠ k → y ≠ k → db.actions.get x = some a → db.actions.get y = some b →
      a.kind = b.kind)
    (hleft : x = k → y ≠ k → ∀ b, db.actions.get y = some b →
      b.kind = declaredKind H input.definition found)
    (hright : y = k → x ≠ k → ∀ a, db.actions.get x = some a →
      a.kind = declaredKind H input.definition found) : a.kind = b.kind := by
  by_cases hx : x = k
  · by_cases hy : y = k
    · rw [hx] at ha
      rw [hy, ha] at hb
      rw [Option.some.inj hb]
    · rw [hleft hx hy b (h.other_row hy hb).1]
      rw [hx] at ha
      exact h.kind ha
  · by_cases hy : y = k
    · rw [hright hy hx a (h.other_row hx ha).1]
      rw [hy] at hb
      exact (h.kind hb).symm
    · exact hboth hx hy (h.other_row hx ha).1 (h.other_row hy hb).1

/-- The link that the object of a registration carries is one between the same sides. -/
def Carries (W : Set ImplementationId) (db : Database) (agentId : AgentId)
    (ref : ImplementationRef) : Prop :=
  ∀ l, ref.2.higherOrderFor = some l → ref.1 ∉ W ∧ l ∈ W ∧
    ∃ lower, db.implementations.get l = some lower ∧ lower.agent = agentId

section

variable (hr : register H db agentId agent input found current = .ok r)
  (hlook : Looked db agentId agent input found current)
  (h : Turned H db agentId agent input found current r k db₁)
  {j l : ImplementationId} {row : Implementation}
  (hrow : r.db.implementations.get j = some row) (hlink : row.higherOrderFor = some l)

include hr hlook h

theorem rewired_of_turned : Rewired db input current r k := by
  obtain ⟨k', hk', hrewired⟩ := rewired_of_register hr hlook
  have hkk : k' = k := Option.some.inj (hk'.symm.trans h.pk)
  rw [hkk] at hrewired
  exact hrewired

include hrow hlink

/-- A link after a registration: that of the registered object, or one of another row that was
there before. -/
theorem link_cases :
    (j = r.implementation.1 ∧ row = r.implementation.2 ∧ ∃ ref, current = some ref ∧
      ref.2.higherOrderFor = some l ∧ r.implementation.1 = ref.1 ∧
      row.higherOrderConfig = ref.2.higherOrderConfig) ∨
    (j ≠ r.implementation.1 ∧ ∃ before, db.implementations.get j = some before ∧
      Alike before row ∧ before.higherOrderFor = some l ∧
      (Abandons db current k → l ≠ r.implementation.1)) := by
  have hrewired := rewired_of_turned hr hlook h
  by_cases hj : j = r.implementation.1
  · rw [hj, h.installed] at hrow
    have hsame := (Option.some.inj hrow).symm
    rw [hsame] at hlink ⊢
    obtain ⟨ref, href, hl, hconfig⟩ := hrewired.own l hlink
    exact .inl ⟨hj, rfl, ref, href, hl, by rw [h.id, href]; rfl, hconfig⟩
  · obtain ⟨before, hbefore, halike, hlinks⟩ := hrewired.links j row hj hrow
    obtain ⟨hbl, hkept⟩ := hlinks l hlink
    exact .inr ⟨hj, before, hbefore, halike, hbl, hkept⟩

variable (hcarries : ∀ ref, current = some ref → Carries W db agentId ref) (hdb : Balanced W db)

include hcarries hdb

theorem apart_of_turned : j ∉ W ∧ l ∈ W := by
  rcases link_cases hr hlook h hrow hlink with
    ⟨hj, _, ref, href, hl, hid, _⟩ | ⟨_, before, hbefore, _, hbl, _⟩
  · obtain ⟨hout, hin, _⟩ := hcarries ref href l hl
    rw [hj, hid]
    exact ⟨hout, hin⟩
  · exact hdb.apart j before l hbefore hbl

variable (hrespects : Respects H db input found current k r.implementation.1)

include hrespects

theorem lower_of_turned : ∃ lower, r.db.implementations.get l = some lower ∧
    lower.agent = row.agent ∧ ∀ a b, r.db.actions.get row.action = some a →
      r.db.actions.get lower.action = some b → a.kind = b.kind := by
  rcases link_cases hr hlook h hrow hlink with
    ⟨_, hown, ref, href, hl, hid, _⟩ | ⟨hj, before, hbefore, halike, hbl, hkept⟩
  · obtain ⟨hout, hin, lower, hlower, hagent⟩ := hcarries ref href l hl
    have hne : l ≠ r.implementation.1 := fun hsame => hout (hid ▸ hsame ▸ hin)
    obtain ⟨after, hafter, halike⟩ := h.stay l lower hne hlower
    refine ⟨after, hafter, by rw [halike.agent, hagent, hown, h.row.2.1], fun a b ha hb => ?_⟩
    rw [hown, h.row.2.2.1] at ha
    rw [halike.action] at hb
    exact h.kinds ha hb (fun hx => absurd rfl hx)
      (fun _ hy => hrespects.wrapper ref l lower href hl hlower hy) (fun _ hx => absurd rfl hx)
  · obtain ⟨lower, hlower, hagent, hkinds⟩ := hdb.lower j before l hbefore hbl
    by_cases hl : l = r.implementation.1
    · -- what is wrapped is what is registered
      refine ⟨r.implementation.2, hl ▸ h.installed, ?_, fun a b ha hb => ?_⟩
      · rw [h.row.2.1, halike.agent, ← hagent]
        rw [hl, h.id] at hlower
        cases hc : current with
        | none =>
          rw [hc, Option.map_none, Option.getD_none, Table.get_next] at hlower
          cases hlower
        | some ref =>
          obtain ⟨hrefagent, _, own, hown, hlike⟩ := hlook.current ref hc
          rw [hc, Option.map_some, Option.getD_some, hown] at hlower
          rw [← Option.some.inj hlower, hlike.agent]
          exact hrefagent.symm
      · rw [halike.action] at ha
        rw [h.row.2.2.1] at hb
        rw [hl] at hbl
        have hab : ¬Abandons db current k := fun hab => hkept hab hl
        exact h.kinds ha hb (fun _ hy => absurd rfl hy) (fun _ hy => absurd rfl hy)
          (fun _ hx => (hrespects.wrapped j before hbefore hbl hab).1 hx)
    · obtain ⟨after, hafter, hafterlike⟩ := h.stay l lower hl hlower
      refine ⟨after, hafter, by rw [hafterlike.agent, hagent, halike.agent], fun a b ha hb => ?_⟩
      rw [halike.action] at ha
      rw [hafterlike.action] at hb
      obtain ⟨hhigher, hlower'⟩ := hrespects.redefined j before l lower hbefore hbl hlower hj hl
      exact h.kinds ha hb (fun _ _ => hkinds a b) hhigher hlower'

theorem covers_of_turned :
    Covers row.higherOrderConfig (dependencyKeys r.db l) (dependencyKeys r.db j) := by
  have hrewired := rewired_of_turned hr hlook h
  rcases link_cases hr hlook h hrow hlink with
    ⟨hj, _, ref, href, hl, hid, hconfig⟩ | ⟨hj, before, hbefore, halike, hbl, hkept⟩
  · obtain ⟨hout, hin, _⟩ := hcarries ref href l hl
    have hne : l ≠ r.implementation.1 := fun hsame => hout (hid ▸ hsame ▸ hin)
    have hlower : ∀ s ∈ dependencyKeys r.db l, s ∈ dependencyKeys db l :=
      fun s hs => (hrewired.keys l hne s).mp hs
    have hdeclared : ∀ s ∈ declaredKeys input, s ∈ dependencyKeys r.db r.implementation.1 := by
      intro s hs
      obtain ⟨d, hd, hkey⟩ := List.mem_map.mp hs
      exact (hrewired.ownKeys s).mpr (.inr ⟨d, hd, hkey⟩)
    rw [hj, hconfig]
    by_cases hab : Abandons db current k
    · exact (hrespects.lost ref l href hl hab).mono hlower hdeclared
    · have hkeep : ∀ s ∈ dependencyKeys db r.implementation.1,
          s ∈ dependencyKeys r.db r.implementation.1 :=
        fun s hs => (hrewired.ownKeys s).mpr (.inl ⟨hab, hs⟩)
      obtain ⟨_, _, own, hown, hlike⟩ := hlook.current ref href
      by_cases hstill : own.higherOrderFor = some l
      · have hcovers := hdb.covers ref.1 own l hown hstill
        rw [hlike.higherOrderConfig, ← hid] at hcovers
        exact hcovers.mono hlower hkeep
      · refine (hrespects.restored ref l own href hl hown hstill hab).mono hlower fun s hs => ?_
        rcases List.mem_append.mp hs with hs | hs
        · exact hkeep s hs
        · exact hdeclared s hs
  · have hcovers := hdb.covers j before l hbefore hbl
    rw [halike.higherOrderConfig]
    by_cases hl : l = r.implementation.1
    · have hab : ¬Abandons db current k := fun hab => hkept hab hl
      rw [hl] at hcovers hbl ⊢
      refine hcovers.of_subset (hrespects.wrapped j before hbefore hbl hab).2 (fun s hs => ?_)
        fun s hs => (hrewired.keys j hj s).mpr hs
      rcases (hrewired.ownKeys s).mp hs with ⟨_, hs⟩ | ⟨d, hd, hkey⟩
      · exact .inl hs
      · exact .inr (List.mem_map.mpr ⟨d, hd, hkey⟩)
    · exact hcovers.mono (fun s hs => (hrewired.keys l hl s).mp hs)
        fun s hs => (hrewired.keys j hj s).mpr hs

end

theorem balanced_of_turned (hr : register H db agentId agent input found current = .ok r)
    (hlook : Looked db agentId agent input found current)
    (h : Turned H db agentId agent input found current r k db₁)
    (hcarries : ∀ ref, current = some ref → Carries W db agentId ref)
    (hrespects : Respects H db input found current (foundKey db found) (currentKey db current))
    (hdb : Balanced W db) : Balanced W r.db := by
  rw [← h.key, currentKey, ← h.id] at hrespects
  exact {
    apart := fun _ _ _ hrow hlink => apart_of_turned hr hlook h hrow hlink hcarries hdb
    lower := fun _ _ _ hrow hlink => lower_of_turned hr hlook h hrow hlink hcarries hdb hrespects
    covers := fun _ _ _ hrow hlink =>
      covers_of_turned hr hlook h hrow hlink hcarries hdb hrespects }

theorem carries_of_turned (h : Turned H db agentId agent input found current r k db₁) {ref : ImplementationRef}
    (hcarries : Carries W db agentId ref) : Carries W r.db agentId ref := by
  intro l hl
  obtain ⟨hout, hin, lower, hlower, hagent⟩ := hcarries l hl
  refine ⟨hout, hin, ?_⟩
  by_cases hid : l = r.implementation.1
  · exact ⟨_, hid ▸ h.installed, h.row.2.1⟩
  · obtain ⟨after, hafter, halike⟩ := h.stay l lower hid hlower
    exact ⟨after, hafter, halike.agent.trans hagent⟩

/-- The object that a registration leaves carries the link of the object that it was given. -/
theorem carries_of_current (hr : register H db agentId agent input found current = .ok r)
    (hlook : Looked db agentId agent input found current)
    (h : Turned H db agentId agent input found current r k db₁)
    (hcarries : ∀ ref, current = some ref → Carries W db agentId ref) :
    Carries W r.db agentId r.implementation := by
  obtain ⟨_, _, hrewired⟩ := rewired_of_register hr hlook
  intro l hl
  obtain ⟨ref, href, hlink, _⟩ := hrewired.own l hl
  have hid : r.implementation.1 = ref.1 := by rw [h.id, href]; rfl
  obtain ⟨hout, hin, hlower⟩ := carries_of_turned h (hcarries ref href) l hlink
  rw [hid]
  exact ⟨hout, hin, hlower⟩

/-! ## A batch -/

/-- The registrations of a batch have to respect the pairings as they are at their turn. -/
def BatchRespects (H : Hashing) (db : Database) (agentId : AgentId) (agent : Agent)
    (inputs : List ImplementationInput) : Prop :=
  ∀ before input after, inputs = before ++ input :: after → ∀ b : Batch,
    before.foldlM (registerMapped H agentId agent) ⟨db, prefetch db agentId agent inputs, []⟩ =
      .ok b →
    Respects H b.db input
      (b.maps.actions.lookup (input.definition.key, input.definition.version))
      ((Dict.get? b.maps.implementations input.interface).map MappedImplementation.ref)
      (foundKey b.db (b.maps.actions.lookup (input.definition.key, input.definition.version)))
      (currentKey b.db
        ((Dict.get? b.maps.implementations input.interface).map MappedImplementation.ref))

/-- The links of the rows and of the objects of a batch. -/
structure BatchBalanced (W : Set ImplementationId) (agentId : AgentId) (b : Batch) : Prop where
  rows : Balanced W b.db
  objects : ∀ interface m, Dict.get? b.maps.implementations interface = some m →
    Carries W b.db agentId m.ref

theorem batchBalanced_prefetch {inputs : List ImplementationInput} (hdb : Balanced W db) :
    BatchBalanced W agentId ⟨db, prefetch db agentId agent inputs, []⟩ where
  rows := hdb
  objects interface m hm := by
    obtain ⟨row, hrow, he⟩ := List.mem_map.mp (mem_of_lookup hm)
    obtain ⟨hget, hagent⟩ := Table.mem_select.mp hrow
    rw [Prod.mk.injEq] at he
    rw [← he.2]
    intro l hl
    obtain ⟨hout, hin⟩ := hdb.apart row.1 row.2 l hget hl
    obtain ⟨lower, hlower, hsame, _⟩ := hdb.lower row.1 row.2 l hget hl
    exact ⟨hout, hin, lower, hlower, hsame.trans (of_decide_eq_true hagent)⟩

theorem balanced_of_registerBatch {inputs : List ImplementationInput} {batch : Batch}
    (h : registerBatch H db agentId agent inputs = .ok batch)
    (hrespects : BatchRespects H db agentId agent inputs) (hdb : Balanced W db) :
    Balanced W batch.db := by
  have hkept : BatchBalanced W agentId batch := by
    refine registerBatch_rule (J := BatchBalanced W agentId)
      (fun before input after hinputs b c hbefore hc hmirrors hb => ?_)
      (batchBalanced_prefetch hdb) h
    obtain ⟨r, hr, hdb', _, himplementations, _⟩ := registerMapped_ok hc
    have hlook : Looked b.db agentId agent input _ _ := hmirrors.looked
    obtain ⟨k, db₁, hturned⟩ := turned_of_register hr hlook
    have hcarries : ∀ ref, (Dict.get? b.maps.implementations input.interface).map
        MappedImplementation.ref = some ref → Carries W b.db agentId ref := by
      intro ref href
      obtain ⟨m, hm, hmref⟩ := Option.map_eq_some_iff.mp href
      rw [← hmref]
      exact hb.objects _ m hm
    refine ⟨?_, fun interface m hm => ?_⟩
    · rw [hdb']
      exact balanced_of_turned hr hlook hturned hcarries
        (hrespects before input after hinputs b hbefore) hb.rows
    · rw [himplementations, Dict.get?_set] at hm
      rw [hdb']
      split at hm
      · cases hm
        exact carries_of_current hr hlook hturned hcarries
      · exact carries_of_turned hturned (hb.objects interface m hm)
  exact hkept.rows

/-! ## A call -/

theorem balanced_of_sameWiring (h : SameWiring db db') (hdb : Balanced W db) : Balanced W db' where
  apart := by
    rw [h.implementations]
    exact hdb.apart
  lower := by
    rw [h.implementations, h.actions]
    exact hdb.lower
  covers h' higher l hget hlink := by
    rw [h.implementations] at hget
    rw [dependencyKeys_congr h.dependencies, dependencyKeys_congr h.dependencies]
    exact hdb.covers h' higher l hget hlink

theorem balanced_of_unwired (h : Unwired db db') (hdb : Balanced W db) : Balanced W db' where
  apart j row l hrow hlink := by
    obtain ⟨before, hbefore, _, hlinks⟩ := h.links j row hrow
    exact hdb.apart j before l hbefore (hlinks l hlink).1
  lower j row l hrow hlink := by
    obtain ⟨before, hbefore, halike, hlinks⟩ := h.links j row hrow
    obtain ⟨hbl, hstay⟩ := hlinks l hlink
    obtain ⟨lower, hlower, hagent, hkinds⟩ := hdb.lower j before l hbefore hbl
    obtain ⟨after, hafter, hafterlike⟩ := hstay lower hlower
    refine ⟨after, hafter, ?_, ?_⟩
    · rw [hafterlike.agent, hagent, halike.agent]
    · rw [h.actions, halike.action, hafterlike.action]
      exact hkinds
  covers j row l hrow hlink := by
    obtain ⟨before, hbefore, halike, hlinks⟩ := h.links j row hrow
    obtain ⟨hbl, hstay⟩ := hlinks l hlink
    obtain ⟨lower, hlower, _⟩ := hdb.lower j before l hbefore hbl
    obtain ⟨after, hafter, _⟩ := hstay lower hlower
    rw [halike.higherOrderConfig]
    refine (hdb.covers j before l hbefore hbl).mono (fun s hs => ?_) fun s hs => ?_
    · exact (h.keys l (by rw [hafter]; rfl) s).mp hs
    · exact (h.keys j (by rw [hrow]; rfl) s).mpr hs

/-! ## Changes -/

/-- What a change has to respect. -/
def Change.Respects (H : Hashing) (db : Database) : Change → Prop
  | .setHigherOrder input =>
    ¬Wrapped db input.implementation ∧
      ∀ key ∈ dependencyKeys db input.lowerImplementation, ∀ spec,
        (key, spec) ∈ (input.config.getD {}).dependencyMap → HigherOrder.Sourced spec
  | .register (.createImplementation requester input) =>
    let begun := upsertAgent db requester requester.client.clientId none
    ∀ agent, begun.1.agents.get begun.2 = some agent →
      Registration.Respects H begun.1 input (findAction begun.1 agent input.definition)
        (findImplementation begun.1 begun.2 input.interface)
        (foundKey begun.1 (findAction begun.1 agent input.definition))
        (currentKey begun.1 (findImplementation begun.1 begun.2 input.interface))
  | .register (.implementAgent requester input uuid) =>
    ∀ begun, beginAgent db requester input uuid = .ok begun →
      BatchRespects H begun.1 begun.2.1 begun.2.2 input.implementations

theorem balanced_of_call {call : Call} (hrespects : (Change.register call).Respects H db)
    (hdb : Balanced W db) : Balanced W (call.run H db) := by
  cases call with
  | implementAgent requester input uuid =>
    rw [Call.run]
    split
    · rename_i r hr
      obtain ⟨begun, batch, db₁, db₂, hbegun, hstart, hbatch, hstates, hreaped, hbloks⟩ :=
        implementAgent_wiring hr
      have hend := balanced_of_registerBatch hbatch (hrespects begun hbegun)
        (balanced_of_sameWiring hstart hdb)
      exact balanced_of_sameWiring hbloks (balanced_of_unwired hreaped
        (balanced_of_sameWiring hstates hend))
    · exact hdb
  | createImplementation requester input =>
    rw [Call.run]
    split
    · rename_i r hr
      obtain ⟨agent, hagent, hcreate⟩ := bind_ok_iff.mp hr
      rw [orRaise_ok_iff] at hagent
      have hstart : Balanced W (upsertAgent db requester requester.client.clientId none).1 :=
        balanced_of_sameWiring upsertAgent_wiring hdb
      obtain ⟨k, db₁, hturned⟩ := turned_of_register hcreate looked_createImplementation
      refine balanced_of_turned hcreate looked_createImplementation hturned (fun ref href l hl => ?_)
        (hrespects agent hagent) hstart
      obtain ⟨hget, _, hrefagent⟩ := findImplementation_eq_some href
      obtain ⟨hout, hin⟩ := hstart.apart ref.1 ref.2 l hget hl
      obtain ⟨lower, hlower, hsame, _⟩ := hstart.lower ref.1 ref.2 l hget hl
      exact ⟨hout, hin, lower, hlower, hsame.trans hrefagent⟩
    · exact balanced_of_sameWiring upsertAgent_wiring hdb

/-! ## A link -/

/-- An accepted link, and the database with it. -/
structure Joined (db : Database) (input : SetHigherOrderInput) (higher lower : Implementation)
    (db' : Database) : Prop where
  apart : input.implementation ≠ input.lowerImplementation
  getHigher : db.implementations.get input.implementation = some higher
  getLower : db.implementations.get input.lowerImplementation = some lower
  plain : lower.higherOrderFor = none
  agent : lower.agent = higher.agent
  kinds : ∃ a b, db.actions.get higher.action = some a ∧ db.actions.get lower.action = some b ∧
    a.kind = b.kind
  accepted : HigherOrder.Accepted (input.config.getD {})
    (dependencyKeys db input.lowerImplementation) (dependencyKeys db input.implementation)
  stored : db'.implementations.get input.implementation = some { higher with
    higherOrderFor := some input.lowerImplementation
    higherOrderConfig := input.config.getD {} }
  others : ∀ j, j ≠ input.implementation →
    db'.implementations.get j = db.implementations.get j
  actions : db'.actions = db.actions
  dependencies : db'.dependencies = db.dependencies

theorem mapError_ok_iff {ε ε' α : Type} {f : ε → ε'} {x : Except ε α} {a : α} :
    x.mapError f = .ok a ↔ x = .ok a := by
  cases x <;> simp [Except.mapError]

theorem setHigherOrder_ok {link : SetHigherOrderInput} {q : Database × ImplementationRef}
    (h : setHigherOrder db link = .ok q) : ∃ higher lower, Joined db link higher lower q.1 := by
  obtain ⟨higher, hhigher, h⟩ := bind_ok_iff.mp h
  obtain ⟨lower, hlower, h⟩ := bind_ok_iff.mp h
  obtain ⟨_, hcheck, h⟩ := bind_ok_iff.mp h
  obtain ⟨stored, hstored, h⟩ := bind_ok_iff.mp h
  rw [orRaise_ok_iff] at hhigher hlower
  rw [← pure_ok_iff.mp h]
  obtain ⟨hkey, hrow, hothers, _, _, hframe⟩ := storeImplementation_ok hstored fun i hi => by
    cases hi
    exact Table.lt_next hhigher
  rw [Option.getD_some] at hkey
  rw [hkey] at hrow hothers
  unfold checkPairing at hcheck
  split at hcheck
  · cases hcheck
  rename_i hapart
  split at hcheck
  · cases hcheck
  rename_i hagent
  obtain ⟨a, ha, hcheck⟩ := bind_ok_iff.mp hcheck
  obtain ⟨b, hb, hcheck⟩ := bind_ok_iff.mp hcheck
  obtain ⟨_, hpairing, hcoverage⟩ := bind_ok_iff.mp hcheck
  rw [orRaise_ok_iff] at ha hb
  rw [mapError_ok_iff] at hpairing hcoverage
  unfold HigherOrder.validateHigherOrderPairing at hpairing
  split at hpairing
  · cases hpairing
  rename_i hplain
  split at hpairing
  · cases hpairing
  rename_i hkind
  exact ⟨higher, lower, {
    apart := hapart
    getHigher := hhigher
    getLower := hlower
    plain := Option.not_isSome_iff_eq_none.mp hplain
    agent := (not_not.mp hagent).symm
    kinds := ⟨a, b, ha, hb, not_not.mp hkind⟩
    accepted := HigherOrder.validateDependencyCoverage_ok_iff.mp hcoverage
    stored := hrow
    others := hothers
    actions := by rw [hframe]
    dependencies := by rw [hframe] }⟩

theorem linked_of_joined {link : SetHigherOrderInput} {higher lower : Implementation}
    (h : Joined db link higher lower db') (hdb : Linked db) : Linked db' := by
  intro i row hrow
  rw [h.actions]
  by_cases hi : i = link.implementation
  · rw [hi, h.stored] at hrow
    rw [← Option.some.inj hrow]
    exact hdb link.implementation higher h.getHigher
  · rw [h.others i hi] at hrow
    exact hdb i row hrow

theorem wellPaired_of_joined {link : SetHigherOrderInput} {higher lower : Implementation}
    (h : Joined db link higher lower db')
    (hrespects : (Change.setHigherOrder link).Respects H db) (hdb : WellPaired db) :
    WellPaired db' := by
  have hkeys : ∀ j, dependencyKeys db' j = dependencyKeys db j :=
    fun j => dependencyKeys_congr h.dependencies
  intro j row l hrow hlink
  by_cases hj : j = link.implementation
  · rw [hj, h.stored] at hrow
    rw [hj, ← Option.some.inj hrow]
    rw [← Option.some.inj hrow] at hlink
    cases hlink
    obtain ⟨a, b, ha, hb, hkind⟩ := h.kinds
    refine ⟨h.apart, ⟨lower, a, b, ?_, h.plain, h.agent, ?_, ?_, hkind⟩, ?_⟩
    · rw [h.others _ h.apart.symm]
      exact h.getLower
    · rw [h.actions]
      exact ha
    · rw [h.actions]
      exact hb
    · rw [hkeys, hkeys]
      exact ⟨h.accepted, hrespects.2⟩
  · rw [h.others j hj] at hrow
    have hpaired := hdb j row l hrow hlink
    obtain ⟨under, a, b, hunder, hplain, hagent, ha, hb, hkind⟩ := hpaired.lower
    have hl : l ≠ link.implementation := fun hl => hrespects.1 ⟨j, row, hrow, hl ▸ hlink⟩
    refine ⟨hpaired.apart, ⟨under, a, b, ?_, hplain, hagent, ?_, ?_, hkind⟩, ?_⟩
    · rw [h.others l hl]
      exact hunder
    · rw [h.actions]
      exact ha
    · rw [h.actions]
      exact hb
    · rw [hkeys, hkeys]
      exact hpaired.covers

/-! ## Runs -/

/-- What every change keeps that respects the pairings. -/
theorem wellPaired_of_run {change : Change} (hrespects : change.Respects H db)
    (hdb : WellPaired db ∧ Linked db) :
    WellPaired (change.run H db) ∧ Linked (change.run H db) := by
  cases change with
  | setHigherOrder link =>
    rw [Change.run]
    split
    · rename_i q hq
      obtain ⟨higher, lower, hjoined⟩ := setHigherOrder_ok hq
      exact ⟨wellPaired_of_joined hjoined hrespects hdb.1, linked_of_joined hjoined hdb.2⟩
    · exact hdb
  | register call =>
    have hlinked : Linked (call.run H db) := linked_of_run hdb.2
    exact ⟨(balanced_of_call hrespects (balanced_of_wellPaired hdb.1)).wellPaired hlinked, hlinked⟩

/-- What a program sends to an agent for execution names an implementation that wraps nothing. -/
def RunsPlain (db : Database) : Stmt → Prop
  | .deliver (.push _ (.assign m)) | .deliver (.post _ (.assign m)) =>
    ∀ row, db.implementations.get m.implementation = some row → row.higherOrderFor = none
  | _ => True

theorem resolves_plain : Backend.Resolves fun _ p =>
    Prog.Issues (L := Statements) (RunsPlain db) p where
  toCompositional := Prog.Issues.compositional
  look _ _ := .issue trivial

theorem storeTask_plain {row : Task} :
    Prog.Issues (L := Statements) (RunsPlain db) (Backend.storeTask row) := by
  unfold Backend.storeTask
  split
  · trivial
  · refine Prog.Issues.bind (.issue trivial) fun id => ?_
    cases id <;> trivial

theorem assignHigherOrder_plain {S : Settings} {ctx : CallerContext} {organization : Organization}
    {assigned : Backend.AssignInput} {h l : ImplementationId} {higher : Implementation}
    {caller : CallerId} (hdb : WellPaired db) (hget : db.implementations.get h = some higher)
    (hlink : higher.higherOrderFor = some l) :
    Prog.Issues (L := Statements) (RunsPlain db)
      (Backend.assignHigherOrder S ctx organization assigned h higher l caller) := by
  have hplain : ∀ row, db.implementations.get l = some row → row.higherOrderFor = none := by
    intro row hrow
    obtain ⟨lower, _, _, hlower, hnone, _⟩ := (hdb h higher l hget hlink).lower
    rw [hlower] at hrow
    rw [← Option.some.inj hrow]
    exact hnone
  have hQ := @resolves_plain db
  refine hQ.bind (.issue trivial) fun _ => hQ.bind hQ.found fun lower => hQ.bind hQ.found fun _ =>
    hQ.bind (.issue trivial) fun _ => hQ.bind hQ.found fun available => ?_
  split
  · trivial
  refine hQ.bind hQ.buildDependencyDict fun _ => hQ.bind hQ.liftProjection fun _ =>
    hQ.bind hQ.liftProjection fun _ => hQ.bind hQ.referenceFor fun _ =>
    hQ.bind storeTask_plain fun _ => hQ.bind (.issue trivial) fun _ =>
    hQ.bind storeTask_plain fun _ => hQ.bind (hQ.bind (.issue trivial) fun token => ?_) fun _ =>
    hQ.bind ?_ fun _ => hQ.ret _
  · cases token <;> trivial
  · exact broadcast_built hQ.toCompositional (.issue trivial) (.issue hplain) (.issue hplain)

/-- Along every run of links and registrations that respect the pairings as they are, every
pairing is as it would be accepted, and the child of a wrapper runs on what wraps nothing. -/
theorem paired_along {changes : List Change}
    (h : Along (Change.run H) (Change.Respects H) {} changes) {done : List Change}
    (hdone : done <+: changes) :
    WellPaired (done.foldl (Change.run H) {}) ∧
      ∀ (S : Settings) ctx organization assigned h higher l caller,
        (done.foldl (Change.run H) {}).implementations.get h = some higher →
        higher.higherOrderFor = some l →
        Prog.Issues (L := Statements) (RunsPlain (done.foldl (Change.run H) {}))
          (Backend.assignHigherOrder S ctx organization assigned h higher l caller) := by
  have hempty : WellPaired {} ∧ Linked {} :=
    ⟨fun _ _ _ hget => (by cases hget), fun _ _ hget => (by cases hget)⟩
  have hstep : ∀ (db : Database) (change : Change), WellPaired db ∧ Linked db →
      change.Respects H db → WellPaired (change.run H db) ∧ Linked (change.run H db) :=
    fun _ _ hdb hrespects => wellPaired_of_run hrespects hdb
  have hpaired := (h.of_prefix hdone).inv hstep hempty
  exact ⟨hpaired.1, fun _ _ _ _ _ _ _ _ hget hlink => assignHigherOrder_plain hpaired.1 hget hlink⟩

/-! ## Three implementations of one agent -/

def registered : List Change :=
  ["scan", "acquire", "overview"].map fun key =>
    .register (.createImplementation (bench 1) (declare key key))

/-- No implementation wraps another. -/
def Unlinked (db : Database) : Prop :=
  (db.implementations.select fun _ row => row.higherOrderFor.isSome) = []

theorem Unlinked.none (h : Unlinked db) {i : ImplementationId} {row : Implementation}
    (hget : db.implementations.get i = some row) : row.higherOrderFor = none := by
  by_contra hsome
  have hmem : (i, row) ∈ db.implementations.select fun _ row => row.higherOrderFor.isSome :=
    Table.mem_select.mpr ⟨hget, Option.ne_none_iff_isSome.mp hsome⟩
  rw [h] at hmem
  cases hmem

/-- Where nothing is linked, every registration of an implementation respects the pairings. -/
theorem respects_of_unlinked (h : Unlinked db) (requester : Requester) :
    (Change.register (.createImplementation requester input)).Respects H db := by
  have hsame : (upsertAgent db requester requester.client.clientId none).1.implementations =
      db.implementations := upsertAgent_wiring.implementations
  intro agent _
  generalize upsertAgent db requester requester.client.clientId none = begun at hsame ⊢
  have hrow : ∀ i row, begun.1.implementations.get i = some row → row.higherOrderFor = none := by
    intro i row hget
    rw [hsame] at hget
    exact h.none hget
  have hnone : ∀ {i : ImplementationId} {row : Implementation} {l : ImplementationId},
      begun.1.implementations.get i = some row → row.higherOrderFor ≠ some l := by
    intro i row l hget hl
    rw [hrow i row hget] at hl
    cases hl
  exact {
    redefined := fun _ _ _ _ hget hl => absurd hl (hnone hget)
    wrapped := fun _ _ hget hl => absurd hl (hnone hget)
    wrapper := fun _ _ _ href hl => absurd hl (hnone (findImplementation_eq_some href).1)
    lost := fun _ _ href hl => absurd hl (hnone (findImplementation_eq_some href).1)
    restored := fun _ _ _ href hl => absurd hl (hnone (findImplementation_eq_some href).1) }

theorem respects_link_of_unlinked (h : Unlinked db) {link : SetHigherOrderInput}
    (hkeys : dependencyKeys db link.lowerImplementation = []) :
    (Change.setHigherOrder link).Respects H db := by
  refine ⟨fun hwrapped => ?_, by simp [hkeys]⟩
  obtain ⟨_, _, hget, hl⟩ := hwrapped
  rw [h.none hget] at hl
  cases hl

/-- `overview`, which is 3, wraps `acquire`, which is 2. -/
def overviewLinked : Database :=
  (registered ++ [Change.setHigherOrder ⟨3, 2, none⟩]).foldl (Change.run naming) {}

/-- Of all implementations only `h` wraps one, `l`. -/
def LinkedOnce (db : Database) (h l : ImplementationId) : Prop :=
  ((db.implementations.select fun _ row => row.higherOrderFor.isSome).map fun x =>
    (x.1, x.2.higherOrderFor)) = [(h, some l)]

theorem LinkedOnce.eq {h l h' l' : ImplementationId} {row : Implementation} (hdb : LinkedOnce db h l)
    (hget : db.implementations.get h' = some row) (hlink : row.higherOrderFor = some l') :
    h' = h ∧ l' = l := by
  have hmem : (h', row) ∈ db.implementations.select fun _ row => row.higherOrderFor.isSome :=
    Table.mem_select.mpr ⟨hget, by rw [hlink]; rfl⟩
  have hpair : (h', row.higherOrderFor) ∈ [(h, some l)] := by
    rw [← hdb]
    exact List.mem_map.mpr ⟨_, hmem, rfl⟩
  rw [hlink, List.mem_singleton] at hpair
  cases hpair
  exact ⟨rfl, rfl⟩

/-- What is wrapped may be registered again as it is. -/
theorem respects_lower_again :
    (Change.register (.createImplementation (bench 1) (declare "acquire" "acquire"))).Respects naming
      overviewLinked := by
  intro agent hagent
  have hlinks : LinkedOnce (upsertAgent overviewLinked (bench 1) (bench 1).client.clientId none).1 3 2 := by
    rfl
  cases hagent
  refine ⟨fun h higher l lower hget hl _ _ hne => ?_, fun h higher hget hl _ => ?_,
    fun ref l lower href hl => ?_, fun ref l href hl => ?_, fun ref l own href hl => ?_⟩
  · exact absurd (hlinks.eq hget hl).2 hne
  · obtain ⟨rfl, _⟩ := hlinks.eq hget hl
    cases hget
    refine ⟨fun _ a ha => ?_, ⟨fun e he => ?_, fun _ key hkey => ?_, fun _ key hkey => ?_⟩,
      fun key hkey => ?_⟩
    · cases ha
      rfl
    · cases he
    all_goals cases hkey
  all_goals
    cases href
    cases hl

/-- `overview` wraps `acquire`, which is then registered again. -/
theorem overview_paired :
    WellPaired ((registered ++ [Change.setHigherOrder ⟨3, 2, none⟩,
        .register (.createImplementation (bench 1) (declare "acquire" "acquire"))]).foldl
          (Change.run naming) {}) ∧
      Wrapped ((registered ++ [Change.setHigherOrder ⟨3, 2, none⟩,
        .register (.createImplementation (bench 1) (declare "acquire" "acquire"))]).foldl
          (Change.run naming) {}) 2 := by
  have hrun : Along (Change.run naming) (Change.Respects naming) {}
      (registered ++ [.setHigherOrder ⟨3, 2, none⟩,
        .register (.createImplementation (bench 1) (declare "acquire" "acquire"))]) :=
    ⟨respects_of_unlinked (by rfl) _, respects_of_unlinked (by rfl) _,
      respects_of_unlinked (by rfl) _, respects_link_of_unlinked (by rfl) (by rfl),
      respects_lower_again, trivial⟩
  exact ⟨(paired_along hrun (List.prefix_refl _)).1, 3, _, rfl, rfl⟩

/-- `overview` wraps `acquire`. Then `acquire` is made a wrapper of `scan`: only what it is to wrap
is looked at. -/
theorem lower_becomes_wrapper : ¬WellPaired
    ((registered ++ [Change.setHigherOrder ⟨3, 2, none⟩, .setHigherOrder ⟨2, 1, none⟩]).foldl
      (Change.run naming) {}) := by
  intro h
  obtain ⟨lower, _, _, hlower, hplain, _⟩ := (h 3 _ 2 rfl rfl).lower
  cases hlower
  cases hplain

end Registration
end Rekuest
