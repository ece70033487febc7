import Rekuest.ImplementAgent

/-!
# Rekuest.Registry.Steps

What each part of a registration does, by whether it succeeds.

* `ActionView`: all that is stored of one action. `clearActions`: all that is not.
* `Fits`: an action object that is as its row is, if it still has one.
* `registerAction_ok`: what the registration of an action leaves.
-/

namespace Rekuest
namespace Registration

open Fallible
open Interleave (Table)

/-! ## What is stored of an action -/

structure ActionView where
  row : Option Action
  argPorts : List PortRow
  returnPorts : List PortRow
  protocols : List String
  isTestFor : Finset ActionId
  collections : Finset Nat

def view (db : Database) (k : ActionId) : ActionView where
  row := db.actions.get k
  argPorts := db.argPorts k
  returnPorts := db.returnPorts k
  protocols := db.protocols k
  isTestFor := db.isTestFor k
  collections := db.collectionsOf k

/-- What the registration of an action leaves alone. -/
def clearActions (db : Database) : Database :=
  { db with
    actions := .empty
    argPorts := fun _ => []
    returnPorts := fun _ => []
    protocols := fun _ => []
    isTestFor := fun _ => ∅
    collectionsOf := fun _ => ∅
    collections := .empty }

/-- The tables that the registration of an action leaves alone. -/
structure ActionFrame (db db' : Database) : Prop where
  agents : db'.agents = db.agents
  tasks : db'.tasks = db.tasks
  events : db'.events = db.events
  implementations : db'.implementations = db.implementations
  dependencies : db'.dependencies = db.dependencies
  manipulates : db'.manipulates = db.manipulates
  states : db'.states = db.states
  resolutions : db'.resolutions = db.resolutions

/-- The object is as its row, where there is one under its key. -/
def Fits (db : Database) (action : Instance Action) : Prop :=
  ∀ k, action.pk = some k → k < db.actions.next ∧ ∀ row, db.actions.get k = some row →
    row = action.row

/-- The row of the object is gone, or was never there. -/
def Gone (db : Database) (action : Instance Action) : Prop :=
  ∀ k, action.pk = some k → db.actions.get k = none

variable {H : Hashing} {db db' : Database} {agent : Agent} {definition : Definition}
  {action : Instance Action} {found : Option (Instance Action)} {k : ActionId}

theorem actionFrame (h : clearActions db' = clearActions db) : ActionFrame db db' where
  agents := (congrArg Database.agents h :)
  tasks := (congrArg Database.tasks h :)
  events := (congrArg Database.events h :)
  implementations := (congrArg Database.implementations h :)
  dependencies := (congrArg Database.dependencies h :)
  manipulates := (congrArg Database.manipulates h :)
  states := (congrArg Database.states h :)
  resolutions := (congrArg Database.resolutions h :)

/-- What the save of an object leaves, under the key `k`. -/
structure Stored (db : Database) (action : Instance Action) (k : ActionId)
    (r : Database × Instance Action) : Prop where
  object : r.2 = ⟨some k, action.row⟩
  key : ∀ j, action.pk = some j → k = j
  new : action.pk = none → k = db.actions.next
  grows : db.actions.next ≤ r.1.actions.next
  get : r.1.actions.get k = some action.row
  others : ∀ j, j ≠ k → r.1.actions.get j = db.actions.get j
  unique : ∀ j row, j ≠ k → db.actions.get j = some row → row.coordinate ≠ action.row.coordinate
  frame : r.1 = { db with actions := r.1.actions }

theorem storeAction_ok {r : Database × Instance Action} (h : storeAction db action = .ok r)
    (hpk : ∀ k, action.pk = some k → k < db.actions.next) : ∃ k, Stored db action k r := by
  unfold storeAction at h
  split at h
  · rename_i hempty
    have hunique : ∀ j row, some j ≠ action.pk → db.actions.get j = some row →
        row.coordinate ≠ action.row.coordinate := by
      intro j row hj hget hsame
      have hmem : (j, row) ∈ db.actions.select fun k row =>
          some k ≠ action.pk && row.coordinate = action.row.coordinate :=
        Table.mem_select.mpr ⟨hget, by simp [hj, hsame]⟩
      rw [List.isEmpty_iff.mp hempty] at hmem
      cases hmem
    cases hk : action.pk with
    | none =>
      rw [hk] at h hunique
      cases h
      exact ⟨db.actions.next, {
        object := rfl
        key := fun j hj => (by rw [hk] at hj; cases hj)
        new := fun _ => rfl
        grows := Nat.le_succ _
        get := Table.get_insert_next
        others := fun j hj => if_neg hj
        unique := fun j row _ hget => hunique j row (by simp) hget
        frame := rfl }⟩
    | some k =>
      rw [hk] at h hunique
      cases h
      exact ⟨k, {
        object := by rw [← hk]
        key := fun j hj => (by rw [hk] at hj; exact Option.some.inj hj)
        new := fun hnone => (by rw [hk] at hnone; cases hnone)
        grows := Nat.le_refl _
        get := Table.get_put_self (hpk k hk)
        others := fun j hj => Table.get_put_of_ne hj
        unique := fun j row hj hget => hunique j row (fun hjk => hj (Option.some.inj hjk)) hget
        frame := rfl }⟩
  · cases h

theorem updateAction_ok {pk : Option ActionId} {update : Action → Action}
    (h : updateAction db pk update = .ok db') :
    ∃ k row, pk = some k ∧ db.actions.get k = some row ∧
      db' = { db with actions := db.actions.modify k update } := by
  obtain ⟨k, hk, h⟩ := bind_ok_iff.mp h
  obtain ⟨row, hrow, h⟩ := bind_ok_iff.mp h
  exact ⟨k, row, orRaise_ok_iff.mp hk, orRaise_ok_iff.mp hrow, (pure_ok_iff.mp h).symm⟩

/-! ## The rebuild -/

/-- The counts of the root ports. -/
def counted (definition : Definition) (row : Action) : Action :=
  { row with argCount := definition.args.length, returnCount := definition.returns.length }

/-- The collections of these names are stored under these keys. -/
def Named (collections : Table Collection) (names : List String) (ids : List Nat) : Prop :=
  List.Forall₂ (fun name id => ∃ row, collections.get id = some row ∧ row.name = name) names ids

/-- What the rebuild leaves of the action `k`. -/
structure Rebuilt (agent : Agent) (definition : Definition) (db' : Database) (k : ActionId) :
    Prop where
  args : Ports.bulkCreatePorts compiler definition.args = .ok (db'.argPorts k)
  returns : Ports.bulkCreatePorts compiler definition.returns = .ok (db'.returnPorts k)
  protocols : db'.protocols k = Ports.inferProtocols definition.toIdentity
  isTestFor : db'.isTestFor k = resolveTestTargets db' agent definition.isTestFor
  unique : ∀ j row own, j ≠ k → db'.actions.get j = some row → db'.actions.get k = some own →
    row.coordinate ≠ own.coordinate
  collections : ∃ ids, Named db'.collections definition.collections ids ∧
    db'.collectionsOf k = ids.toFinset

/-- No collection is lost, and if no two had one name, no two have. -/
structure CollectionsGrow (t t' : Table Collection) : Prop where
  kept : ∀ j row, t.get j = some row → t'.get j = some row
  unique : Table.UniqueOn Collection.name t → Table.UniqueOn Collection.name t'

/-- The action `k` has this row, and what is stored of all others is as it was. -/
structure Settled (db db' : Database) (k : ActionId) (row : Action) : Prop where
  get : db'.actions.get k = some row
  grows : db.actions.next ≤ db'.actions.next
  others : ∀ j, j ≠ k → view db' j = view db j
  collections : CollectionsGrow db.collections db'.collections
  frame : clearActions db' = clearActions db

section

variable {t t' t'' : Table Collection}

theorem CollectionsGrow.refl : CollectionsGrow t t := ⟨fun _ _ h => h, id⟩

theorem CollectionsGrow.trans (h : CollectionsGrow t t') (h' : CollectionsGrow t' t'') :
    CollectionsGrow t t'' where
  kept j row hj := h'.kept j row (h.kept j row hj)
  unique hu := h'.unique (h.unique hu)

theorem Named.grow {names : List String} {ids : List Nat} (h : Named t names ids)
    (hgrow : CollectionsGrow t t') : Named t' names ids := by
  induction h with
  | nil => exact .nil
  | cons hrow _ ih =>
    obtain ⟨row, hget, hname⟩ := hrow
    exact .cons ⟨row, hgrow.kept _ _ hget, hname⟩ ih

end

theorem Settled.trans {db'' : Database} {row row' : Action} (h : Settled db db' k row)
    (h' : Settled db' db'' k row') : Settled db db'' k row' where
  get := h'.get
  grows := Nat.le_trans h.grows h'.grows
  others j hj := (h'.others j hj).trans (h.others j hj)
  collections := h.collections.trans h'.collections
  frame := h'.frame.trans h.frame

theorem Stored.settled {r : Database × Instance Action} (h : Stored db action k r) :
    Settled db r.1 k action.row where
  get := h.get
  grows := h.grows
  others j hj := by
    rw [h.frame]
    simp only [view, h.others j hj]
  collections := by
    rw [h.frame]
    exact .refl
  frame := by
    rw [h.frame]
    rfl

theorem getOrCreateCollections_ok {names : List String} {r : Database × List Nat}
    (h : getOrCreateCollections db agent names = .ok r) :
    r.1 = { db with collections := r.1.collections } ∧
      CollectionsGrow db.collections r.1.collections ∧ Named r.1.collections names r.2 := by
  induction names generalizing db r with
  | nil =>
    cases h
    exact ⟨rfl, .refl, .nil⟩
  | cons name names ih =>
    obtain ⟨stored, hstored, h⟩ := bind_ok_iff.mp h
    obtain ⟨rest, hrest, h⟩ := bind_ok_iff.mp h
    rw [← pure_ok_iff.mp h]
    obtain ⟨hframe, hgrow, hnamed⟩ := ih hrest
    have hfirst : CollectionsGrow db.collections stored.1 := by
      refine ⟨fun j row hj => ?_, fun hu => ?_⟩
      · exact Table.get_updateOrCreate_of_get hstored (fun _ _ => rfl) hj
      · refine hu.updateOrCreate (by simp) (fun a b ha hab => ?_) (fun _ _ => rfl) hstored
        simpa [hab] using ha
    obtain ⟨row, hrow, hname⟩ := Table.updateOrCreate_meets hstored (by simp) fun _ h => h
    have hhead : ∃ row, rest.1.collections.get stored.2 = some row ∧ row.name = name :=
      ⟨row, hgrow.kept _ _ hrow, by simpa using hname⟩
    refine ⟨?_, hfirst.trans hgrow, .cons hhead hnamed⟩
    rw [hframe]

theorem mem_matchingActions {organization : Organization} {app : String}
    {targets : List TestTarget} :
    k ∈ matchingActions db organization app targets ↔ ∃ row, db.actions.get k = some row ∧
      row.organization = organization ∧
      ∃ target ∈ targets, TestTarget.matches target app row = true := by
  simp only [matchingActions, List.mem_toFinset, List.mem_map, Prod.exists, exists_and_right,
    exists_eq_right, Table.mem_select, Bool.and_eq_true, decide_eq_true_eq, List.any_eq_true]

theorem resolveTestTargets_congr {targets : List TestTarget}
    (h : ∀ j, db'.actions.get j = db.actions.get j) :
    resolveTestTargets db' agent targets = resolveTestTargets db agent targets := by
  ext j
  rw [resolveTestTargets, resolveTestTargets, mem_matchingActions, mem_matchingActions, h]

/-- The rebuild of an object that is as its row is. -/
theorem rebuild_ok {r : Database × Instance Action} (h : rebuild db agent definition action = .ok r)
    (hfits : Fits db action) :
    ∃ k, action.pk = some k ∧ r.2 = ⟨some k, counted definition action.row⟩ ∧
      db.actions.get k = some action.row ∧
      Settled db r.1 k (counted definition action.row) ∧ Rebuilt agent definition r.1 k := by
  obtain ⟨k, hk, h⟩ := bind_ok_iff.mp h
  obtain ⟨built, hbuilt, h⟩ := bind_ok_iff.mp h
  obtain ⟨collected, hcollected, hstore⟩ := bind_ok_iff.mp h
  obtain ⟨k', hk', hbuilt⟩ := bind_ok_iff.mp hbuilt
  rw [orRaise_ok_iff] at hk hk'
  rw [hk] at hk'
  cases hk'
  obtain ⟨args, hargs, hbuilt⟩ := bind_ok_iff.mp hbuilt
  obtain ⟨returns, hreturns, hbuilt⟩ := bind_ok_iff.mp hbuilt
  obtain ⟨updated, hupdated, hbuilt⟩ := bind_ok_iff.mp hbuilt
  have hb := pure_ok_iff.mp hbuilt
  subst hb
  obtain ⟨k', row, hk', hrow, hmodified⟩ := updateAction_ok hupdated
  rw [hk] at hk'
  cases hk'
  obtain ⟨hlt, hfit⟩ := hfits k hk
  have hsame := hfit row hrow
  subst hsame
  obtain ⟨hframe, hgrow, hnamed⟩ := getOrCreateCollections_ok hcollected
  obtain ⟨k', hstored⟩ := storeAction_ok hstore fun j hj => by
    rw [hk] at hj
    cases hj
    rw [hframe, hmodified]
    exact hlt
  have hkey := hstored.key k hk
  subst hkey
  have hget : ∀ j, r.1.actions.get j = updated.actions.get j := by
    intro j
    by_cases hj : j = k'
    · rw [hj, hstored.get, hmodified, Table.get_modify_self, hrow]
      rfl
    · rw [hstored.others j hj, hframe]
  refine ⟨k', hk, hstored.object, hrow, ?_, ?_⟩
  · refine {
      get := hstored.get
      grows := ?_
      others := fun j hj => ?_
      collections := ?_
      frame := ?_ }
    · have hle := hstored.grows
      rw [hframe, hmodified] at hle
      exact hle
    · have hrowj : r.1.actions.get j = db.actions.get j := by
        rw [hget j, hmodified, Table.get_modify_of_ne hj]
      rw [view, hrowj, hstored.frame, hframe, hmodified]
      simp only [view, Function.update_of_ne hj]
    · rw [hstored.frame]
      rw [hmodified] at hgrow
      exact hgrow
    · rw [hstored.frame, hframe, hmodified]
      rfl
  · refine {
      args := ?_
      returns := ?_
      protocols := ?_
      isTestFor := ?_
      unique := fun j row own hj hrowj hown => ?_
      collections := ⟨collected.2, ?_, ?_⟩ }
    · rw [hstored.frame, hframe, hmodified]
      simpa only [Function.update_self] using hargs
    · rw [hstored.frame, hframe, hmodified]
      simpa only [Function.update_self] using hreturns
    · rw [hstored.frame]
      simp only [Function.update_self]
    · rw [resolveTestTargets_congr hget, hstored.frame]
      simp only [Function.update_self]
    · rw [hstored.others j hj] at hrowj
      rw [hstored.get] at hown
      rw [← Option.some.inj hown]
      exact hstored.unique j row hj hrowj
    · rw [hstored.frame]
      exact hnamed
    · rw [hstored.frame]
      simp only [Function.update_self]

/-! ## The action -/

/-- The row of an action object after the hash branch. -/
def upserted (H : Hashing) (agent : Agent) (definition : Definition) :
    Option (Instance Action) → Action
  | some action =>
    if action.row.hash = H.definition definition.toIdentity then action.row
    else action.row.redefine (H.definition definition.toIdentity) definition
  | none => agent.newAction (H.definition definition.toIdentity) definition

theorem Action.qualify_of_isQualified {row : Action} (h : row.isQualified definition = true) :
    row.qualify definition = row := by
  simp only [Action.isQualified, Bool.and_eq_true, decide_eq_true_eq] at h
  obtain ⟨⟨hpure, hidempotent⟩, hdev⟩ := h
  rw [Action.qualify, ← hpure, ← hidempotent, ← hdev]

/-- What the hash branch leaves where it writes. -/
structure Upserted (H : Hashing) (db : Database) (agent : Agent) (definition : Definition)
    (found : Option (Instance Action)) (db' : Database) (k : ActionId) : Prop where
  key : ∀ a j, found = some a → a.pk = some j → k = j
  new : (∀ a, found = some a → a.pk = none) → k = db.actions.next
  settled : Settled db db' k (upserted H agent definition found)
  changed : ∀ a, found = some a → a.row.hash ≠ H.definition definition.toIdentity

theorem upsertAction_ok {r : (Database × Instance Action) × Bool}
    (h : upsertAction H db agent definition found = .ok r)
    (hfits : ∀ a, found = some a → Fits db a) :
    (r.2 = false ∧ r.1.1 = db ∧ found = some r.1.2 ∧
      r.1.2.row.hash = H.definition definition.toIdentity) ∨
    (r.2 = true ∧ ∃ k, r.1.2 = ⟨some k, upserted H agent definition found⟩ ∧
      Upserted H db agent definition found r.1.1 k) := by
  unfold upsertAction at h
  dsimp only at h
  split at h
  · rename_i action
    split at h
    · rename_i hhash
      cases h
      exact .inl ⟨rfl, rfl, rfl, hhash⟩
    · rename_i hhash
      split at h
      · obtain ⟨stored, hstored, h⟩ := bind_ok_iff.mp h
        rw [← pure_ok_iff.mp h]
        obtain ⟨k, hk⟩ := storeAction_ok hstored fun k hk => (hfits action rfl k hk).1
        have hrow : upserted H agent definition (some action) =
            action.row.redefine (H.definition definition.toIdentity) definition := if_neg hhash
        refine .inr ⟨rfl, k, ?_, {
          key := fun a j ha hj => ?_
          new := fun hnone => hk.new (hnone action rfl)
          settled := hrow ▸ hk.settled
          changed := fun a ha => ?_ }⟩
        · rw [hk.object, hrow]
        · cases ha
          exact hk.key j hj
        · cases ha
          exact hhash
      · cases h
  · obtain ⟨stored, hstored, h⟩ := bind_ok_iff.mp h
    rw [← pure_ok_iff.mp h]
    obtain ⟨k, hk⟩ := storeAction_ok hstored fun k hk => (by cases hk)
    exact .inr ⟨rfl, k, hk.object, {
      key := fun a j ha => (by cases ha)
      new := fun _ => hk.new rfl
      settled := hk.settled
      changed := fun a ha => (by cases ha) }⟩

theorem syncQualifiers_ok {r : Database × Instance Action}
    (h : syncQualifiers db definition action = .ok r) (hfits : Fits db action) :
    r.2 = ⟨action.pk, action.row.qualify definition⟩ ∧
      r.1 = { db with actions := r.1.actions } ∧
      ((∃ k, action.pk = some k ∧ db.actions.get k = some action.row ∧
          Settled db r.1 k (action.row.qualify definition)) ∨
        (r.1 = db ∧ action.row.isQualified definition = true ∧ Gone db action)) := by
  unfold syncQualifiers at h
  split at h
  · rename_i hqualified
    cases h
    rw [Action.qualify_of_isQualified hqualified]
    refine ⟨rfl, rfl, ?_⟩
    by_cases hgone : Gone db action
    · exact .inr ⟨rfl, hqualified, hgone⟩
    · simp only [Gone, not_forall] at hgone
      obtain ⟨k, hk, hsome⟩ := hgone
      obtain ⟨row, hrow⟩ := Option.ne_none_iff_exists'.mp hsome
      have hfit := (hfits k hk).2 row hrow
      subst hfit
      exact .inl ⟨k, hk, hrow, ⟨hrow, Nat.le_refl _, fun _ _ => rfl, .refl, rfl⟩⟩
  · obtain ⟨updated, hupdated, h⟩ := bind_ok_iff.mp h
    rw [← pure_ok_iff.mp h]
    obtain ⟨k, row, hk, hrow, rfl⟩ := updateAction_ok hupdated
    have hfit := (hfits k hk).2 row hrow
    subst hfit
    refine ⟨rfl, rfl, .inl ⟨k, hk, hrow, ?_⟩⟩
    refine {
      get := ?_
      grows := Nat.le_refl _
      others := fun j hj => ?_
      collections := .refl
      frame := rfl }
    · rw [Table.get_modify_self, hrow]
      simp only [Option.map_some, Action.qualify, Option.some.injEq]
      congr 1
      · split <;> simp_all
      · split <;> simp_all
      · split <;> simp_all
    · simp only [view, Table.get_modify_of_ne hj]

theorem relationalStateIsCurrent_ok {current : Bool}
    (h : relationalStateIsCurrent db definition action = .ok current) :
    current = true → action.row.argCount = definition.args.length ∧
      action.row.returnCount = definition.returns.length ∧
      ((definition.args = [] ∧ definition.returns = []) ∨
        ∃ k, action.pk = some k ∧ (db.actions.get k).isSome = true) := by
  intro hcurrent
  subst hcurrent
  unfold relationalStateIsCurrent at h
  split at h
  · cases h
  · rename_i hcounts
    simp only [not_or, not_not] at hcounts
    refine ⟨hcounts.1, hcounts.2, ?_⟩
    split at h
    · rename_i hempty
      simp only [Bool.and_eq_true, List.isEmpty_iff] at hempty
      exact .inl hempty
    · obtain ⟨k, hk, _⟩ := bind_ok_iff.mp h
      rw [orRaise_ok_iff, Option.filter_eq_some_iff] at hk
      exact .inr ⟨k, hk⟩

/-- An action that was written, with all that is derived from it. -/
structure Rewritten (H : Hashing) (db : Database) (agent : Agent) (definition : Definition)
    (found : Option (Instance Action)) (r : Database × Instance Action) (k : ActionId) : Prop where
  object : r.2 = ⟨some k,
    counted definition ((upserted H agent definition found).qualify definition)⟩
  key : ∀ a j, found = some a → a.pk = some j → k = j
  new : (∀ a, found = some a → a.pk = none) → k = db.actions.next
  /-- An object that has the hash is rewritten only where it has its row. -/
  present : ∀ a, found = some a → a.row.hash = H.definition definition.toIdentity →
    db.actions.get k = some a.row
  settled : Settled db r.1 k r.2.row
  rebuilt : Rebuilt agent definition r.1 k

/-- An action of which only the qualifiers were written. -/
structure Kept (H : Hashing) (db : Database) (definition : Definition)
    (found : Option (Instance Action)) (r : Database × Instance Action) (k : ActionId)
    (row : Action) : Prop where
  found : found = some ⟨some k, row⟩
  hash : row.hash = H.definition definition.toIdentity
  get : db.actions.get k = some row
  argCount : row.argCount = definition.args.length
  returnCount : row.returnCount = definition.returns.length
  object : r.2 = ⟨some k, row.qualify definition⟩
  settled : Settled db r.1 k r.2.row
  frame : r.1 = { db with actions := r.1.actions }

/-- An action object that is as the definition has it, and whose row is gone. -/
structure Stale (H : Hashing) (db : Database) (definition : Definition)
    (found : Option (Instance Action)) (r : Database × Instance Action) : Prop where
  found : found = some r.2
  hash : r.2.row.hash = H.definition definition.toIdentity
  qualified : r.2.row.isQualified definition = true
  args : definition.args = []
  returns : definition.returns = []
  gone : Gone db r.2
  unchanged : r.1 = db

theorem Settled.fits {row : Action} (h : Settled db db' k row) : Fits db' ⟨some k, row⟩ := by
  intro j hj
  cases hj
  refine ⟨Table.lt_next h.get, fun row' hrow => ?_⟩
  rw [h.get] at hrow
  exact (Option.some.inj hrow).symm

section

variable {r synced : Database × Instance Action}

/-- Where the object has its row, the row is what the qualifiers are written to. -/
theorem settled_of_synced (h : syncQualifiers db definition action = .ok synced)
    (hfits : Fits db action) (hk : action.pk = some k)
    (hget : db.actions.get k = some action.row) :
    Settled db synced.1 k (action.row.qualify definition) := by
  obtain ⟨_, _, ⟨j, hj, _, hsettled⟩ | ⟨_, _, hgone⟩⟩ := syncQualifiers_ok h hfits
  · rw [hk] at hj
    cases hj
    exact hsettled
  · rw [hgone k hk] at hget
    cases hget

theorem fits_synced (h : syncQualifiers db definition action = .ok synced)
    (hfits : Fits db action) : Fits synced.1 synced.2 := by
  obtain ⟨hrow, _, ⟨k, hk, _, hsettled⟩ | ⟨hsame, hqualified, _⟩⟩ := syncQualifiers_ok h hfits
  · rw [hrow, hk]
    exact hsettled.fits
  · rw [hsame, hrow, Action.qualify_of_isQualified hqualified]
    exact hfits

/-- The branch that writes at most the qualifiers. -/
theorem registerAction_current (hhash : action.row.hash = H.definition definition.toIdentity)
    (hfits : Fits db action) (hsynced : syncQualifiers db definition action = .ok r)
    (hcurrent : relationalStateIsCurrent r.1 definition r.2 = .ok true) :
    (∃ k row, Kept H db definition (some action) r k row) ∨
      Stale H db definition (some action) r := by
  obtain ⟨hrow, hframe, hcases⟩ := syncQualifiers_ok hsynced hfits
  obtain ⟨hargs, hreturns, hthere⟩ := relationalStateIsCurrent_ok hcurrent rfl
  rw [hrow] at hargs hreturns hthere
  rcases hcases with ⟨k, hk, hget, hsettled⟩ | ⟨hsame, hqualified, hgone⟩
  · refine .inl ⟨k, action.row, {
      found := ?_
      hash := hhash
      get := hget
      argCount := hargs
      returnCount := hreturns
      object := ?_
      settled := ?_
      frame := hframe }⟩
    · rw [← hk]
    · rw [hrow, hk]
    · rw [hrow]
      exact hsettled
  · rw [Action.qualify_of_isQualified hqualified] at hrow
    have hobject : r.2 = action := hrow
    -- no row is left that the ports could be counted by
    have hnone : definition.args = [] ∧ definition.returns = [] := by
      rcases hthere with hnone | ⟨k, hk, hsome⟩
      · exact hnone
      · rw [hsame, hgone k hk] at hsome
        cases hsome
    refine .inr {
      found := ?_
      hash := ?_
      qualified := ?_
      args := hnone.1
      returns := hnone.2
      gone := ?_
      unchanged := hsame }
    · rw [hobject]
    · rw [hobject, hhash]
    · rw [hobject, hqualified]
    · rw [hobject]
      exact hgone

/-- The branch that finds the hash as it was, and the ports not. -/
theorem registerAction_rebuilt (hhash : action.row.hash = H.definition definition.toIdentity)
    (hfits : Fits db action) (hsynced : syncQualifiers db definition action = .ok synced)
    (h : rebuild synced.1 agent definition synced.2 = .ok r) :
    ∃ k, Rewritten H db agent definition (some action) r k := by
  obtain ⟨hrow, _, hcases⟩ := syncQualifiers_ok hsynced hfits
  obtain ⟨k, hk, hobject, hget, hsettled, hrebuilt⟩ := rebuild_ok h (fits_synced hsynced hfits)
  rw [hrow] at hk hget
  -- what the rebuild found under the key was there before the qualifiers were written
  have hstored : db.actions.get k = some action.row := by
    rcases hcases with ⟨j, hj, hget', _⟩ | ⟨hsame, hqualified, _⟩
    · rw [hk] at hj
      cases hj
      exact hget'
    · rw [hsame, Action.qualify_of_isQualified hqualified] at hget
      exact hget
  have hupserted : upserted H agent definition (some action) = action.row := if_pos hhash
  refine ⟨k, {
    object := ?_
    key := fun a j ha hj => ?_
    new := fun hnone => ?_
    present := fun a ha _ => ?_
    settled := ?_
    rebuilt := hrebuilt }⟩
  · rw [hobject, hrow, hupserted]
  · cases ha
    exact Option.some.inj (hk.symm.trans hj)
  · have hpk : action.pk = none := hnone _ rfl
    rw [hpk] at hk
    cases hk
  · cases ha
    exact hstored
  · rw [hobject]
    exact (settled_of_synced hsynced hfits hk hstored).trans hsettled

/-- The branch that writes the action, or creates it. -/
theorem registerAction_written (hwritten : Upserted H db agent definition found db' k)
    (hsynced : syncQualifiers db' definition ⟨some k, upserted H agent definition found⟩ =
      .ok synced)
    (h : rebuild synced.1 agent definition synced.2 = .ok r) :
    Rewritten H db agent definition found r k := by
  have hfits : Fits db' ⟨some k, upserted H agent definition found⟩ :=
    hwritten.settled.fits
  obtain ⟨hrow, _, _⟩ := syncQualifiers_ok hsynced hfits
  have hqualified := settled_of_synced hsynced hfits rfl hwritten.settled.get
  obtain ⟨j, hj, hobject, _, hsettled, hrebuilt⟩ := rebuild_ok h (fits_synced hsynced hfits)
  rw [hrow] at hj hobject
  cases hj
  refine {
    object := hobject
    key := hwritten.key
    new := hwritten.new
    present := fun a ha hhash => absurd hhash (hwritten.changed a ha)
    settled := ?_
    rebuilt := hrebuilt }
  rw [hobject]
  rw [hrow] at hsettled
  exact (hwritten.settled.trans hqualified).trans hsettled

end

theorem registerAction_ok {r : Database × Instance Action}
    (h : registerAction H db agent definition found = .ok r)
    (hfits : ∀ a, found = some a → Fits db a) :
    (∃ k, Rewritten H db agent definition found r k) ∨
      (∃ k row, Kept H db definition found r k row) ∨ Stale H db definition found r := by
  obtain ⟨upsert, hupsert, h⟩ := bind_ok_iff.mp h
  obtain ⟨synced, hsynced, h⟩ := bind_ok_iff.mp h
  obtain ⟨current, hcurrent, h⟩ := bind_ok_iff.mp h
  rcases upsertAction_ok hupsert hfits with ⟨hflag, hdb, hfound, hhash⟩ | ⟨hflag, k, hobject, hwritten⟩
  · have hfit : Fits db upsert.1.2 := hfits _ hfound
    rw [hdb] at hsynced
    rw [hflag, cond_false] at hcurrent
    rw [hfound]
    by_cases hc : current = true
    · rw [if_pos hc] at h
      have hr := pure_ok_iff.mp h
      subst hr hc
      exact .inr (registerAction_current hhash hfit hsynced hcurrent)
    · rw [if_neg hc] at h
      exact .inl (registerAction_rebuilt hhash hfit hsynced h)
  · rw [hflag, cond_true] at hcurrent
    cases hcurrent
    rw [if_neg (by simp)] at h
    rw [hobject] at hsynced
    exact .inl ⟨k, registerAction_written hwritten hsynced h⟩

end Registration
end Rekuest
