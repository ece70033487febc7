import Rekuest.Materialization.Outcomes

/-!
# Rekuest.Materialization.AllOrNothing

When a materialization is all or nothing.

* `BlokCall.AllOrNothing`: a call that is given all it asks for succeeds and maps every dependency, and
  a call that raises leaves the tables as they were.
* `BlokCall.Spared`: the calls that keep this, by what is there before them and what they are given.
* `BlokCall.spares_iff`: the two are the same.
-/

namespace Rekuest

open Fallible Interleave Attempt

/-- The three tables hold the same rows. -/
structure Boards.SameTables (s t : Boards) : Prop where
  materializedBloks : ∀ k, t.materializedBloks.get k = s.materializedBloks.get k
  dashboardPlacements : ∀ k, t.dashboardPlacements.get k = s.dashboardPlacements.get k
  blokAgentMappings : ∀ k, t.blokAgentMappings.get k = s.blokAgentMappings.get k

theorem Boards.SameTables.refl (s : Boards) : s.SameTables s :=
  ⟨fun _ => rfl, fun _ => rfl, fun _ => rfl⟩

variable (rank : Nat → Nat) (toPython : String → Except Error Nat)

/-- The mappings name this agent for the key. -/
def Names (mappings : Option (List BlokAgentMappingInput)) (key : String) (agent : AgentId) : Prop :=
  ∃ text, (mappedDeps mappings).get? key = some (.id text) ∧ toPython text = .ok agent

namespace Boards

variable (s : Boards) (mblok blok : Nat) (mappings : Option (List BlokAgentMappingInput))

/-- The mappings name an agent that is there for every dependency of the blok. -/
def Complete : Prop :=
  ∀ d row, s.blokDependencies.get d = some row → row.blok = blok →
    ∃ agent, Names toPython mappings row.key agent ∧ (s.agents.get agent).isSome = true

/-- The materialization has one mapping for every dependency of the blok, and it is to the agent
that the mappings name. -/
def Mapped : Prop :=
  ∀ d row, s.blokDependencies.get d = some row → row.blok = blok →
    ∃ k mapping, s.blokAgentMappings.get k = some mapping ∧ mapping.materializedBlok = mblok ∧
      mapping.dependency = some d ∧ Names toPython mappings row.key mapping.agent ∧
      ∀ j other, s.blokAgentMappings.get j = some other → other.materializedBlok = mblok →
        other.dependency = some d → j = k

variable {s blok mappings toPython}

theorem Independent.unmapped (h : s.Independent blok) : ¬ s.AnyMapped blok mappings := by
  rintro ⟨d, row, hget, hof, _⟩
  exact h d row hget hof

/-- Who maps all dependencies of a blok that has one maps one of them. -/
theorem Complete.anyMapped (h : s.Complete toPython blok mappings) (hsome : ¬ s.Independent blok) :
    s.AnyMapped blok mappings := by
  by_contra hnone
  apply hsome
  intro d row hget hof
  obtain ⟨agent, ⟨text, hkey, _⟩, _⟩ := h d row hget hof
  exact hnone ⟨d, row, hget, hof, by rw [hkey]; rfl⟩

theorem not_anyMapped_none : ¬ s.AnyMapped blok none := by
  rintro ⟨_, _, _, _, hkey⟩
  cases hkey

/-- Nothing refers to the key of a materialization before it is created. -/
theorem sameTables_delete_create {t : Boards} {dashboard : Option String}
    (h : Placed toPython (s.create blok) s.materializedBloks.next dashboard t) :
    s.SameTables (t.delete s.materializedBloks.next) := by
  have hnone : (s.materializedBloks.get s.materializedBloks.next).isSome = false := by
    rw [Table.get_next]
    rfl
  have hplaced : ∀ k row, s.dashboardPlacements.get k = some row →
      decide (row.blok = s.materializedBloks.next) = false := by
    intro k row hrow
    refine decide_eq_false fun hof => ?_
    have hthere := s.placed k row hrow
    rw [hof, hnone] at hthere
    cases hthere
  have hmapped : ∀ k row, s.blokAgentMappings.get k = some row →
      decide (row.materializedBlok = s.materializedBloks.next) = false := by
    intro k row hrow
    refine decide_eq_false fun hof => ?_
    have hthere := s.mapped k row hrow
    rw [hof, hnone] at hthere
    cases hthere
  refine ⟨fun k => ?_, fun k => ?_, fun k => ?_⟩
  · show (t.materializedBloks.erase _).get k = _
    rw [h.same.2]
    refine Table.get_erase_insert (decide_eq_true rfl) fun j row hrow => ?_
    exact decide_eq_false (Nat.ne_of_lt (Table.lt_next hrow))
  · cases h with
    | nowhere _ =>
      show (s.dashboardPlacements.erase _).get k = _
      rw [Table.erase_eq_self hplaced]
    | on _ _ _ _ => exact Table.get_erase_insert (decide_eq_true rfl) hplaced
  · have hrows : t.blokAgentMappings = s.blokAgentMappings := by
      cases h with
      | nowhere _ => rfl
      | on _ _ _ _ => rfl
    show (t.blokAgentMappings.erase _).get k = _
    rw [hrows, Table.erase_eq_self hmapped]

/-- A new materialization, or a new placement, is a new row. -/
theorem not_sameTables_created {t : Boards}
    (h : t.materializedBloks = (s.create blok).materializedBloks) : ¬ s.SameTables t := by
  intro hsame
  have hrow := hsame.materializedBloks s.materializedBloks.next
  have hnew : (s.create blok).materializedBloks.get s.materializedBloks.next = some ⟨blok⟩ :=
    Table.get_insert_next
  rw [h, hnew, Table.get_next] at hrow
  cases hrow

theorem not_sameTables_place {dashboard mblok : Nat}
    {h : (s.materializedBloks.get mblok).isSome = true} :
    ¬ s.SameTables (s.place dashboard mblok h) := by
  intro hsame
  have hrow := hsame.dashboardPlacements s.dashboardPlacements.next
  have hnew : (s.place dashboard mblok h).dashboardPlacements.get s.dashboardPlacements.next =
      some ⟨dashboard, mblok⟩ := Table.get_insert_next
  rw [hnew, Table.get_next] at hrow
  cases hrow

theorem not_sameTables_delete {t : Boards} {mblok : Nat}
    (h : (s.materializedBloks.get mblok).isSome = true) : ¬ s.SameTables (t.delete mblok) := by
  intro hsame
  have hrow := hsame.materializedBloks mblok
  have hgone : (t.delete mblok).materializedBloks.get mblok = none := by
    show (t.materializedBloks.erase _).get mblok = none
    rw [Table.get_erase]
    cases t.materializedBloks.get mblok <;> simp
  rw [hgone] at hrow
  rw [← hrow] at h
  cases h

end Boards

inductive BlokCall where
  | materialize (input : MaterializeBlokInput)
  | update (input : UpdateMaterializedBlokInput)

namespace BlokCall

/-- What the caller asks for is there, and the mappings are complete. -/
def Ready (s : Boards) (input : MaterializeBlokInput) (blok : Nat) : Prop :=
  (s.bloks.get blok).isSome = true ∧ s.Complete toPython blok input.agentMappings ∧
    s.Found toPython input.dashboard

/-- A call that has all it needs succeeds, and the materialization is mapped. A call that raises
leaves the tables as they were. -/
def AllOrNothing (s : Boards) : BlokCall → Prop
  | materialize input =>
    Ends (materializeBlok rank toPython input) s
      (fun mblok t => ∀ blok, toPython input.blok = .ok blok → Ready toPython s input blok →
        (∃ row, t.materializedBloks.get mblok = some row ∧ row.blok = blok) ∧
          t.Mapped toPython mblok blok input.agentMappings)
      (fun _ t => s.SameTables t ∧
        ∀ blok, toPython input.blok = .ok blok → ¬ Ready toPython s input blok)
  | update input =>
    Ends (updateMaterializedBlok rank toPython input) s
      (fun mblok t => ∀ row, s.materializedBloks.get mblok = some row →
        s.Complete toPython row.blok input.agentMappings →
          t.Mapped toPython mblok row.blok input.agentMappings)
      (fun _ t => s.SameTables t ∧ ∀ mblok row, toPython input.id = .ok mblok →
        s.materializedBloks.get mblok = some row →
          ¬ s.Complete toPython row.blok input.agentMappings)

/-- Without a materialization of the blok: the dashboard is there, and no dependency has a mapping.
With one: the dashboard is missing, or there is no dependency, or some dependency has a mapping,
but not all an agent that is there, and no dashboard is given. With several: the call is not given
all it needs. -/
def SparedAt (s : Boards) (input : MaterializeBlokInput) (blok : Nat) : Prop :=
  match s.materializations blok with
  | [] => (s.bloks.get blok).isSome = true →
    s.Found toPython input.dashboard ∧ ¬ s.AnyMapped blok input.agentMappings
  | [_] => ¬ s.Found toPython input.dashboard ∨ s.Independent blok ∨
    s.AnyMapped blok input.agentMappings ∧ input.dashboard.filter (· ≠ "") = none ∧
      ¬ Ready toPython s input blok
  | _ => ¬ Ready toPython s input blok

/-- An update is spared if it is not given all it needs, or needs nothing. -/
def Spared (s : Boards) : BlokCall → Prop
  | materialize input => ∀ blok, toPython input.blok = .ok blok → SparedAt toPython s input blok
  | update input => ∀ mblok row, toPython input.id = .ok mblok →
      s.materializedBloks.get mblok = some row →
        s.Independent row.blok ∨ ¬ s.Complete toPython row.blok input.agentMappings

variable {rank toPython} {s t : Boards} {blok mblok : Nat} {input : MaterializeBlokInput}

theorem found_iff (h : Upserted s blok mblok t) {dashboard : Option String} :
    t.Found toPython dashboard ↔ s.Found toPython dashboard := by
  unfold Boards.Found
  rw [h.same.2]

theorem spared_of_at (hblok : toPython input.blok = .ok blok) (h : SparedAt toPython s input blok) :
    Spared toPython s (.materialize input) := by
  intro blok' hblok'
  rw [hblok] at hblok'
  cases hblok'
  exact h

/-- Where a call raises and changes nothing, it is spared. -/
theorem spared_of_failure (h : Failure toPython s input t) (hsame : s.SameTables t)
    (hready : ∀ blok, toPython input.blok = .ok blok → ¬ Ready toPython s input blok) :
    Spared toPython s (.materialize input) := by
  cases h with
  | unread hunread => exact fun blok hblok => absurd hblok (hunread blok)
  | noBlok hblok hnone hno =>
    refine spared_of_at hblok ?_
    rw [SparedAt, hnone]
    intro hsome
    rw [hno] at hsome
    cases hsome
  | several hblok hseveral =>
    refine spared_of_at hblok ?_
    unfold SparedAt
    split
    · rename_i hnone
      rw [hnone] at hseveral
      simp at hseveral
    · rename_i hone
      rw [hone] at hseveral
      simp at hseveral
    · exact hready _ hblok
  | noDashboard hblok hup hfound =>
    refine spared_of_at hblok ?_
    cases hup with
    | created _ _ => exact absurd hsame (Boards.not_sameTables_created rfl)
    | found hrow =>
      rw [SparedAt, hrow]
      exact .inl hfound
  | mapped hblok hup hplaced hmapped =>
    refine spared_of_at hblok ?_
    cases hup with
    | created _ _ => exact absurd hsame (Boards.not_sameTables_created hplaced.same.2)
    | found hrow =>
      rw [SparedAt, hrow]
      cases hplaced with
      | nowhere hgiven => exact .inr (.inr ⟨hmapped, hgiven, hready _ hblok⟩)
      | on _ _ _ _ => exact absurd hsame Boards.not_sameTables_place
  | unmet hblok hup hplaced hmapped hdeps =>
    refine spared_of_at hblok ?_
    cases hup with
    | created hnone _ =>
      rw [SparedAt, hnone]
      exact fun _ => ⟨hplaced.found, hmapped⟩
    | found hrow =>
      obtain ⟨row, hthere, _⟩ := (Upserted.found hrow).there
      exact absurd hsame (Boards.not_sameTables_delete (by rw [hthere]; rfl))

/-- A spared call that raises changes nothing, and was not given all it needs. -/
theorem sameTables_of_failure (h : Failure toPython s input t)
    (hspared : Spared toPython s (.materialize input)) :
    s.SameTables t ∧ ∀ blok, toPython input.blok = .ok blok → ¬ Ready toPython s input blok := by
  cases h with
  | unread hunread => exact ⟨.refl s, fun blok hblok => absurd hblok (hunread blok)⟩
  | noBlok hblok hnone hno =>
    refine ⟨.refl s, fun blok' hblok' hready => ?_⟩
    rw [hblok] at hblok'
    cases hblok'
    rw [hready.1] at hno
    cases hno
  | several hblok hseveral =>
    refine ⟨.refl s, fun blok' hblok' => ?_⟩
    rw [hblok] at hblok'
    cases hblok'
    have hat := hspared _ hblok
    unfold SparedAt at hat
    split at hat
    · rename_i hnone
      rw [hnone] at hseveral
      simp at hseveral
    · rename_i hone
      rw [hone] at hseveral
      simp at hseveral
    · exact hat
  | noDashboard hblok hup hfound =>
    have hnot := fun hready : s.Found toPython input.dashboard =>
      hfound ((found_iff hup).mpr hready)
    refine ⟨?_, fun _ _ hready => hnot hready.2.2⟩
    cases hup with
    | created hnone hsome =>
      have hat := hspared _ hblok
      rw [SparedAt, hnone] at hat
      exact absurd (hat hsome).1 hnot
    | found _ => exact .refl s
  | mapped hblok hup hplaced hmapped =>
    have hat := hspared _ hblok
    cases hup with
    | created hnone hsome =>
      rw [SparedAt, hnone] at hat
      exact absurd hmapped (hat hsome).2
    | found hrow =>
      rw [SparedAt, hrow] at hat
      rcases hat with hfound | hdeps | ⟨_, hgiven, hready⟩
      · exact absurd hplaced.found hfound
      · exact absurd hmapped hdeps.unmapped
      · refine ⟨?_, fun blok' hblok' => ?_⟩
        · cases hplaced with
          | nowhere _ => exact .refl s
          | on _ hsome _ _ =>
            rw [hgiven] at hsome
            cases hsome
        · rw [hblok] at hblok'
          cases hblok'
          exact hready
  | unmet hblok hup hplaced hmapped hdeps =>
    refine ⟨?_, fun blok' hblok' hready => ?_⟩
    · cases hup with
      | created _ _ => exact Boards.sameTables_delete_create hplaced
      | found hrow =>
        have hat := hspared _ hblok
        rw [SparedAt, hrow] at hat
        rcases hat with hfound | hnone | ⟨hsome, _⟩
        · exact absurd hplaced.found hfound
        · exact absurd hnone hdeps
        · exact absurd hsome hmapped
    · rw [hblok] at hblok'
      cases hblok'
      exact hmapped (hready.2.1.anyMapped hdeps)

/-- A call that succeeds is one on a blok without dependencies. -/
theorem spared_of_success {u : Boards} (hblok : toPython input.blok = .ok blok)
    (hup : Upserted s blok mblok t) (hplaced : Placed toPython t mblok input.dashboard u)
    (hdeps : s.Independent blok) : Spared toPython s (.materialize input) := by
  refine spared_of_at hblok ?_
  cases hup with
  | created hnone _ =>
    rw [SparedAt, hnone]
    exact fun _ => ⟨hplaced.found, hdeps.unmapped⟩
  | found hrow =>
    rw [SparedAt, hrow]
    exact .inr (.inl hdeps)

variable (rank toPython s) in
/-- A call is all or nothing exactly when it is spared. -/
theorem spares_iff (call : BlokCall) :
    call.AllOrNothing rank toPython s ↔ call.Spared toPython s := by
  cases call with
  | materialize input =>
    constructor
    · intro h
      rcases h.and materializeBlok_ends with
        ⟨_, _, _, _, _, _, hblok, hup, hplaced, hdeps⟩ | ⟨_, _, _, ⟨hsame, hready⟩, hfailure⟩
      · exact spared_of_success hblok hup hplaced hdeps
      · exact spared_of_failure hfailure hsame hready
    · intro hspared
      refine materializeBlok_ends.mono ?_ fun _ _ hfailure => sameTables_of_failure hfailure hspared
      rintro mblok u ⟨blok, t, hblok, hup, hplaced, hdeps⟩ blok' hblok' hready
      rw [hblok] at hblok'
      cases hblok'
      refine ⟨by rw [hplaced.same.2]; exact hup.there, fun d row hrow hof => ?_⟩
      rw [hplaced.same.1, hup.same.1] at hrow
      exact absurd hof (hdeps d row hrow)
  | update input =>
    constructor
    · intro h mblok row hid hrow
      rcases h.and updateMaterializedBlok_ends with
        ⟨_, _, _, _, row', hid', hrow', _, hdone⟩ | ⟨_, _, _, ⟨_, hcomplete⟩, _⟩
      · rw [hid] at hid'
        cases hid'
        rw [hrow] at hrow'
        cases hrow'
        rcases hdone with hnone | hdeps
        · by_contra hne
          obtain ⟨hsome, hcomplete⟩ := not_or.mp hne
          have hmapped := (not_not.mp hcomplete).anyMapped hsome
          rw [hnone] at hmapped
          exact Boards.not_anyMapped_none hmapped
        · exact .inl hdeps
      · exact .inr (hcomplete mblok row hid hrow)
    · intro hspared
      refine updateMaterializedBlok_ends.mono ?_ ?_
      · rintro mblok _ ⟨row, hid, hrow, rfl, hdone⟩ row' hrow' hcomplete
        rw [hrow] at hrow'
        cases hrow'
        have hdeps : s.Independent row.blok := (hspared mblok row hid hrow).resolve_right
          (not_not.mpr hcomplete)
        exact fun d dep hget hof => absurd hof (hdeps d dep hget)
      · rintro _ _ ⟨rfl, hdeps⟩
        refine ⟨.refl _, fun mblok row hid hrow => ?_⟩
        exact (hspared mblok row hid hrow).resolve_left (hdeps mblok row hid hrow)

/-! ## A blok that is materialized already -/

/-- A blok with one dependency, and its materialization on a dashboard, mapped to an agent. -/
def wired : Boards where
  agents := Table.empty.insert
    { name := "one", app := "app", release := "1", hash := "h", user := ⟨1, "u"⟩,
      client := ⟨1, "c"⟩, organization := ⟨1, "o"⟩ }
  bloks := Table.empty.insert ⟨"viewer", none, ⟨1, "u"⟩, none, [], []⟩
  blokDependencies := Table.empty.insert { blok := 1, key := "camera" }
  materializedBloks := Table.empty.insert ⟨1⟩
  blokAgentMappings := Table.empty.insert ⟨"camera", 1, 1, some 1⟩
  dashboards := Table.empty.insert ⟨"main"⟩
  dashboardPlacements := Table.empty.insert ⟨1, 1⟩
  placed := fun k row h => by
    rcases Table.get_insert_cases h with ⟨_, rfl⟩ | ⟨_, h⟩
    · rfl
    · cases h
  mapped := fun k row h => by
    rcases Table.get_insert_cases h with ⟨_, rfl⟩ | ⟨_, h⟩
    · rfl
    · cases h

/-- `int(...)` of ASCII digits. -/
def readNumber (text : String) : Except Error Nat :=
  let digits := text.toList
  if digits.all Char.isDigit && !digits.isEmpty then
    .ok (digits.foldl (fun n c => 10 * n + (c.toNat - '0'.toNat)) 0)
  else .error (.valueError "Field 'id' expected a number.")

/-- A call that names no agent deletes the materialization, and one that names the agent raises. -/
theorem rematerialization_not_spared :
    ¬ AllOrNothing id readNumber wired (.materialize { blok := "1" }) ∧
    ¬ AllOrNothing id readNumber wired
      (.materialize { blok := "1", agentMappings := some [⟨"1", "camera"⟩] }) := by
  constructor
  · have hrun : materializeBlok id readNumber { blok := "1" } wired =
        some (.error (.valueError ("Not all dependencies were met with the provided agent mappings. "
          ++ "Materialization failed.")), wired.delete 1) := by rfl
    rintro (⟨_, _, h, _⟩ | ⟨_, t, h, hsame, _⟩)
    · rw [hrun] at h
      cases h
    · rw [hrun] at h
      cases h
      exact Boards.not_sameTables_delete rfl hsame
  · have hrun : materializeBlok id readNumber
        { blok := "1", agentMappings := some [⟨"1", "camera"⟩] } wired =
        some (.error (.valueError
          "Cannot assign \"'1'\": \"BlokAgentMapping.agent\" must be a \"Agent\" instance."),
          wired) := by rfl
    rintro (⟨_, _, h, _⟩ | ⟨_, t, _, _, hready⟩)
    · rw [hrun] at h
      cases h
    · refine hready 1 rfl ⟨rfl, fun d row hrow _ => ?_, fun text htext => by cases htext⟩
      rcases Table.get_insert_cases hrow with ⟨_, rfl⟩ | ⟨_, h⟩
      · exact ⟨1, ⟨"1", rfl, rfl⟩, rfl⟩
      · cases h

end BlokCall

end Rekuest
