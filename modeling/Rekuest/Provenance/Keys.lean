import Rekuest.Interleave.Guarantee

/-!
# Rekuest.Provenance.Keys

The signing key and the public key of the provenance issuer, which threads load once and share.

* `load`: the double-checked load. `getSigningKey`, `getPublicKey`, `resetCache`: what threads call.
* `Cached`: what is always so of the two globals. `cache_behaves`: every call against all others.
* `keys_configured`: what any number of threads get, in any order of their steps.
-/

namespace Rekuest
namespace Provenance
namespace Keys

open Interleave (Lang Prog Exec Sys Along Environment)
open Interleave.Prog (issue Behaves)

abbrev Thread := Nat

/-- The `provenance` block of the configuration. -/
structure KeySettings where
  privateKey : Option String := none
  publicKey : Option String := none
  kid : String := ""

inductive KeyError where
  | improperlyConfigured (text : String)
  /-- What the import of a key raises. -/
  | invalidKey (text : String)
  | assertionError
  deriving DecidableEq, Repr

/-- The library of keys: the import of a PEM under a key id, and the PEM of the public half. -/
structure KeyLibrary (Key : Type) where
  importKey : String → String → Except KeyError Key
  publicPem : Key → String

/-- The two globals `_signing_key` and `_public_key`. -/
inductive Global where
  | signingKey
  | publicKey
  deriving DecidableEq, Repr

/-- The globals of the module, and the thread in the lock. -/
structure Cache (Key : Type) where
  holder : Option Thread := none
  key : Global → Option Key := fun _ => none

inductive KeyStmt (Key : Type) where
  | read (g : Global)
  | assign (g : Global) (key : Option Key)
  | acquire (me : Thread)
  | release

variable {Key : Type}

def KeyStmt.Ans : KeyStmt Key → Type
  | read _ => Option Key
  | _ => Unit

abbrev keyLang (Key : Type) : Lang := ⟨KeyStmt Key, KeyStmt.Ans⟩

def Cache.assign (s : Cache Key) (g : Global) (key : Option Key) : Cache Key :=
  { s with key := fun g' => if g' = g then key else s.key g' }

def exec : Exec (keyLang Key) Unit (Cache Key)
  | _, .read g, s => (s.key g, s)
  | _, .assign g key, s => ((), s.assign g key)
  | _, .acquire me, s => ((), { s with holder := some me })
  | _, .release, s => ((), { s with holder := none })

/-- A thread waits for the lock while one is in it. -/
def Free : KeyStmt Key → Cache Key → Prop
  | .acquire _, s => s.holder = none
  | _, _ => True

instance : (st : KeyStmt Key) → (s : Cache Key) → Decidable (Free st s)
  | .acquire _, s => inferInstanceAs (Decidable (s.holder = none))
  | .release, _ => .isTrue trivial
  | .read _, _ => .isTrue trivial
  | .assign _ _, _ => .isTrue trivial

/-! ## The module -/

abbrev KeyProg (Key : Type) (α : Type) := Prog (keyLang Key) KeyError α

def read (g : Global) : KeyProg Key (Option Key) := issue (L := keyLang Key) (.read g)

def assign (g : Global) (key : Option Key) : KeyProg Key Unit :=
  issue (L := keyLang Key) (.assign g key)

def acquire (me : Thread) : KeyProg Key Unit := issue (L := keyLang Key) (.acquire me)

def release : KeyProg Key Unit := issue (L := keyLang Key) .release

section

variable (C : KeyLibrary Key) (conf : KeySettings)

def notConfigured : KeyError := .improperlyConfigured
  "No provenance private key configured (settings.PROVENANCE['PRIVATE_KEY']). Set the `provenance.private_key` field in config.yaml (or the `PROVENANCE__PRIVATE_KEY` environment variable) — a static Ed25519 key is required so tokens verify across process restarts and replicas."

/-- The two keys of the configuration. Without a public one it is the half of the private one. -/
def configured : Except KeyError (Key × Key) :=
  if conf.privateKey.getD "" = "" then .error notConfigured
  else do
    let signing ← C.importKey (conf.privateKey.getD "") conf.kid
    let pub ← C.importKey
      (if conf.publicKey.getD "" = "" then C.publicPem signing else conf.publicKey.getD "") conf.kid
    return (signing, pub)

/-- `_load`. -/
def load (me : Thread) : KeyProg Key Unit := do
  let found ← read .signingKey
  if found.isSome then return ()
  else do
    acquire me
    let found ← read .signingKey
    if found.isSome then release
    else match configured C conf with
      | .error e => do
        release
        Prog.fail e
      | .ok keys => do
        assign .signingKey (some keys.1)
        assign .publicKey (some keys.2)
        release

/-- The global is read once for the assertion, and once to be returned. -/
def asserted (g : Global) : KeyProg Key (Option Key) := do
  let found ← read g
  if found.isSome then read g else Prog.fail .assertionError

def getSigningKey (me : Thread) : KeyProg Key (Option Key) := do
  load C conf me
  asserted .signingKey

def getPublicKey (me : Thread) : KeyProg Key (Option Key) := do
  load C conf me
  asserted .publicKey

def resetCache (me : Thread) : KeyProg Key (Option Key) := do
  acquire me
  assign .signingKey none
  assign .publicKey none
  release
  return none

end

inductive Operation where
  | get (g : Global)
  | resetCache
  deriving DecidableEq, Repr

def Operation.prog (C : KeyLibrary Key) (conf : KeySettings) (me : Thread) :
    Operation → KeyProg Key (Option Key)
  | .get .signingKey => getSigningKey C conf me
  | .get .publicKey => getPublicKey C conf me
  | .resetCache => Keys.resetCache me

/-- Nothing is loaded, and every thread is before its call. -/
def start (C : KeyLibrary Key) (conf : KeySettings) (calls : Thread → Operation) :
    Sys (keyLang Key) KeyError (Option Key) Thread (Cache Key) :=
  ⟨{}, fun t => (calls t).prog C conf t⟩

instance (c : Sys (keyLang Key) KeyError (Option Key) Thread (Cache Key)) (e : Thread × Unit) :
    Decidable (Sys.Enabled (L := keyLang Key) Free c e) :=
  inferInstance

/-! ## What is always so -/

section

variable (C : KeyLibrary Key) (conf : KeySettings) (calls : Thread → Operation)

/-- The key of the configuration that a global is for. -/
def Global.of (keys : Key × Key) : Global → Key
  | signingKey => keys.1
  | publicKey => keys.2

/-- The key is the one that the configuration has for the global. -/
def Meant (g : Global) (k : Key) : Prop := ∃ keys, configured C conf = .ok keys ∧ k = g.of keys

/-- Only configured keys are cached, and while nobody is in the lock both of them or neither. -/
structure Cached (s : Cache Key) : Prop where
  only : ∀ g k, s.key g = some k → Meant C conf g k
  both : s.holder = none → (s.key .signingKey).isSome = (s.key .publicKey).isSome

/-- Some thread resets the cache. -/
def Resets : Prop := ∃ t, calls t = .resetCache

/-- Without resets, what is cached stays. -/
def Stays (s s' : Cache Key) : Prop := ¬Resets calls → ∀ g k, s.key g = some k → s'.key g = some k

/-- What a thread relies on: while it is in the lock, nobody changes anything, and nobody puts it
there. -/
structure Relied (me : Thread) (s s' : Cache Key) : Prop where
  cached : Cached C conf s → Cached C conf s'
  stays : Stays calls s s'
  mine : s.holder = some me → s' = s
  notMine : s.holder ≠ some me → s'.holder ≠ some me

/-- What a thread guarantees: while another is in the lock, it changes nothing, and it puts no
other there. -/
structure Guaranteed (me : Thread) (s s' : Cache Key) : Prop where
  cached : Cached C conf s'
  stays : Stays calls s s'
  theirs : ∀ t, t ≠ me → s.holder = some t → s' = s
  notTheirs : ∀ t, t ≠ me → s.holder ≠ some t → s'.holder ≠ some t

/-- A thread never waits for the lock that it is in itself. -/
def Waits (me : Thread) : KeyStmt Key → Cache Key → Prop
  | .acquire _, s => s.holder ≠ some me
  | _, _ => True

/-- What a call ends with. Where a thread resets the cache, a key may be gone. Between the two
assignments of a load, who finds the signing key does not find the public one yet. -/
def Answered : Operation → Except KeyError (Option Key) → Prop
  | .get g, .ok (some k) => Meant C conf g k
  | .get _, .ok none => Resets calls
  | .get g, .error e => configured C conf = .error e ∨
      (e = .assertionError ∧ (Resets calls ∨ g = .publicKey))
  | .resetCache, .ok k => k = none
  | .resetCache, .error _ => False

end

section

variable {C : KeyLibrary Key} {conf : KeySettings} {calls : Thread → Operation}
  {me : Thread} {s s' : Cache Key}

theorem environment_relied : Environment (Relied C conf calls me) where
  refl s := ⟨id, fun _ _ _ h => h, fun _ => rfl, id⟩
  trans {s s' s''} h h' := {
    cached := fun hs => h'.cached (h.cached hs)
    stays := fun hno g k hk => h'.stays hno g k (h.stays hno g k hk)
    mine := fun hmine => by
      have hfirst := h.mine hmine
      rw [← hfirst] at hmine ⊢
      exact h'.mine hmine
    notMine := fun hmine => h'.notMine (h.notMine hmine) }

theorem relied_of_guaranteed {other : Thread} (hne : other ≠ me)
    (h : Guaranteed C conf calls me s s') : Relied C conf calls other s s' :=
  ⟨fun _ => h.cached, h.stays, h.theirs other hne, h.notTheirs other hne⟩

/-- To read changes nothing. -/
theorem guaranteed_refl (h : Cached C conf s) : Guaranteed C conf calls me s s :=
  ⟨h, fun _ _ _ h => h, fun _ _ _ => rfl, fun _ _ h => h⟩

theorem guaranteed_acquire (h : Cached C conf s) (hfree : s.holder = none) :
    Guaranteed C conf calls me s { s with holder := some me } where
  cached := ⟨h.only, fun hnone => by cases hnone⟩
  stays _ _ _ h := h
  theirs t _ ht := by
    rw [hfree] at ht
    cases ht
  notTheirs t ht _ hme := ht (Option.some.inj hme).symm

/-- Who is in the lock is alone, and stays in it or leaves it. -/
theorem guaranteed_mine (hmine : s.holder = some me) (h : Cached C conf s')
    (hstays : Stays calls s s') (hholder : s'.holder = some me ∨ s'.holder = none) :
    Guaranteed C conf calls me s s' where
  cached := h
  stays := hstays
  theirs t ht hheld := by
    rw [hmine] at hheld
    exact absurd (Option.some.inj hheld).symm ht
  notTheirs t ht _ hheld := by
    rcases hholder with h | h
    · exact ht (Option.some.inj (hheld.symm.trans h))
    · cases h.symm.trans hheld

/-- The lock is given back once both keys are cached or neither is. -/
theorem guaranteed_release (hs : Cached C conf s) (hmine : s.holder = some me)
    (hboth : (s.key .signingKey).isSome = (s.key .publicKey).isSome) :
    Guaranteed C conf calls me s { s with holder := none } :=
  guaranteed_mine hmine ⟨hs.only, fun _ => hboth⟩ (fun _ _ _ h => h) (.inr rfl)

/-- In the lock a global is replaced by the key meant for it, or by none in a reset. -/
theorem guaranteed_assign {g : Global} {key : Option Key} (hs : Cached C conf s)
    (hmine : s.holder = some me) (hkey : ∀ k, key = some k → Meant C conf g k)
    (hreset : key = none → Resets calls) : Guaranteed C conf calls me s (s.assign g key) := by
  refine guaranteed_mine hmine ⟨fun g' k hk => ?_, fun hnone => ?_⟩ (fun hno g' k hk => ?_)
    (.inl hmine)
  · by_cases hg : g' = g
    · subst hg
      exact hkey k (by simpa [Cache.assign] using hk)
    · exact hs.only g' k (by simpa [Cache.assign, hg] using hk)
  · exact absurd (hmine.symm.trans hnone) (by simp)
  · by_cases hg : g' = g
    · subst hg
      cases key with
      | none => exact absurd (hreset rfl) hno
      | some k' =>
        obtain ⟨keys, hkeys, hk⟩ := hs.only g' k hk
        obtain ⟨keys', hkeys', hk'⟩ := hkey k' rfl
        cases hkeys.symm.trans hkeys'
        simp [Cache.assign, hk, hk']
    · simpa [Cache.assign, hg] using hk

/-- A load that returns has found the keys, and they stay cached without resets. Either way the
thread is out of the lock. -/
def Loaded (C : KeyLibrary Key) (conf : KeySettings) (calls : Thread → Operation) (me : Thread) :
    Except KeyError Unit → Cache Key → Prop
  | .ok _, s => Cached C conf s ∧ s.holder ≠ some me ∧ (¬Resets calls → (s.key .signingKey).isSome)
  | .error e, s => configured C conf = .error e ∧ s.holder ≠ some me

theorem loaded_of_signingKey (h : Cached C conf s) (hmine : s.holder ≠ some me)
    (hk : (s.key .signingKey).isSome) {s' : Cache Key} (hs : Relied C conf calls me s s') :
    Loaded C conf calls me (.ok ()) s' := by
  refine ⟨hs.cached h, hs.notMine hmine, fun hno => ?_⟩
  obtain ⟨k, hk⟩ := Option.isSome_iff_exists.mp hk
  rw [hs.stays hno _ k hk]
  rfl

end

/-! ## What each call does -/

section

variable {C : KeyLibrary Key} {conf : KeySettings} {calls : Thread → Operation}
  {me : Thread} {s : Cache Key}

/-- What the call of a thread does against all others. -/
abbrev Kept {α : Type} (C : KeyLibrary Key) (conf : KeySettings) (calls : Thread → Operation)
    (me : Thread) (Q : Except KeyError α → Cache Key → Prop) (p : KeyProg Key α) (s : Cache Key) :
    Prop :=
  p.Behaves exec Free (Waits me) (Relied C conf calls me) (Guaranteed C conf calls me) Q s

/-- In the lock, the keys of the configuration are cached, the signing key first. -/
theorem publish_kept {keys : Key × Key} (hkeys : configured C conf = .ok keys)
    (hs : Cached C conf s) (hmine : s.holder = some me) :
    Kept C conf calls me (Loaded C conf calls me)
      (do assign .signingKey (some keys.1); assign .publicKey (some keys.2); release) s := by
  refine fun s₁ h₁ => ⟨trivial, fun _ _ => ?_⟩
  cases h₁.mine hmine
  have hsigning : Guaranteed C conf calls me s (s.assign .signingKey (some keys.1)) :=
    guaranteed_assign hs hmine (fun k hk => ⟨keys, hkeys, (Option.some.inj hk).symm⟩)
      fun h => by cases h
  refine ⟨hsigning, fun s₂ h₂ => ⟨trivial, fun _ _ => ?_⟩⟩
  cases h₂.mine hmine
  have hpublic : Guaranteed C conf calls me _
      ((s.assign .signingKey (some keys.1)).assign .publicKey (some keys.2)) :=
    guaranteed_assign hsigning.cached hmine (fun k hk => ⟨keys, hkeys, (Option.some.inj hk).symm⟩)
      fun h => by cases h
  refine ⟨hpublic, fun s₃ h₃ => ⟨trivial, fun _ _ => ?_⟩⟩
  cases h₃.mine hmine
  have hrelease : Guaranteed C conf calls me _ _ := guaranteed_release hpublic.cached hmine rfl
  exact ⟨hrelease, fun s' h' => loaded_of_signingKey hrelease.cached nofun rfl h'⟩

theorem load_kept (hs : Cached C conf s) (hmine : s.holder ≠ some me) :
    Kept C conf calls me (Loaded C conf calls me) (load C conf me) s := by
  refine fun s₁ h₁ => ⟨trivial, fun _ _ => ⟨guaranteed_refl (h₁.cached hs), ?_⟩⟩
  have hs₁ := h₁.cached hs
  have hmine₁ := h₁.notMine hmine
  show Behaves _ _ _ _ _ _ (if (s₁.key .signingKey).isSome then _ else _) s₁
  by_cases hfound : (s₁.key .signingKey).isSome
  · rw [if_pos hfound]
    exact fun s' hs' => loaded_of_signingKey hs₁ hmine₁ hfound hs'
  rw [if_neg hfound]
  -- The lock is taken, and the key looked for again: another thread may have loaded it.
  refine fun s₂ h₂ => ⟨h₂.notMine hmine₁, fun hfree _ => ?_⟩
  have hs₂ := h₂.cached hs₁
  have hacquire : Guaranteed C conf calls me s₂ { s₂ with holder := some me } :=
    guaranteed_acquire hs₂ hfree
  refine ⟨hacquire, fun s₃ h₃ => ⟨trivial, fun _ _ => ?_⟩⟩
  cases h₃.mine rfl
  refine ⟨guaranteed_refl hacquire.cached, ?_⟩
  have hrelease : Guaranteed C conf calls me { s₂ with holder := some me }
      { s₂ with holder := none } := guaranteed_release hacquire.cached rfl (hs₂.both hfree)
  show Behaves _ _ _ _ _ _ (if (s₂.key .signingKey).isSome then _ else _) _
  by_cases hagain : (s₂.key .signingKey).isSome
  · rw [if_pos hagain]
    refine fun s₄ h₄ => ⟨trivial, fun _ _ => ?_⟩
    cases h₄.mine rfl
    exact ⟨hrelease, fun s' h' => loaded_of_signingKey hrelease.cached nofun hagain h'⟩
  rw [if_neg hagain]
  cases hconf : configured C conf with
  | ok keys => exact publish_kept hconf hacquire.cached rfl
  | error e =>
    refine fun s₄ h₄ => ⟨trivial, fun _ _ => ?_⟩
    cases h₄.mine rfl
    exact ⟨hrelease, fun s' h' => ⟨hconf, h'.notMine nofun⟩⟩

/-- The end of a call: its answer, and the lock given back. -/
def Ended (C : KeyLibrary Key) (conf : KeySettings) (calls : Thread → Operation) (me : Thread)
    (op : Operation) (r : Except KeyError (Option Key)) (s : Cache Key) : Prop :=
  Answered C conf calls op r ∧ s.holder ≠ some me

theorem asserted_kept (g : Global) (hs : Cached C conf s) (hmine : s.holder ≠ some me)
    (hloaded : ¬Resets calls → (s.key .signingKey).isSome) :
    Kept C conf calls me (Ended C conf calls me (.get g)) (asserted g) s := by
  refine fun s₁ h₁ => ⟨trivial, fun _ _ => ⟨guaranteed_refl (h₁.cached hs), ?_⟩⟩
  have hmine₁ := h₁.notMine hmine
  show Behaves _ _ _ _ _ _ (if (s₁.key g).isSome then _ else _) s₁
  by_cases hfound : (s₁.key g).isSome
  · rw [if_pos hfound]
    refine fun s₂ h₂ => ⟨trivial, fun _ _ => ?_⟩
    have hs₂ := h₂.cached (h₁.cached hs)
    refine ⟨guaranteed_refl hs₂, fun s₃ h₃ => ⟨?_, h₃.notMine (h₂.notMine hmine₁)⟩⟩
    show Answered C conf calls (.get g) (.ok (s₂.key g))
    cases hk : s₂.key g with
    | some k => exact hs₂.only g k hk
    | none =>
      -- What was there is gone: some thread has reset the cache.
      refine Classical.byContradiction fun hno => ?_
      obtain ⟨k, hk'⟩ := Option.isSome_iff_exists.mp hfound
      cases hk.symm.trans (h₂.stays hno g k hk')
  · rw [if_neg hfound]
    refine fun s₂ h₂ => ⟨.inr ⟨rfl, ?_⟩, h₂.notMine hmine₁⟩
    refine Classical.byContradiction fun hno => ?_
    obtain ⟨hresets, hg⟩ := not_or.mp hno
    obtain ⟨k, hk⟩ := Option.isSome_iff_exists.mp (hloaded hresets)
    cases g with
    | publicKey => exact hg rfl
    | signingKey => exact hfound (by rw [h₁.stays hresets _ k hk]; rfl)

theorem get_kept (g : Global) (hs : Cached C conf s) (hmine : s.holder ≠ some me) :
    Kept C conf calls me (Ended C conf calls me (.get g))
      (do load C conf me; asserted g) s := by
  refine Behaves.bind environment_relied (load_kept hs hmine) (fun _ s' h => ?_)
    fun e s' h => ⟨.inl h.1, h.2⟩
  exact asserted_kept g h.1 h.2.1 h.2.2

theorem resetCache_kept (hcall : calls me = .resetCache) (hs : Cached C conf s)
    (hmine : s.holder ≠ some me) :
    Kept C conf calls me (Ended C conf calls me .resetCache) (resetCache me) s := by
  have hresets : Resets calls := ⟨me, hcall⟩
  refine fun s₁ h₁ => ⟨h₁.notMine hmine, fun hfree _ => ?_⟩
  have hacquire : Guaranteed C conf calls me s₁ { s₁ with holder := some me } :=
    guaranteed_acquire (h₁.cached hs) hfree
  refine ⟨hacquire, fun s₂ h₂ => ⟨trivial, fun _ _ => ?_⟩⟩
  cases h₂.mine rfl
  have hsigning : Guaranteed C conf calls me _
      (Cache.assign { s₁ with holder := some me } .signingKey none) :=
    guaranteed_assign hacquire.cached rfl nofun fun _ => hresets
  refine ⟨hsigning, fun s₃ h₃ => ⟨trivial, fun _ _ => ?_⟩⟩
  cases h₃.mine rfl
  have hpublic : Guaranteed C conf calls me _
      ((Cache.assign { s₁ with holder := some me } .signingKey none).assign .publicKey none) :=
    guaranteed_assign hsigning.cached rfl nofun fun _ => hresets
  refine ⟨hpublic, fun s₄ h₄ => ⟨trivial, fun _ _ => ?_⟩⟩
  cases h₄.mine rfl
  exact ⟨guaranteed_release hpublic.cached rfl rfl, fun s' h' => ⟨rfl, h'.notMine nofun⟩⟩

/-- Every call keeps to what the others rely on, whatever they do. -/
theorem cache_behaves (hs : Cached C conf s) (hmine : s.holder ≠ some me) :
    Kept C conf calls me (Ended C conf calls me (calls me)) ((calls me).prog C conf me) s := by
  cases hcall : calls me with
  | get g => cases g with
    | signingKey => exact get_kept .signingKey hs hmine
    | publicKey => exact get_kept .publicKey hs hmine
  | resetCache => exact resetCache_kept hcall hs hmine

/-- Nobody waits for ever: whoever is in the lock can go on. -/
theorem exists_enabled {c : Sys (keyLang Key) KeyError (Option Key) Thread (Cache Key)}
    (hkept : ∀ t, Kept C conf calls t (Ended C conf calls t (calls t)) (c.procs t) c.shared)
    {t : Thread} {st : KeyStmt Key} {k : KeyStmt.Ans st → KeyProg Key (Option Key)}
    (ht : c.procs t = .stmt st k) : ∃ u st k, c.procs u = .stmt st k ∧ Free st c.shared := by
  cases hheld : c.shared.holder with
  | none =>
    refine ⟨t, st, k, ht, ?_⟩
    cases st with
    | acquire me => exact hheld
    | _ => trivial
  | some u =>
    have hu := hkept u
    cases hp : c.procs u with
    | ret a =>
      rw [hp] at hu
      exact absurd hheld (hu _ (environment_relied.refl _)).2
    | fail e =>
      rw [hp] at hu
      exact absurd hheld (hu _ (environment_relied.refl _)).2
    | stmt st' k' =>
      rw [hp] at hu
      refine ⟨u, st', k', hp, ?_⟩
      have hwaits := (hu _ (environment_relied.refl _)).1
      cases st' with
      | acquire me => exact absurd hheld hwaits
      | _ => trivial

end

section

variable (C : KeyLibrary Key) (conf : KeySettings) (calls : Thread → Operation)

theorem cached_start : Cached C conf (start C conf calls).shared :=
  ⟨fun _ _ h => (nomatch h), fun _ => rfl⟩

theorem run_kept {sched : List (Thread × Unit)}
    (hsched : Along (Sys.step exec) (Sys.Enabled Free) (start C conf calls) sched) :
    Cached C conf ((start C conf calls).run exec sched).shared ∧
      ∀ t, Kept C conf calls t (Ended C conf calls t (calls t))
        (((start C conf calls).run exec sched).procs t)
        ((start C conf calls).run exec sched).shared :=
  Sys.along_behaves (fun _ => environment_relied)
    (fun _ _ hne _ _ _ h => relied_of_guaranteed hne h) (fun _ _ _ _ h => h.cached)
    (fun _ => cache_behaves (cached_start C conf calls) nofun) (cached_start C conf calls) hsched

/-- Whatever the threads call and in whatever order they step, only the keys of the configuration
are ever cached; each call ends with its key or with the error of the configuration, or without a
key, which takes a thread that resets the cache or a call for the public key; and while a call has
not ended, some thread can go on. -/
theorem keys_configured (sched : List (Thread × Unit))
    (hsched : Along (Sys.step exec) (Sys.Enabled Free) (start C conf calls) sched) :
    Cached C conf ((start C conf calls).run exec sched).shared ∧ ∀ t,
      (∀ k, ((start C conf calls).run exec sched).procs t = .ret k →
        Answered C conf calls (calls t) (.ok k)) ∧
      (∀ e, ((start C conf calls).run exec sched).procs t = .fail e →
        Answered C conf calls (calls t) (.error e)) ∧
      ∀ st k, ((start C conf calls).run exec sched).procs t = .stmt st k →
        ∃ u st k, ((start C conf calls).run exec sched).procs u = .stmt st k ∧
          Free st ((start C conf calls).run exec sched).shared := by
  obtain ⟨hcached, hkept⟩ := run_kept C conf calls hsched
  refine ⟨hcached, fun t => ⟨fun k hk => ?_, fun e he => ?_, fun st k hk => ?_⟩⟩
  · have ht := hkept t
    rw [hk] at ht
    exact (ht _ (environment_relied.refl _)).1
  · have ht := hkept t
    rw [he] at ht
    exact (ht _ (environment_relied.refl _)).1
  · exact exists_enabled hkept hk

/-- A library where a key is its PEM with its id. -/
def plainKeys : KeyLibrary String where
  importKey pem kid := if pem = "garbled" then .error (.invalidKey pem) else .ok (kid ++ ":" ++ pem)
  publicPem key := key ++ ".pub"

/-- Between the two assignments of one thread, another finds the signing key and not the public
one, and its assertion fails. -/
theorem keys_configured_racing :
    let conf : KeySettings := { privateKey := some "pem", kid := "k" }
    let calls : Thread → Operation := fun t => if t = 2 then .resetCache else .get .publicKey
    let sched : List (Thread × Unit) := [0, 0, 0, 0, 1, 1, 0, 0, 0, 0].map fun t => (t, ())
    Cached plainKeys conf ((start plainKeys conf calls).run exec sched).shared ∧
      ((start plainKeys conf calls).run exec sched).procs 1 = .fail .assertionError ∧
      ((start plainKeys conf calls).run exec sched).procs 0 = .ret (some "k:k:pem.pub") ∧
      Answered plainKeys conf calls (.get .publicKey) (.error .assertionError) := by
  intro conf calls sched
  have hrun := keys_configured plainKeys conf calls sched (by decide +kernel)
  exact ⟨hrun.1, rfl, rfl, (hrun.2 1).2.1 _ rfl⟩

end

end Keys
end Provenance
end Rekuest
