import Ztest.ClusterConfig.Impl

namespace ClusterConfig

section Spec

def AgreeElsewhere (env env' : Environ) : Prop := ∀ name, env (.other name) = env' (.other name)

def Determines (profile : Profile) : Prop :=
  ∀ env env', AgreeElsewhere env env' → ∀ v : Var, v.managed = true →
    apply profile true env v = apply profile true env' v

def StorageWhole (profile : Profile) (env : Environ) : Prop :=
  let after := apply profile false env
  (after .storageClass = env .storageClass ∧ after .snapshotClass = env .snapshotClass)
    ∨ (after .storageClass = profile.storageClass ∧ after .snapshotClass = profile.snapshotClass)

def RegistryWhole (profile : Profile) (env : Environ) : Prop :=
  let after := apply profile false env
  (after .registry = env .registry ∧ after .pushRegistry = env .pushRegistry)
    ∨ (after .registry = profile.pullAddress ∧ after .pushRegistry = profile.push)

-- The profile has a value for every variable that is only ever overwritten.
structure Pinned (profile : Profile) : Prop where
  context : profile.context.isSome
  storageDriver : profile.storageDriver.isSome
  runtime : profile.runtime.isSome
  pushSecret : profile.cls = .remote → profile.pushSecret.isSome

-- The environment does not occupy one registry with an address of its own and leave the other.
def RegistryUnmixed (profile : Profile) (env : Environ) : Prop :=
  profile.cls = .remote →
    occupied env .registry = occupied env .pushRegistry
      ∨ env .registry = profile.pullAddress
      ∨ env .pushRegistry = profile.push

end Spec

section Set

theorem set_of_ne {key v : Var} (hne : v ≠ key) (val : Option Text) (force : Bool) (env : Environ)
    : set key val force env v = env v := by
  unfold set
  split
  . rfl
  . split
    . exact Function.update_of_ne hne _ _
    . rfl

@[simp]
theorem set_force (key : Var) (val : Option Text) (env : Environ)
    : set key val true env key = val.or (env key) := by
  cases val with
  | none => simp [set]
  | some val => simp [set]

theorem set_defer (key : Var) (val : Option Text) (env : Environ)
    : set key val false env key = if occupied env key then env key else val.or (env key) := by
  cases val with
  | none => simp [set]
  | some val =>
    unfold set
    cases hocc : occupied env key with
    | false => simp
    | true => simp

theorem occupied_congr {env env' : Environ} {v : Var} (h : env v = env' v) : occupied env v = occupied env' v := by
  unfold occupied
  rw [h]

theorem remove_of_ne {key v : Var} (hne : v ≠ key) (env : Environ) : remove key env v = env v :=
  Function.update_of_ne hne _ _

@[simp]
theorem remove_self (key : Var) (env : Environ) : remove key env key = none :=
  Function.update_self ..

theorem setStoragePair_of_ne {v : Var} (hclass : v ≠ .storageClass) (hsnapshot : v ≠ .snapshotClass)
    (profile : Profile) (force : Bool) (env : Environ)
    : setStoragePair profile force env v = env v := by
  unfold setStoragePair
  cases profile.storageClass <;> cases profile.snapshotClass <;> dsimp only <;> split <;>
    simp [remove_of_ne, Function.update_of_ne, hclass, hsnapshot]

theorem setRegistry_of_ne {v : Var} (hpull : v ≠ .registry) (hpush : v ≠ .pushRegistry)
    (hsecret : v ≠ .pushSecret) (profile : Profile) (force : Bool) (env : Environ)
    : setRegistry profile force env v = env v := by
  unfold setRegistry
  cases profile.cls with
  | remote =>
    dsimp only
    rw [set_of_ne hsecret, set_of_ne hpush, set_of_ne hpull]
  | «local» =>
    dsimp only
    split
    . rw [remove_of_ne hsecret, remove_of_ne hpush, remove_of_ne hpull]
    . rfl

end Set

section Forced

-- The value of each variable after an explicit cluster, from the one before.
def forced (profile : Profile) : Var → Option Text → Option Text
  | .kubeContext, old => profile.context.or old
  | .clusterClass, _ => some (classStr profile.cls)
  | .storageDriver, old => profile.storageDriver.or old
  | .storageClass, _ => if profile.snapshotClass.isSome then profile.storageClass else none
  | .snapshotClass, _ => if profile.storageClass.isSome then profile.snapshotClass else none
  | .runtime, old => (profile.runtime.map runtimeStr).or old
  | .registry, old => match profile.cls with
    | .remote => profile.pullAddress.or old
    | .local => none
  | .pushRegistry, old => match profile.cls with
    | .remote => profile.push.or old
    | .local => none
  | .pushSecret, old => match profile.cls with
    | .remote => profile.pushSecret.or old
    | .local => none
  | .other _, old => old

theorem setStoragePair_force (profile : Profile) (env : Environ)
    : setStoragePair profile true env .storageClass
          = (if profile.snapshotClass.isSome then profile.storageClass else none)
        ∧ setStoragePair profile true env .snapshotClass
          = (if profile.storageClass.isSome then profile.snapshotClass else none) := by
  unfold setStoragePair
  cases profile.storageClass <;> cases profile.snapshotClass <;> simp [remove, pairWritable]

theorem apply_force (profile : Profile) (env : Environ) (v : Var)
    : apply profile true env v = forced profile v (env v) := by
  unfold apply
  cases v with
  | kubeContext => simp [setRegistry_of_ne, set_of_ne, setStoragePair_of_ne, forced]
  | clusterClass => simp [setRegistry_of_ne, set_of_ne, setStoragePair_of_ne, forced]
  | storageDriver => simp [setRegistry_of_ne, set_of_ne, setStoragePair_of_ne, forced]
  | storageClass => simp [setRegistry_of_ne, set_of_ne, forced, (setStoragePair_force profile _).1]
  | snapshotClass => simp [setRegistry_of_ne, set_of_ne, forced, (setStoragePair_force profile _).2]
  | runtime => simp [setRegistry_of_ne, set_of_ne, setStoragePair_of_ne, forced]
  | registry =>
    cases hcls : profile.cls <;>
      simp [setRegistry, hcls, set_of_ne, setStoragePair_of_ne, remove_of_ne, forced]
  | pushRegistry =>
    cases hcls : profile.cls <;>
      simp [setRegistry, hcls, set_of_ne, setStoragePair_of_ne, remove_of_ne, forced]
  | pushSecret =>
    cases hcls : profile.cls <;>
      simp [setRegistry, hcls, set_of_ne, setStoragePair_of_ne, forced]
  | other name => simp [setRegistry_of_ne, set_of_ne, setStoragePair_of_ne, forced]

theorem determines_iff_forced {profile : Profile}
    : Determines profile
        ↔
      ∀ v : Var, v.managed = true → ∀ old old', forced profile v old = forced profile v old' := by
  constructor
  . intro h v hv old old'
    have hagree : AgreeElsewhere (Function.update (fun _ => none) v old)
        (Function.update (fun _ => none) v old') := by
      intro name
      have hne : Var.other name ≠ v := by
        rintro rfl
        cases hv
      rw [Function.update_of_ne hne, Function.update_of_ne hne]
    have happly := h _ _ hagree v hv
    rw [apply_force, apply_force, Function.update_self, Function.update_self] at happly
    exact happly
  . intro h env env' _ v hv
    rw [apply_force, apply_force]
    exact h v hv _ _

end Forced

section Valid

theorem validate_ok {profile : Profile} (h : profile.validate = .ok ())
    : (profile.storageClass.isSome = profile.snapshotClass.isSome)
        ∧ (profile.cls = .remote → profile.push.isSome) := by
  unfold Profile.validate at h
  split at h
  next => cases h
  next hpair =>
    split at h
    next => cases h
    next =>
      refine ⟨Classical.not_not.mp hpair, ?_⟩
      intro hcls
      unfold Profile.classCheck at h
      rw [hcls] at h
      dsimp only at h
      split at h
      next => cases h
      next hpush => exact Option.isSome_iff_ne_none.mpr fun hnone => hpush (by rw [hnone]; rfl)

theorem pullAddress_isSome {profile : Profile} (h : profile.push.isSome = true)
    : profile.pullAddress.isSome = true := by
  unfold Profile.pullAddress
  rw [Option.isSome_or, h, Bool.or_true]

end Valid

section Explicit

theorem or_eq_of_isSome {val : Option Text} (h : val.isSome = true) (old old' : Option Text)
    : val.or old = val.or old' := by
  rcases Option.isSome_iff_exists.mp h with ⟨v, rfl⟩
  rfl

theorem isSome_of_or_eq {val : Option Text} (h : ∀ old old', val.or old = val.or old') : val.isSome = true := by
  cases val with
  | none => cases h none (some [])
  | some v => rfl

theorem determines_iff {profile : Profile} (hvalid : profile.validate = .ok ())
    : Determines profile ↔ Pinned profile := by
  rw [determines_iff_forced]
  constructor
  . intro h
    constructor
    . exact isSome_of_or_eq (h .kubeContext rfl)
    . exact isSome_of_or_eq (h .storageDriver rfl)
    . have hruntime := isSome_of_or_eq (h .runtime rfl)
      rwa [Option.isSome_map] at hruntime
    . intro hcls
      have hsecret := h .pushSecret rfl
      simp only [forced, hcls] at hsecret
      exact isSome_of_or_eq hsecret
  . intro h v hv old old'
    have hpush := (validate_ok hvalid).2
    cases v with
    | kubeContext => exact or_eq_of_isSome h.context _ _
    | clusterClass => rfl
    | storageDriver => exact or_eq_of_isSome h.storageDriver _ _
    | storageClass => rfl
    | snapshotClass => rfl
    | runtime => exact or_eq_of_isSome (by rw [Option.isSome_map]; exact h.runtime) _ _
    | registry =>
      cases hcls : profile.cls with
      | remote =>
        simp only [forced, hcls]
        exact or_eq_of_isSome (pullAddress_isSome (hpush hcls)) _ _
      | «local» => simp only [forced, hcls]
    | pushRegistry =>
      cases hcls : profile.cls with
      | remote =>
        simp only [forced, hcls]
        exact or_eq_of_isSome (hpush hcls) _ _
      | «local» => simp only [forced, hcls]
    | pushSecret =>
      cases hcls : profile.cls with
      | remote =>
        simp only [forced, hcls]
        exact or_eq_of_isSome (h.pushSecret hcls) _ _
      | «local» => simp only [forced, hcls]
    | other name => cases hv

end Explicit

section Deferred

theorem storageWhole_of_valid {profile : Profile} (hvalid : profile.validate = .ok ()) (env : Environ)
    : StorageWhole profile env := by
  have hpair := (validate_ok hvalid).1
  unfold StorageWhole apply setStoragePair
  cases hclass : profile.storageClass with
  | none =>
    left
    simp [setRegistry_of_ne, set_of_ne]
  | some cls =>
    cases hsnapshot : profile.snapshotClass with
    | none =>
      rw [hclass, hsnapshot] at hpair
      cases hpair
    | some snapshot =>
      dsimp only
      split
      . right
        simp [setRegistry_of_ne, set_of_ne]
      . left
        simp [setRegistry_of_ne, set_of_ne]

theorem apply_eq_setRegistry (profile : Profile) (env : Environ)
    : ∃ env', apply profile false env = setRegistry profile false env'
        ∧ env' .registry = env .registry ∧ env' .pushRegistry = env .pushRegistry := by
  refine ⟨_, rfl, ?_, ?_⟩
  . simp [set_of_ne, setStoragePair_of_ne]
  . simp [set_of_ne, setStoragePair_of_ne]

theorem apply_registry {profile : Profile} (hcls : profile.cls = .remote) (hpush : profile.push.isSome = true)
    (env : Environ)
    : apply profile false env .registry
          = (if occupied env .registry then env .registry else profile.pullAddress)
        ∧ apply profile false env .pushRegistry
          = (if occupied env .pushRegistry then env .pushRegistry else profile.push) := by
  rcases Option.isSome_iff_exists.mp hpush with ⟨push, hpushed⟩
  rcases Option.isSome_iff_exists.mp (pullAddress_isSome hpush) with ⟨pull, hpulled⟩
  rcases apply_eq_setRegistry profile env with ⟨env', happly, hpullOld, hpushOld⟩
  rw [happly, ← occupied_congr hpullOld, ← occupied_congr hpushOld, ← hpullOld, ← hpushOld]
  unfold setRegistry
  simp only [hcls, hpushed, hpulled]
  constructor
  . simp [set_of_ne, set_defer]
  . have hsame : set .registry (some pull) false env' .pushRegistry = env' .pushRegistry :=
      set_of_ne (by decide) _ _ _
    simp [set_of_ne, set_defer, occupied_congr hsame]

theorem apply_local_registry {profile : Profile} (hcls : profile.cls = .local) (env : Environ)
    : apply profile false env .registry = env .registry
        ∧ apply profile false env .pushRegistry = env .pushRegistry := by
  rcases apply_eq_setRegistry profile env with ⟨env', happly, hpullOld, hpushOld⟩
  rw [happly, ← hpullOld, ← hpushOld]
  unfold setRegistry
  simp [hcls]

theorem registryWhole_iff {profile : Profile} (hvalid : profile.validate = .ok ()) (env : Environ)
    : RegistryWhole profile env ↔ RegistryUnmixed profile env := by
  unfold RegistryWhole RegistryUnmixed
  cases hcls : profile.cls with
  | «local» =>
    constructor
    . intro _ hremote
      cases hremote
    . intro _
      exact .inl (apply_local_registry hcls env)
  | remote =>
    rcases apply_registry hcls ((validate_ok hvalid).2 hcls) env with ⟨hpull, hpush⟩
    dsimp only
    rw [hpull, hpush]
    cases occupied env .registry <;> cases occupied env .pushRegistry <;> simp [eq_comm, or_comm]

end Deferred

/--
An explicit cluster determines the target exactly if the profile pins all that is only overwritten. A
default one never mixes the storage pair, and mixes the registries exactly if the environment occupies
one of them alone.
-/
theorem apply_determines_iff {profile : Profile} (hvalid : profile.validate = .ok ()) (env : Environ)
    : Determines profile ∧ StorageWhole profile env ∧ RegistryWhole profile env
        ↔
      Pinned profile ∧ RegistryUnmixed profile env := by
  rw [determines_iff hvalid, registryWhole_iff hvalid]
  constructor
  . rintro ⟨hpinned, _, hregistry⟩
    exact ⟨hpinned, hregistry⟩
  . rintro ⟨hpinned, hregistry⟩
    exact ⟨hpinned, storageWhole_of_valid hvalid env, hregistry⟩

theorem activate_explicit {name : Text} {cfg : Config} {inCluster : Bool} {contexts : List Text}
    {env env' : Environ} {bound : Option Text}
    (h : activate (some name) cfg inCluster contexts env = .ok (env', bound))
    : ∃ profile, cfg.clusters.lookup name = some profile ∧ profile.validate = .ok ()
        ∧ env' = apply profile true env ∧ bound = some name := by
  unfold activate at h
  split at h
  next => cases h
  next =>
    rw [Option.some_or] at h
    dsimp only at h
    split at h
    next => cases h
    next profile hlookup =>
      split at h
      next => cases h
      next hvalid =>
        split at h
        next => cases h
        next =>
          injection h with heq
          rw [Prod.mk.injEq] at heq
          exact ⟨profile, hlookup, hvalid, heq.1.symm, heq.2.symm⟩

namespace Sample

def remote : Profile where
  context := none
  push := some ['g']
  pull := none
  pushSecret := none
  storageDriver := none
  storageClass := none
  snapshotClass := none
  runtime := none
  cls := .remote

def pinned : Profile :=
  { remote with
    context := some ['c']
    pushSecret := some ['s']
    storageDriver := some ['d']
    runtime := some .podman }

def shell : Environ
  | .kubeContext => some ['p']
  | .registry => some ['l']
  | _ => none

end Sample

theorem pinned_determines : Determines Sample.pinned ∧ StorageWhole Sample.pinned (fun _ => none)
    ∧ RegistryWhole Sample.pinned (fun _ => none) := by
  have hvalid : Sample.pinned.validate = .ok () := by decide
  apply (apply_determines_iff hvalid _).mpr
  refine ⟨⟨rfl, rfl, rfl, fun _ => rfl⟩, ?_⟩
  intro _
  exact .inl rfl

theorem shell_leaks : Sample.remote.validate = .ok () ∧ ¬ Determines Sample.remote
    ∧ ¬ RegistryWhole Sample.remote Sample.shell := by
  refine ⟨by decide, ?_, ?_⟩
  . intro h
    have hleak := h Sample.shell (fun _ => none) (fun _ => rfl) .kubeContext rfl
    exact absurd hleak (by decide)
  . unfold RegistryWhole
    decide

end ClusterConfig
