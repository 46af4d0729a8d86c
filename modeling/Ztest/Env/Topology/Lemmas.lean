import Ztest.Env.Topology.Impl
import Ztest.Lib.Collect
import Ztest.Lib.Label
import Ztest.Lib.Run

namespace Env

open Label (Valid isChar isAlnum)

-- Where the separators at the front are gone.
def word (name : Text) : Text := name.dropWhile fun c => !c.isAlphanum

-- The twentieth character of the word is a separator, and not one at the end.
def cutsAtSeparator (name : Text) : Bool :=
  (word name)[19]?.any (fun c => !c.isAlphanum) && ((word name).drop 20).any Char.isAlphanum

section Kind

variable {c : Char} {s : Text}

theorem kindChar_of_isAlphanum (h : c.isAlphanum = true) : kindChar c = c.toLower := by rw [kindChar, if_pos h]

theorem isChar_kindChar (c : Char) : isChar (kindChar c) = true := by
  unfold kindChar
  split
  next h => exact Label.isChar_of_isAlnum (Label.isAlnum_toLower h)
  next => rfl

theorem kindChar_eq_dash_iff : kindChar c = '-' ↔ c.isAlphanum = false := by
  cases h : c.isAlphanum with
  | true =>
    rw [kindChar_of_isAlphanum h]
    simpa using Label.ne_dash_of_isAlnum (Label.isAlnum_toLower h)
  | false => simp [kindChar, h]

theorem kindChar_of_isChar (h : isChar c = true) : kindChar c = c := by
  by_cases hdash : c = '-'
  . subst hdash
    rfl
  . have halnum := (Label.isAlnum_iff h).mpr hdash
    rw [kindChar_of_isAlphanum (Label.isAlphanum_of_isAlnum halnum), Label.toLower_of_isAlnum halnum]

def trimmed (s : Text) : Text := ((word s).map kindChar).rdropWhile (· = '-')

theorem shortKind_eq (s : Text) : shortKind s = if trimmed s = [] then ['x'] else (trimmed s).take 20 := by
  have hfront : (s.map kindChar).dropWhile (· = '-') = (word s).map kindChar := by
    have hdash : ((fun c => decide (c = '-')) ∘ kindChar) = fun c => !c.isAlphanum := by
      funext c
      rw [Bool.eq_iff_iff]
      simp [kindChar_eq_dash_iff]
    rw [List.dropWhile_map, hdash, word]
  unfold shortKind trimMatches
  dsimp only
  rw [hfront]
  rfl

theorem trimmed_front (s : Text) : trimmed s <+: (word s).map kindChar := List.rdropWhile_prefix _ _

theorem trimmed_head (s : Text) : (trimmed s).head? ≠ some '-' := by
  intro hhead
  rcases trimmed_front s with ⟨rest, happ⟩
  have hword : ((word s).map kindChar).head? = some '-' := by
    rw [← happ, List.head?_append, hhead]
    rfl
  rw [List.head?_map, Option.map_eq_some_iff] at hword
  rcases hword with ⟨c, hc, hdash⟩
  have hnot := List.head?_dropWhile_not (fun c : Char => !c.isAlphanum) s
  rw [word] at hc
  rw [hc] at hnot
  simp [kindChar_eq_dash_iff.mp hdash] at hnot

theorem trimmed_last (s : Text) : (trimmed s).getLast? ≠ some '-' := by
  intro hlast
  have hne : trimmed s ≠ [] := by
    rintro hnil
    rw [hnil] at hlast
    cases hlast
  have hnot := List.rdropWhile_last_not (fun c => decide (c = '-')) ((word s).map kindChar) hne
  rw [List.getLast?_eq_some_getLast hne, Option.some.injEq] at hlast
  exact hnot (decide_eq_true hlast)

theorem isChar_of_mem_trimmed (h : c ∈ trimmed s) : isChar c = true := by
  rcases List.mem_map.mp ((trimmed_front s).subset h) with ⟨d, _, rfl⟩
  exact isChar_kindChar d

theorem getElem?_trimmed {i : Nat} (h : i < (trimmed s).length) : (trimmed s)[i]? = (word s)[i]?.map kindChar := by
  rw [← List.getElem?_map]
  rcases trimmed_front s with ⟨rest, happ⟩
  rw [← happ, List.getElem?_append_left h]

theorem any_drop_word (n : Nat) : ((word s).drop n).any Char.isAlphanum = true ↔ n < (trimmed s).length := by
  rw [List.any_eq_true]
  constructor
  . rintro ⟨c, hc, halnum⟩
    by_contra hge
    have hrest : (word s).map kindChar = trimmed s ++ ((word s).map kindChar).rtakeWhile (· = '-') :=
      List.rdropWhile_append_rtakeWhile.symm
    have hmem : kindChar c ∈ ((word s).map kindChar).rtakeWhile (· = '-') := by
      have hdrop : kindChar c ∈ ((word s).map kindChar).drop n := by
        rw [← List.map_drop]
        exact List.mem_map_of_mem hc
      rw [hrest, List.drop_append, List.drop_eq_nil_of_le (by omega), List.nil_append] at hdrop
      exact List.mem_of_mem_drop hdrop
    have hdash := List.mem_rtakeWhile_imp hmem
    rw [decide_eq_true_eq, kindChar_eq_dash_iff, halnum] at hdash
    cases hdash
  . intro hlt
    have hlast := trimmed_last s
    rw [List.getLast?_eq_getElem?, getElem?_trimmed (by omega)] at hlast
    have hbound : (trimmed s).length - 1 < (word s).length := by
      have hle := (trimmed_front s).length_le
      rw [List.length_map] at hle
      omega
    rw [List.getElem?_eq_getElem hbound, Option.map_some, ne_eq, Option.some.injEq, kindChar_eq_dash_iff,
      Bool.not_eq_false] at hlast
    refine ⟨_, List.mem_of_getElem? (i := (trimmed s).length - 1 - n) ?_, hlast⟩
    rw [List.getElem?_drop, Nat.add_sub_cancel' (by omega), List.getElem?_eq_getElem hbound]

theorem getLast?_shortKind (s : Text) : (shortKind s).getLast? = some '-' ↔ cutsAtSeparator s = true := by
  rw [shortKind_eq, cutsAtSeparator, Bool.and_eq_true, any_drop_word]
  split
  next hnil => simp [hnil]
  next hne =>
    by_cases hlong : 20 < (trimmed s).length
    . have hcut : (trimmed s)[19]? = (word s)[19]?.map kindChar := getElem?_trimmed (by omega)
      rw [List.getLast?_take, if_neg (by decide)]
      cases hword : (word s)[19]? with
      | none =>
        rw [hword, Option.map_none, List.getElem?_eq_none_iff] at hcut
        omega
      | some c =>
        rw [hword] at hcut
        simp [hcut, hlong, kindChar_eq_dash_iff]
    . rw [List.take_of_length_le (by omega)]
      simp [hlong, trimmed_last s]

theorem valid_shortKind (h : cutsAtSeparator s = false) : Valid 20 (shortKind s) := by
  have hlast : (shortKind s).getLast? ≠ some '-' := by
    rw [ne_eq, getLast?_shortKind, h]
    nofun
  rw [shortKind_eq] at hlast ⊢
  split at hlast
  next hnil =>
    have hx : Valid ['x'].length ['x'] := Label.valid_of_isAlnum (by simp) (List.all_eq_true.mp rfl)
    rw [if_pos hnil]
    exact hx.mono (by decide)
  next hne =>
    rw [if_neg hne]
    have hchars : ∀ c ∈ (trimmed s).take 20, isChar c = true := fun c hc => isChar_of_mem_trimmed (List.mem_of_mem_take hc)
    constructor
    . simpa using hne
    . rw [Label.len_eq_length hchars, List.length_take]
      omega
    . exact hchars
    . rw [List.head?_take, if_neg (by decide)]
      exact trimmed_head s
    . exact hlast

theorem map_kindChar_of_valid {max : Nat} (h : Valid max s) : s.map kindChar = s := by
  rw [List.map_congr_left fun c hc => kindChar_of_isChar (h.chars c hc), List.map_id']

theorem shortKind_of_valid (h : Valid 20 s) : shortKind s = s := by
  have hfront : s.dropWhile (· = '-') = s := by
    rw [List.dropWhile_eq_self_iff]
    intro hpos hdash
    rw [decide_eq_true_eq] at hdash
    apply h.head
    rw [List.head?_eq_getElem?, List.getElem?_eq_getElem hpos, hdash]
  have hback : s.rdropWhile (· = '-') = s := by
    rw [List.rdropWhile_eq_self_iff]
    intro hne hdash
    rw [decide_eq_true_eq] at hdash
    apply h.last
    rw [List.getLast?_eq_some_getLast hne, hdash]
  unfold shortKind trimMatches
  dsimp only
  rw [map_kindChar_of_valid h, hfront, hback, if_neg h.ne_nil, List.take_of_length_le h.length_le]

end Kind

namespace TestEnv

variable {env : TestEnv} {create : List Text → PendingSharedVolume → Except EnvError (List Text)}

theorem insertAll_ok {seen names : List Text} (h : insertAll seen names = .ok ())
    : names.Nodup ∧ ∀ name ∈ names, name ∉ seen := by
  induction names generalizing seen with
  | nil => exact ⟨List.nodup_nil, nofun⟩
  | cons name names ih =>
    unfold insertAll at h
    split at h
    next => cases h
    next hnew =>
      rcases ih h with ⟨hnodup, hfresh⟩
      rw [List.nodup_cons, List.forall_mem_cons]
      refine ⟨⟨fun hmem => hfresh name hmem List.mem_cons_self, hnodup⟩, hnew, ?_⟩
      intro other hmem hseen
      exact hfresh other hmem (List.mem_cons_of_mem name hseen)

theorem nodup_of_validateTopology (h : env.validateTopology = .ok ()) : (env.components.map podNameOf).Nodup := by
  unfold validateTopology at h
  split at h
  next => cases h
  next =>
    split at h
    next => cases h
    next => exact (insertAll_ok h).1

theorem eq_of_podNameOf (h : env.validateTopology = .ok ()) {opts opts' : ComponentOpts} (hopts : opts ∈ env.components)
    (hopts' : opts' ∈ env.components) (heq : podNameOf opts = podNameOf opts')
    : opts = opts' := List.inj_on_of_nodup_map (nodup_of_validateTopology h) hopts hopts' heq

theorem peerTuplesFor_eq {opts : ComponentOpts}
    (h : ∀ name ∈ opts.peers, ∃ v ∈ env.pendingValidators, v.original = name)
    : env.peerTuplesFor opts = .ok (opts.peers.map fun name => (shortKind name, zebradP2p)) := by
  rw [peerTuplesFor, mapM_eq_ok_iff, List.forall₂_map_right_iff, List.forall₂_same]
  intro name hname
  rcases h name hname with ⟨v, hv, rfl⟩
  exact if_pos (List.mem_map_of_mem hv)

theorem claim_sharedVolumeSized (env : TestEnv) (name : Text) (disk : Disk)
    : (env.sharedVolumeSized name disk).1.claim = ['s', 'h', 'a', 'r', 'e', 'd', '-'] ++ shortKind name := rfl

-- Each declaration waits for its own claim.
theorem claims_sharedVolumes (env : TestEnv) (declared : List (Text × Disk))
    : (env.sharedVolumes declared).2.pendingSharedVolumes.map (·.claim)
        = env.pendingSharedVolumes.map (·.claim) ++ (env.sharedVolumes declared).1.map (·.claim) := by
  induction declared generalizing env with
  | nil => simp [sharedVolumes]
  | cons d declared ih =>
    simp only [sharedVolumes, ih]
    simp [sharedVolumeSized]

-- No object of the namespace gets the name of another.
def Refuses (create : List Text → PendingSharedVolume → Except EnvError (List Text)) : Prop :=
  ∀ held volume claims, create held volume = .ok claims → volume.claim ∉ held ∧ claims = held ++ [volume.claim]

theorem foldlM_create (hcreate : Refuses create) {held claims : List Text} {volumes : List PendingSharedVolume}
    (h : volumes.foldlM create held = .ok claims) (hheld : held.Nodup)
    : claims = held ++ volumes.map (·.claim) ∧ claims.Nodup := by
  induction volumes generalizing held with
  | nil =>
    cases h
    exact ⟨(List.append_nil _).symm, hheld⟩
  | cons volume volumes ih =>
    rw [List.foldlM_cons] at h
    rcases Run.bind_ok h with ⟨mid, hmid, hrest⟩
    rcases hcreate held volume mid hmid with ⟨hnew, rfl⟩
    have hnodup : (held ++ [volume.claim]).Nodup := by
      rw [List.nodup_append_comm, List.singleton_append, List.nodup_cons]
      exact ⟨hnew, hheld⟩
    have hall := ih hrest hnodup
    rw [List.append_assoc] at hall
    exact hall

theorem createSharedPvcs_ok (hcreate : Refuses create) {claims : List Text} (h : env.createSharedPvcs create = .ok claims)
    : claims = env.pendingSharedVolumes.map (·.claim) ∧ claims.Nodup := foldlM_create hcreate h List.nodup_nil

/--
Every component becomes a pod that the API server takes, and a name leads to what was made for it.
-/
structure Unambiguous (create : List Text → PendingSharedVolume → Except EnvError (List Text)) (env : TestEnv) : Prop where
  label : ∀ opts ∈ env.components, Valid 20 (podNameOf opts)
  distinct : (env.components.map podNameOf).Nodup
  idempotent : ∀ opts ∈ env.components, shortKind (podNameOf opts) = podNameOf opts
  -- The peers that are named after validators are found.
  found : ∀ opts : ComponentOpts, (∀ name ∈ opts.peers, ∃ v ∈ env.pendingValidators, v.original = name) →
    env.peerTuplesFor opts = .ok (opts.peers.map fun name => (shortKind name, zebradP2p))
  -- A host is the pod of the component with that name and of no other.
  resolved : ∀ opts ∈ env.components, ∀ opts' ∈ env.components, podNameOf opts' = shortKind opts.original ↔ opts' = opts
  -- A volume that is named after a component has the claim of that name and of no other.
  volume : ∀ opts ∈ env.components, ∀ opts' ∈ env.components, ∀ disk disk',
    (env.sharedVolumeSized opts'.original disk').1.claim = (env.sharedVolumeSized opts.original disk).1.claim ↔ opts' = opts
  -- Where all claims are created, each declaration has its own.
  created : ∀ declared claims, (env.sharedVolumes declared).2.createSharedPvcs create = .ok claims →
    ((env.sharedVolumes declared).1.map (·.claim)).Nodup ∧
      ∀ volume ∈ (env.sharedVolumes declared).1, claims.count volume.claim = 1

theorem unambiguous_iff (hcreate : Refuses create) (h : env.validateTopology = .ok ())
    : Unambiguous create env ↔ ∀ opts ∈ env.components, cutsAtSeparator opts.original = false := by
  constructor
  . intro hun opts hopts
    rw [Bool.eq_false_iff, ne_eq, ← getLast?_shortKind]
    exact (hun.label opts hopts).last
  . intro hcut
    have hlabel : ∀ opts ∈ env.components, Valid 20 (podNameOf opts) := fun opts hopts => valid_shortKind (hcut opts hopts)
    have hresolved : ∀ opts ∈ env.components, ∀ opts' ∈ env.components,
        podNameOf opts' = shortKind opts.original ↔ opts' = opts := by
      intro opts hopts opts' hopts'
      constructor
      . exact eq_of_podNameOf h hopts' hopts
      . rintro rfl
        rfl
    constructor
    . exact hlabel
    . exact nodup_of_validateTopology h
    . exact fun opts hopts => shortKind_of_valid (hlabel opts hopts)
    . exact fun opts hpeers => peerTuplesFor_eq hpeers
    . exact hresolved
    . intro opts hopts opts' hopts' disk disk'
      rw [claim_sharedVolumeSized, claim_sharedVolumeSized, List.append_cancel_left_eq]
      exact hresolved opts hopts opts' hopts'
    . intro declared claims hclaims
      rcases createSharedPvcs_ok hcreate hclaims with ⟨heq, hnodup⟩
      rw [claims_sharedVolumes] at heq
      refine ⟨(heq ▸ hnodup).of_append_right, ?_⟩
      intro volume hvolume
      apply List.count_eq_one_of_mem hnodup
      rw [heq]
      exact List.mem_append_right _ (List.mem_map_of_mem hvolume)

-- A namespace that holds one claim of a name.
def createPvc (held : List Text) (volume : PendingSharedVolume) : Except EnvError (List Text) :=
  if volume.claim ∈ held then .error (.api ['4', '0', '9']) else .ok (held ++ [volume.claim])

theorem refuses_createPvc : Refuses createPvc := by
  intro held volume claims h
  unfold createPvc at h
  split at h
  next => cases h
  next hnew =>
    cases h
    exact ⟨hnew, rfl⟩

def ofValidator (name : Text) : TestEnv where
  pendingValidators := [⟨some name, [name]⟩]
  pendingIndexers := []
  pendingWallets := []
  pendingSharedVolumes := []

def regtestNode : Text := ['z', 'e', 'b', 'r', 'a', 'd', '-', 'r', 'e', 'g', 't', 'e', 's', 't', '-', 'n', 'o', 'd', 'e']

-- Two validators, one of them the peer of the other, and an indexer whose volume waits for its claim.
def peered : TestEnv where
  pendingValidators := [⟨some regtestNode, [['M', 'i', 'n', 'e', 'r', '.', '1']]⟩, ⟨some ['M', 'i', 'n', 'e', 'r', '.', '1'], []⟩]
  pendingIndexers := [⟨some ['z', 'a', 'i', 'n', 'o'], []⟩]
  pendingWallets := []
  pendingSharedVolumes := [⟨['s', 'h', 'a', 'r', 'e', 'd', '-', 'z', 'a', 'i', 'n', 'o'], ⟨1073741824, none, none⟩⟩]

theorem unambiguous_peered : Unambiguous createPvc peered :=
  (unambiguous_iff refuses_createPvc rfl).mpr (by simp [components, peered, ComponentOpts.original]; decide)

-- `zebrad-regtest-node-1` becomes the pod `zebrad-regtest-node-`.
theorem not_unambiguous_numbered
    : Refuses createPvc ∧ (ofValidator (regtestNode ++ ['-', '1'])).validateTopology = .ok () ∧
        ¬Unambiguous createPvc (ofValidator (regtestNode ++ ['-', '1'])) := by
  refine ⟨refuses_createPvc, rfl, ?_⟩
  intro h
  have hpod : podNameOf ⟨some (regtestNode ++ ['-', '1']), [regtestNode ++ ['-', '1']]⟩ = regtestNode ++ ['-'] := by decide
  have hvalid := h.label _ List.mem_cons_self
  rw [hpod] at hvalid
  exact hvalid.last (by decide)

end TestEnv

end Env
