import Ztest.Resource.Graph.Lemmas.Changes

namespace Resource
namespace Provisioning

variable {g : Graph} {cap : Nat} {s s' : Provisioning}

def left (s : Provisioning) (g : Graph) : Nat :=
  g.nodes.entries.countP fun e => !(s.state.lookup e.1).any NodeState.isTerminal

theorem countP_change_le {x : NodeId} (st : NodeState)
    (h : st.isTerminal = false → ∀ old, s.state.lookup x = some old → old.isTerminal = false)
    (es : List (Sigma fun _ : NodeId => Provider))
    : (es.countP fun e => !((s.change x st).state.lookup e.1).any NodeState.isTerminal)
        ≤
      es.countP fun e => !(s.state.lookup e.1).any NodeState.isTerminal := by
  apply List.countP_mono_left
  intro e _ he
  rw [lookup_change] at he
  split at he
  . next heq =>
    subst heq
    have hst : st.isTerminal = false := by simpa using he
    cases hold : s.state.lookup e.1 with
    | none => rfl
    | some old => simp [h hst old hold]
  . exact he

theorem left_change_lt {x : NodeId} {node : Provider} {old st : NodeState}
    (hnode : g.nodes.lookup x = some node) (hx : s.state.lookup x = some old)
    (hold : old.isTerminal = false) (hst : st.isTerminal = true)
    : (s.change x st).left g < s.left g := by
  have hle := countP_change_le (s := s) (x := x) st (by simp [hst])
  obtain ⟨pre, post, hsplit⟩ := List.append_of_mem (Graph.mem_entries_iff (e := ⟨x, node⟩).mpr hnode)
  have h₁ := hle pre
  have h₂ := hle post
  unfold left
  rw [hsplit]
  simp only [List.countP_append, List.countP_cons, lookup_change_self, hx, Option.any_some, hst,
    hold, Bool.not_true, Bool.not_false, if_true]
  simp only [Bool.false_eq_true, if_false]
  omega

theorem left_step_le (h : Futures g cap s) (hstep : Change g cap s s') : s'.left g ≤ s.left g := by
  cases hstep with
  | block e hmem hpending hdep =>
    apply countP_change_le
    intro hst
    cases hst
  | start e hmem hpending hdeps hfree =>
    apply countP_change_le
    intro _ old hold
    rw [hpending] at hold
    cases hold
    rfl
  | finish i future hget =>
    apply countP_change_le
    intro _ old hold
    rw [(h.futures future (List.mem_of_getElem? hget)).2] at hold
    cases hold
    rfl

theorem left_changes_le (h : Inv g cap s) (hsteps : Relation.ReflTransGen (Change g cap) s s')
    : s'.left g ≤ s.left g := by
  induction hsteps with
  | refl => exact Nat.le_refl _
  | tail hsteps hstep ih =>
    have := left_step_le (h.changes hsteps).futures hstep
    omega

theorem left_finish_lt (h : Futures g cap s) {i : Nat} {future : NodeId × Provider}
    (hget : s.inflight[i]? = some future)
    : (s.finish i future).left g < s.left g := by
  obtain ⟨hnode, hacq⟩ := h.futures future (List.mem_of_getElem? hget)
  apply left_change_lt hnode hacq rfl
  rcases runOne_cases future.2 with hr | ⟨detail, hr⟩ <;> simp [hr, NodeState.isTerminal]

theorem left_next_lt (h : Futures g cap s) (hne : s.inflight ≠ []) (choice : Nat)
    : (s.next choice).left g < s.left g := by
  have hlt : choice % s.inflight.length < s.inflight.length :=
    Nat.mod_lt _ (List.length_pos_of_ne_nil hne)
  unfold next
  rw [List.getElem?_eq_getElem hlt]
  exact left_finish_lt h (List.getElem?_eq_getElem hlt)

theorem left_foldl_block_le (es : List (Sigma fun _ : NodeId => Provider)) (s : Provisioning)
    : (es.foldl block s).left g ≤ s.left g := by
  induction es generalizing s with
  | nil => exact Nat.le_refl _
  | cons e es ih =>
    apply (ih _).trans
    apply countP_change_le
    intro hst
    cases hst

theorem left_round_lt (h : Inv g cap s) (hblock : s.toBlock g ≠ [])
    : (s.round g cap).left g < s.left g := by
  have hstarts := left_changes_le (h.changes foldl_toBlock) (start_changes h.futures)
  obtain ⟨e, es, hes⟩ := List.exists_cons_of_ne_nil hblock
  have hmem : e ∈ s.toBlock g := hes ▸ List.mem_cons_self
  obtain ⟨hentry, hpending, _⟩ := mem_toBlock.mp hmem
  have hfirst : (s.block e).left g < s.left g :=
    left_change_lt (Graph.mem_entries_iff.mp hentry) hpending rfl rfl
  have hrest : ((s.toBlock g).foldl block s).left g ≤ (s.block e).left g := by
    rw [hes, List.foldl_cons]
    apply left_foldl_block_le
  omega

/--
A round that blocks nothing and leaves nothing in flight found no pending node.
-/
theorem settled_of_idle (hexec : g.Executable) (h : Inv g cap s) (hcap : 0 < cap)
    (hblock : s.toBlock g = []) (hidle : (s.round g cap).inflight = [])
    : s.round g cap = s ∧ ∀ x, x ∈ g.nodes →
        ∃ st, s.state.lookup x = some st ∧ st.isTerminal = true := by
  have hround : s.round g cap = ((s.toRun g).take (cap - s.inflight.length)).foldl start s := by
    unfold round
    rw [hblock]
    rfl
  rw [hround, inflight_foldl_start, List.append_eq_nil_iff, List.map_eq_nil_iff] at hidle
  obtain ⟨hinflight, htake⟩ := hidle
  have hrun : s.toRun g = [] := by
    rw [hinflight, List.take_eq_nil_iff] at htake
    rcases htake with hzero | hnil
    . simp at hzero
      omega
    . exact hnil
  refine ⟨by rw [hround, htake, List.foldl_nil], ?_⟩
  -- A pending node none of whose dependencies is pending is either blocked or run by the round.
  have hnone : ∀ x, s.state.lookup x ≠ some .pending := by
    intro x hx
    obtain ⟨y, hy, hfirst⟩ := hexec.acyclic.exists_first (fun _ _ => hexec.mem_keys)
      (P := fun x => s.state.lookup x = some .pending) hx
    have hmem : y ∈ g.nodes := (h.states.known y).mp (by simp [hy])
    obtain ⟨node, hnode⟩ := Option.isSome_iff_exists.mp (AList.lookup_isSome.mpr hmem)
    have hentry : ⟨y, node⟩ ∈ g.nodes.entries := Graph.mem_entries_iff.mpr hnode
    by_cases hun : s.depUnavailable node = true
    . have : ⟨y, node⟩ ∈ s.toBlock g := mem_toBlock.mpr ⟨hentry, hy, hun⟩
      rw [hblock] at this
      cases this
    . have hready : s.depsReady node = true := by
        rw [depsReady_iff]
        intro d hd
        have hdep : g.DependsOn y d := ⟨node, hnode, hd⟩
        obtain ⟨st, hst⟩ :=
          Option.isSome_iff_exists.mp ((h.states.known d).mpr (hexec.known y d hdep))
        cases st with
        | pending => exact absurd hdep (hfirst d hst)
        | acquiring =>
          have := h.futures.acquiring d hst
          rw [hinflight] at this
          cases this
        | ready => exact hst
        | failed detail => exact absurd (depUnavailable_iff.mpr ⟨d, hd, _, hst, rfl⟩) hun
        | blocked => exact absurd (depUnavailable_iff.mpr ⟨d, hd, _, hst, rfl⟩) hun
      have : ⟨y, node⟩ ∈ s.toRun g :=
        mem_toRun.mpr ⟨hentry, hy, by simpa using hun, hready⟩
      rw [hrun] at this
      cases this
  intro x hx
  obtain ⟨st, hst⟩ := Option.isSome_iff_exists.mp ((h.states.known x).mpr hx)
  refine ⟨st, hst, ?_⟩
  cases st with
  | pending => exact absurd hst (hnone x)
  | acquiring =>
    have := h.futures.acquiring x hst
    rw [hinflight] at this
    cases this
  | ready => rfl
  | failed detail => rfl
  | blocked => rfl

theorem loop_ok (hexec : g.Executable) (hcap : 0 < cap) (pick : Nat → Nat) {fuel : Nat}
    (h : Inv g cap s) (hfuel : s.left g < fuel)
    : ∃ s', loop g cap pick fuel s = some s' ∧ Inv g cap s' ∧
        ∀ x, x ∈ g.nodes → ∃ st, s'.state.lookup x = some st ∧ st.isTerminal = true := by
  induction fuel generalizing s with
  | zero => omega
  | succ fuel ih =>
    have hround := h.changes (round_changes h.futures)
    have hle := left_changes_le h (round_changes h.futures)
    unfold loop
    dsimp only
    split
    . next hidle =>
      rw [List.isEmpty_iff] at hidle
      split
      . next hblock =>
        have hlt := left_round_lt h (by simpa using hblock)
        exact ih hround (by omega)
      . next hblock =>
        obtain ⟨heq, hsettled⟩ := settled_of_idle hexec h hcap (by simpa using hblock) hidle
        rw [heq]
        exact ⟨s, rfl, h, hsettled⟩
    . next hbusy =>
      rw [List.isEmpty_iff] at hbusy
      have hnext := hround.changes (.single (next_change hbusy (pick fuel)))
      have hlt := left_next_lt hround.futures hbusy (pick fuel)
      exact ih hnext (by omega)

theorem depsReady_not_depUnavailable {node : Provider} (h : s.depsReady node = true)
    : s.depUnavailable node = false := by
  rw [Bool.eq_false_iff]
  intro hun
  obtain ⟨d, hd, st, hst, hun⟩ := depUnavailable_iff.mp hun
  rw [depsReady_iff.mp h d hd] at hst
  cases hst
  cases hun

/--
The final state of a node is settled by the final states of what it depends on and by its own
provider.
-/
theorem States.final_eq (h : States g s) {x : NodeId} {node : Provider} {st : NodeState}
    (hnode : g.nodes.lookup x = some node) (hst : s.state.lookup x = some st)
    (hterm : st.isTerminal = true)
    : st = if s.depsReady node then runOne node else .blocked := by
  split
  . next hready =>
    apply h.own x node st hnode hst hterm
    intro hblocked
    have hun := h.blocked x node hnode (hblocked ▸ hst)
    rw [depsReady_not_depUnavailable hready] at hun
    cases hun
  . next hready =>
    by_contra hne
    apply hready
    apply h.depsReady x node st hnode hst _ hne
    intro hpending
    rw [hpending] at hterm
    cases hterm

def Settled (g : Graph) (s : Provisioning) : Prop :=
  ∀ x, x ∈ g.nodes → ∃ st, s.state.lookup x = some st ∧ st.isTerminal = true

theorem lookup_eq_of_settled {g' : Graph} (hexec : g.Executable)
    (hg : ∀ x, g'.nodes.lookup x = g.nodes.lookup x) (h : States g s) (h' : States g' s')
    (hs : Settled g s) (hs' : Settled g' s') (x : NodeId)
    : s'.state.lookup x = s.state.lookup x := by
  apply hexec.acyclic.induction (fun _ _ => hexec.mem_keys)
    (P := fun x => s'.state.lookup x = s.state.lookup x)
  intro x ih
  have hmem : x ∈ g'.nodes ↔ x ∈ g.nodes := by
    rw [← AList.lookup_isSome, hg, AList.lookup_isSome]
  by_cases hx : x ∈ g.nodes
  . obtain ⟨node, hnode⟩ := Option.isSome_iff_exists.mp (AList.lookup_isSome.mpr hx)
    obtain ⟨st, hst, hterm⟩ := hs x hx
    obtain ⟨st', hst', hterm'⟩ := hs' x (hmem.mpr hx)
    have hdeps : s'.depsReady node = s.depsReady node := by
      rw [Bool.eq_iff_iff, depsReady_iff, depsReady_iff]
      constructor
      . intro hall d hd
        rw [← ih d ⟨node, hnode, hd⟩]
        exact hall d hd
      . intro hall d hd
        rw [ih d ⟨node, hnode, hd⟩]
        exact hall d hd
    rw [hst, hst', h.final_eq hnode hst hterm, h'.final_eq ((hg x).trans hnode) hst' hterm', hdeps]
  . have hnone : s.state.lookup x = none := by
      rw [← Option.not_isSome_iff_eq_none, h.known x]
      exact hx
    have hnone' : s'.state.lookup x = none := by
      rw [← Option.not_isSome_iff_eq_none, h'.known x, hmem]
      exact hx
    rw [hnone, hnone']

theorem blocked_iff (hexec : g.Executable) (h : States g s) (hs : Settled g s) {x : NodeId}
    (hx : x ∈ g.nodes)
    : s.state.lookup x = some .blocked ↔
        ∃ y, Relation.TransGen g.DependsOn x y ∧
          ∃ detail, s.state.lookup y = some (.failed detail) := by
  constructor
  . -- A blocked node has a failed dependency, or a blocked one with a failed node below it.
    revert x
    suffices hall : ∀ x, s.state.lookup x = some .blocked →
        ∃ y, Relation.TransGen g.DependsOn x y ∧
          ∃ detail, s.state.lookup y = some (.failed detail) from fun {x} _ => hall x
    intro x
    apply hexec.acyclic.induction (fun _ _ => hexec.mem_keys)
      (P := fun x => s.state.lookup x = some .blocked →
        ∃ y, Relation.TransGen g.DependsOn x y ∧
          ∃ detail, s.state.lookup y = some (.failed detail))
    intro x ih hblocked
    have hx : x ∈ g.nodes := (h.known x).mp (by simp [hblocked])
    obtain ⟨node, hnode⟩ := Option.isSome_iff_exists.mp (AList.lookup_isSome.mpr hx)
    obtain ⟨d, hd, st, hst, hun⟩ := depUnavailable_iff.mp (h.blocked x node hnode hblocked)
    have hdep : g.DependsOn x d := ⟨node, hnode, hd⟩
    cases st with
    | failed detail => exact ⟨d, .single hdep, detail, hst⟩
    | blocked =>
      obtain ⟨y, hy, hfailed⟩ := ih d hdep hst
      exact ⟨y, .head hdep hy, hfailed⟩
    | pending => cases hun
    | acquiring => cases hun
    | ready => cases hun
  . rintro ⟨y, hy, detail, hfailed⟩
    -- The other way round the walk goes up from the failed node.
    induction hy using Relation.TransGen.head_induction_on with
    | single hdep =>
      obtain ⟨node, hnode, hd⟩ := hdep
      obtain ⟨st, hst, hterm⟩ := hs _ hx
      rw [hst, h.final_eq hnode hst hterm, if_neg]
      intro hready
      rw [depsReady_iff.mp hready _ hd] at hfailed
      cases hfailed
    | head hdep _ ih =>
      have hblocked := ih (hexec.known _ _ hdep)
      obtain ⟨node, hnode, hd⟩ := hdep
      obtain ⟨st, hst, hterm⟩ := hs _ hx
      rw [hst, h.final_eq hnode hst hterm, if_neg]
      intro hready
      rw [depsReady_iff.mp hready _ hd] at hblocked
      cases hblocked

end Provisioning

/--
What a completed forward pass guarantees, `s` being its end: the final states, and what the calls of
`on_change` say about every moment on the way.
-/
structure Provisioned (g : Graph) (maxConcurrent : Nat) (s : Provisioning) : Prop where
  nodes : ∀ x, (s.state.lookup x).isSome = true ↔ x ∈ g.nodes
  terminal : ∀ x st, s.state.lookup x = some st → st.isTerminal = true
  blocked : ∀ x, x ∈ g.nodes → (s.state.lookup x = some .blocked ↔
    ∃ y, Relation.TransGen g.DependsOn x y ∧ ∃ detail, s.state.lookup y = some (.failed detail))
  failed : ∀ x node detail, g.nodes.lookup x = some node →
    s.state.lookup x = some (.failed detail) → runOne node = .failed detail
  -- What a node ends as is its provider's answer, where nothing it needs is missing.
  provided : ∀ x node, g.nodes.lookup x = some node → (∀ d ∈ node.deps, s.state.lookup d = some .ready) →
    s.state.lookup x = some (runOne node)
  startedOnce : ∀ x, s.changes.countP (· = (x, .acquiring)) ≤ 1
  startedAfter : Trace.Before (fun pre c => c.2 = .acquiring →
    ∀ y, g.DependsOn c.1 y → (y, .ready) ∈ pre) s.changes
  inflight : Trace.Always (fun pre =>
    Provisioning.starts pre ≤ Provisioning.ends pre + max maxConcurrent 1) s.changes
  reports : ∀ x, x ∈ g.nodes →
    s.reports x = [.acquiring, .ready] ∨ (∃ detail, s.reports x = [.acquiring, .failed detail]) ∨
      s.reports x = [.blocked]

namespace Provisioning

variable {g : Graph} {s : Provisioning}

theorem countP_acquiring_le (h : States g s) (x : NodeId)
    : s.changes.countP (· = (x, .acquiring)) ≤ 1 := by
  have hcount : s.changes.countP (· = (x, .acquiring)) = (s.reports x).countP (· = .acquiring) := by
    unfold reports
    rw [List.countP_map, List.countP_filter]
    apply List.countP_congr
    intro c _
    simp [Prod.ext_iff, and_comm]
  rw [hcount, h.reports]
  cases s.state.lookup x with
  | none => simp
  | some st => cases st <;> simp [NodeState.path]

end Provisioning

theorem Graph.inv_init (g : Graph) (cap : Nat)
    : Provisioning.Inv g cap
        ⟨(g.nodes.entries.map fun e => ⟨e.1, NodeState.pending⟩).toAList, [], []⟩ := by
  have hlookup := lookup_collect (fun _ => NodeState.pending) g
  have hpending : ∀ x st, ((g.nodes.entries.map fun e => (⟨e.1, NodeState.pending⟩ :
      Sigma fun _ : NodeId => NodeState)).toAList).lookup x = some st → st = .pending := by
    intro x st hst
    rw [hlookup, Option.map_eq_some_iff] at hst
    obtain ⟨_, _, heq⟩ := hst
    exact heq.symm
  constructor
  . constructor
    . intro x
      rw [hlookup, Option.isSome_map]
      exact AList.lookup_isSome
    . intro x node st _ hst hterm
      rw [hpending x st hst] at hterm
      cases hterm
    . intro x node st _ hst hne
      exact absurd (hpending x st hst) hne
    . intro x node _ hst
      cases hpending x _ hst
    . intro x
      rw [hlookup]
      cases g.nodes.lookup x <;> rfl
    . exact Trace.before_nil
  . constructor
    . intro f hf
      cases hf
    . exact List.nodup_nil
    . intro x hx
      cases hpending x _ hx
    . rfl
    . exact Nat.zero_le _
    . exact Trace.always_nil.mpr (Nat.zero_le _)

theorem Graph.provision_ok {g : Graph} (hexec : g.Executable) (maxConcurrent : Nat)
    (pick : Nat → Nat)
    : ∃ s, g.provision maxConcurrent pick = some s ∧
        Provisioning.Inv g (max maxConcurrent 1) s ∧ Provisioning.Settled g s := by
  apply Provisioning.loop_ok hexec (by omega) pick (g.inv_init _)
  apply Nat.lt_succ_of_le
  apply List.countP_le_length

theorem Provisioning.Inv.provisioned {g : Graph} {maxConcurrent : Nat} {s : Provisioning}
    (hexec : g.Executable) (h : Inv g (max maxConcurrent 1) s) (hs : Settled g s)
    : Provisioned g maxConcurrent s := by
  have hterminal : ∀ x st, s.state.lookup x = some st → st.isTerminal = true := by
    intro x st hst
    obtain ⟨st', hst', hterm⟩ := hs x ((h.states.known x).mp (by simp [hst]))
    rw [hst] at hst'
    cases hst'
    exact hterm
  refine ⟨h.states.known, hterminal, ?_, ?_, ?_, countP_acquiring_le h.states, h.states.startedAfter,
    h.futures.capped, ?_⟩
  . intro x hx
    exact blocked_iff hexec h.states hs hx
  . intro x node detail hnode hst
    exact (h.states.own x node _ hnode hst rfl (by simp)).symm
  . intro x node hnode hdeps
    obtain ⟨st, hst, hterm⟩ := hs x (AList.mem_of_lookup hnode)
    rw [hst, h.states.final_eq hnode hst hterm, if_pos (depsReady_iff.mpr hdeps)]
  . intro x hx
    obtain ⟨st, hst, hterm⟩ := hs x hx
    rw [h.states.reports, hst]
    cases st with
    | pending => cases hterm
    | acquiring => cases hterm
    | ready => exact .inl rfl
    | failed detail => exact .inr (.inl ⟨detail, rfl⟩)
    | blocked => exact .inr (.inr rfl)

theorem Graph.executable_congr {g g' : Graph} (hexec : g.Executable)
    (hg : ∀ x, g'.nodes.lookup x = g.nodes.lookup x)
    : g'.Executable := by
  have hdep : g'.DependsOn = g.DependsOn := by
    funext x y
    unfold DependsOn
    rw [hg]
  constructor
  . intro x y hxy
    rw [← AList.lookup_isSome, hg, AList.lookup_isSome]
    rw [hdep] at hxy
    exact hexec.known x y hxy
  . rw [hdep]
    exact hexec.acyclic

theorem Graph.provision_spec (g : Graph) (order : List NodeId) (horder : order.Perm g.nodes.keys)
    (hvalid : g.validate order = .ok (.ok ())) (maxConcurrent : Nat) (pick : Nat → Nat)
    : ∃ s, g.provision maxConcurrent pick = some s ∧ Provisioned g maxConcurrent s ∧
        ∀ g' maxConcurrent' pick' s', (∀ x, g'.nodes.lookup x = g.nodes.lookup x) →
          Graph.provision g' maxConcurrent' pick' = some s' →
          ∀ x, s'.state.lookup x = s.state.lookup x := by
  have hexec := ((validate_ok_iff horder).mp hvalid).1
  obtain ⟨s, hs, hinv, hsettled⟩ := provision_ok hexec maxConcurrent pick
  refine ⟨s, hs, hinv.provisioned hexec hsettled, ?_⟩
  intro g' maxConcurrent' pick' s' hg hs' x
  obtain ⟨t, ht, hinv', hsettled'⟩ :=
    provision_ok (executable_congr hexec hg) maxConcurrent' pick'
  rw [hs'] at ht
  cases ht
  exact Provisioning.lookup_eq_of_settled hexec hg hinv.states hinv'.states hsettled hsettled' x

theorem Graph.pair_provisioned
    : [NodeId.runIdentity, .buildkit].Perm (pair [.runIdentity]).nodes.keys ∧
      (pair [.runIdentity]).validate [.runIdentity, .buildkit] = .ok (.ok ()) ∧
      ∃ s, (pair [.runIdentity]).provision 0 id = some s ∧ Provisioned (pair [.runIdentity]) 0 s := by
  have horder : [NodeId.runIdentity, .buildkit].Perm (pair [.runIdentity]).nodes.keys := by decide
  have hvalid : (pair [.runIdentity]).validate [.runIdentity, .buildkit] = .ok (.ok ()) := by rfl
  obtain ⟨s, hs, hprov, _⟩ := provision_spec (pair [.runIdentity]) _ horder hvalid 0 id
  exact ⟨horder, hvalid, s, hs, hprov⟩

end Resource
