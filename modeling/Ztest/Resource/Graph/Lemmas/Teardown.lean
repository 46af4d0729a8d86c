import Ztest.Resource.Graph.Lemmas.Validate

/-!
This module contains the verification of the reverse pass. Only nodes that are ready and not cached
are torn down, everything else counts as gone from the start. A node is torn down when the nodes that
list it are gone, so the order is the reverse of the dependencies along chains of nodes that are torn
down, and a cached node in between cuts the chain.
-/

namespace Resource

def Graph.Reaped (g : Graph) (states : AList (fun _ : NodeId => NodeState)) (x : NodeId) : Prop :=
  ∃ node, g.nodes.lookup x = some node ∧ isReaped states ⟨x, node⟩ = true

def Graph.ReapedOn (g : Graph) (states : AList (fun _ : NodeId => NodeState)) (x y : NodeId)
    : Prop :=
  g.DependsOn x y ∧ g.Reaped states x ∧ g.Reaped states y

theorem Graph.mem_dependents {g : Graph} {x y : NodeId}
    : y ∈ g.dependents x ↔ g.DependsOn y x := by
  unfold dependents DependsOn
  simp only [List.mem_flatMap, List.mem_map, List.mem_filter, decide_eq_true_eq]
  constructor
  . rintro ⟨e, he, d, ⟨hd, rfl⟩, rfl⟩
    exact ⟨e.2, mem_entries_iff.mp he, hd⟩
  . rintro ⟨node, hnode, hx⟩
    exact ⟨⟨y, node⟩, mem_entries_iff.mpr hnode, x, ⟨hx, rfl⟩, rfl⟩

namespace Teardown

variable {g : Graph} {states : AList (fun _ : NodeId => NodeState)} {s s' : Teardown}

inductive Change (g : Graph) (s : Teardown) : Teardown → Prop where
  | launch (e : Sigma fun _ : NodeId => Provider) (hmem : e ∈ g.nodes.entries)
      (hremaining : e.1 ∈ s.remaining) (hnew : e.1 ∉ s.launched)
      (hgone : ∀ y, g.DependsOn y e.1 → y ∈ s.gone)
      : Change g s (s.launch e)
  | finish (i : Nat) (future : NodeId × Provider) (hget : s.inflight[i]? = some future)
      : Change g s (s.finish i future)

structure Inv (g : Graph) (states : AList (fun _ : NodeId => NodeState)) (s : Teardown) : Prop where
  remaining : ∀ x, x ∈ s.remaining ↔ g.Reaped states x ∧ x ∉ s.results.map (·.1)
  gone : ∀ x, x ∈ s.gone ↔ x ∈ g.nodes ∧ x ∉ s.remaining
  launched : ∀ x, x ∈ s.launched ↔ x ∈ s.inflight.map (·.1) ∨ x ∈ s.results.map (·.1)
  futures : ∀ f ∈ s.inflight, g.nodes.lookup f.1 = some f.2 ∧ f.1 ∈ s.remaining
  nodup : (s.inflight.map (·.1) ++ s.results.map (·.1)).Nodup
  results : ∀ r ∈ s.results, g.Reaped states r.1 ∧
    ∃ node, g.nodes.lookup r.1 = some node ∧ r.2 = node.teardown
  started : ∀ f ∈ s.inflight, .started f.1 ∈ s.calls
  finished : ∀ r ∈ s.results, .finished r.1 r.2 ∈ s.calls
  finishedAfter : Trace.Before (fun pre c => ∀ x result, c = .finished x result →
    .started x ∈ pre) s.calls
  startedAfter : Trace.Before (fun pre c => ∀ x, c = .started x →
    ∀ y, g.Reaped states y → g.DependsOn y x → ∃ result, .finished y result ∈ pre) s.calls

theorem Inv.launch (h : Inv g states s) {e : Sigma fun _ : NodeId => Provider}
    (hmem : e ∈ g.nodes.entries) (hremaining : e.1 ∈ s.remaining) (hnew : e.1 ∉ s.launched)
    (hgone : ∀ y, g.DependsOn y e.1 → y ∈ s.gone)
    : Inv g states (s.launch e) := by
  rw [h.launched, not_or] at hnew
  refine ⟨h.remaining, h.gone, ?_, ?_, ?_, h.results, ?_, ?_, ?_, ?_⟩
  . intro x
    have := h.launched x
    simp only [Teardown.launch, List.mem_append, List.map_append, List.map_cons, List.map_nil,
      List.mem_singleton]
    tauto
  . intro f hf
    rcases List.mem_append.mp hf with hf | hf
    . exact h.futures f hf
    . rw [List.mem_singleton] at hf
      subst hf
      exact ⟨Graph.mem_entries_iff.mp hmem, hremaining⟩
  . have hperm : ((s.launch e).inflight.map (·.1) ++ s.results.map (·.1)).Perm
        (e.1 :: (s.inflight.map (·.1) ++ s.results.map (·.1))) := by
      simp only [Teardown.launch, List.map_append, List.map_cons, List.map_nil, List.append_assoc,
        List.singleton_append]
      apply List.perm_middle
    apply hperm.nodup_iff.mpr
    rw [List.nodup_cons, List.mem_append, not_or]
    exact ⟨hnew, h.nodup⟩
  . intro f hf
    rcases List.mem_append.mp hf with hf | hf
    . exact List.mem_append_left _ (h.started f hf)
    . rw [List.mem_singleton] at hf
      subst hf
      simp [Teardown.launch]
  . intro r hr
    exact List.mem_append_left _ (h.finished r hr)
  . apply h.finishedAfter.concat
    intro x result heq
    cases heq
  . apply h.startedAfter.concat
    intro x heq y hy hdep
    cases heq
    -- The dependent is gone and torn down, so its result is there.
    have hnot := ((h.gone y).mp (hgone y hdep)).2
    rw [h.remaining] at hnot
    have hresult : y ∈ s.results.map (·.1) := by
      by_contra hno
      exact hnot ⟨hy, hno⟩
    obtain ⟨r, hr, rfl⟩ := List.mem_map.mp hresult
    exact ⟨r.2, h.finished r hr⟩

theorem Inv.finish (h : Inv g states s) {i : Nat} {future : NodeId × Provider}
    (hget : s.inflight[i]? = some future)
    : Inv g states (s.finish i future) := by
  have hin := List.mem_of_getElem? hget
  obtain ⟨hnode, hremaining⟩ := h.futures future hin
  have hreaped := ((h.remaining future.1).mp hremaining).1
  obtain ⟨hi, hval⟩ := List.getElem?_eq_some_iff.mp hget
  have hperm : (future :: s.inflight.eraseIdx i).Perm s.inflight := by
    rw [← hval]
    apply List.getElem_cons_eraseIdx_perm
  have hkeys := hperm.map (·.1)
  rw [List.map_cons] at hkeys
  have hmove : ((s.finish i future).inflight.map (·.1) ++ (s.finish i future).results.map (·.1)).Perm
      (s.inflight.map (·.1) ++ s.results.map (·.1)) := by
    simp only [Teardown.finish, List.map_append, List.map_cons, List.map_nil]
    rw [← List.append_assoc]
    apply (List.perm_append_singleton _ _).trans
    rw [← List.cons_append]
    apply hkeys.append_right
  have hnodup := hmove.nodup_iff.mpr h.nodup
  have herase : ∀ f ∈ s.inflight.eraseIdx i, f.1 ≠ future.1 := by
    intro f hf heq
    have hcons := hkeys.nodup_iff.mpr (List.nodup_append.mp h.nodup).1
    rw [List.nodup_cons] at hcons
    apply hcons.1
    rw [← heq]
    exact List.mem_map_of_mem hf
  refine ⟨?_, ?_, ?_, ?_, hnodup, ?_, ?_, ?_, ?_, ?_⟩
  . intro x
    have := h.remaining x
    simp only [Teardown.finish, List.mem_filter, decide_eq_true_eq, List.map_append,
      List.mem_append, List.map_cons, List.map_nil, List.mem_singleton, ne_eq]
    tauto
  . intro x
    have hx := h.gone x
    have hfuture := AList.mem_of_lookup hnode
    simp only [Teardown.finish, List.mem_filter, decide_eq_true_eq, List.mem_append,
      List.mem_singleton, ne_eq]
    by_cases heq : x = future.1
    . subst heq
      simp [hfuture]
    . simp only [heq, not_false_iff, and_true, or_false]
      exact hx
  . intro x
    rw [show (s.finish i future).launched = s.launched from rfl, h.launched]
    have := hmove.mem_iff (a := x)
    rw [List.mem_append, List.mem_append] at this
    exact this.symm
  . intro f hf
    obtain ⟨hfnode, hfremaining⟩ := h.futures f (List.mem_of_mem_eraseIdx hf)
    refine ⟨hfnode, ?_⟩
    simp [Teardown.finish, hfremaining, herase f hf]
  . intro r hr
    rcases List.mem_append.mp hr with hr | hr
    . exact h.results r hr
    . rw [List.mem_singleton] at hr
      subst hr
      exact ⟨hreaped, future.2, hnode, rfl⟩
  . intro f hf
    exact List.mem_append_left _ (h.started f (List.mem_of_mem_eraseIdx hf))
  . intro r hr
    rcases List.mem_append.mp hr with hr | hr
    . exact List.mem_append_left _ (h.finished r hr)
    . rw [List.mem_singleton] at hr
      subst hr
      simp [Teardown.finish]
  . apply h.finishedAfter.concat
    intro x result heq
    cases heq
    exact h.started future hin
  . apply h.startedAfter.concat
    intro x heq
    cases heq

theorem Inv.changes (h : Inv g states s) (hsteps : Relation.ReflTransGen (Change g) s s')
    : Inv g states s' := by
  induction hsteps with
  | refl => exact h
  | tail _ hstep ih =>
    cases hstep with
    | launch e hmem hremaining hnew hgone => exact ih.launch hmem hremaining hnew hgone
    | finish i future hget => exact ih.finish hget

theorem mem_ready {e : Sigma fun _ : NodeId => Provider}
    : e ∈ s.ready g g.dependents ↔ e ∈ g.nodes.entries ∧ e.1 ∈ s.remaining ∧ e.1 ∉ s.launched ∧
        ∀ y, g.DependsOn y e.1 → y ∈ s.gone := by
  simp [ready, and_assoc, Graph.mem_dependents]

theorem foldl_launch {es : List (Sigma fun _ : NodeId => Provider)}
    (hsub : ∀ e ∈ es, e ∈ g.nodes.entries) (hkeys : es.NodupKeys)
    (hremaining : ∀ e ∈ es, e.1 ∈ s.remaining) (hnew : ∀ e ∈ es, e.1 ∉ s.launched)
    (hgone : ∀ e ∈ es, ∀ y, g.DependsOn y e.1 → y ∈ s.gone)
    : Relation.ReflTransGen (Change g) s (es.foldl launch s) := by
  induction es generalizing s with
  | nil => exact .refl
  | cons e es ih =>
    obtain ⟨hfresh, hrest⟩ := List.nodupKeys_cons.mp hkeys
    have hchange : Change g s (s.launch e) :=
      .launch e (hsub e List.mem_cons_self) (hremaining e List.mem_cons_self)
        (hnew e List.mem_cons_self) (hgone e List.mem_cons_self)
    apply Relation.ReflTransGen.head hchange
    apply ih _ hrest
    . intro e' he'
      exact hremaining e' (List.mem_cons_of_mem _ he')
    . intro e' he' hin
      rcases List.mem_append.mp hin with hin | hin
      . exact hnew e' (List.mem_cons_of_mem _ he') hin
      . rw [List.mem_singleton] at hin
        exact hfresh (hin ▸ List.mem_keys_of_mem he')
    . intro e' he'
      exact hgone e' (List.mem_cons_of_mem _ he')
    . intro e' he'
      exact hsub e' (List.mem_cons_of_mem _ he')

theorem foldl_ready
    : Relation.ReflTransGen (Change g) s ((s.ready g g.dependents).foldl launch s) := by
  apply foldl_launch
  . intro e he
    exact (mem_ready.mp he).1
  . exact List.Nodup.sublist (List.filter_sublist.map _) g.nodes.nodupKeys
  . intro e he
    exact (mem_ready.mp he).2.1
  . intro e he
    exact (mem_ready.mp he).2.2.1
  . intro e he
    exact (mem_ready.mp he).2.2.2

theorem foldl_launch_frame (es : List (Sigma fun _ : NodeId => Provider)) (s : Teardown)
    : (es.foldl launch s).remaining = s.remaining ∧
      (es.foldl launch s).inflight = s.inflight ++ es.map fun e => (e.1, e.2) := by
  induction es generalizing s with
  | nil => simp
  | cons e es ih =>
    rw [List.foldl_cons]
    obtain ⟨hremaining, hinflight⟩ := ih (s.launch e)
    rw [hremaining, hinflight]
    simp [launch]

theorem remaining_of_idle (hexec : g.Executable) (h : Inv g states s)
    (hidle : ((s.ready g g.dependents).foldl launch s).inflight = [])
    : s.remaining = [] := by
  rw [(foldl_launch_frame _ s).2, List.append_eq_nil_iff, List.map_eq_nil_iff] at hidle
  obtain ⟨hinflight, hready⟩ := hidle
  apply List.eq_nil_iff_forall_not_mem.mpr
  intro x hx
  -- A remaining node no remaining node depends on can be launched.
  have hkeys : ∀ a b, g.DependsOn b a → b ∈ g.nodes.keys :=
    fun _ _ hdep => AList.mem_keys.mp hdep.source_mem
  obtain ⟨y, hy, hlast⟩ := hexec.acyclic.flip.exists_first hkeys (P := (· ∈ s.remaining)) hx
  obtain ⟨⟨node, hnode, _⟩, hno⟩ := (h.remaining y).mp hy
  have hin : ⟨y, node⟩ ∈ s.ready g g.dependents := by
    refine mem_ready.mpr ⟨Graph.mem_entries_iff.mpr hnode, hy, ?_, ?_⟩
    . rw [h.launched, hinflight]
      simpa using hno
    . intro z hz
      rw [h.gone]
      refine ⟨hz.source_mem, ?_⟩
      intro hzr
      exact hlast z hzr hz
  rw [hready] at hin
  cases hin

theorem Inv.next (h : Inv g states s) (hbusy : s.inflight ≠ []) (choice : Nat)
    : Inv g states (s.next choice) ∧ (s.next choice).remaining.length < s.remaining.length := by
  have hlt : choice % s.inflight.length < s.inflight.length :=
    Nat.mod_lt _ (List.length_pos_of_ne_nil hbusy)
  have hget := List.getElem?_eq_getElem hlt
  unfold Teardown.next
  rw [hget]
  refine ⟨h.finish hget, ?_⟩
  apply List.length_filter_lt_length_iff_exists.mpr
  refine ⟨_, (h.futures _ (List.mem_of_getElem? hget)).2, ?_⟩
  simp

theorem loop_ok (hexec : g.Executable) (pick : Nat → Nat) {fuel : Nat} (h : Inv g states s)
    (hfuel : s.remaining.length < fuel)
    : ∃ s', loop g g.dependents pick fuel s = some s' ∧ Inv g states s' ∧ s'.remaining = [] := by
  induction fuel generalizing s with
  | zero => omega
  | succ fuel ih =>
    have hlaunched := h.changes foldl_ready
    have hremaining := (foldl_launch_frame (s.ready g g.dependents) s).1
    unfold loop
    dsimp only
    split
    . next hidle =>
      rw [List.isEmpty_iff] at hidle
      refine ⟨_, rfl, hlaunched, ?_⟩
      rw [hremaining]
      exact remaining_of_idle hexec h hidle
    . next hbusy =>
      rw [List.isEmpty_iff] at hbusy
      obtain ⟨hnext, hlt⟩ := hlaunched.next hbusy (pick fuel)
      rw [hremaining] at hlt
      exact ih hnext (by omega)

/--
Along a chain of nodes that are torn down the order is the reverse of the dependencies.
-/
theorem Inv.chain (h : Inv g states s) {x y : NodeId}
    (hyx : Relation.TransGen (g.ReapedOn states) y x) {pre post : List TeardownCall}
    (hcalls : s.calls = pre ++ .started x :: post)
    : ∃ result, .finished y result ∈ pre := by
  induction hyx generalizing pre post with
  | single hstep => exact h.startedAfter pre _ post hcalls _ rfl y hstep.2.1 hstep.1
  | tail _ hstep ih =>
    obtain ⟨result, hfin⟩ := h.startedAfter pre _ post hcalls _ rfl _ hstep.2.1 hstep.1
    obtain ⟨pre₁, mid₁, rfl⟩ := List.append_of_mem hfin
    rw [List.append_assoc, List.cons_append] at hcalls
    have hstart := h.finishedAfter pre₁ _ _ hcalls _ _ rfl
    obtain ⟨pre₂, mid₂, rfl⟩ := List.append_of_mem hstart
    rw [List.append_assoc, List.cons_append] at hcalls
    obtain ⟨result', hy⟩ := ih hcalls
    refine ⟨result', ?_⟩
    apply List.mem_append_left
    apply List.mem_append_left
    exact hy

end Teardown

/--
What a completed reverse pass guarantees, `Dependent y x` saying that `y` has to be torn down before
`x`.
-/
structure TornDown (g : Graph) (states : AList (fun _ : NodeId => NodeState))
    (Dependent : NodeId → NodeId → Prop) (s : Teardown) : Prop where
  once : (s.results.map (·.1)).Nodup
  results : ∀ x result, (x, result) ∈ s.results ↔
    g.Reaped states x ∧ ∃ node, g.nodes.lookup x = some node ∧ result = node.teardown
  order : Trace.Before (fun pre c => ∀ x, c = .started x →
    ∀ y, g.Reaped states y → Dependent y x → ∃ result, .finished y result ∈ pre) s.calls

theorem Graph.teardown_inv_init (g : Graph) (states : AList (fun _ : NodeId => NodeState))
    : Teardown.Inv g states
        ⟨(g.nodes.entries.filter (isReaped states)).map (·.1), g.nodes.keys.filter fun id =>
          !((g.nodes.entries.filter (isReaped states)).map (·.1)).contains id, [], [], [], []⟩ := by
  refine ⟨?_, ?_, ?_, ?_, List.nodup_nil, ?_, ?_, ?_, Trace.before_nil, Trace.before_nil⟩
  . intro x
    simp only [List.map_nil, List.not_mem_nil, not_false_iff, and_true, List.mem_map,
      List.mem_filter]
    constructor
    . rintro ⟨e, ⟨he, hreaped⟩, rfl⟩
      exact ⟨e.2, mem_entries_iff.mp he, hreaped⟩
    . rintro ⟨node, hnode, hreaped⟩
      exact ⟨⟨x, node⟩, ⟨mem_entries_iff.mpr hnode, hreaped⟩, rfl⟩
  . intro x
    simp only [List.mem_filter, Bool.not_eq_true', ← Bool.not_eq_true, List.contains_iff_mem]
    rw [← AList.mem_keys]
  . simp
  . simp
  . simp
  . simp
  . simp

theorem Graph.teardown_spec (g : Graph) (order : List NodeId) (horder : order.Perm g.nodes.keys)
    (hvalid : g.validate order = .ok (.ok ())) (states : AList (fun _ : NodeId => NodeState))
    (pick : Nat → Nat)
    : ∃ s, g.teardown states pick = some s ∧
        TornDown g states (Relation.TransGen (g.ReapedOn states)) s := by
  have hexec := ((validate_ok_iff horder).mp hvalid).1
  have hfuel : ((g.nodes.entries.filter (isReaped states)).map (·.1)).length < g.len + 1 := by
    rw [List.length_map]
    apply Nat.lt_succ_of_le
    apply List.length_filter_le
  obtain ⟨s, hs, hinv, hend⟩ :=
    Teardown.loop_ok hexec pick (g.teardown_inv_init states) hfuel
  refine ⟨s, hs, (List.nodup_append.mp hinv.nodup).2.1, ?_, ?_⟩
  . intro x result
    constructor
    . intro hr
      exact hinv.results (x, result) hr
    . rintro ⟨hreaped, node, hnode, rfl⟩
      have hnot : x ∉ s.remaining := by simp [hend]
      rw [hinv.remaining] at hnot
      have hin : x ∈ s.results.map (·.1) := by
        by_contra hno
        exact hnot ⟨hreaped, hno⟩
      obtain ⟨r, hr, rfl⟩ := List.mem_map.mp hin
      obtain ⟨_, node', hnode', hresult⟩ := hinv.results r hr
      rw [hnode] at hnode'
      cases hnode'
      rw [← hresult]
      exact hr
  . intro pre c post hcalls x hc y _ hyx
    subst hc
    exact hinv.chain hyx hcalls

def pairStates : AList (fun _ : NodeId => NodeState) :=
  [⟨.runIdentity, .ready⟩, ⟨.buildkit, .ready⟩].toAList

theorem Graph.pair_tornDown
    : [NodeId.runIdentity, .buildkit].Perm (pair [.runIdentity]).nodes.keys ∧
      (pair [.runIdentity]).validate [.runIdentity, .buildkit] = .ok (.ok ()) ∧
      ∃ s, (pair [.runIdentity]).teardown pairStates id = some s ∧
        TornDown (pair [.runIdentity]) pairStates
          (Relation.TransGen ((pair [.runIdentity]).ReapedOn pairStates)) s := by
  have horder : [NodeId.runIdentity, .buildkit].Perm (pair [.runIdentity]).nodes.keys := by decide
  have hvalid : (pair [.runIdentity]).validate [.runIdentity, .buildkit] = .ok (.ok ()) := by rfl
  exact ⟨horder, hvalid, teardown_spec (pair [.runIdentity]) _ horder hvalid pairStates id⟩

-- `observability` depends on `runIdentity` through the cached `buildkit`.
def throughCached : Graph :=
  let node id deps lifetime : Provider := ⟨id, deps, lifetime, .absent, .ok (), .ok ()⟩
  ⟨[⟨.runIdentity, node .runIdentity [] .runScoped⟩,
    ⟨.buildkit, node .buildkit [.runIdentity] .cached⟩,
    ⟨.observability, node .observability [.buildkit] .runScoped⟩].toAList⟩

def throughCachedStates : AList (fun _ : NodeId => NodeState) :=
  [⟨.runIdentity, .ready⟩, ⟨.buildkit, .ready⟩, ⟨.observability, .ready⟩].toAList

theorem throughCached_starts_early
    : [NodeId.runIdentity, .buildkit, .observability].Perm throughCached.nodes.keys ∧
      throughCached.validate [.runIdentity, .buildkit, .observability] = .ok (.ok ()) ∧
      ∃ s, throughCached.teardown throughCachedStates id = some s ∧
        throughCached.Reaped throughCachedStates .observability ∧
        Relation.TransGen throughCached.DependsOn .observability .runIdentity ∧
        ¬TornDown throughCached throughCachedStates
          (Relation.TransGen throughCached.DependsOn) s := by
  have hreaped : throughCached.Reaped throughCachedStates .observability := ⟨_, rfl, rfl⟩
  have hdep : Relation.TransGen throughCached.DependsOn .observability .runIdentity :=
    .tail (.single ⟨_, rfl, List.mem_singleton.mpr rfl⟩) ⟨_, rfl, List.mem_singleton.mpr rfl⟩
  refine ⟨by decide, by rfl, _, rfl, hreaped, hdep, ?_⟩
  intro h
  obtain ⟨result, hmem⟩ := h.order [] _ _ rfl .runIdentity rfl .observability hreaped hdep
  cases hmem

end Resource
