import Ztest.Resource.Graph.Lemmas.Validate

/-!
This module contains the steps of the forward pass. A round of the executor is a sequence of changes
of one node each (`Change`): a pending node is blocked, a pending node is started, a started node
finishes. Every invariant is proved for these three changes.
-/

namespace Resource

-- The states a node has been reported in by the time it is in this one.
def NodeState.path : NodeState → List NodeState
  | .pending => []
  | .acquiring => [.acquiring]
  | .ready => [.acquiring, .ready]
  | .failed detail => [.acquiring, .failed detail]
  | .blocked => [.blocked]

theorem runOne_cases (node : Provider)
    : runOne node = .ready ∨ ∃ detail, runOne node = .failed detail := by
  unfold runOne
  split
  . exact .inl rfl
  . split
    . exact .inl rfl
    . exact .inr ⟨_, rfl⟩

namespace Provisioning

variable {g : Graph} {cap : Nat} {s s' : Provisioning}

@[simp]
theorem lookup_change_self (s : Provisioning) (x : NodeId) (st : NodeState)
    : (s.change x st).state.lookup x = some st :=
  AList.lookup_insert s.state

theorem lookup_change_ne {x y : NodeId} (h : y ≠ x) (st : NodeState)
    : (s.change x st).state.lookup y = s.state.lookup y :=
  AList.lookup_insert_ne h

theorem lookup_change (s : Provisioning) (x y : NodeId) (st : NodeState)
    : (s.change x st).state.lookup y = if y = x then some st else s.state.lookup y := by
  split
  . next h =>
    subst h
    simp
  . next h => rw [lookup_change_ne h]

@[simp]
theorem isPending_iff {x : NodeId} : s.isPending x = true ↔ s.state.lookup x = some .pending := by
  simp [isPending]

theorem depUnavailable_iff {node : Provider}
    : s.depUnavailable node = true ↔
        ∃ d ∈ node.deps, ∃ st, s.state.lookup d = some st ∧ st.isUnavailable = true := by
  simp [depUnavailable, Option.any_eq_true]

theorem depsReady_iff {node : Provider}
    : s.depsReady node = true ↔ ∀ d ∈ node.deps, s.state.lookup d = some .ready := by
  have hready : ∀ st : NodeState, st.isReady = true ↔ st = .ready := by
    intro st
    cases st <;> simp [NodeState.isReady]
  simp [depsReady, Option.any_eq_true, hready]

inductive Change (g : Graph) (cap : Nat) (s : Provisioning) : Provisioning → Prop where
  | block (e : Sigma fun _ : NodeId => Provider) (hmem : e ∈ g.nodes.entries)
      (hpending : s.state.lookup e.1 = some .pending) (hdep : s.depUnavailable e.2 = true)
      : Change g cap s (s.block e)
  | start (e : Sigma fun _ : NodeId => Provider) (hmem : e ∈ g.nodes.entries)
      (hpending : s.state.lookup e.1 = some .pending) (hdeps : s.depsReady e.2 = true)
      (hfree : s.inflight.length < cap)
      : Change g cap s (s.start e)
  | finish (i : Nat) (future : NodeId × Provider) (hget : s.inflight[i]? = some future)
      : Change g cap s (s.finish i future)

def reports (s : Provisioning) (x : NodeId) : List NodeState :=
  (s.changes.filter (·.1 = x)).map (·.2)

theorem reports_change (s : Provisioning) (x y : NodeId) (st : NodeState)
    : (s.change x st).reports y = s.reports y ++ if y = x then [st] else [] := by
  unfold reports change
  rw [List.filter_append, List.map_append]
  by_cases h : y = x
  . simp [h]
  . have h' : x ≠ y := fun heq => h heq.symm
    simp [h, h']

def starts (changes : List (NodeId × NodeState)) : Nat :=
  changes.countP fun c => c.2 = .acquiring

def ends (changes : List (NodeId × NodeState)) : Nat :=
  changes.countP fun c => c.2.isTerminal && c.2 ≠ .blocked

@[simp]
theorem starts_concat (changes : List (NodeId × NodeState)) (c : NodeId × NodeState)
    : starts (changes ++ [c]) = starts changes + if c.2 = .acquiring then 1 else 0 := by
  simp [starts, List.countP_append, List.countP_singleton]

@[simp]
theorem ends_concat (changes : List (NodeId × NodeState)) (c : NodeId × NodeState)
    : ends (changes ++ [c])
        =
      ends changes + if c.2.isTerminal && c.2 ≠ .blocked then 1 else 0 := by
  simp [ends, List.countP_append, List.countP_singleton]

/--
What holds of the states and of the calls of `on_change` after every change.
-/
structure States (g : Graph) (s : Provisioning) : Prop where
  known : ∀ x, (s.state.lookup x).isSome = true ↔ x ∈ g.nodes
  own : ∀ x node st, g.nodes.lookup x = some node → s.state.lookup x = some st →
    st.isTerminal = true → st ≠ .blocked → st = runOne node
  depsReady : ∀ x node st, g.nodes.lookup x = some node → s.state.lookup x = some st →
    st ≠ .pending → st ≠ .blocked → s.depsReady node = true
  blocked : ∀ x node, g.nodes.lookup x = some node → s.state.lookup x = some .blocked →
    s.depUnavailable node = true
  reports : ∀ x, s.reports x = ((s.state.lookup x).map NodeState.path).getD []
  startedAfter : Trace.Before (fun pre c => c.2 = .acquiring →
    ∀ y, g.DependsOn c.1 y → (y, .ready) ∈ pre) s.changes

/--
What holds of the futures in flight after every change.
-/
structure Futures (g : Graph) (cap : Nat) (s : Provisioning) : Prop where
  futures : ∀ f ∈ s.inflight,
    g.nodes.lookup f.1 = some f.2 ∧ s.state.lookup f.1 = some .acquiring
  nodup : (s.inflight.map (·.1)).Nodup
  acquiring : ∀ x, s.state.lookup x = some .acquiring → x ∈ s.inflight.map (·.1)
  running : starts s.changes = ends s.changes + s.inflight.length
  free : s.inflight.length ≤ cap
  capped : Trace.Always (fun pre => starts pre ≤ ends pre + cap) s.changes

theorem depsReady_change {node : Provider} {x : NodeId} (st : NodeState)
    (hx : s.state.lookup x ≠ some .ready) (h : s.depsReady node = true)
    : (s.change x st).depsReady node = true := by
  rw [depsReady_iff] at h ⊢
  intro d hd
  rw [lookup_change_ne]
  . exact h d hd
  . intro heq
    subst heq
    exact hx (h d hd)

theorem depUnavailable_change {node : Provider} {x : NodeId} {old : NodeState} (st : NodeState)
    (hx : s.state.lookup x = some old) (hold : old.isTerminal = false)
    (h : s.depUnavailable node = true)
    : (s.change x st).depUnavailable node = true := by
  rw [depUnavailable_iff] at h ⊢
  obtain ⟨d, hd, st', hst', hun⟩ := h
  refine ⟨d, hd, st', ?_, hun⟩
  rw [lookup_change_ne]
  . exact hst'
  . intro heq
    subst heq
    rw [hx] at hst'
    cases hst'
    cases old <;> simp_all [NodeState.isTerminal, NodeState.isUnavailable]

theorem States.ready_mem (h : States g s) {x : NodeId} (hx : s.state.lookup x = some .ready)
    : (x, .ready) ∈ s.changes := by
  have hmem : NodeState.ready ∈ s.reports x := by simp [h.reports, hx, NodeState.path]
  unfold Provisioning.reports at hmem
  obtain ⟨c, hc, hst⟩ := List.mem_map.mp hmem
  obtain ⟨hc, hid⟩ := List.mem_filter.mp hc
  rw [decide_eq_true_eq] at hid
  rw [← hid, ← hst]
  exact hc

/--
One node moves on: the only facts to check are those about the new state of that node.
-/
theorem States.change (h : States g s) {x : NodeId} {node : Provider} {old st : NodeState}
    (hnode : g.nodes.lookup x = some node) (hx : s.state.lookup x = some old)
    (hold : old.isTerminal = false) (hpath : st.path = old.path ++ [st])
    (hown : st.isTerminal = true → st ≠ .blocked → st = runOne node)
    (hdeps : st ≠ .pending → st ≠ .blocked → s.depsReady node = true)
    (hblocked : st = .blocked → s.depUnavailable node = true)
    : States g (s.change x st) := by
  have hnready : s.state.lookup x ≠ some .ready := by
    rw [hx]
    intro heq
    cases heq
    cases hold
  constructor
  . intro y
    rw [lookup_change]
    split
    . next hy =>
      subst hy
      simp only [Option.isSome_some, true_iff]
      apply AList.mem_of_lookup hnode
    . apply h.known
  . intro y node' st' hnode' hst' hterm hne
    rw [lookup_change] at hst'
    split at hst'
    . next hy =>
      subst hy
      rw [hnode] at hnode'
      cases hnode'
      cases hst'
      exact hown hterm hne
    . exact h.own y node' st' hnode' hst' hterm hne
  . intro y node' st' hnode' hst' hne hne'
    apply depsReady_change st hnready
    rw [lookup_change] at hst'
    split at hst'
    . next hy =>
      subst hy
      rw [hnode] at hnode'
      cases hnode'
      cases hst'
      exact hdeps hne hne'
    . exact h.depsReady y node' st' hnode' hst' hne hne'
  . intro y node' hnode' hst'
    apply depUnavailable_change st hx hold
    rw [lookup_change] at hst'
    split at hst'
    . next hy =>
      subst hy
      rw [hnode] at hnode'
      cases hnode'
      cases hst'
      exact hblocked rfl
    . exact h.blocked y node' hnode' hst'
  . intro y
    rw [reports_change, lookup_change, h.reports]
    split
    . next hy =>
      subst hy
      simp [hx, hpath]
    . rw [List.append_nil]
  . apply h.startedAfter.concat
    rintro hacq y ⟨node', hnode', hy⟩
    rw [hnode] at hnode'
    cases hnode'
    have hst : st = .acquiring := hacq
    have hready := hdeps (by simp [hst]) (by simp [hst])
    rw [depsReady_iff] at hready
    exact h.ready_mem (hready y hy)

theorem States.with_inflight (h : States g s) (inflight : List (NodeId × Provider))
    : States g { s with inflight } :=
  ⟨h.known, h.own, h.depsReady, h.blocked, h.reports, h.startedAfter⟩

theorem States.step (h : States g s) (hf : Futures g cap s) (hstep : Change g cap s s')
    : States g s' := by
  cases hstep with
  | block e hmem hpending hdep =>
    apply h.change (Graph.mem_entries_iff.mp hmem) hpending rfl rfl
    . intro _ hne
      cases hne rfl
    . intro _ hne
      cases hne rfl
    . intro _
      exact hdep
  | start e hmem hpending hdeps hfree =>
    apply States.with_inflight
    apply h.change (Graph.mem_entries_iff.mp hmem) hpending rfl rfl
    . intro hterm
      cases hterm
    . intro _ _
      exact hdeps
    . intro heq
      cases heq
  | finish i future hget =>
    obtain ⟨hnode, hacq⟩ := hf.futures future (List.mem_of_getElem? hget)
    have hdeps := h.depsReady future.1 future.2 .acquiring hnode hacq (by simp) (by simp)
    apply States.with_inflight
    apply h.change hnode hacq rfl
    . rcases runOne_cases future.2 with hr | ⟨detail, hr⟩ <;> simp [hr, NodeState.path]
    . intro _ _
      rfl
    . intro _ _
      exact hdeps
    . intro heq
      rcases runOne_cases future.2 with hr | ⟨detail, hr⟩ <;> simp [hr] at heq

theorem starts_le {changes : List (NodeId × NodeState)} {n : Nat}
    (h : starts changes = ends changes + n) (hn : n ≤ cap)
    : starts changes ≤ ends changes + cap := by
  omega

theorem Futures.step (h : Futures g cap s) (hstep : Change g cap s s') : Futures g cap s' := by
  cases hstep with
  | block e hmem hpending hdep =>
    have hne : ∀ y, s.state.lookup y = some .acquiring → y ≠ e.1 := by
      intro y hy heq
      rw [heq, hpending] at hy
      cases hy
    have hrunning : starts (s.block e).changes = ends (s.block e).changes + s.inflight.length := by
      simp [block, Provisioning.change, NodeState.isTerminal, h.running]
    refine ⟨?_, h.nodup, ?_, hrunning, h.free, ?_⟩
    . intro f hf
      obtain ⟨hnode, hacq⟩ := h.futures f hf
      refine ⟨hnode, ?_⟩
      unfold block
      rw [lookup_change_ne (hne _ hacq)]
      exact hacq
    . intro y hy
      unfold block at hy
      rw [lookup_change] at hy
      split at hy
      . cases hy
      . apply h.acquiring y hy
    . apply h.capped.concat
      exact starts_le hrunning h.free
  | start e hmem hpending hdeps hfree =>
    have hne : ∀ y, s.state.lookup y = some .acquiring → y ≠ e.1 := by
      intro y hy heq
      rw [heq, hpending] at hy
      cases hy
    have hfresh : e.1 ∉ s.inflight.map (·.1) := by
      intro hin
      obtain ⟨f, hf, heq⟩ := List.mem_map.mp hin
      exact hne f.1 (h.futures f hf).2 heq
    have hrunning : starts (s.start e).changes
        = ends (s.start e).changes + (s.start e).inflight.length := by
      simp [start, Provisioning.change, NodeState.isTerminal, h.running]
      omega
    have hlength : (s.start e).inflight.length = s.inflight.length + 1 := by simp [start]
    refine ⟨?_, ?_, ?_, hrunning, by omega, ?_⟩
    . intro f hf
      rcases List.mem_append.mp hf with hf | hf
      . obtain ⟨hnode, hacq⟩ := h.futures f hf
        refine ⟨hnode, ?_⟩
        apply (lookup_change_ne (hne _ hacq) _).trans
        exact hacq
      . rw [List.mem_singleton] at hf
        subst hf
        refine ⟨Graph.mem_entries_iff.mp hmem, ?_⟩
        apply lookup_change_self
    . unfold start
      rw [List.map_append, List.nodup_append]
      refine ⟨h.nodup, by simp, ?_⟩
      intro y hy z hz heq
      simp only [List.map_cons, List.map_nil, List.mem_singleton] at hz
      rw [heq, hz] at hy
      exact hfresh hy
    . intro y hy
      unfold start at hy ⊢
      rw [List.map_append, List.mem_append]
      rw [lookup_change] at hy
      split at hy
      . next heq => simp [heq]
      . exact .inl (h.acquiring y hy)
    . apply h.capped.concat
      exact starts_le hrunning (by omega)
  | finish i future hget =>
    obtain ⟨hi, hval⟩ := List.getElem?_eq_some_iff.mp hget
    have hperm : (future :: s.inflight.eraseIdx i).Perm s.inflight := by
      rw [← hval]
      apply List.getElem_cons_eraseIdx_perm
    have hkeys := hperm.map (·.1)
    have hnodup := hkeys.nodup_iff.mpr h.nodup
    rw [List.map_cons, List.nodup_cons] at hnodup
    have hlength := hperm.length_eq
    rw [List.length_cons] at hlength
    have hrunning : starts (s.finish i future).changes
        = ends (s.finish i future).changes + (s.finish i future).inflight.length := by
      have hout : runOne future.2 ≠ .acquiring ∧ (runOne future.2).isTerminal = true ∧
          runOne future.2 ≠ .blocked := by
        rcases runOne_cases future.2 with hr | ⟨detail, hr⟩ <;> simp [hr, NodeState.isTerminal]
      simp [finish, Provisioning.change, hout, h.running]
      omega
    have hfree : (s.finish i future).inflight.length ≤ cap := by
      have := h.free
      unfold finish
      dsimp only
      omega
    refine ⟨?_, hnodup.2, ?_, hrunning, hfree, ?_⟩
    . intro f hf
      have hmem : f ∈ s.inflight := List.mem_of_mem_eraseIdx hf
      obtain ⟨hnode, hacq⟩ := h.futures f hmem
      refine ⟨hnode, ?_⟩
      apply (lookup_change_ne _ _).trans
      . exact hacq
      . intro heq
        apply hnodup.1
        rw [← heq]
        exact List.mem_map_of_mem hf
    . intro y hy
      unfold finish at hy
      rw [lookup_change] at hy
      split at hy
      . rcases runOne_cases future.2 with hr | ⟨detail, hr⟩ <;> simp [hr] at hy
      . next hne =>
        have hin := hkeys.mem_iff.mpr (h.acquiring y hy)
        rw [List.map_cons, List.mem_cons] at hin
        exact hin.resolve_left hne
    . apply h.capped.concat
      exact starts_le hrunning hfree

@[simp]
theorem inflight_block (s : Provisioning) (e : Sigma fun _ : NodeId => Provider)
    : (s.block e).inflight = s.inflight := rfl

theorem foldl_block {es : List (Sigma fun _ : NodeId => Provider)}
    (hsub : ∀ e ∈ es, e ∈ g.nodes.entries) (hkeys : es.NodupKeys)
    (hpending : ∀ e ∈ es, s.state.lookup e.1 = some .pending)
    (hdep : ∀ e ∈ es, s.depUnavailable e.2 = true)
    : Relation.ReflTransGen (Change g cap) s (es.foldl block s) := by
  induction es generalizing s with
  | nil => exact .refl
  | cons e es ih =>
    obtain ⟨hfresh, hrest⟩ := List.nodupKeys_cons.mp hkeys
    have hx := hpending e List.mem_cons_self
    have hchange : Change g cap s (s.block e) :=
      .block e (hsub e List.mem_cons_self) hx (hdep e List.mem_cons_self)
    apply Relation.ReflTransGen.head hchange
    apply ih _ hrest
    . intro e' he'
      have hne : e'.1 ≠ e.1 := fun heq => hfresh (heq ▸ List.mem_keys_of_mem he')
      unfold block
      rw [lookup_change_ne hne]
      exact hpending e' (List.mem_cons_of_mem _ he')
    . intro e' he'
      apply depUnavailable_change .blocked hx rfl
      exact hdep e' (List.mem_cons_of_mem _ he')
    . intro e' he'
      exact hsub e' (List.mem_cons_of_mem _ he')

theorem lookup_foldl_block {es : List (Sigma fun _ : NodeId => Provider)} {x : NodeId}
    (hx : x ∉ es.keys)
    : (es.foldl block s).state.lookup x = s.state.lookup x := by
  induction es generalizing s with
  | nil => rfl
  | cons e es ih =>
    rw [List.keys_cons, List.mem_cons, not_or] at hx
    rw [List.foldl_cons, ih hx.2]
    apply lookup_change_ne hx.1

@[simp]
theorem inflight_foldl_block (es : List (Sigma fun _ : NodeId => Provider)) (s : Provisioning)
    : (es.foldl block s).inflight = s.inflight := by
  induction es generalizing s with
  | nil => rfl
  | cons e es ih => rw [List.foldl_cons, ih, inflight_block]

theorem depsReady_foldl_block {es : List (Sigma fun _ : NodeId => Provider)} {node : Provider}
    (hpending : ∀ e ∈ es, s.state.lookup e.1 ≠ some .ready) (h : s.depsReady node = true)
    : (es.foldl block s).depsReady node = true := by
  induction es generalizing s with
  | nil => exact h
  | cons e es ih =>
    apply ih
    . intro e' he'
      unfold block
      rw [lookup_change]
      split
      . simp
      . exact hpending e' (List.mem_cons_of_mem _ he')
    . exact depsReady_change .blocked (hpending e List.mem_cons_self) h

theorem foldl_start {es : List (Sigma fun _ : NodeId => Provider)}
    (hsub : ∀ e ∈ es, e ∈ g.nodes.entries) (hkeys : es.NodupKeys)
    (hpending : ∀ e ∈ es, s.state.lookup e.1 = some .pending)
    (hdeps : ∀ e ∈ es, s.depsReady e.2 = true)
    (hfree : s.inflight.length + es.length ≤ cap)
    : Relation.ReflTransGen (Change g cap) s (es.foldl start s) := by
  induction es generalizing s with
  | nil => exact .refl
  | cons e es ih =>
    obtain ⟨hfresh, hrest⟩ := List.nodupKeys_cons.mp hkeys
    rw [List.length_cons] at hfree
    have hx := hpending e List.mem_cons_self
    have hchange : Change g cap s (s.start e) :=
      .start e (hsub e List.mem_cons_self) hx (hdeps e List.mem_cons_self) (by omega)
    apply Relation.ReflTransGen.head hchange
    apply ih _ hrest
    . intro e' he'
      have hne : e'.1 ≠ e.1 := fun heq => hfresh (heq ▸ List.mem_keys_of_mem he')
      apply (lookup_change_ne hne _).trans
      exact hpending e' (List.mem_cons_of_mem _ he')
    . intro e' he'
      apply depsReady_change .acquiring (by simp [hx])
      exact hdeps e' (List.mem_cons_of_mem _ he')
    . simp only [start, List.length_append, List.length_singleton]
      omega
    . intro e' he'
      exact hsub e' (List.mem_cons_of_mem _ he')

theorem inflight_foldl_start (es : List (Sigma fun _ : NodeId => Provider)) (s : Provisioning)
    : (es.foldl start s).inflight = s.inflight ++ es.map fun e => (e.1, e.2) := by
  induction es generalizing s with
  | nil => simp
  | cons e es ih =>
    rw [List.foldl_cons, ih]
    simp [start]

theorem mem_toBlock {e : Sigma fun _ : NodeId => Provider}
    : e ∈ s.toBlock g ↔ e ∈ g.nodes.entries ∧ s.state.lookup e.1 = some .pending ∧
        s.depUnavailable e.2 = true := by
  simp [toBlock]

theorem mem_toRun {e : Sigma fun _ : NodeId => Provider}
    : e ∈ s.toRun g ↔ e ∈ g.nodes.entries ∧ s.state.lookup e.1 = some .pending ∧
        s.depUnavailable e.2 = false ∧ s.depsReady e.2 = true := by
  simp [toRun, and_assoc]

theorem nodupKeys_toBlock : (s.toBlock g).NodupKeys :=
  List.Nodup.sublist (List.filter_sublist.map _) g.nodes.nodupKeys

theorem foldl_toBlock : Relation.ReflTransGen (Change g cap) s ((s.toBlock g).foldl block s) := by
  apply foldl_block
  . intro e he
    exact (mem_toBlock.mp he).1
  . exact nodupKeys_toBlock
  . intro e he
    exact (mem_toBlock.mp he).2.1
  . intro e he
    exact (mem_toBlock.mp he).2.2

theorem start_changes (h : Futures g cap s)
    : Relation.ReflTransGen (Change g cap) ((s.toBlock g).foldl block s) (s.round g cap) := by
  unfold round
  have htake : ((s.toRun g).take (cap - ((s.toBlock g).foldl block s).inflight.length)).Sublist
      (s.toRun g) := List.take_sublist _ _
  apply foldl_start
  . intro e he
    exact (mem_toRun.mp (htake.subset he)).1
  . have hkeys : (s.toRun g).NodupKeys :=
      List.Nodup.sublist (List.filter_sublist.map _) g.nodes.nodupKeys
    exact hkeys.sublist htake
  . intro e he
    obtain ⟨hmem, hpending, hav, _⟩ := mem_toRun.mp (htake.subset he)
    rw [lookup_foldl_block]
    . exact hpending
    . -- No node is in both lists, an unavailable dependency is not ready.
      intro hin
      obtain ⟨node, hin⟩ := List.mem_keys.mp hin
      obtain ⟨hmem', _, hun⟩ := mem_toBlock.mp hin
      have hnode := Graph.mem_entries_iff.mp hmem
      rw [Graph.mem_entries_iff.mp hmem'] at hnode
      cases hnode
      rw [hav] at hun
      cases hun
  . intro e he
    obtain ⟨_, _, _, hready⟩ := mem_toRun.mp (htake.subset he)
    apply depsReady_foldl_block _ hready
    intro e' he'
    rw [(mem_toBlock.mp he').2.1]
    simp
  . rw [List.length_take, inflight_foldl_block]
    have := h.free
    omega

theorem round_changes (h : Futures g cap s)
    : Relation.ReflTransGen (Change g cap) s (s.round g cap) :=
  foldl_toBlock.trans (start_changes h)

theorem next_change (hne : s.inflight ≠ []) (choice : Nat) : Change g cap s (s.next choice) := by
  have hlt : choice % s.inflight.length < s.inflight.length :=
    Nat.mod_lt _ (List.length_pos_of_ne_nil hne)
  unfold next
  rw [List.getElem?_eq_getElem hlt]
  exact .finish _ _ (List.getElem?_eq_getElem hlt)

structure Inv (g : Graph) (cap : Nat) (s : Provisioning) : Prop where
  states : States g s
  futures : Futures g cap s

theorem Inv.changes (h : Inv g cap s) (hsteps : Relation.ReflTransGen (Change g cap) s s')
    : Inv g cap s' := by
  induction hsteps with
  | refl => exact h
  | tail _ hstep ih => exact ⟨ih.states.step ih.futures hstep, ih.futures.step hstep⟩

end Provisioning
end Resource
