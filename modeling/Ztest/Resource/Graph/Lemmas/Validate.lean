import Ztest.Resource.Graph.Impl
import Mathlib.Data.List.Perm.Subperm

/-!
This module contains the verification of the shape check. The in-degree of a node is seeded with the
length of its dependency list and drops by one for every dependency that is peeled, however often the
list names it. The check accepts a graph when it is executable and no list has a repetition.
-/

namespace Resource.Graph

variable {g : Graph}

theorem DependsOn.source_mem {x y : NodeId} (h : g.DependsOn x y) : x ∈ g.nodes := by
  obtain ⟨node, hnode, _⟩ := h
  exact AList.mem_of_lookup hnode

theorem mem_entries_iff {e : Sigma fun _ : NodeId => Provider}
    : e ∈ g.nodes.entries ↔ g.nodes.lookup e.1 = some e.2 :=
  AList.mem_lookup_iff.symm

theorem Executable.mem_keys (h : g.Executable) {x y : NodeId} (hxy : g.DependsOn x y)
    : y ∈ g.nodes.keys :=
  AList.mem_keys.mp (h.known x y hxy)

theorem missingDep_eq_none_iff
    : g.missingDep = none ↔ ∀ x y, g.DependsOn x y → y ∈ g.nodes := by
  unfold missingDep
  rw [List.findSome?_eq_none_iff]
  constructor
  . rintro h x y ⟨node, hnode, hy⟩
    have hentry := h ⟨x, node⟩ (mem_entries_iff.mpr hnode)
    rw [List.findSome?_eq_none_iff] at hentry
    have hdep := hentry y hy
    by_contra hno
    rw [if_neg hno] at hdep
    cases hdep
  . intro h e he
    rw [List.findSome?_eq_none_iff]
    intro dep hdep
    rw [if_pos (h e.1 dep ⟨e.2, mem_entries_iff.mp he, hdep⟩)]

theorem missingDep_eq_some {err : GraphError} (h : g.missingDep = some err)
    : ∃ x y, g.DependsOn x y ∧ y ∉ g.nodes ∧ err = .missingDep x y := by
  unfold missingDep at h
  obtain ⟨e, he, hentry⟩ := List.exists_of_findSome?_eq_some h
  obtain ⟨dep, hdep, herr⟩ := List.exists_of_findSome?_eq_some hentry
  split at herr
  . cases herr
  . next hno =>
    cases herr
    exact ⟨e.1, dep, ⟨e.2, mem_entries_iff.mp he, hdep⟩, hno, rfl⟩

/--
A map collected from the nodes, one value a node.
-/
theorem lookup_collect {β : Type} (f : Provider → β) (g : Graph) (x : NodeId)
    : ((g.nodes.entries.map fun e => (⟨e.1, f e.2⟩ : Sigma fun _ : NodeId => β)).toAList).lookup x
        =
      (g.nodes.lookup x).map f := by
  rw [AList.lookup_to_alist]
  unfold AList.lookup
  induction g.nodes.entries with
  | nil => rfl
  | cons e es ih =>
    rw [List.map_cons]
    by_cases hx : x = e.1
    . subst hx
      rw [List.dlookup_cons_eq, List.dlookup_cons_eq]
      rfl
    . rw [List.dlookup_cons_ne _ e hx]
      rw [List.dlookup_cons_ne]
      . exact ih
      . exact hx

-- How many of the dependencies of `node` have been peeled.
def met (order : List NodeId) (node : Provider) : Nat := (order.filter (· ∈ node.deps)).length

theorem met_le {order : List NodeId} (hnodup : order.Nodup) (node : Provider)
    : met order node ≤ node.deps.length := by
  have hsub : order.filter (· ∈ node.deps) ⊆ node.deps := by
    intro x hx
    simpa using (List.mem_filter.mp hx).2
  exact ((hnodup.filter _).subperm hsub).length_le

theorem met_eq_length_iff {order : List NodeId} (hnodup : order.Nodup) (node : Provider)
    : met order node = node.deps.length ↔ node.deps.Nodup ∧ node.deps ⊆ order := by
  have hsub : order.filter (· ∈ node.deps) ⊆ node.deps := by
    intro x hx
    simpa using (List.mem_filter.mp hx).2
  constructor
  . intro h
    have hperm := ((hnodup.filter _).subperm hsub).perm_of_length_le h.ge
    refine ⟨hperm.nodup_iff.mp (hnodup.filter _), ?_⟩
    intro x hx
    exact List.mem_of_mem_filter (hperm.mem_iff.mpr hx)
  . rintro ⟨hdeps, hall⟩
    apply Nat.le_antisymm (met_le hnodup node)
    have hback : node.deps ⊆ order.filter (· ∈ node.deps) := by
      intro x hx
      simpa using ⟨hall hx, hx⟩
    exact (hdeps.subperm hback).length_le

theorem met_append (order : List NodeId) (id : NodeId) (node : Provider)
    : met (order ++ [id]) node = met order node + if id ∈ node.deps then 1 else 0 := by
  unfold met
  rw [List.filter_append, List.length_append]
  by_cases h : id ∈ node.deps <;> simp [h]

namespace Peel

theorem relax_eq {id : NodeId} {es : List (Sigma fun _ : NodeId => Provider)} {p : Peel}
    (hkeys : es.NodupKeys)
    (hpos : ∀ e ∈ es, id ∈ e.2.deps → ∃ d, p.indegree.lookup e.1 = some (d + 1))
    : ∃ p', p.relax id es = .ok p' ∧ p'.peeled = p.peeled ∧
        p'.queue = p.queue ++
          (es.filter fun e => id ∈ e.2.deps ∧ p.indegree.lookup e.1 = some 1).map (·.1) ∧
        (∀ e ∈ es, p'.indegree.lookup e.1
          = (p.indegree.lookup e.1).map (· - if id ∈ e.2.deps then 1 else 0)) ∧
        ∀ x, x ∉ es.keys → p'.indegree.lookup x = p.indegree.lookup x := by
  induction es generalizing p with
  | nil => exact ⟨p, rfl, rfl, by simp, by simp, fun _ _ => rfl⟩
  | cons e es ih =>
    obtain ⟨hfresh, hrest⟩ := List.nodupKeys_cons.mp hkeys
    by_cases hdep : id ∈ e.2.deps
    . obtain ⟨d, hd⟩ := hpos e List.mem_cons_self hdep
      let p₁ : Peel := { p with
        indegree := p.indegree.insert e.1 d
        queue := if d = 0 then p.queue ++ [e.1] else p.queue }
      have hdec : p.decrement e.1 = .ok p₁ := by
        simp only [decrement, hd, p₁]
      -- The decrement touches no entry that is still ahead.
      have hahead : ∀ e' ∈ es, p₁.indegree.lookup e'.1 = p.indegree.lookup e'.1 := by
        intro e' he'
        have hne : e'.1 ≠ e.1 := by
          intro heq
          exact hfresh (heq ▸ List.mem_keys_of_mem he')
        exact AList.lookup_insert_ne hne
      have hpos₁ : ∀ e' ∈ es, id ∈ e'.2.deps → ∃ d, p₁.indegree.lookup e'.1 = some (d + 1) := by
        intro e' he' hdep'
        rw [hahead e' he']
        exact hpos e' (List.mem_cons_of_mem _ he') hdep'
      obtain ⟨p', hok, hpeeled, hqueue, hin, hout⟩ := ih hrest hpos₁
      refine ⟨p', ?_, hpeeled, ?_, ?_, ?_⟩
      . simp only [relax, hdep, if_true, hdec]
        exact hok
      . have htail : (es.filter fun e => id ∈ e.2.deps ∧ p₁.indegree.lookup e.1 = some 1)
            = es.filter fun e => id ∈ e.2.deps ∧ p.indegree.lookup e.1 = some 1 := by
          apply List.filter_congr
          intro e' he'
          rw [hahead e' he']
        rw [hqueue, htail, List.filter_cons]
        by_cases hzero : d = 0
        . simp [p₁, hzero, hdep, hd]
        . simp [p₁, hzero, hdep, hd]
      . intro e' he'
        rcases List.mem_cons.mp he' with rfl | he'
        . rw [hout _ hfresh, hd]
          simp [p₁, hdep]
        . rw [hin e' he', hahead e' he']
      . intro x hx
        rw [List.keys_cons, List.mem_cons, not_or] at hx
        rw [hout x hx.2]
        exact AList.lookup_insert_ne hx.1
    . have hpos₁ : ∀ e' ∈ es, id ∈ e'.2.deps → ∃ d, p.indegree.lookup e'.1 = some (d + 1) :=
        fun e' he' => hpos e' (List.mem_cons_of_mem _ he')
      obtain ⟨p', hok, hpeeled, hqueue, hin, hout⟩ := ih hrest hpos₁
      refine ⟨p', ?_, hpeeled, ?_, ?_, ?_⟩
      . simp only [relax, hdep, if_false]
        exact hok
      . rw [hqueue, List.filter_cons]
        simp [hdep]
      . intro e' he'
        rcases List.mem_cons.mp he' with rfl | he'
        . rw [hout _ hfresh]
          simp [hdep]
        . exact hin e' he'
      . intro x hx
        rw [List.keys_cons, List.mem_cons, not_or] at hx
        exact hout x hx.2

end Peel

/--
`order` lists the nodes peeled so far, the oldest first.
-/
structure PeelInv (g : Graph) (order : List NodeId) (p : Peel) : Prop where
  peeled : p.peeled = order.length
  nodup : (order ++ p.queue).Nodup
  indegree : ∀ x node, g.nodes.lookup x = some node →
    p.indegree.lookup x = some (node.deps.length - met order node)
  mem_iff : ∀ x, x ∈ order ++ p.queue ↔
    ∃ node, g.nodes.lookup x = some node ∧ met order node = node.deps.length
  ordered : Dag.Ordered g.DependsOn (order ++ p.queue)

namespace PeelInv

variable {order : List NodeId} {p : Peel}

theorem length_le (h : PeelInv g order p) : order.length ≤ g.len := by
  have hnodup : order.Nodup := (List.nodup_append.mp h.nodup).1
  have hsub : order ⊆ g.nodes.keys := by
    intro x hx
    obtain ⟨node, hnode, _⟩ := (h.mem_iff x).mp (List.mem_append_left _ hx)
    exact AList.mem_keys.mp (AList.mem_of_lookup hnode)
  have hle := (hnodup.subperm hsub).length_le
  have hkeys : g.nodes.keys.length = g.len := List.length_map _
  omega

theorem step {id : NodeId} {queue : List NodeId} (h : PeelInv g order p)
    (hqueue : p.queue = id :: queue)
    : ∃ p', ({ p with queue, peeled := p.peeled + 1 } : Peel).relax id g.nodes.entries = .ok p' ∧
        PeelInv g (order ++ [id]) p' := by
  have hsplit : order ++ p.queue = (order ++ [id]) ++ queue := by simp [hqueue]
  have hnodup' : ((order ++ [id]) ++ queue).Nodup := hsplit ▸ h.nodup
  have hordnodup : (order ++ [id]).Nodup := (List.nodup_append.mp hnodup').1
  have hlookup : ∀ e ∈ g.nodes.entries, g.nodes.lookup e.1 = some e.2 :=
    fun e he => mem_entries_iff.mp he
  have hlt : ∀ node : Provider, id ∈ node.deps → met order node < node.deps.length := by
    intro node hdep
    have hle := met_le hordnodup node
    rw [met_append, if_pos hdep] at hle
    omega
  have hpos : ∀ e ∈ g.nodes.entries, id ∈ e.2.deps →
      ∃ d, p.indegree.lookup e.1 = some (d + 1) := by
    intro e he hdep
    have := hlt e.2 hdep
    refine ⟨e.2.deps.length - met order e.2 - 1, ?_⟩
    rw [h.indegree e.1 e.2 (hlookup e he)]
    congr 1
    omega
  obtain ⟨p', hok, hpeeled, hq, hin, -⟩ :=
    Peel.relax_eq (p := { p with queue, peeled := p.peeled + 1 }) g.nodes.nodupKeys hpos
  -- A node joins the queue when its last dependency is peeled.
  have hnew : ∀ x, x ∈ (g.nodes.entries.filter fun e =>
      id ∈ e.2.deps ∧ p.indegree.lookup e.1 = some 1).map (·.1) ↔
      ∃ node, g.nodes.lookup x = some node ∧ id ∈ node.deps ∧
        met order node + 1 = node.deps.length := by
    intro x
    rw [List.mem_map]
    constructor
    . rintro ⟨e, he, rfl⟩
      rw [List.mem_filter, decide_eq_true_eq] at he
      obtain ⟨hmem, hdep, hone⟩ := he
      refine ⟨e.2, hlookup e hmem, hdep, ?_⟩
      rw [h.indegree e.1 e.2 (hlookup e hmem), Option.some.injEq] at hone
      omega
    . rintro ⟨node, hnode, hdep, hmet⟩
      refine ⟨⟨x, node⟩, ?_, rfl⟩
      rw [List.mem_filter, decide_eq_true_eq]
      refine ⟨mem_entries_iff.mpr hnode, hdep, ?_⟩
      rw [h.indegree x node hnode, Option.some.injEq]
      omega
  have hlist : (order ++ [id]) ++ p'.queue = (order ++ p.queue) ++
      (g.nodes.entries.filter fun e => id ∈ e.2.deps ∧ p.indegree.lookup e.1 = some 1).map (·.1) := by
    rw [hq, hsplit]
    simp
  refine ⟨p', hok, ?_, ?_, ?_, ?_, ?_⟩
  . rw [hpeeled, h.peeled]
    simp
  . rw [hlist, List.nodup_append]
    refine ⟨h.nodup, ?_, ?_⟩
    . exact List.Nodup.sublist (List.filter_sublist.map _) g.nodes.nodupKeys
    . intro x hx y hy hxy
      subst hxy
      obtain ⟨node, hnode, hmet⟩ := (h.mem_iff x).mp hx
      obtain ⟨node', hnode', _, hmet'⟩ := (hnew x).mp hy
      rw [hnode] at hnode'
      cases hnode'
      omega
  . intro x node hnode
    have hentry := hin ⟨x, node⟩ (mem_entries_iff.mpr hnode)
    have hold : ({ p with queue, peeled := p.peeled + 1 } : Peel).indegree.lookup x
        = some (node.deps.length - met order node) := h.indegree x node hnode
    rw [hentry, hold, met_append, Option.map_some, Nat.sub_sub]
  . intro x
    rw [hlist, List.mem_append, h.mem_iff, hnew]
    constructor
    . rintro (⟨node, hnode, hmet⟩ | ⟨node, hnode, hdep, hmet⟩)
      . refine ⟨node, hnode, ?_⟩
        have hno : id ∉ node.deps := by
          intro hdep
          have := hlt node hdep
          omega
        rw [met_append, if_neg hno, hmet, Nat.add_zero]
      . refine ⟨node, hnode, ?_⟩
        rw [met_append, if_pos hdep, hmet]
    . rintro ⟨node, hnode, hmet⟩
      rw [met_append] at hmet
      by_cases hdep : id ∈ node.deps
      . rw [if_pos hdep] at hmet
        exact .inr ⟨node, hnode, hdep, hmet⟩
      . rw [if_neg hdep, Nat.add_zero] at hmet
        exact .inl ⟨node, hnode, hmet⟩
  . rw [hlist]
    apply h.ordered.append
    intro x hx y hxy
    obtain ⟨node, hnode, hdep, hmet⟩ := (hnew x).mp hx
    have hfull : met (order ++ [id]) node = node.deps.length := by
      rw [met_append, if_pos hdep, hmet]
    obtain ⟨node', hnode', hy⟩ := hxy
    rw [hnode] at hnode'
    cases hnode'
    have hmem := ((met_eq_length_iff hordnodup node).mp hfull).2 hy
    rw [hsplit]
    exact List.mem_append_left _ hmem

theorem peel_ok (fuel : Nat) (h : PeelInv g order p) (hfuel : g.len + 1 ≤ fuel + order.length)
    : ∃ order' p', g.peel fuel p = .ok p' ∧ PeelInv g order' p' ∧ p'.queue = [] := by
  induction fuel generalizing order p with
  | zero =>
    have := h.length_le
    omega
  | succ fuel ih =>
    unfold peel
    split
    . next hqueue => exact ⟨order, p, rfl, h, hqueue⟩
    . next id queue hqueue =>
      obtain ⟨p', hok, hinv⟩ := h.step hqueue
      rw [hok]
      apply ih hinv
      rw [List.length_append, List.length_singleton]
      omega

theorem mem_iff_of_queue (h : PeelInv g order p) (hqueue : p.queue = []) (x : NodeId)
    : x ∈ order ↔
        ∃ node, g.nodes.lookup x = some node ∧ node.deps.Nodup ∧ node.deps ⊆ order := by
  have hnodup : order.Nodup := (List.nodup_append.mp h.nodup).1
  have hmem := h.mem_iff x
  rw [hqueue, List.append_nil] at hmem
  rw [hmem]
  constructor
  . rintro ⟨node, hnode, hmet⟩
    exact ⟨node, hnode, (met_eq_length_iff hnodup node).mp hmet⟩
  . rintro ⟨node, hnode, hdeps⟩
    exact ⟨node, hnode, (met_eq_length_iff hnodup node).mpr hdeps⟩

/--
Everything is peeled exactly when the graph has no cycle and no dependency list a repetition.
-/
theorem peeled_eq_len_iff (h : PeelInv g order p) (hqueue : p.queue = [])
    (hknown : ∀ x y, g.DependsOn x y → y ∈ g.nodes)
    : p.peeled = g.len ↔ Dag.Acyclic g.DependsOn ∧ g.NoRepeats := by
  have hnodup : order.Nodup := (List.nodup_append.mp h.nodup).1
  have hsub : order ⊆ g.nodes.keys := by
    intro x hx
    obtain ⟨node, hnode, _⟩ := (h.mem_iff_of_queue hqueue x).mp hx
    exact AList.mem_keys.mp (AList.mem_of_lookup hnode)
  have hkeys : g.nodes.keys.length = g.len := List.length_map _
  rw [h.peeled]
  constructor
  . intro hlen
    have hperm := (hnodup.subperm hsub).perm_of_length_le (by omega)
    have hall : ∀ x ∈ g.nodes, x ∈ order := fun x hx => hperm.mem_iff.mpr (AList.mem_keys.mpr hx)
    constructor
    . have hordered := h.ordered
      rw [hqueue, List.append_nil] at hordered
      exact hordered.acyclic hnodup fun x y hxy => hall x hxy.source_mem
    . intro x node hnode
      obtain ⟨node', hnode', hdeps, _⟩ :=
        (h.mem_iff_of_queue hqueue x).mp (hall x (AList.mem_of_lookup hnode))
      rw [hnode] at hnode'
      cases hnode'
      exact hdeps
  . rintro ⟨hacyclic, hrepeats⟩
    have hall : ∀ x, x ∈ g.nodes → x ∈ order := by
      intro x
      apply hacyclic.induction (fun _ y hxy => AList.mem_keys.mp (hknown _ y hxy))
        (P := fun x => x ∈ g.nodes → x ∈ order)
      intro x ih hx
      rw [← AList.lookup_isSome, Option.isSome_iff_exists] at hx
      obtain ⟨node, hnode⟩ := hx
      refine (h.mem_iff_of_queue hqueue x).mpr ⟨node, hnode, hrepeats x node hnode, ?_⟩
      intro y hy
      exact ih y ⟨node, hnode, hy⟩ (hknown x y ⟨node, hnode, hy⟩)
    have hback : g.nodes.keys ⊆ order := fun x hx => hall x (AList.mem_keys.mpr hx)
    have hle₁ := (hnodup.subperm hsub).length_le
    have hle₂ := (g.nodes.keys_nodup.subperm hback).length_le
    omega

end PeelInv

theorem lookup_indegree (g : Graph) (x : NodeId)
    : g.indegree.lookup x = (g.nodes.lookup x).map (·.deps.length) :=
  lookup_collect (·.deps.length) g x

theorem peelInv_init {order : List NodeId} (horder : order.Perm g.nodes.keys)
    : PeelInv g [] ⟨g.indegree, order.filter fun id => g.indegree.lookup id = some 0, 0⟩ := by
  have hroot : ∀ x, x ∈ (order.filter fun id => g.indegree.lookup id = some 0) ↔
      ∃ node, g.nodes.lookup x = some node ∧ node.deps.length = 0 := by
    intro x
    rw [List.mem_filter, decide_eq_true_eq, lookup_indegree, Option.map_eq_some_iff]
    constructor
    . rintro ⟨_, h⟩
      exact h
    . rintro ⟨node, hnode, hlen⟩
      refine ⟨?_, node, hnode, hlen⟩
      exact horder.mem_iff.mpr (AList.mem_keys.mp (AList.mem_of_lookup hnode))
  refine ⟨rfl, ?_, ?_, ?_, ?_⟩
  . exact (horder.nodup_iff.mpr g.nodes.keys_nodup).filter _
  . intro x node hnode
    rw [lookup_indegree, hnode]
    rfl
  . intro x
    rw [List.nil_append, hroot]
    constructor
    . rintro ⟨node, hnode, hlen⟩
      exact ⟨node, hnode, hlen.symm⟩
    . rintro ⟨node, hnode, hmet⟩
      exact ⟨node, hnode, hmet.symm⟩
  . rw [List.nil_append]
    intro pre x post heq y hxy
    have hx : x ∈ (order.filter fun id => g.indegree.lookup id = some 0) := by
      rw [show (order.filter fun id => g.indegree.lookup id = some 0) = pre ++ x :: post from heq]
      simp
    obtain ⟨node, hnode, hlen⟩ := (hroot x).mp hx
    obtain ⟨node', hnode', hy⟩ := hxy
    rw [hnode] at hnode'
    cases hnode'
    rw [List.eq_nil_of_length_eq_zero hlen] at hy
    cases hy

/--
The answer of the shape check: the first dependency that is no node, a cycle, or nothing.
-/
theorem validate_cases {order : List NodeId} (horder : order.Perm g.nodes.keys)
    : (∃ x y, g.DependsOn x y ∧ y ∉ g.nodes ∧ g.validate order = .ok (.error (.missingDep x y))) ∨
      (g.Executable ∧ g.NoRepeats ∧ g.validate order = .ok (.ok ())) ∨
      ((∀ x y, g.DependsOn x y → y ∈ g.nodes) ∧ ¬(Dag.Acyclic g.DependsOn ∧ g.NoRepeats) ∧
        ∃ count, g.validate order = .ok (.error (.cycle count))) := by
  unfold validate
  cases hmissing : g.missingDep with
  | some err =>
    obtain ⟨x, y, hxy, hy, rfl⟩ := missingDep_eq_some hmissing
    exact .inl ⟨x, y, hxy, hy, rfl⟩
  | none =>
    have hknown := missingDep_eq_none_iff.mp hmissing
    obtain ⟨order', p', hok, hinv, hqueue⟩ :=
      (peelInv_init horder).peel_ok (g.len + 1) (Nat.le_refl _)
    have hiff := hinv.peeled_eq_len_iff hqueue hknown
    simp only [hok]
    by_cases hlen : p'.peeled = g.len
    . obtain ⟨hacyclic, hrepeats⟩ := hiff.mp hlen
      refine .inr (.inl ⟨⟨hknown, hacyclic⟩, hrepeats, ?_⟩)
      rw [if_neg (not_not.mpr hlen)]
    . refine .inr (.inr ⟨hknown, fun h => hlen (hiff.mpr h), g.len - p'.peeled, ?_⟩)
      rw [if_pos hlen]

theorem validate_ok_iff {order : List NodeId} (horder : order.Perm g.nodes.keys)
    : g.validate order = .ok (.ok ()) ↔ g.Executable ∧ g.NoRepeats := by
  constructor
  . intro hok
    rcases validate_cases horder with ⟨_, _, _, _, h⟩ | ⟨hexec, hrepeats, _⟩ | ⟨_, _, _, h⟩
    . rw [hok] at h
      cases h
    . exact ⟨hexec, hrepeats⟩
    . rw [hok] at h
      cases h
  . rintro ⟨hexec, hrepeats⟩
    rcases validate_cases horder with ⟨x, y, hxy, hy, _⟩ | ⟨_, _, h⟩ | ⟨_, hno, _⟩
    . exact absurd (hexec.known x y hxy) hy
    . exact h
    . exact absurd ⟨hexec.acyclic, hrepeats⟩ hno

/--
The check accepts exactly the executable graphs, and a cycle it reports is one.
-/
structure AcceptsExecutable (g : Graph) (order : List NodeId) : Prop where
  accepts : g.validate order = .ok (.ok ()) ↔ g.Executable
  cycle : ∀ count, g.validate order = .ok (.error (.cycle count)) →
    ∃ x, Relation.TransGen g.DependsOn x x

theorem acceptsExecutable_iff (g : Graph) (order : List NodeId) (horder : order.Perm g.nodes.keys)
    : g.AcceptsExecutable order ↔ (g.Executable → g.NoRepeats) := by
  constructor
  . intro h hexec
    exact ((validate_ok_iff horder).mp (h.accepts.mpr hexec)).2
  . intro h
    constructor
    . rw [validate_ok_iff horder]
      exact ⟨fun h => h.1, fun hexec => ⟨hexec, h hexec⟩⟩
    . intro count hcycle
      by_contra hno
      rcases validate_cases horder with ⟨_, _, _, _, hval⟩ | ⟨_, _, hval⟩ | ⟨hknown, hbad, _⟩
      . rw [hcycle] at hval
        cases hval
      . rw [hcycle] at hval
        cases hval
      . have hacyclic : Dag.Acyclic g.DependsOn := fun x hx => hno ⟨x, hx⟩
        exact hbad ⟨hacyclic, h ⟨hknown, hacyclic⟩⟩

-- Two nodes, the second names the first in each of its dependencies.
def pair (deps : List NodeId) : Graph :=
  let node id deps : Provider := ⟨id, deps, .runScoped, .absent, .ok (), .ok ()⟩
  ⟨((∅ : AList fun _ : NodeId => Provider).insert .buildkit (node .buildkit deps)).insert
    .runIdentity (node .runIdentity [])⟩

theorem pair_acceptsExecutable
    : [NodeId.buildkit, .runIdentity].Perm (pair [.runIdentity]).nodes.keys ∧
      (pair [.runIdentity]).AcceptsExecutable [.buildkit, .runIdentity] := by
  have horder : [NodeId.buildkit, .runIdentity].Perm (pair [.runIdentity]).nodes.keys := by decide
  refine ⟨horder, (acceptsExecutable_iff _ _ horder).mpr ?_⟩
  intro _ x node hnode
  have hall : ∀ e ∈ (pair [.runIdentity]).nodes.entries, e.2.deps.Nodup := by decide
  exact hall ⟨x, node⟩ (mem_entries_iff.mpr hnode)

theorem pair_repeated_rejected
    : (pair [.runIdentity, .runIdentity]).Executable ∧
      (pair [.runIdentity, .runIdentity]).validate [.runIdentity, .buildkit]
        = .ok (.error (.cycle 1)) ∧
      ¬(pair [.runIdentity, .runIdentity]).AcceptsExecutable [.runIdentity, .buildkit] := by
  have hdep : ∀ x y, (pair [.runIdentity, .runIdentity]).DependsOn x y →
      x = .buildkit ∧ y = .runIdentity := by
    rintro x y ⟨node, hnode, hy⟩
    have hall : ∀ e ∈ (pair [.runIdentity, .runIdentity]).nodes.entries, ∀ d ∈ e.2.deps,
        e.1 = .buildkit ∧ d = .runIdentity := by decide
    exact hall ⟨x, node⟩ (mem_entries_iff.mpr hnode) y hy
  have hexec : (pair [.runIdentity, .runIdentity]).Executable := by
    constructor
    . intro x y hxy
      rw [(hdep x y hxy).2]
      decide
    . intro x hcycle
      obtain ⟨y, hxy, _⟩ := Relation.TransGen.head'_iff.mp hcycle
      obtain ⟨z, _, hzx⟩ := Relation.TransGen.tail'_iff.mp hcycle
      rw [(hdep x y hxy).1] at hzx
      cases (hdep z _ hzx).2
  have hval : (pair [.runIdentity, .runIdentity]).validate [.runIdentity, .buildkit]
      = .ok (.error (.cycle 1)) := by rfl
  refine ⟨hexec, hval, ?_⟩
  intro h
  have hok := h.accepts.mpr hexec
  rw [hval] at hok
  cases hok

end Resource.Graph
