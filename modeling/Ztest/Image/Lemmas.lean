import Ztest.Image.Impl
import Ztest.Lib.Run
import Mathlib.Data.List.Perm.Basic

/-!
This module contains when a dev image is the one its entry declares: `Plan.Faithful` of a planned run
holds exactly when no two entries are confused by their identity, their tag or the name of their
fetched tree (`Unconfused`).
-/

namespace Image

open Resource (NodeId)

section Plan

variable {Tree : Type} {host : Host Tree} {site : Site} {cache : GitSrc Tree} {es : List DevImageEntry}
  {plan : Plan} {tags : DevTags} {e e' : DevImageEntry}

-- What an entry says its image is built from.
def declared (host : Host Tree) (e : DevImageEntry) : Content Tree :=
  match e.source with
  | .local dockerfile context => .worktree (host.ship context dockerfile)
  | .git url rev dockerfile context => .tree (host.checkout url rev) dockerfile context

structure SameBuild (host : Host Tree) (e e' : DevImageEntry) : Prop where
  content : declared host e = declared host e'
  features : e.features = e'.features
  rustVersion : e.rustVersion = e'.rustVersion

/--
Whichever nodes are built, and in whatever order, what is built under a tag is what every entry with that tag
declares, and it is built for an entry of this tag. A lookup gives the reference of the own tag.
-/
structure Plan.Faithful (host : Host Tree) (site : Site) (cache : GitSrc Tree) (es : List DevImageEntry)
    (plan : Plan) : Prop where
  -- A node that is there already is not built.
  built : ∀ order, order.Subperm plan.nodes → ∀ node request, (node, request) ∈ builds host cache order
    → devTag host node.entry = .ok request.output
      ∧ ∀ e ∈ es, plan.tags.tag host e = request.output → SameBuild host node.entry e
        ∧ declared host e = request.source
  looked : ∀ e ∈ es, ∀ tag states, devTag host e = .ok tag
    → isFailed (states (.image (plan.tags.tag host e))) = false
    → imageReference host (plan.tags.imageRefs site states) e = .ok (podReference site tag)

/--
Entries with one identity have one tag, entries with one tag are built alike, and the trees that are
fetched under one name, also those of earlier runs, are the same.
-/
structure Unconfused (host : Host Tree) (cache : GitSrc Tree) (es : List DevImageEntry) : Prop where
  ids : ∀ e ∈ es, ∀ e' ∈ es, idText e = idText e' → devTag host e = devTag host e'
  tags : ∀ e ∈ es, ∀ e' ∈ es, devTag host e = devTag host e' → SameBuild host e e'
  cached : ∀ e ∈ es, ∀ url rev dockerfile context, e.source = .git url rev dockerfile context
    → ∀ root, cache (sanitizeRev rev) = some root → root = host.checkout url rev
  fetched : ∀ e ∈ es, ∀ e' ∈ es, ∀ url rev dockerfile context url' rev' dockerfile' context',
    e.source = .git url rev dockerfile context → e'.source = .git url' rev' dockerfile' context'
    → sanitizeRev rev = sanitizeRev rev' → host.checkout url rev = host.checkout url' rev'

def CollisionFree (host : Host Tree) (es : List DevImageEntry) : Prop :=
  ∀ e ∈ es, ∀ e' ∈ es, devImageId host e = devImageId host e' → idText e = idText e'

theorem podReference_injective (site : Site) : Function.Injective (podReference site) := by
  intro tag tag' h
  unfold podReference join at h
  split at h
  . exact (String.append_right_inj _).mp h
  . split at h
    . exact h
    . exact (String.append_right_inj _).mp h

theorem hash_spec {init : DevTags} (h : DevTags.hash host init es = .ok tags)
    : (∀ e ∈ es, ∃ e' ∈ es, devImageId host e' = devImageId host e
        ∧ ∃ tag, devTag host e' = .ok tag ∧ tags (devImageId host e) = some tag)
      ∧ (∀ e ∈ es, ∃ tag, devTag host e = .ok tag)
      ∧ ∀ id, (∀ e ∈ es, devImageId host e ≠ id) → tags id = init id := by
  induction es generalizing init with
  | nil =>
    cases h
    exact ⟨nofun, nofun, fun _ _ => rfl⟩
  | cons e rest ih =>
    unfold DevTags.hash at h
    split at h
    . cases h
    . next tag htag =>
      obtain ⟨hgiven, hown, hother⟩ := ih h
      refine ⟨?_, ?_, ?_⟩
      . intro e' he'
        by_cases hlater : ∃ e'' ∈ rest, devImageId host e'' = devImageId host e'
        . obtain ⟨e'', hmem, hid⟩ := hlater
          obtain ⟨e₀, hmem₀, hid₀, htag₀⟩ := hgiven e'' hmem
          rw [hid] at hid₀ htag₀
          exact ⟨e₀, List.mem_cons_of_mem _ hmem₀, hid₀, htag₀⟩
        . rcases List.mem_cons.mp he' with rfl | he'
          . refine ⟨e', List.mem_cons_self, rfl, tag, htag, ?_⟩
            rw [hother _ fun e₀ hmem₀ hid₀ => hlater ⟨e₀, hmem₀, hid₀⟩, Function.update_self]
          . exact absurd ⟨e', he', rfl⟩ hlater
      . intro e' he'
        rcases List.mem_cons.mp he' with rfl | he'
        . exact ⟨tag, htag⟩
        . exact hown e' he'
      . intro id hid
        rw [hother id fun e' he' => hid e' (List.mem_cons_of_mem _ he'),
          Function.update_of_ne (hid e List.mem_cons_self).symm]

theorem plan_ok (h : planRuntime host es = .ok plan)
    : DevTags.hash host (fun _ => none) es = .ok plan.tags
      ∧ plan.nodes = es.foldl (fun nodes e => addDedup nodes ⟨e, plan.tags.tag host e⟩) [] := by
  unfold planRuntime at h
  split at h
  . cases h
  . next tags htags =>
    cases h
    exact ⟨htags, rfl⟩

theorem foldl_addDedup_mem {node : ImageNode} {nodes : List ImageNode} (tag : DevImageEntry → String)
    (h : node ∈ es.foldl (fun nodes e => addDedup nodes ⟨e, tag e⟩) nodes)
    : node ∈ nodes ∨ node.entry ∈ es ∧ node.tag = tag node.entry := by
  induction es generalizing nodes with
  | nil => exact .inl h
  | cons e rest ih =>
    rcases ih h with hmem | ⟨hmem, htag⟩
    . simp only [addDedup] at hmem
      split at hmem
      . exact .inl hmem
      . rcases List.mem_append.mp hmem with hmem | hmem
        . exact .inl hmem
        . cases List.mem_singleton.mp hmem
          exact .inr ⟨List.mem_cons_self, rfl⟩
    . exact .inr ⟨List.mem_cons_of_mem _ hmem, htag⟩

theorem addDedup_ids (nodes : List ImageNode) (node : ImageNode)
    : nodes.map ImageNode.id ⊆ (addDedup nodes node).map ImageNode.id
      ∧ node.id ∈ (addDedup nodes node).map ImageNode.id := by
  unfold addDedup
  split
  . next hmem => exact ⟨List.Subset.refl _, hmem⟩
  . simp

theorem foldl_addDedup_ids (tag : DevImageEntry → String) (nodes : List ImageNode)
    : let result := es.foldl (fun nodes e => addDedup nodes ⟨e, tag e⟩) nodes
      nodes.map ImageNode.id ⊆ result.map ImageNode.id
      ∧ ∀ e ∈ es, NodeId.image (tag e) ∈ result.map ImageNode.id := by
  induction es generalizing nodes with
  | nil => exact ⟨List.Subset.refl _, nofun⟩
  | cons e rest ih =>
    obtain ⟨hsub, hrest⟩ := ih (addDedup nodes ⟨e, tag e⟩)
    obtain ⟨hkeeps, hadds⟩ := addDedup_ids nodes ⟨e, tag e⟩
    refine ⟨fun _ h => hsub (hkeeps h), ?_⟩
    intro e' he'
    rcases List.mem_cons.mp he' with rfl | he'
    . exact hsub hadds
    . exact hrest e' he'

structure Plan.Spec (host : Host Tree) (es : List DevImageEntry) (plan : Plan) : Prop where
  own : ∀ e ∈ es, ∃ tag, devTag host e = .ok tag
  given : ∀ e ∈ es, ∃ e' ∈ es, devImageId host e' = devImageId host e
    ∧ devTag host e' = .ok (plan.tags.tag host e)
    ∧ plan.tags (devImageId host e) = some (plan.tags.tag host e)
  nodes : ∀ node ∈ plan.nodes, node.entry ∈ es ∧ node.tag = plan.tags.tag host node.entry
  covered : ∀ e ∈ es, ∃ node ∈ plan.nodes, node.tag = plan.tags.tag host e

theorem plan_spec (h : planRuntime host es = .ok plan) : plan.Spec host es := by
  obtain ⟨htags, hnodes⟩ := plan_ok h
  obtain ⟨hgiven, hown, _⟩ := hash_spec htags
  refine ⟨hown, ?_, ?_, ?_⟩
  . intro e he
    obtain ⟨e', he', hid, tag, htag, hlookup⟩ := hgiven e he
    have heq : plan.tags.tag host e = tag := by
      unfold DevTags.tag
      rw [hlookup]
      rfl
    rw [heq]
    exact ⟨e', he', hid, htag, hlookup⟩
  . intro node hnode
    rw [hnodes] at hnode
    rcases foldl_addDedup_mem _ hnode with hmem | hmem
    . cases hmem
    . exact hmem
  . intro e he
    obtain ⟨node, hnode, hid⟩ := List.mem_map.mp ((foldl_addDedup_ids (plan.tags.tag host) []).2 e he)
    rw [hnodes]
    exact ⟨node, hnode, NodeId.image.inj hid⟩

theorem Plan.Spec.imageReference (h : plan.Spec host es) (he : e ∈ es)
    {states : NodeId → Option Resource.NodeState}
    (hstate : isFailed (states (.image (plan.tags.tag host e))) = false)
    : Image.imageReference host (plan.tags.imageRefs site states) e
      = .ok (podReference site (plan.tags.tag host e)) := by
  obtain ⟨_, _, _, _, hlookup⟩ := h.given e he
  unfold Image.imageReference DevTags.imageRefs
  simp only [hlookup, hstate]
  rfl

-- What the trees in the cache are, for the entries of the list.
def Cached (host : Host Tree) (cache : GitSrc Tree) (es : List DevImageEntry) : Prop :=
  ∀ e ∈ es, ∀ url rev dockerfile context, e.source = .git url rev dockerfile context
    → ∀ root, cache (sanitizeRev rev) = some root → root = host.checkout url rev

theorem materialize_declared (hun : Unconfused host cache' es) (hcached : Cached host cache es) (he : e ∈ es)
    : declared host e = (materialize host cache e.source).2 ∧ Cached host (materialize host cache e.source).1 es := by
  unfold materialize declared
  cases hsource : e.source with
  | «local» dockerfile context => exact ⟨rfl, hcached⟩
  | git url rev dockerfile context =>
    unfold fetchGitRev
    dsimp only
    split
    . next root hroot =>
      rw [hcached e he url rev dockerfile context hsource root hroot]
      exact ⟨rfl, hcached⟩
    . refine ⟨rfl, ?_⟩
      intro e' he' url' rev' dockerfile' context' hsource' root hroot
      dsimp only at hroot
      by_cases hkey : sanitizeRev rev' = sanitizeRev rev
      . rw [hkey, Function.update_self] at hroot
        cases hroot
        exact hun.fetched e he e' he' _ _ _ _ _ _ _ _ hsource hsource' hkey.symm
      . rw [Function.update_of_ne hkey] at hroot
        exact hcached e' he' url' rev' dockerfile' context' hsource' root hroot

theorem builds_declared {cache' : GitSrc Tree} (hun : Unconfused host cache' es)
    (hcached : Cached host cache es) {order : List ImageNode} (horder : ∀ node ∈ order, node.entry ∈ es)
    {node : ImageNode} {request : BuildRequest (Content Tree) String String} (h : (node, request) ∈ builds host cache order)
    : node ∈ order ∧ request.output = node.tag ∧ declared host node.entry = request.source := by
  induction order generalizing cache with
  | nil => cases h
  | cons first rest ih =>
    have hrest : ∀ node ∈ rest, node.entry ∈ es := fun n hn => horder n (List.mem_cons_of_mem _ hn)
    obtain ⟨hdeclared, hcached'⟩ := materialize_declared hun hcached (horder first List.mem_cons_self)
    rcases List.mem_cons.mp h with heq | hmem
    . cases heq
      exact ⟨List.mem_cons_self, rfl, hdeclared⟩
    . obtain ⟨hmem, heq⟩ := ih hcached' hrest hmem
      exact ⟨List.mem_cons_of_mem _ hmem, heq⟩

theorem Unconfused.faithful (hun : Unconfused host cache es) (hsha : CollisionFree host es)
    (hplan : plan.Spec host es) : plan.Faithful host site cache es := by
  have hown : ∀ e ∈ es, devTag host e = .ok (plan.tags.tag host e) := by
    intro e he
    obtain ⟨e', he', hid, htag, _⟩ := hplan.given e he
    rw [hun.ids e he e' he' (hsha e he e' he' hid.symm)]
    exact htag
  constructor
  . intro order hsub node request hmem
    have horder : ∀ node ∈ order, node.entry ∈ es := fun n hn =>
      (hplan.nodes n (hsub.subset hn)).1
    obtain ⟨hnode, htag, hdeclared⟩ := builds_declared hun hun.cached horder hmem
    obtain ⟨hentry, hgiven⟩ := hplan.nodes node (hsub.subset hnode)
    have hnodeTag : devTag host node.entry = .ok request.output := by
      rw [htag, hgiven]
      exact hown _ hentry
    refine ⟨hnodeTag, ?_⟩
    intro e he hsame
    have hbuild := hun.tags _ hentry e he (by rw [hnodeTag, hown e he, hsame])
    exact ⟨hbuild, hbuild.content.symm.trans hdeclared⟩
  . intro e he tag states htag hstate
    cases (hown e he).symm.trans htag
    exact hplan.imageReference he hstate

theorem append_cons_inj {α : Type} {a : α} {x x' z z' : List α} (hx : a ∉ x) (hx' : a ∉ x')
    (h : x ++ a :: z = x' ++ a :: z') : x = x' ∧ z = z' := by
  induction x generalizing x' with
  | nil =>
    cases x' with
    | nil => exact ⟨rfl, (List.cons.inj h).2⟩
    | cons b x' => exact absurd (List.cons.inj h).1 (List.ne_of_not_mem_cons hx')
  | cons b x ih =>
    cases x' with
    | nil => exact absurd (List.cons.inj h).1.symm (List.ne_of_not_mem_cons hx)
    | cons b' x' =>
      obtain ⟨rfl, htail⟩ := List.cons.inj h
      obtain ⟨rfl, rfl⟩ := ih (List.not_mem_of_not_mem_cons hx) (List.not_mem_of_not_mem_cons hx') htail
      exact ⟨rfl, rfl⟩

theorem sanitizeRev_no_colon (rev : String) : ':' ∉ (sanitizeRev rev).toList := by
  unfold sanitizeRev
  dsimp only
  split
  . next hhex =>
    rw [String.toList_ofList]
    intro hmem
    have := List.all_eq_true.mp hhex.2 ':' (List.mem_of_mem_take hmem)
    exact absurd this (by decide)
  . rw [String.toList_ofList]
    intro hmem
    obtain ⟨c, _, hc⟩ := List.mem_map.mp hmem
    split at hc
    . next halnum =>
      rw [hc] at halnum
      exact absurd halnum (by decide)
    . exact absurd hc (by decide)

theorem tag_rev {repo repo' rev rev' : String}
    (h : repo ++ ":dev-" ++ sanitizeRev rev = repo' ++ ":dev-" ++ sanitizeRev rev')
    : sanitizeRev rev = sanitizeRev rev' := by
  have hchars := congrArg (fun s => s.toList.reverse) h
  simp only [String.toList_append, List.reverse_append] at hchars
  have hdev : (":dev-" : String).toList.reverse = ['-', 'v', 'e', 'd', ':'] := by decide
  rw [hdev, ← List.append_assoc, ← List.append_assoc] at hchars
  have hcolon : ∀ rev, ':' ∉ (sanitizeRev rev).toList.reverse ++ ['-', 'v', 'e', 'd'] := by
    intro rev hmem
    rcases List.mem_append.mp hmem with hmem | hmem
    . exact sanitizeRev_no_colon rev (List.mem_reverse.mp hmem)
    . exact absurd hmem (by decide)
  have hsplit : ∀ (x z : List Char), x ++ ['-', 'v', 'e', 'd', ':'] ++ z
      = (x ++ ['-', 'v', 'e', 'd']) ++ ':' :: z := by simp
  rw [List.append_assoc, List.append_assoc, ← List.append_assoc, hsplit, ← List.append_assoc, hsplit]
    at hchars
  obtain ⟨heq, _⟩ := append_cons_inj (hcolon rev) (hcolon rev') hchars
  exact String.toList_injective (List.reverse_injective (List.append_cancel_right heq))

theorem devTag_rev {url rev dockerfile context url' rev' dockerfile' context' : String}
    (hsource : e.source = .git url rev dockerfile context)
    (hsource' : e'.source = .git url' rev' dockerfile' context')
    (htag : devTag host e = devTag host e') (hfeatures : e.features = e'.features)
    (hversion : e.rustVersion = e'.rustVersion) : sanitizeRev rev = sanitizeRev rev' := by
  simp only [devTag, tagSuffix, hsource, hsource', hfeatures, hversion] at htag
  by_cases hplain : e'.features.isEmpty ∧ e'.rustVersion.isNone
  . simp only [hplain, and_self, if_true] at htag
    exact tag_rev (Except.ok.inj htag)
  . simp only [hplain, if_false] at htag
    have heq := Except.ok.inj htag
    rw [← String.append_assoc, ← String.append_assoc, ← String.append_assoc, ← String.append_assoc,
      String.append_left_inj, String.append_left_inj] at heq
    exact tag_rev heq

theorem fetchGitRev_spec (cache : GitSrc Tree) (url rev : String)
    : (fetchGitRev host cache url rev).1 (sanitizeRev rev) = some (fetchGitRev host cache url rev).2
      ∧ ∀ root, cache (sanitizeRev rev) = some root → (fetchGitRev host cache url rev).2 = root := by
  unfold fetchGitRev
  dsimp only
  split
  . next root hroot =>
    refine ⟨hroot, ?_⟩
    intro root' hroot'
    exact Option.some.inj (hroot.symm.trans hroot')
  . next hnone =>
    refine ⟨Function.update_self _ _ _, ?_⟩
    intro root hroot
    rw [hnone] at hroot
    cases hroot

theorem SameBuild.symm (h : SameBuild host e e') : SameBuild host e' e :=
  ⟨h.content.symm, h.features.symm, h.rustVersion.symm⟩

theorem SameBuild.trans {e'' : DevImageEntry} (h : SameBuild host e e') (h' : SameBuild host e' e'')
    : SameBuild host e e'' :=
  ⟨h.content.trans h'.content, h.features.trans h'.features, h.rustVersion.trans h'.rustVersion⟩

theorem git_of_declared {dockerfile context : String} {root : Tree}
    (h : declared host e = .tree root dockerfile context)
    : ∃ url rev, e.source = .git url rev dockerfile context ∧ root = host.checkout url rev := by
  unfold declared at h
  split at h
  . cases h
  . next url rev dockerfile' context' hsource =>
    cases h
    exact ⟨url, rev, hsource, rfl⟩

section Faithful

variable (hplan : plan.Spec host es) (hf : plan.Faithful host site cache es)

include hplan hf

theorem Plan.Faithful.own (he : e ∈ es) : devTag host e = .ok (plan.tags.tag host e) := by
  obtain ⟨tag, htag⟩ := hplan.own e he
  have hlooked := hf.looked e he tag (fun _ => none) htag rfl
  rw [hplan.imageReference he rfl] at hlooked
  rw [podReference_injective site (Except.ok.inj hlooked)]
  exact htag

omit hplan in
theorem Plan.Faithful.first {node : ImageNode} (hnode : node ∈ plan.nodes) (he : e ∈ es)
    (htag : node.tag = plan.tags.tag host e)
    : SameBuild host node.entry e ∧ declared host e = (materialize host cache node.entry.source).2 :=
  (hf.built _ (List.perm_cons_erase hnode).symm.subperm node _ List.mem_cons_self).2 e he htag.symm

theorem Plan.Faithful.git {node : ImageNode} (hnode : node ∈ plan.nodes) (he : e ∈ es)
    (htag : node.tag = plan.tags.tag host e) {url rev dockerfile context : String}
    (hsource : e.source = .git url rev dockerfile context)
    : ∃ url' rev', node.entry.source = .git url' rev' dockerfile context
        ∧ sanitizeRev rev' = sanitizeRev rev
        ∧ (fetchGitRev host cache url' rev').2 = host.checkout url rev := by
  obtain ⟨hsame, hdeclared⟩ := hf.first hnode he htag
  have hgit : declared host e = .tree (host.checkout url rev) dockerfile context := by
    simp only [declared, hsource]
  obtain ⟨url', rev', hsource', _⟩ := git_of_declared (hsame.content.trans hgit)
  refine ⟨url', rev', hsource', ?_, ?_⟩
  . obtain ⟨hentry, hgiven⟩ := hplan.nodes node hnode
    have htags : devTag host node.entry = devTag host e := by
      rw [hf.own hplan hentry, hf.own hplan he, ← hgiven, htag]
    exact devTag_rev hsource' hsource htags hsame.features hsame.rustVersion
  . rw [hsource'] at hdeclared
    exact (Content.tree.inj (hdeclared.symm.trans hgit)).1

theorem Plan.Faithful.unconfused : Unconfused host cache es := by
  have hgiven : ∀ e ∈ es, ∀ e' ∈ es, devTag host e = devTag host e'
      → plan.tags.tag host e = plan.tags.tag host e' := by
    intro e he e' he' htag
    rw [hf.own hplan he, hf.own hplan he'] at htag
    exact Except.ok.inj htag
  have htags : ∀ e ∈ es, ∀ e' ∈ es, devTag host e = devTag host e' → SameBuild host e e' := by
    intro e he e' he' htag
    obtain ⟨node, hnode, hnodeTag⟩ := hplan.covered e he
    obtain ⟨hsame, _⟩ := hf.first hnode he hnodeTag
    obtain ⟨hsame', _⟩ := hf.first hnode he' (hnodeTag.trans (hgiven e he e' he' htag))
    exact hsame.symm.trans hsame'
  refine ⟨?_, htags, ?_, ?_⟩
  . intro e he e' he' hid
    have hsame : plan.tags.tag host e = plan.tags.tag host e' := by
      unfold DevTags.tag devImageId
      rw [hid]
    rw [hf.own hplan he, hf.own hplan he', hsame]
  . intro e he url rev dockerfile context hsource root hroot
    obtain ⟨node, hnode, hnodeTag⟩ := hplan.covered e he
    obtain ⟨url', rev', _, hkey, hfetched⟩ := hf.git hplan hnode he hnodeTag hsource
    rw [← hkey] at hroot
    rw [← hfetched, (fetchGitRev_spec cache url' rev').2 root hroot]
  . intro e he e' he' url rev dockerfile context url' rev' dockerfile' context' hsource hsource' hkey
    obtain ⟨node, hnode, hnodeTag⟩ := hplan.covered e he
    obtain ⟨node', hnode', hnodeTag'⟩ := hplan.covered e' he'
    by_cases hsame : node = node'
    . subst hsame
      have htag : devTag host e = devTag host e' := by
        rw [hf.own hplan he, hf.own hplan he', ← hnodeTag, hnodeTag']
      have hcontent := (htags e he e' he' htag).content
      simp only [declared, hsource, hsource', Content.tree.injEq] at hcontent
      exact hcontent.1
    . -- The two nodes are built one after the other: the second finds the tree of the first.
      obtain ⟨url₁, rev₁, hsource₁, hkey₁, hfetched⟩ := hf.git hplan hnode he hnodeTag hsource
      obtain ⟨url₂, rev₂, hsource₂, hkey₂, _⟩ := hf.git hplan hnode' he' hnodeTag' hsource'
      have hperm : (node :: node' :: (plan.nodes.erase node).erase node').Perm plan.nodes := by
        have hmem : node' ∈ plan.nodes.erase node := (List.mem_erase_of_ne (Ne.symm hsame)).mpr hnode'
        exact ((List.perm_cons_erase hmem).symm.cons node).trans (List.perm_cons_erase hnode).symm
      have hbuilt := hf.built _ hperm.subperm node' _ (List.mem_cons_of_mem _ List.mem_cons_self)
      have hdeclared := (hbuilt.2 e' he' hnodeTag'.symm).2
      have hleft := (@fetchGitRev_spec _ host cache url₁ rev₁).1
      rw [hkey₁, hkey, ← hkey₂, hfetched] at hleft
      have hfound := (@fetchGitRev_spec _ host _ url₂ rev₂).2 _ hleft
      simp only [declared, devRequest, materialize, hsource', hsource₁, hsource₂, Content.tree.injEq] at hdeclared
      rw [hdeclared.1, hfound]

end Faithful

theorem planRuntime_faithful_iff (site : Site) (cache : GitSrc Tree) (hsha : CollisionFree host es)
    (h : planRuntime host es = .ok plan)
    : plan.Faithful host site cache es ↔ Unconfused host cache es := by
  have hplan := plan_spec h
  constructor
  . intro hf
    exact hf.unconfused hplan
  . intro hun
    exact hun.faithful hsha hplan

end Plan

namespace Sample

def sha256 (text : String) : String :=
  if text = "zingod\x00\x00\x00local" then
    "ff9d2ed8266c33324faba71bcf25841356e6870dd02ba040e7997bdd02006081"
  else if text = "zebrad\x00\x00\x00git:zebra.git@v2" then
    "0b1e2bbcb869a0b1e85f582358a98b581d65e90f976f58c59a32db50dae3fc99"
  else if text = "ca978112ca1bbdcafac231b39a23dc4da786eff8147c4e72b9807785afee48bb" then
    "da3811154d59c4267077ddd8bb768fa9b06399c486e1fc00485116b57c9872f5"
  else if text = "3e23e8160039594a33894f6564e1b1348bbd7a0088d42c4acb73eeaed59c009d" then
    "dba1de6de88c058e5e0922171e0bd97e79e20e9fc6c1d2737a91146765527305"
  else
    ""

-- Two worktrees, one holding `a` and one holding `b`.
def host : Host String where
  sha256 := sha256
  digest context _ :=
    .ok (if context = "/a" then "ca978112ca1bbdcafac231b39a23dc4da786eff8147c4e72b9807785afee48bb"
      else "3e23e8160039594a33894f6564e1b1348bbd7a0088d42c4acb73eeaed59c009d")
  ship context _ := if context = "/a" then [97] else [98]
  checkout url rev := url ++ " " ++ rev
  toolchainRustVersion _ := none

def zingod (context : String) : DevImageEntry :=
  ⟨"zingod", .local (context ++ "/Dockerfile") context, [], none⟩

def zebrad : DevImageEntry :=
  ⟨"zebrad", .git "zebra.git" "v2" "Dockerfile" ".", [], none⟩

def site : Site := ⟨.local, .docker, none, none⟩

end Sample

theorem faithful_distinct
    : ∃ plan, planRuntime Sample.host [Sample.zingod "/a", Sample.zebrad] = .ok plan
        ∧ plan.Faithful Sample.host Sample.site (fun _ => none) [Sample.zingod "/a", Sample.zebrad] := by
  refine ⟨_, rfl, ?_⟩
  refine (planRuntime_faithful_iff Sample.site (fun _ => none) ?_ rfl).mpr ?_
  . unfold CollisionFree
    decide +kernel
  . have hsame : ∀ e ∈ [Sample.zingod "/a", Sample.zebrad], ∀ e' ∈ [Sample.zingod "/a", Sample.zebrad],
        devTag Sample.host e = devTag Sample.host e' → e = e' := by decide +kernel
    have hgit : ∀ e ∈ [Sample.zingod "/a", Sample.zebrad], ∀ url rev dockerfile context,
        e.source = .git url rev dockerfile context → e = Sample.zebrad := by
      intro e he url rev dockerfile context hsource
      rcases List.mem_cons.mp he with rfl | he
      . cases hsource
      . exact List.mem_singleton.mp he
    refine ⟨by decide +kernel, ?_, fun _ _ _ _ _ _ _ _ => nofun, ?_⟩
    . intro e he e' he' htag
      cases hsame e he e' he' htag
      exact ⟨rfl, rfl, rfl⟩
    . intro e he e' he' url rev dockerfile context url' rev' dockerfile' context' hsource hsource' _
      cases hgit e he _ _ _ _ hsource
      cases hgit e' he' _ _ _ _ hsource'
      cases hsource
      cases hsource'
      rfl

-- Two worktrees declare an image of one name: the first is built under the tag of the second.
theorem worktrees_swapped
    : ∃ plan, planRuntime Sample.host [Sample.zingod "/a", Sample.zingod "/b"] = .ok plan
        ∧ builds Sample.host (fun _ => none) plan.nodes
          = [(⟨Sample.zingod "/a", "zingod:dev-dba1de6de88c"⟩,
              ⟨.worktree [97], none, [], "zingod:dev-dba1de6de88c"⟩)]
        ∧ devTag Sample.host (Sample.zingod "/a") = .ok "zingod:dev-da3811154d59"
        ∧ imageReference Sample.host (plan.tags.imageRefs Sample.site fun _ => none) (Sample.zingod "/a")
          = .ok "zingod:dev-dba1de6de88c"
        ∧ ¬ plan.Faithful Sample.host Sample.site (fun _ => none)
            [Sample.zingod "/a", Sample.zingod "/b"] := by
  refine ⟨_, rfl, by decide +kernel, by decide +kernel, by decide +kernel, ?_⟩
  intro hf
  have hlooked := hf.looked (Sample.zingod "/a") List.mem_cons_self "zingod:dev-da3811154d59"
    (fun _ => none) (by decide +kernel) rfl
  exact absurd hlooked (by decide +kernel)

end Image
