import Mathlib.Data.List.Nodup
import Mathlib.Data.Set.Basic
import Ztest.Pipeline.Profiles.Impl

namespace Pipeline
namespace Profiles

open Conditional

variable {α : Type}

-- No two attributes of a file start at the same place.
structure Root (α : Type) extends File α Invocation where
  distinct : (toFile.sites.map fun s => s.leaf.start).Nodup

def declaration (inv : Invocation) : Option SyncTestArgs :=
  if isSyncTestPath inv.path then inv.args.toOption else none

-- The profiles that the compiler sees under a valuation of the conditions.
def seen (t : Target) (v : α → Bool) (root : Root α) : List ProfileStub :=
  (leavesAll (root.compile v)).filterMap fun inv =>
    (declaration inv).map fun args => stub args t inv.start false

def scan (t : Target) (root : Root α) : Scan := scanFile (.parsed root.toFile) t []

structure Tells (V : Set (α → Bool)) (t : Target) (root : Root α) : Prop where
  certain : (scan t root).isUncertain = false →
    (scan t root).profiles.Nodup ∧ ∀ v ∈ V, seen t v root = (scan t root).profiles
  present : (scan t root).isUncertain = true →
    ∀ p ∈ (scan t root).profiles, p.gated = false → ∀ v ∈ V, p ∈ seen t v root

-- `hasCfg` of the function or of a module around it
def gatedAt (s : Site α Invocation) : Bool := s.gates.any hasCfg

-- A declaration that is not wrapped in `cfg_attr`.
def Listed (s : Site α Invocation) : Prop := s.wraps = [] ∧ (declaration s.leaf).isSome

def opens (v : α → Bool) (root : Root α) (s : Site α Invocation) : Bool :=
  keeps v root.attrs && s.gates.all (keeps v)

mutual

def inlined : Item α Invocation → Bool
  | .fn _ => true
  | .mod _ items => inlinedAll items
  | .outOfLine _ _ => false
  | .other => true

def inlinedAll : List (Item α Invocation) → Bool
  | [] => true
  | item :: items => inlined item && inlinedAll items

end

structure Clear (root : Root α) : Prop where
  inlined : inlinedAll root.items = true
  parses : ∀ s ∈ root.sites, s.wraps = [] → isSyncTestPath s.leaf.path = true → (declaration s.leaf).isSome
  ungated : ∀ s ∈ root.sites, Listed s → gatedAt s = false

structure Unhidden (V : Set (α → Bool)) (root : Root α) : Prop where
  opened : ∀ s ∈ root.sites, Listed s → gatedAt s = false → ∀ v ∈ V, opens v root s = true
  unwrapped : Clear root → ∀ s ∈ root.sites, s.wraps ≠ [] → (declaration s.leaf).isSome → ∀ v ∈ V,
    (opens v root s && s.wraps.all v) = false

section Visit

variable {t : Target}

-- What the search lists at a site.
def listedAt (t : Target) (s : Site α Invocation) : Option ProfileStub :=
  if s.wraps = [] then (declaration s.leaf).map fun args => stub args t s.leaf.start (gatedAt s) else none

def refusedAt (s : Site α Invocation) : Bool :=
  s.wraps = [] && isSyncTestPath s.leaf.path && (declaration s.leaf).isNone

structure Grown (t : Target) (found found' : Scan) (part : List (Site α Invocation)) (inlined : Bool) : Prop where
  profiles : found'.profiles = found.profiles ++ part.filterMap (listedAt t)
  blind : found'.blindSpots = [] ↔ found.blindSpots = [] ∧ inlined = true ∧ ∀ s ∈ part, refusedAt s = false

theorem Grown.refl (found : Scan) : Grown (α := α) t found found [] true where
  profiles := by simp
  blind := by simp

theorem Grown.trans {found found' found'' : Scan} {part part' : List (Site α Invocation)} {inlined inlined' : Bool}
    (h : Grown t found found' part inlined) (h' : Grown t found' found'' part' inlined')
    : Grown t found found'' (part ++ part') (inlined && inlined') where
  profiles := by
    rw [h'.profiles, h.profiles, List.filterMap_append, List.append_assoc]
  blind := by
    rw [h'.blind, h.blind]
    simp only [Bool.and_eq_true, List.forall_mem_append]
    tauto

theorem Grown.wrapped (found : Scan) {part : List (Site α Invocation)} (h : ∀ s ∈ part, s.wraps ≠ [])
    : Grown t found found part true where
  profiles := by
    have hnone : part.filterMap (listedAt t) = [] := by
      rw [List.filterMap_eq_nil_iff]
      intro s hs
      rw [listedAt, if_neg (h s hs)]
    rw [hnone, List.append_nil]
  blind := by
    have hfine : ∀ s ∈ part, refusedAt s = false := by
      intro s hs
      simp [refusedAt, h s hs]
    simpa using fun _ => hfine

section Gates

variable {gates : List (List (Attr α Invocation))} {gated : Bool}

theorem grown_plain (hgated : gated = gates.any hasCfg) (found : Scan) (inv : Invocation)
    : Grown t found (visitAttr (α := α) t gated found (.plain inv)) [⟨gates, [], inv⟩] true := by
  have hat : gatedAt ⟨gates, [], inv⟩ = gated := hgated.symm
  unfold visitAttr
  dsimp only
  cases hpath : isSyncTestPath inv.path with
  | false =>
    have hnone : declaration inv = none := by
      unfold declaration
      rw [if_neg (by simp [hpath])]
    rw [if_neg (by simp)]
    constructor <;> simp [listedAt, refusedAt, hnone, hpath]
  | true =>
    rw [if_pos rfl]
    cases hargs : inv.args with
    | ok args =>
      have hsome : declaration inv = some args := by
        unfold declaration
        rw [if_pos hpath, hargs]
        rfl
      constructor <;> simp [listedAt, refusedAt, hsome, hat]
    | error e =>
      have hnone : declaration inv = none := by
        unfold declaration
        rw [if_pos hpath, hargs]
        rfl
      constructor <;> simp [listedAt, refusedAt, hnone, hpath, Scan.blind]

theorem grown_visitAttr (hgated : gated = gates.any hasCfg) (found : Scan) (attr : Attr α Invocation)
    : Grown t found (visitAttr t gated found attr) (attrSites gates [] attr) true := by
  cases attr with
  | cfg p => exact .refl found
  | cfgAttr p attrs =>
    apply Grown.wrapped
    intro s hs hnil
    have hsuffix := (mem_attrsSites attrs hs).2
    rw [hnil] at hsuffix
    simp at hsuffix
  | plain inv => exact grown_plain hgated found inv

theorem grown_visitAttrs (hgated : gated = gates.any hasCfg) (attrs : List (Attr α Invocation)) (found : Scan)
    : Grown t found (attrs.foldl (visitAttr t gated) found) (attrsSites gates [] attrs) true := by
  induction attrs generalizing found with
  | nil => exact .refl found
  | cons attr attrs ih =>
    rw [attrsSites]
    exact (grown_visitAttr hgated found attr).trans (ih _)

end Gates

mutual

theorem grown_visitItem {gates : List (List (Attr α Invocation))} {gated : Bool} (hgated : gated = gates.any hasCfg)
    (found : Scan) (item : Item α Invocation)
    : Grown t found (visitItem t gated found item) (sites gates item) (inlined item) := by
  cases item with
  | fn attrs =>
    apply grown_visitAttrs
    rw [List.any_cons, hgated, Bool.or_comm]
  | mod attrs items =>
    apply grown_visitItems
    rw [List.any_cons, hgated, Bool.or_comm]
  | outOfLine attrs ident => constructor <;> simp [visitItem, sites, inlined, Scan.blind]
  | other => exact .refl found

theorem grown_visitItems {gates : List (List (Attr α Invocation))} {gated : Bool} (hgated : gated = gates.any hasCfg)
    (found : Scan) (items : List (Item α Invocation))
    : Grown t found (visitItems t gated found items) (sitesAll gates items) (inlinedAll items) := by
  cases items with
  | nil => exact .refl found
  | cons item items => exact (grown_visitItem hgated found item).trans (grown_visitItems hgated _ items)

end

end Visit

section Scanned

variable {t : Target} {v : α → Bool} {V : Set (α → Bool)} {root : Root α} {s s' : Site α Invocation} {p : ProfileStub}

theorem grown_scan (t : Target) (root : Root α)
    : Grown t ⟨[], []⟩ (scan t root) root.sites (inlinedAll root.items) :=
  @grown_visitItems α t [] false rfl ⟨[], []⟩ root.items

theorem profiles_scan (t : Target) (root : Root α) : (scan t root).profiles = root.sites.filterMap (listedAt t) := by
  simpa using (grown_scan t root).profiles

theorem mem_profiles_iff : p ∈ (scan t root).profiles ↔ ∃ s ∈ root.sites, listedAt t s = some p := by
  rw [profiles_scan, List.mem_filterMap]

theorem listedAt_eq_some
    : listedAt t s = some p ↔
      s.wraps = [] ∧ ∃ args, declaration s.leaf = some args ∧ stub args t s.leaf.start (gatedAt s) = p := by
  unfold listedAt
  split
  . next hwraps => simp [hwraps]
  . next hwraps => simp [hwraps]

theorem refusedAt_eq_false
    : refusedAt s = false ↔ (s.wraps = [] → isSyncTestPath s.leaf.path = true → (declaration s.leaf).isSome) := by
  unfold refusedAt
  cases isSyncTestPath s.leaf.path <;> cases declaration s.leaf <;> simp

theorem certain_iff : (scan t root).isUncertain = false ↔ Clear root := by
  have hblind := (grown_scan t root).blind
  have hgated : (scan t root).profiles.any ProfileStub.gated = false ↔ ∀ s ∈ root.sites, Listed s → gatedAt s = false := by
    rw [List.any_eq_false]
    constructor
    . intro h s hs hlisted
      rcases Option.isSome_iff_exists.mp hlisted.2 with ⟨args, hargs⟩
      have := h _ (mem_profiles_iff.mpr ⟨s, hs, listedAt_eq_some.mpr ⟨hlisted.1, args, hargs, rfl⟩⟩)
      simpa [stub] using this
    . intro h p hp
      rcases mem_profiles_iff.mp hp with ⟨s, hs, hlisted⟩
      rcases listedAt_eq_some.mp hlisted with ⟨hwraps, args, hargs, rfl⟩
      have := h s hs ⟨hwraps, by rw [hargs]; rfl⟩
      simp [stub, this]
  unfold Scan.isUncertain
  rw [Bool.or_eq_false_iff, Bool.not_eq_false', List.isEmpty_iff, hblind, hgated]
  constructor
  . rintro ⟨⟨_, hinlined, hfine⟩, hungated⟩
    exact ⟨hinlined, fun s hs => refusedAt_eq_false.mp (hfine s hs), hungated⟩
  . intro h
    exact ⟨⟨rfl, h.inlined, fun s hs => refusedAt_eq_false.mpr (h.parses s hs)⟩, h.ungated⟩

-- What the compiler sees at a site.
def seenAt (t : Target) (v : α → Bool) (root : Root α) (s : Site α Invocation) : Option ProfileStub :=
  if opens v root s && s.wraps.all v then
    (declaration s.leaf).map fun args => stub args t s.leaf.start false
  else
    none

theorem seenAt_eq_some
    : seenAt t v root s = some p ↔
      (opens v root s && s.wraps.all v) = true ∧
        ∃ args, declaration s.leaf = some args ∧ stub args t s.leaf.start false = p := by
  unfold seenAt
  split
  . next hreached => simp [hreached]
  . next hreached => simp [hreached]

theorem seen_eq (t : Target) (v : α → Bool) (root : Root α) : seen t v root = root.sites.filterMap (seenAt t v root) := by
  have hreached : ∀ s, (keeps v root.attrs && Site.reached v s) = (opens v root s && s.wraps.all v) := by
    intro s
    rw [opens, Site.reached, Bool.and_assoc]
  unfold seen
  rw [leaves_compile, List.filterMap_map, List.filterMap_filter]
  apply List.filterMap_congr
  intro s _
  rw [hreached, seenAt]
  rfl

theorem mem_seen_iff : p ∈ seen t v root ↔ ∃ s ∈ root.sites, seenAt t v root s = some p := by
  rw [seen_eq, List.mem_filterMap]

theorem site_unique (hs : s ∈ root.sites) (hs' : s' ∈ root.sites) (h : s.leaf.start = s'.leaf.start) : s = s' :=
  List.inj_on_of_nodup_map root.distinct hs hs' h

theorem seenAt_of_mem_seen (hs : s ∈ root.sites) {args : SyncTestArgs} {gated : Bool}
    (hmem : stub args t s.leaf.start gated ∈ seen t v root)
    : (opens v root s && s.wraps.all v) = true := by
  rcases mem_seen_iff.mp hmem with ⟨s', hs', hseen⟩
  rcases seenAt_eq_some.mp hseen with ⟨hreached, args', _, hstub⟩
  have hstart : s'.leaf.start = s.leaf.start := congrArg ProfileStub.start hstub
  rwa [site_unique hs' hs hstart] at hreached

theorem nodup_profiles (t : Target) (root : Root α) : (scan t root).profiles.Nodup := by
  have hsublist : ∀ part : List (Site α Invocation),
      ((part.filterMap (listedAt t)).map ProfileStub.start).Sublist (part.map fun s => s.leaf.start) := by
    intro part
    induction part with
    | nil => exact List.Sublist.refl _
    | cons s part ih =>
      cases hlisted : listedAt t s with
      | none =>
        rw [List.filterMap_cons_none hlisted]
        exact ih.cons _
      | some p =>
        rcases listedAt_eq_some.mp hlisted with ⟨_, _, _, rfl⟩
        rw [List.filterMap_cons_some hlisted]
        exact ih.cons_cons _
  rw [profiles_scan]
  exact (root.distinct.sublist (hsublist root.sites)).of_map _

end Scanned

theorem tells_iff (V : Set (α → Bool)) (t : Target) (root : Root α) : Tells V t root ↔ Unhidden V root := by
  constructor
  . intro h
    have hlisted : ∀ s ∈ root.sites, Listed s → gatedAt s = false → ∀ v ∈ V, opens v root s = true := by
      intro s hs hlisted hungated v hv
      rcases Option.isSome_iff_exists.mp hlisted.2 with ⟨args, hargs⟩
      have hmem : stub args t s.leaf.start false ∈ (scan t root).profiles :=
        mem_profiles_iff.mpr ⟨s, hs, listedAt_eq_some.mpr ⟨hlisted.1, args, hargs, by rw [hungated]⟩⟩
      have hseen : stub args t s.leaf.start false ∈ seen t v root := by
        cases huncertain : (scan t root).isUncertain with
        | true => exact h.present huncertain _ hmem rfl v hv
        | false =>
          rw [(h.certain huncertain).2 v hv]
          exact hmem
      exact (Bool.and_eq_true_iff.mp (seenAt_of_mem_seen hs hseen)).1
    refine ⟨hlisted, fun hclear s hs hwraps hsome v hv => ?_⟩
    by_contra hreached
    rw [Bool.not_eq_false] at hreached
    rcases Option.isSome_iff_exists.mp hsome with ⟨args, hargs⟩
    have hmem : stub args t s.leaf.start false ∈ seen t v root :=
      mem_seen_iff.mpr ⟨s, hs, seenAt_eq_some.mpr ⟨hreached, args, hargs, rfl⟩⟩
    rw [(h.certain (certain_iff.mpr hclear)).2 v hv] at hmem
    rcases mem_profiles_iff.mp hmem with ⟨s', hs', hlisted'⟩
    rcases listedAt_eq_some.mp hlisted' with ⟨hnil, _, _, hstub⟩
    have hstart : s'.leaf.start = s.leaf.start := congrArg ProfileStub.start hstub
    rw [site_unique hs' hs hstart] at hnil
    exact hwraps hnil
  . intro h
    refine ⟨fun hcertain => ⟨nodup_profiles t root, fun v hv => ?_⟩, fun _ p hp hungated v hv => ?_⟩
    . have hclear := certain_iff.mp hcertain
      rw [seen_eq, profiles_scan]
      apply List.filterMap_congr
      intro s hs
      unfold seenAt listedAt
      cases hdecl : declaration s.leaf with
      | none => simp
      | some args =>
        by_cases hwraps : s.wraps = []
        . have hlisted : Listed s := ⟨hwraps, by rw [hdecl]; rfl⟩
          have hungated := hclear.ungated s hs hlisted
          simp [hwraps, h.opened s hs hlisted hungated v hv, hungated]
        . have hhidden := h.unwrapped hclear s hs hwraps (by rw [hdecl]; rfl) v hv
          rw [if_neg (by simp [hhidden]), if_neg hwraps]
    . rcases mem_profiles_iff.mp hp with ⟨s, hs, hlistedAt⟩
      rcases listedAt_eq_some.mp hlistedAt with ⟨hwraps, args, hargs, rfl⟩
      have hgated : gatedAt s = false := hungated
      have hopen := h.opened s hs ⟨hwraps, by rw [hargs]; rfl⟩ hgated v hv
      apply mem_seen_iff.mpr
      refine ⟨s, hs, seenAt_eq_some.mpr ⟨?_, args, hargs, by rw [hgated]⟩⟩
      simp [hopen, hwraps]

-- A declaration in a file that only one feature compiles.
def lone : Invocation where
  path := ["ztest", "sync_test"]
  args := .ok ⟨"nested", "", "wallet", "48h", "sync", none, none, []⟩
  start := ⟨3, 0⟩
  not_cfg := by decide
  not_cfg_attr := by decide

def featureRoot : Root String where
  attrs := [.cfg "feature"]
  items := [.fn [.plain lone]]
  distinct := by decide

theorem feature_root_certain : ¬Tells {fun _ => false} ⟨"tests/t.rs", "pkg", "t"⟩ featureRoot := by
  intro h
  have hcertain := (h.certain (by decide)).2 (fun _ => false) rfl
  revert hcertain
  decide

end Profiles
end Pipeline
