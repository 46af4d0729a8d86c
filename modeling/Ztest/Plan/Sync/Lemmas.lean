import Ztest.Plan.Lemmas
import Ztest.Plan.Sync.Impl

namespace Planner

open Qos (QosProfile)

theorem mem_of_mem_dedupBy {α κ : Type} [DecidableEq κ] {key : α → κ} {seen : List κ} {l : List α} {e : α}
    (h : e ∈ dedupBy key seen l)
    : e ∈ l := by
  induction l generalizing seen with
  | nil => cases h
  | cons e' rest ih =>
    unfold dedupBy at h
    split at h
    . exact List.mem_cons_of_mem _ (ih h)
    . rcases List.mem_cons.mp h with rfl | h
      . exact List.mem_cons_self
      . exact List.mem_cons_of_mem _ (ih h)

theorem dedupBy_eq_nil {α κ : Type} [DecidableEq κ] {key : α → κ} {l : List α}
    : dedupBy key [] l = [] ↔ l = [] := by
  cases l with
  | nil => simp [dedupBy]
  | cons e rest => simp [dedupBy]

theorem flatMap_perBinary {α : Type} {dumps : List (SelectedBinary × Dumped)} {of : Dumped → List α}
    (hdistinct : (dumps.map fun dump => dump.1.binaryId).Nodup) {bin : SelectedBinary} {dumped : Dumped}
    (hmem : (bin, dumped) ∈ dumps)
    : ((perBinary dumps of).filter fun entry => entry.1 = bin.binaryId).flatMap Prod.snd = of dumped := by
  have hnone : ∀ {dumps : List (SelectedBinary × Dumped)}, bin.binaryId ∉ dumps.map (fun dump => dump.1.binaryId) →
      ((perBinary dumps of).filter fun entry => entry.1 = bin.binaryId) = [] := by
    intro dumps hnot
    rw [List.filter_eq_nil_iff]
    intro entry hentry
    rcases List.mem_map.mp (List.mem_of_mem_filter hentry) with ⟨dump, hdump, rfl⟩
    simp only [decide_eq_true_eq]
    intro heq
    exact hnot (List.mem_map.mpr ⟨dump, hdump, heq⟩)
  induction dumps with
  | nil => cases hmem
  | cons dump rest ih =>
    rw [List.map_cons, List.nodup_cons] at hdistinct
    have hcons : perBinary (dump :: rest) of =
        (if (of dump.2).isEmpty then [] else [(dump.1.binaryId, of dump.2)]) ++ perBinary rest of := by
      unfold perBinary
      rw [List.map_cons, List.filter_cons]
      cases (of dump.2).isEmpty
      all_goals rfl
    rw [hcons, List.filter_append, List.flatMap_append]
    rcases List.mem_cons.mp hmem with rfl | hmem
    . rw [hnone hdistinct.1, List.flatMap_nil, List.append_nil]
      split
      . next hempty =>
        rw [List.isEmpty_iff.mp hempty]
        rfl
      . simp
    . have hne : dump.1.binaryId ≠ bin.binaryId := by
        intro heq
        exact hdistinct.1 (List.mem_map.mpr ⟨_, hmem, heq.symm⟩)
      rw [ih hdistinct.2 hmem]
      split
      . rfl
      . simp [hne]

namespace Compiled

variable (c : Compiled)

theorem zip_binaries : c.binaries.zip (c.dumps.map Prod.snd) = c.dumps := by
  unfold binaries
  rw [List.zip_map', List.map_id']

def dumped (c : Compiled) : List (SelectedBinary × Dumped) := c.dumps.map fun dump => (dump.1, dump.2.toDumped)

theorem zip_dumped : c.binaries.zip ((c.dumps.map Prod.snd).map SyncDumped.toDumped) = c.dumped := by
  unfold binaries dumped
  rw [List.map_map, List.zip_map']
  rfl

theorem distinct_dumped : (c.dumped.map fun dump => dump.1.binaryId).Nodup := by
  unfold dumped
  rw [List.map_map]
  exact c.distinct

variable {c} {bin : SelectedBinary} {dump : SyncDumped} (hmem : (bin, dump) ∈ c.dumps)

theorem imagesByBinary_eq
    : c.inventory.imagesByBinary = perBinary c.dumped fun dumped => dedupBy DedupKey.ofEntry [] dumped.dev := by
  unfold inventory assembleSync assemble
  dsimp only
  rw [zip_dumped]

theorem depsByBinary_eq : c.inventory.depsByBinary = perBinary c.dumped Dumped.deps := by
  unfold inventory assembleSync assemble
  dsimp only
  rw [zip_dumped]

include hmem

theorem mem_dumped : (bin, dump.toDumped) ∈ c.dumped := List.mem_map.mpr ⟨_, hmem, rfl⟩

theorem imagesOf_eq : imagesOf c.inventory.toInventory bin.binaryId = dedupBy DedupKey.ofEntry [] dump.dev := by
  unfold imagesOf
  rw [imagesByBinary_eq]
  exact flatMap_perBinary c.distinct_dumped (mem_dumped hmem)

theorem declares_iff {dep : TestDepEntry}
    : Declares c.inventory.toInventory bin.binaryId dep ↔ dep ∈ dump.deps := by
  rw [declares_iff_mem_filter, depsByBinary_eq, flatMap_perBinary c.distinct_dumped (mem_dumped hmem)]

omit hmem

def Declared (c : Compiled) (name : Text) (e : SyncTestEntry) : Prop :=
  e.name = name ∧ ∃ pair ∈ c.dumps, e ∈ pair.2.syncTests

def syncRoot (c : Compiled) (e : SyncTestEntry) : Option PlanRoot :=
  (forSync c.binaries e c.inventory.toInventory).roots.head?

-- The seeds and the images are those of one test in one binary.
structure Provisions (c : Compiled) (dump : SyncDumped) (test : Text) (root : PlanRoot) : Prop where
  seeds : ∀ seed, seed ∈ root.seeds ↔ seed ∈ c.inventory.seeds ∧
    ∃ dep ∈ dump.deps, dep.resource = seed.oid ∧ Covers (libtestName dep.testId) test
  images : root.images = dedupBy DedupKey.ofEntry [] dump.dev

/--
A resolved name stands for one declaration. Its binary dumps the declaration, the test and the profile
are the declaration's, and the plan is that of its test in its binary.
-/
structure Faithful (c : Compiled) (name : Text) (entry : SyncTestEntry) (bin : SelectedBinary) (target : Target)
    : Prop where
  alone : ∀ e e', c.Declared name e → c.Declared name e' → e = e'
  path : target.binaryPath = bin.binaryPath
  cwd : target.cwd = bin.cwd
  declared : ∃ dump, (bin, dump) ∈ c.dumps ∧
    (∃ e ∈ dump.syncTests, e.name = name ∧ target.testName = e.libtest ∧ e.profile = some target.profile) ∧
      ∃ root, c.syncRoot entry = some root ∧ c.Provisions dump target.testName root

/--
One declaration has the name. The first selected binary with a test of its libtest name dumps the
declaration, the others have no images, and the seeds that the selected tests of those binaries select are
seeds of the test in that first binary.
-/
def Unambiguous (c : Compiled) (name : Text) : Prop :=
  ∃ e, c.Declared name e ∧ (∀ e', c.Declared name e' → e' = e) ∧
    ∃ bin dump, (bin, dump) ∈ c.dumps ∧ c.binaries.find? (fun b => b.contains e.libtest) = some bin ∧
      e ∈ dump.syncTests ∧
      (∀ pair ∈ c.dumps, pair.1 ≠ bin → pair.1.contains e.libtest = true → pair.2.dev = []) ∧
      ∀ seed ∈ c.inventory.seeds, ∀ pair ∈ c.dumps, ∀ dep ∈ pair.2.deps, dep.resource = seed.oid →
        ∀ b ∈ c.binaries, b.contains e.libtest = true → ∀ test ∈ b.selectedTests,
          Covers (libtestName dep.testId) test →
            ∃ dep' ∈ dump.deps, dep'.resource = seed.oid ∧ Covers (libtestName dep'.testId) e.libtest

theorem declared_of_mem {name : Text} {e : SyncTestEntry} (hname : e.name = name) (h : e ∈ c.inventory.syncTests)
    : c.Declared name e := by
  refine ⟨hname, ?_⟩
  unfold inventory assembleSync at h
  dsimp only at h
  rw [zip_binaries] at h
  rcases List.mem_flatMap.mp (mem_of_mem_dedupBy h) with ⟨pair, hpair, he⟩
  exact ⟨pair, hpair, he⟩

theorem resolve_ok {name : Text} {entry : SyncTestEntry} {profile : QosProfile}
    (h : resolve c.binaries c.inventory name = .ok (entry, bin, profile))
    : c.Declared name entry ∧ c.binaries.find? (fun b => b.contains entry.libtest) = some bin ∧
        entry.profile = some profile := by
  unfold resolve at h
  split at h
  . cases h
  . next e he =>
    split at h
    . cases h
    . next b hb =>
      split at h
      . cases h
      . next p hp =>
        cases h
        have hname : entry.name = name := by simpa using List.find?_some he
        exact ⟨declared_of_mem hname (List.mem_of_find?_eq_some he), hb, hp⟩

theorem exists_dump {b : SelectedBinary} (hb : b ∈ c.binaries) : ∃ dump, (b, dump) ∈ c.dumps := by
  rcases List.mem_map.mp hb with ⟨pair, hpair, rfl⟩
  exact ⟨pair.2, hpair⟩

theorem dump_unique {b : SelectedBinary} {d d' : SyncDumped} (h : (b, d) ∈ c.dumps) (h' : (b, d') ∈ c.dumps)
    : d = d' := by
  have heq := List.inj_on_of_nodup_map c.distinct h h' rfl
  rw [Prod.mk.injEq] at heq
  exact heq.2

section Root

variable {e : SyncTestEntry} (hfind : c.binaries.find? (fun b => b.contains e.libtest) = some bin)
include hfind

theorem syncScope_eq
    : ∃ rest, syncScope c.binaries e = bin :: rest ∧ c.binaries.filter (fun b => b.contains e.libtest) = bin :: rest ∧
        ∀ b ∈ rest, b ≠ bin := by
  have hnodup : c.binaries.Nodup := by
    apply List.Nodup.of_map SelectedBinary.binaryId
    unfold binaries
    rw [List.map_map]
    exact c.distinct
  have hhead : (c.binaries.filter fun b => b.contains e.libtest).head? = some bin := by
    rw [List.head?_filter, hfind]
  rcases List.head?_eq_some_iff.mp hhead with ⟨rest, hrest⟩
  refine ⟨rest, ?_, hrest, ?_⟩
  . unfold syncScope
    dsimp only
    rw [hrest, List.isEmpty_cons]
    rfl
  . have hfilter := hnodup.filter fun b => b.contains e.libtest
    rw [hrest, List.nodup_cons] at hfilter
    rintro b hb rfl
    exact hfilter.1 hb

theorem mem_syncScope {b : SelectedBinary}
    : b ∈ syncScope c.binaries e ↔ b ∈ c.binaries ∧ b.contains e.libtest = true := by
  rcases syncScope_eq hfind with ⟨rest, hscope, hfilter, _⟩
  rw [hscope, ← hfilter, List.mem_filter]

theorem images_eq_iff {dump : SyncDumped} (hmem : (bin, dump) ∈ c.dumps)
    : (syncScope c.binaries e).flatMap (fun b => imagesOf c.inventory.toInventory b.binaryId) =
          dedupBy DedupKey.ofEntry [] dump.dev ↔
        ∀ pair ∈ c.dumps, pair.1 ≠ bin → pair.1.contains e.libtest = true → pair.2.dev = [] := by
  rcases syncScope_eq hfind with ⟨rest, hscope, hfilter, hne⟩
  rw [hscope, List.flatMap_cons, imagesOf_eq hmem, List.append_right_eq_self, List.flatMap_eq_nil_iff]
  constructor
  . rintro h ⟨b, d⟩ hpair hother hcontains
    have hb : b ∈ rest := by
      have hscoped := (mem_syncScope hfind).mpr ⟨List.mem_map.mpr ⟨_, hpair, rfl⟩, hcontains⟩
      rw [hscope] at hscoped
      rcases List.mem_cons.mp hscoped with heq | hb
      . exact absurd heq hother
      . exact hb
    have himages := h b hb
    rw [imagesOf_eq hpair, dedupBy_eq_nil] at himages
    exact himages
  . intro h b hb
    have hscoped := (mem_syncScope hfind).mp (hscope ▸ List.mem_cons_of_mem _ hb)
    rcases exists_dump hscoped.1 with ⟨d, hd⟩
    rw [imagesOf_eq hd, dedupBy_eq_nil]
    exact h (b, d) hd (hne b hb) hscoped.2

theorem seeds_eq_iff {dump : SyncDumped} (hmem : (bin, dump) ∈ c.dumps)
    : (∀ seed, seed ∈ (neededSeeds (syncScope c.binaries e) c.inventory.depsByBinary c.inventory.seeds).1 ↔
          seed ∈ c.inventory.seeds ∧
            ∃ dep ∈ dump.deps, dep.resource = seed.oid ∧ Covers (libtestName dep.testId) e.libtest) ↔
        ∀ seed ∈ c.inventory.seeds, ∀ pair ∈ c.dumps, ∀ dep ∈ pair.2.deps, dep.resource = seed.oid →
          ∀ b ∈ c.binaries, b.contains e.libtest = true → ∀ test ∈ b.selectedTests,
            Covers (libtestName dep.testId) test →
              ∃ dep' ∈ dump.deps, dep'.resource = seed.oid ∧ Covers (libtestName dep'.testId) e.libtest := by
  constructor
  . intro h seed hseed pair hpair dep hdep hoid b hb hcontains test htest hcovers
    have hkept := mem_keep_iff.mpr ⟨hseed, pair.1.binaryId, dep, (declares_iff hpair).mpr hdep, hoid, b,
      (mem_syncScope hfind).mpr ⟨hb, hcontains⟩, test, htest, hcovers⟩
    exact ((h seed).mp hkept).2
  . intro h seed
    rw [mem_keep_iff]
    apply and_congr_right
    intro hseed
    constructor
    . rintro ⟨binaryId, dep, ⟨entry, hentry, rfl, hdep⟩, hoid, b, hb, test, htest, hcovers⟩
      rw [depsByBinary_eq] at hentry
      rcases List.mem_map.mp (List.mem_of_mem_filter hentry) with ⟨dumped, hdumped, rfl⟩
      rcases List.mem_map.mp hdumped with ⟨pair, hpair, rfl⟩
      rcases (mem_syncScope hfind).mp hb with ⟨hb, hcontains⟩
      exact h seed hseed pair hpair dep hdep hoid b hb hcontains test htest hcovers
    . rintro ⟨dep, hdep, hoid, hcovers⟩
      have hcontains : bin.contains e.libtest = true := by simpa using List.find?_some hfind
      have hscoped := (mem_syncScope hfind).mpr ⟨List.mem_of_find?_eq_some hfind, hcontains⟩
      exact ⟨bin.binaryId, dep, (declares_iff hmem).mpr hdep, hoid, bin, hscoped, e.libtest,
        List.contains_iff_mem.mp hcontains, hcovers⟩

end Root

/--
Whenever a profile name resolves, it resolves to what was asked for exactly if the name is unambiguous.
-/
theorem resolve_faithful_iff (name : Text) (entry : SyncTestEntry) (bin : SelectedBinary) (profile : QosProfile)
    (target : Target) (hresolve : resolve c.binaries c.inventory name = .ok (entry, bin, profile))
    (htarget : resolveTarget c.binaries c.inventory name = .ok target)
    : c.Faithful name entry bin target ↔ c.Unambiguous name := by
  rcases resolve_ok hresolve with ⟨hentry, hfind, hprofile⟩
  unfold resolveTarget at htarget
  rw [hresolve] at htarget
  cases htarget
  rcases exists_dump (List.mem_of_find?_eq_some hfind) with ⟨dump, hmem⟩
  constructor
  . intro h
    rcases h.declared with ⟨dump', hmem', ⟨e, he, hname, _⟩, root, hroot, hprovisions⟩
    cases dump_unique hmem hmem'
    cases h.alone e entry ⟨hname, _, hmem, he⟩ hentry
    cases hroot
    exact ⟨entry, hentry, fun e' he' => h.alone e' entry he' hentry, bin, dump, hmem, hfind, he,
      (images_eq_iff hfind hmem).mp hprovisions.images, (seeds_eq_iff hfind hmem).mp hprovisions.seeds⟩
  . rintro ⟨e, _, hall, bin', dump', hmem', hfind', he, himages, hseeds⟩
    cases hall entry hentry
    cases hfind.symm.trans hfind'
    cases dump_unique hmem hmem'
    refine ⟨fun e e' he he' => (hall e he).trans (hall e' he').symm, rfl, rfl, dump, hmem,
      ⟨entry, he, hentry.1, rfl, hprofile⟩, _, rfl, ?_⟩
    exact ⟨(seeds_eq_iff hfind hmem).mpr hseeds, (images_eq_iff hfind hmem).mpr himages⟩

namespace Sample

theorem testnet_sized (tier : Qos.QosClass) (h : qosOfLabel "testnet".toList = some tier)
    : (declaredProfile tier none none).isSome := by
  cases h
  rfl

def profile (f : Char) : SyncTestEntry :=
  ⟨['c', ':', ':', f], ['p'], [], [], [], "testnet".toList, none, none, [], testnet_sized⟩

def seed : SeedEntry := ⟨['s'], ['o'], 1, [], []⟩

def suite (id : Char) (tests : List Text) : SelectedBinary := ⟨[id], [], [id], tests⟩

def output (syncTests : List SyncTestEntry) : SyncDumped := ⟨⟨[], [], [seed], [⟨['c', ':', ':', 'f'], ['o']⟩]⟩, syncTests⟩

-- The profile `q` of another binary, whose dump names the seed too.
def beside : SelectedBinary × SyncDumped := (suite 'a' [['g']], output [{ profile 'g' with name := ['q'] }])

def owner : SelectedBinary × SyncDumped := (suite 'b' [['f']], output [profile 'f'])

def two : Compiled := ⟨[beside, owner], by decide⟩

-- Another binary has a test of the name, and comes first.
def coincidence : Compiled := ⟨[(suite 'a' [['f']], output []), (suite 'b' [['f']], output [profile 'f'])], by decide⟩

-- Two tests of one binary declare the name.
def twice : Compiled := ⟨[(suite 'b' [['f'], ['g']], output [profile 'f', profile 'g'])], by decide⟩

def target (id : Char) : Target := ⟨[id], ['f'], [], Qos.QosClass.testnet.profile⟩

theorem two_unambiguous : two.Unambiguous ['p'] := by
  have hpairs : ∀ pair ∈ two.dumps, pair = beside ∨ pair = owner := by
    intro pair hpair
    simpa [two] using hpair
  have howner : owner ∈ two.dumps := List.mem_cons_of_mem _ List.mem_cons_self
  refine ⟨profile 'f', ⟨rfl, owner, howner, List.mem_cons_self⟩, ?_, suite 'b' [['f']], output [profile 'f'], howner, rfl,
    List.mem_cons_self, ?_, ?_⟩
  . rintro e ⟨hname, pair, hpair, he⟩
    rcases hpairs pair hpair with rfl | rfl
    . cases List.mem_singleton.mp he
      cases hname
    . exact List.mem_singleton.mp he
  . intro pair hpair hne _
    rcases hpairs pair hpair with rfl | rfl
    . rfl
    . exact absurd rfl hne
  . intro seed' _ pair hpair dep hdep hoid b hb hcontains test htest hcovers
    rcases List.mem_map.mp hb with ⟨_, hscoped, rfl⟩
    rcases hpairs _ hscoped with rfl | rfl
    . cases hcontains
    . cases List.mem_singleton.mp htest
      rcases hpairs pair hpair with rfl | rfl
      . exact ⟨dep, hdep, hoid, hcovers⟩
      . exact ⟨dep, hdep, hoid, hcovers⟩

end Sample

theorem two_faithful : Sample.two.Faithful ['p'] (Sample.profile 'f') (Sample.suite 'b' [['f']]) (Sample.target 'b') :=
  (resolve_faithful_iff ['p'] (Sample.profile 'f') (Sample.suite 'b' [['f']]) Qos.QosClass.testnet.profile
    (Sample.target 'b') rfl rfl).mpr Sample.two_unambiguous

/--
A test of the same name in an earlier binary takes the place of the profile's own one, and of two
profiles of one name the first is taken.
-/
theorem resolve_unfaithful
    : (∃ entry bin profile target,
          resolve Sample.coincidence.binaries Sample.coincidence.inventory ['p'] = .ok (entry, bin, profile) ∧
          resolveTarget Sample.coincidence.binaries Sample.coincidence.inventory ['p'] = .ok target ∧
          ¬Sample.coincidence.Faithful ['p'] entry bin target) ∧
      (∃ entry bin profile target,
          resolve Sample.twice.binaries Sample.twice.inventory ['p'] = .ok (entry, bin, profile) ∧
          resolveTarget Sample.twice.binaries Sample.twice.inventory ['p'] = .ok target ∧
          ¬Sample.twice.Faithful ['p'] entry bin target) := by
  constructor
  . refine ⟨Sample.profile 'f', Sample.suite 'a' [['f']], Qos.QosClass.testnet.profile, Sample.target 'a', rfl, rfl, ?_⟩
    intro h
    rcases h.declared with ⟨dump, hmem, ⟨e, he, _⟩, _⟩
    cases dump_unique hmem List.mem_cons_self
    cases he
  . refine ⟨Sample.profile 'f', Sample.suite 'b' [['f'], ['g']], Qos.QosClass.testnet.profile, Sample.target 'b', rfl, rfl,
      ?_⟩
    intro h
    have hf : Sample.twice.Declared ['p'] (Sample.profile 'f') := ⟨rfl, _, List.mem_cons_self, List.mem_cons_self⟩
    have hg : Sample.twice.Declared ['p'] (Sample.profile 'g') :=
      ⟨rfl, _, List.mem_cons_self, List.mem_cons_of_mem _ List.mem_cons_self⟩
    have hsame := congrArg SyncTestEntry.testId (h.alone _ _ hf hg)
    exact absurd hsame (by decide)

end Compiled
end Planner
