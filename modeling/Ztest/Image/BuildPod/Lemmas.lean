import Ztest.Image.BuildPod.Impl
import Ztest.Image.Context.Lemmas
import Ztest.Lib.Lines
import Mathlib.Data.List.TakeWhile

namespace Image
namespace BuildPod

open Files (Path Node)
open Frame (Blob)

section Contents

variable {entries : List Entry} {lookup : Path → Option Node}

def Contents.Holds (contents : Contents) (entries : List Entry) : Prop :=
  ∀ entry ∈ entries, contents entry.name = some entry.node

theorem extract_cons (contents : Contents) (entry : Entry) (entries : List Entry)
    : extract contents (entry :: entries) = extract (Function.update contents entry.name (some entry.node)) entries := rfl

theorem extract_singleton (contents : Contents) (entry : Entry)
    : extract contents [entry] entry.name = some entry.node := by
  rw [extract_cons]
  exact Function.update_self ..

theorem extract_apply (h : ∀ entry ∈ entries, lookup entry.name = some entry.node) (contents : Contents) (name : Path)
    : extract contents entries name = if ∃ entry ∈ entries, entry.name = name then lookup name else contents name := by
  induction entries generalizing contents with
  | nil => simp [extract]
  | cons entry entries ih =>
    rw [List.forall_mem_cons] at h
    rw [extract_cons, ih h.2]
    by_cases hrest : ∃ e ∈ entries, e.name = name
    . rcases hrest with ⟨e, he, hname⟩
      rw [if_pos ⟨e, he, hname⟩, if_pos ⟨e, List.mem_cons_of_mem _ he, hname⟩]
    . rw [if_neg hrest]
      by_cases hname : entry.name = name
      . subst hname
        rw [Function.update_self, if_pos ⟨entry, List.mem_cons_self, rfl⟩]
        exact h.1.symm
      . rw [Function.update_of_ne (Ne.symm hname), if_neg]
        rintro ⟨e, he, heq⟩
        rcases List.mem_cons.mp he with rfl | he
        . exact hname heq
        . exact hrest ⟨e, he, heq⟩

theorem extract_holds (h : ∀ entry ∈ entries, lookup entry.name = some entry.node) (contents : Contents)
    : (extract contents entries).Holds entries := by
  intro entry hentry
  rw [extract_apply h, if_pos ⟨entry, hentry, rfl⟩]
  exact h entry hentry

end Contents

theorem tarContext_lookup {checkout : Checkout} {context : Context} {entries : List Entry}
    (h : tarContext checkout context = .ok entries)
    : ∀ entry ∈ entries, checkout.files.symlinkMetadata (context.root ++ entry.name) = some entry.node := by
  intro entry hentry
  unfold tarContext at h
  split at h
  . cases h
  . rcases spawnTar_eq_ok.mp h with ⟨selected, hselected, _, rfl⟩
    rcases mem_archive.mp hentry with ⟨before, v, after, hsplit, rfl⟩
    rcases walked_located hselected (v := v) (by simp [hsplit]) with ⟨hreal, hnode⟩
    rw [Files.Tree.symlinkMetadata, hreal]
    exact hnode

theorem tarContext_holds {checkout : Checkout} {context : Context} {entries : List Entry}
    (h : tarContext checkout context = .ok entries) (contents : Contents)
    : (extract contents entries).Holds entries :=
  @extract_holds entries (fun name => checkout.files.symlinkMetadata (context.root ++ name)) (tarContext_lookup h) contents

theorem heredoc_eq {text : List UInt8} (h : delimiter ∉ text.splitOn 10) : heredoc text = text ++ [10] := by
  have hall : (text.splitOn 10).takeWhile (· ≠ delimiter) = text.splitOn 10 := by
    rw [List.takeWhile_eq_self_iff]
    intro line hline
    apply decide_eq_true
    rintro rfl
    exact h hline
  rw [heredoc, hall, Lines.flatMap_splitOn]

section Run

variable (sha256 : List UInt8 → List UInt8)

/--
The directories of a request are there, with every file of its context and the whole of its Dockerfile.
-/
structure Ready (volume : Volume) (call : Call) : Prop where
  context : ∀ entries, tarContext call.checkout call.request.source.context = .ok entries →
    ∃ contents, volume (ctxDir sha256 call.request) = some contents ∧ contents.Holds entries
  dockerfile : ∀ text, dockerfileText call.checkout call.request.source.dockerfile = .ok text →
    ∃ contents blob, volume (dfDir sha256 text) = some contents ∧ blob.val = text ++ [10] ∧
      contents [dockerfileName] = some (.file false blob)

-- Of the step that a build makes: its `buildctl` command is run on what it was asked for.
def BuildsWhole (volume : Volume) (call : Call) : Prop :=
  ∀ volume', prepare sha256 volume call = (volume', .ok ()) → Ready sha256 volume' call

-- A transfer of so many files is not lost after its `mkdir` and before its last file.
def Uncut (files : Nat) (lost : Option Lost) : Prop := ∀ l, lost = some l → l.steps = 0 ∨ files < l.steps

/--
The transfers that the build makes are not cut, and no line of the Dockerfile it stages ends the heredoc.
-/
structure Unbroken (volume : Volume) (call : Call) : Prop where
  ship : dirExists volume call.ctxProbe (ctxDir sha256 call.request) = false →
    ∀ entries, tarContext call.checkout call.request.source.context = .ok entries → Uncut entries.length call.ship
  stage : ∀ text, dockerfileText call.checkout call.request.source.dockerfile = .ok text →
    dirExists volume call.dfProbe (dfDir sha256 text) = false → Uncut 1 call.stage ∧ delimiter ∉ text.splitOn 10

/--
Two builds that share a directory ask for the same in it.
-/
structure Agree (a b : Call) : Prop where
  context : ctxDir sha256 a.request = ctxDir sha256 b.request →
    ∀ entries entries', tarContext a.checkout a.request.source.context = .ok entries →
      tarContext b.checkout b.request.source.context = .ok entries' → entries = entries'
  dockerfile : ∀ text text', dockerfileText a.checkout a.request.source.dockerfile = .ok text →
    dockerfileText b.checkout b.request.source.dockerfile = .ok text' → dfDir sha256 text = dfDir sha256 text' → text = text'

/--
Every directory was filled by a build of the past, to its end.
-/
structure Filled (past : List Call) (volume : Volume) : Prop where
  ctx : ∀ key contents, volume (.ctx key) = some contents →
    ∃ call ∈ past, ctxDir sha256 call.request = .ctx key ∧
      ∃ entries, tarContext call.checkout call.request.source.context = .ok entries ∧ contents.Holds entries
  df : ∀ hash contents, volume (.df hash) = some contents →
    ∃ call ∈ past, ∃ text blob, dockerfileText call.checkout call.request.source.dockerfile = .ok text ∧
      dfDir sha256 text = .df hash ∧ blob.val = text ++ [10] ∧ contents [dockerfileName] = some (.file false blob)

variable {sha256} {volume volume' : Volume} {call : Call} {past : List Call}

theorem Agree.of_eq {a b : Call} (hcheckout : a.checkout = b.checkout) (hcontext : a.request.source.context = b.request.source.context)
    (hdockerfile : a.request.source.dockerfile = b.request.source.dockerfile)
    : Agree sha256 a b := by
  constructor
  . intro _ entries entries' h h'
    rw [hcheckout, hcontext] at h
    cases h.symm.trans h'
    rfl
  . intro text text' h h' _
    rw [hcheckout, hdockerfile] at h
    cases h.symm.trans h'
    rfl

theorem transfer_cases {dir : Dir} {entries : List Entry} {failure : String → BuildError} {lost : Option Lost}
    {result : Except BuildError Unit} (h : volume.transfer dir entries failure lost = (volume', result))
    (hcut : Uncut entries.length lost)
    : (volume' = volume ∧ result ≠ .ok ()) ∨
        ∃ contents, volume' = Function.update volume dir (some (extract contents entries)) := by
  cases lost with
  | none =>
    cases h
    refine Or.inr ⟨(volume dir).getD fun _ => none, ?_⟩
    rw [Volume.fill, List.take_length]
  | some lost =>
    cases h
    rcases hcut lost rfl with hzero | hlast
    . refine Or.inl ⟨?_, by simp⟩
      rw [hzero]
      rfl
    . refine Or.inr ⟨(volume dir).getD fun _ => none, ?_⟩
      rcases Nat.exists_eq_add_one_of_ne_zero (Nat.ne_of_gt (Nat.zero_lt_of_lt hlast)) with ⟨steps, hsteps⟩
      rw [hsteps, Volume.fill, List.take_of_length_le (by omega)]

theorem Filled.mono {past' : List Call} (h : Filled sha256 past volume) (hsubset : past ⊆ past')
    : Filled sha256 past' volume := by
  constructor
  . intro key contents hcontents
    rcases h.ctx key contents hcontents with ⟨c, hc, hfilled⟩
    exact ⟨c, hsubset hc, hfilled⟩
  . intro hash contents hcontents
    rcases h.df hash contents hcontents with ⟨c, hc, hfilled⟩
    exact ⟨c, hsubset hc, hfilled⟩

theorem Filled.concat (h : Filled sha256 past volume) : Filled sha256 (past ++ [call]) volume :=
  h.mono (List.subset_append_left _ _)

theorem Filled.putCtx (h : Filled sha256 past volume) {entries : List Entry}
    (hentries : tarContext call.checkout call.request.source.context = .ok entries) (contents : Contents)
    : Filled sha256 (past ++ [call])
        (Function.update volume (ctxDir sha256 call.request) (some (extract contents entries))) := by
  constructor
  . intro key contents' hcontents
    by_cases hkey : Dir.ctx key = ctxDir sha256 call.request
    . rw [hkey, Function.update_self, Option.some.injEq] at hcontents
      subst hcontents
      exact ⟨call, List.mem_append_right _ List.mem_cons_self, hkey.symm, entries, hentries,
        tarContext_holds hentries contents⟩
    . rw [Function.update_of_ne hkey] at hcontents
      exact h.concat.ctx key contents' hcontents
  . intro hash contents' hcontents
    rw [Function.update_of_ne (by simp [ctxDir])] at hcontents
    exact h.concat.df hash contents' hcontents

theorem Filled.putDf (h : Filled sha256 past volume) {text : List UInt8} {blob : Blob}
    (htext : dockerfileText call.checkout call.request.source.dockerfile = .ok text) (hblob : blob.val = text ++ [10])
    (contents : Contents)
    : Filled sha256 (past ++ [call]) (Function.update volume (dfDir sha256 text)
        (some (extract contents [⟨[dockerfileName], .file false blob, none⟩]))) := by
  constructor
  . intro key contents' hcontents
    rw [Function.update_of_ne (by simp [dfDir])] at hcontents
    exact h.concat.ctx key contents' hcontents
  . intro hash contents' hcontents
    by_cases hhash : Dir.df hash = dfDir sha256 text
    . rw [hhash, Function.update_self, Option.some.injEq] at hcontents
      subst hcontents
      refine ⟨call, List.mem_append_right _ List.mem_cons_self, text, blob, htext, hhash.symm, hblob, ?_⟩
      exact extract_singleton contents ⟨[dockerfileName], .file false blob, none⟩
    . rw [Function.update_of_ne hhash] at hcontents
      exact h.concat.df hash contents' hcontents

theorem Filled.foundCtx (h : Filled sha256 past volume) (hagree : ∀ c ∈ past, Agree sha256 c call)
    {probe : Bool} (hfound : dirExists volume probe (ctxDir sha256 call.request) = true)
    {entries : List Entry} (hentries : tarContext call.checkout call.request.source.context = .ok entries)
    : ∃ contents, volume (ctxDir sha256 call.request) = some contents ∧ contents.Holds entries := by
  rw [dirExists, Bool.and_eq_true] at hfound
  rcases Option.isSome_iff_exists.mp hfound.2 with ⟨contents, hcontents⟩
  rcases h.ctx _ contents hcontents with ⟨c, hc, hdir, filled, hfilled, hholds⟩
  cases (hagree c hc).context hdir filled entries hfilled hentries
  exact ⟨contents, hcontents, hholds⟩

theorem Filled.foundDf (h : Filled sha256 past volume) (hagree : ∀ c ∈ past, Agree sha256 c call)
    {probe : Bool} {text : List UInt8} (hfound : dirExists volume probe (dfDir sha256 text) = true)
    (htext : dockerfileText call.checkout call.request.source.dockerfile = .ok text)
    : ∃ contents blob, volume (dfDir sha256 text) = some contents ∧ blob.val = text ++ [10] ∧
        contents [dockerfileName] = some (.file false blob) := by
  rw [dirExists, Bool.and_eq_true] at hfound
  rcases Option.isSome_iff_exists.mp hfound.2 with ⟨contents, hcontents⟩
  rcases h.df _ contents hcontents with ⟨c, hc, filled, blob, hfilled, hdir, hblob, hholds⟩
  cases (hagree c hc).dockerfile filled text hfilled htext hdir
  exact ⟨contents, blob, hcontents, hblob, hholds⟩

theorem prepareContext_spec (h : Filled sha256 past volume) (hbroken : Unbroken sha256 volume call)
    (hagree : ∀ c ∈ past, Agree sha256 c call)
    {result : Except BuildError Unit} (hprepare : prepareContext sha256 volume call = (volume', result))
    : Filled sha256 (past ++ [call]) volume' ∧ (∀ hash, volume' (.df hash) = volume (.df hash)) ∧
        (result = .ok () → ∀ entries, tarContext call.checkout call.request.source.context = .ok entries →
          ∃ contents, volume' (ctxDir sha256 call.request) = some contents ∧ contents.Holds entries) := by
  unfold prepareContext at hprepare
  split at hprepare
  . next hfound =>
    cases hprepare
    exact ⟨h.concat, fun _ => rfl, fun _ entries hentries => h.foundCtx hagree hfound hentries⟩
  . next habsent =>
    unfold shipContext at hprepare
    split at hprepare
    . cases hprepare
      exact ⟨h.concat, fun _ => rfl, fun hok => by cases hok⟩
    . next entries hentries =>
      have hcut := hbroken.ship (by simpa using habsent) entries hentries
      rcases transfer_cases hprepare hcut with ⟨rfl, hfailed⟩ | ⟨contents, rfl⟩
      . exact ⟨h.concat, fun _ => rfl, fun hok => absurd hok hfailed⟩
      . refine ⟨h.putCtx hentries contents, fun hash => Function.update_of_ne (by simp [ctxDir]) .., ?_⟩
        intro _ entries' hentries'
        cases hentries.symm.trans hentries'
        exact ⟨_, Function.update_self .., tarContext_holds hentries contents⟩

theorem prepareDockerfile_spec (h : Filled sha256 past volume) (hagree : ∀ c ∈ past, Agree sha256 c call)
    (hstage : ∀ text, dockerfileText call.checkout call.request.source.dockerfile = .ok text →
      dirExists volume call.dfProbe (dfDir sha256 text) = false → Uncut 1 call.stage ∧ delimiter ∉ text.splitOn 10)
    {result : Except BuildError Unit} (hprepare : prepareDockerfile sha256 volume call = (volume', result))
    : Filled sha256 (past ++ [call]) volume' ∧ (∀ key, volume' (.ctx key) = volume (.ctx key)) ∧
        (result = .ok () → ∀ text, dockerfileText call.checkout call.request.source.dockerfile = .ok text →
          ∃ contents blob, volume' (dfDir sha256 text) = some contents ∧ blob.val = text ++ [10] ∧
            contents [dockerfileName] = some (.file false blob)) := by
  unfold prepareDockerfile at hprepare
  split at hprepare
  . cases hprepare
    refine ⟨h.concat, fun _ => rfl, ?_⟩
    intro hok
    cases hok
  . next text htext =>
    split at hprepare
    . next hfound =>
      cases hprepare
      refine ⟨h.concat, fun _ => rfl, ?_⟩
      intro _ text' htext'
      cases htext.symm.trans htext'
      exact h.foundDf hagree hfound htext
    . next habsent =>
      rcases hstage text htext (by simpa using habsent) with ⟨hcut, hdelimiter⟩
      unfold stageFile at hprepare
      split at hprepare
      . next hlength =>
        rcases transfer_cases hprepare hcut with ⟨rfl, hfailed⟩ | ⟨contents, rfl⟩
        . exact ⟨h.concat, fun _ => rfl, fun hok => absurd hok hfailed⟩
        . have hblob := heredoc_eq hdelimiter
          refine ⟨h.putDf htext hblob contents, fun key => Function.update_of_ne (by simp [dfDir]) .., ?_⟩
          intro _ text' htext'
          cases htext.symm.trans htext'
          exact ⟨_, _, Function.update_self .., hblob, extract_singleton contents _⟩
      . cases hprepare
        refine ⟨h.concat, fun _ => rfl, ?_⟩
        intro hok
        cases hok

theorem prepare_spec (h : Filled sha256 past volume) (hbroken : Unbroken sha256 volume call)
    (hagree : ∀ c ∈ past, Agree sha256 c call) {result : Except BuildError Unit}
    (hprepare : prepare sha256 volume call = (volume', result))
    : Filled sha256 (past ++ [call]) volume' ∧ (result = .ok () → Ready sha256 volume' call) := by
  unfold prepare at hprepare
  cases hcontext : prepareContext sha256 volume call with
  | mk shipped contextResult =>
    rcases prepareContext_spec h hbroken hagree hcontext with ⟨hshipped, hdf, hready⟩
    rw [hcontext] at hprepare
    cases contextResult with
    | error e =>
      cases hprepare
      refine ⟨hshipped, ?_⟩
      intro hok
      cases hok
    | ok =>
      have hagree' : ∀ c ∈ past ++ [call], Agree sha256 c call := by
        intro c hc
        rcases List.mem_append.mp hc with hc | hc
        . exact hagree c hc
        . cases List.mem_singleton.mp hc
          exact Agree.of_eq rfl rfl rfl
      have hstage : ∀ text, dockerfileText call.checkout call.request.source.dockerfile = .ok text →
          dirExists shipped call.dfProbe (dfDir sha256 text) = false →
          Uncut 1 call.stage ∧ delimiter ∉ text.splitOn 10 := by
        intro text htext habsent
        rw [dirExists, dfDir, hdf] at habsent
        exact hbroken.stage text htext habsent
      rcases prepareDockerfile_spec hshipped hagree' hstage hprepare with ⟨hfilled, hctx, hdockerfile⟩
      refine ⟨hfilled.mono (by simp), ?_⟩
      intro hok
      refine ⟨?_, hdockerfile hok⟩
      intro entries hentries
      rw [ctxDir, hctx]
      exact hready rfl entries hentries

/--
In every run of a build pod whose transfers are not cut, and whose requests agree on what they share, each
`buildctl` command is run on the whole of what it was asked for.
-/
theorem builds_whole_of_unbroken (calls : List Call)
    (hbroken : Run.Along (step sha256) (Unbroken sha256) (fun _ => none) calls) (hagree : calls.Pairwise (Agree sha256))
    : Run.Along (step sha256) (BuildsWhole sha256) (fun _ => none) calls := by
  have hrun : ∀ past volume, Filled sha256 past volume → Run.Along (step sha256) (Unbroken sha256) volume calls →
      (past ++ calls).Pairwise (Agree sha256) → Run.Along (step sha256) (BuildsWhole sha256) volume calls := by
    clear hbroken hagree
    induction calls with
    | nil =>
      intros
      trivial
    | cons call calls ih =>
      intro past volume hfilled hbroken hagree
      have hpast : ∀ c ∈ past, Agree sha256 c call := fun c hc =>
        (List.pairwise_append.mp hagree).2.2 c hc call List.mem_cons_self
      constructor
      . intro volume' hprepare
        exact (prepare_spec hfilled hbroken.1 hpast hprepare).2 rfl
      . intro volume' result hstep
        refine ih (past ++ [call]) volume' ?_ (hbroken.2 volume' result hstep) (by simpa using hagree)
        rw [step, Except.ok.injEq, build] at hstep
        cases hprepare : prepare sha256 volume call with
        | mk prepared outcome =>
          rw [hprepare] at hstep
          have hnext := (prepare_spec hfilled hbroken.1 hpast hprepare).1
          cases outcome with
          | error e =>
            cases hstep
            exact hnext
          | ok =>
            cases hstep
            exact hnext
  apply hrun [] _ ?_ hbroken hagree
  constructor
  . intro key contents hcontents
    cases hcontents
  . intro hash contents hcontents
    cases hcontents

end Run

namespace Sample

-- The hashes of `sha256` on the context `/s` and on the Dockerfile `FROM a`.
def sha256 (text : List UInt8) : List UInt8 :=
  if text = [47, 115, 0, 47, 115] then
    [105, 200, 141, 165, 175, 252, 161, 95, 197, 162, 241, 144, 157, 106, 176, 236, 39, 217, 37, 135, 89, 93, 141, 175,
    46, 180, 9, 94, 172, 49, 228, 171]
  else if text = [70, 82, 79, 77, 32, 97] then
    [203, 181, 91, 143, 44, 106, 153, 115, 205, 85, 19, 255, 59, 62, 125, 125, 199, 124, 156, 23, 236, 151, 120, 153,
    54, 151, 165, 137, 69, 67, 183, 39]
  else
    []

-- One recipe, with what it is built for and what becomes of its context.
def call (output : Output) (ship : Option Lost) : Call where
  request := ⟨⟨Context.Sample.context, .text Context.Sample.dockerfile⟩, none, [], output⟩
  checkout := Context.Sample.clean.checkout
  ctxProbe := true
  ship := ship
  dfProbe := true
  stage := none
  exec := .ok 0
  fetch := none

-- Two images of one repository.
def calls (ship : Option Lost) : List Call := [call (.image "zainod:dev-1") ship, call (.image "zingo:dev-2") none]

theorem unbroken (volume : Volume) (output : Output) : Unbroken sha256 volume (call output none) := by
  constructor
  . intro _ entries _ l hl
    cases hl
  . intro text htext _
    cases htext
    refine ⟨?_, by decide⟩
    intro l hl
    cases hl

end Sample

theorem shipped_builds_whole
    : Run.Along (step Sample.sha256) (BuildsWhole Sample.sha256) (fun _ => none) (Sample.calls none) := by
  apply builds_whole_of_unbroken
  . exact ⟨Sample.unbroken _ _, fun _ _ _ => ⟨Sample.unbroken _ _, fun _ _ _ => trivial⟩⟩
  . exact List.pairwise_pair.mpr (Agree.of_eq rfl rfl rfl)

/--
The websocket is lost after the `mkdir`: the first build fails, and the second one finds the directory and
runs on an empty context.
-/
theorem builds_partial_context
    : ¬Run.Along (step Sample.sha256) (BuildsWhole Sample.sha256) (fun _ => none)
        (Sample.calls (some ⟨1, "websocket closed"⟩)) := by
  intro h
  have hready := (h.2 _ _ rfl).1 _ rfl
  rcases hready.context _ rfl with ⟨contents, hcontents, hholds⟩
  cases hcontents
  cases hholds ⟨[[97]], Context.Sample.file 1, none⟩ (by decide)

end BuildPod
end Image
