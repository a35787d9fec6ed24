import LintBridge.Proofs.Toolbox.Stages

/-!
The version of an executable while calls overlap and files are replaced.

A file that is written in the middle of a call may leave an old time with a new version, which a
late call may even write over a newer pair. `Coherent` is the invariant that carries the proof: a
time that is kept was the file's time once, and if it is the file's time now, the version beside it
is the file's own. It holds as long as no file is written with a time that its place had before
(`Overlap.Fresh`). A call during which its file is not replaced is `Watched` from its beginning to
its end: what it finds out is right, and so is what others find out about its file.
`overlapping_calls_coherent` draws the conclusion for all calls of a run.

All of this is about paths of more than one component. A bare name is looked up in the current
directory for the time, but in the search path for the version.
-/

namespace LintBridge.Toolbox.Overlap

/-! ## The invariant -/

variable {start : Overlap} {steps : List Step} {k : Nat}

/-- A file with this time of modification has been at a place. -/
def Dated (start : Overlap) (steps : List Step) (k : Nat) (place : List String) (t : Int) : Prop :=
  ∃ m ≤ k, ∃ f, (start.moment steps m).files.node? place = some (.file f) ∧ f.modified = t

/-- The time of a stamp was that of the file at a place once, and if it is the time of the file now,
the version of the stamp is what this file states. -/
def Learned (start : Overlap) (steps : List Step) (k : Nat) (place : List String)
    (stamp : VersionStamp) : Prop :=
  ∀ t, stamp.modified = some t → Dated start steps k place t ∧
    ∀ f, (start.moment steps k).files.node? place = some (.file f) → f.modified = t →
      ∀ q, f.answer q = .ok stamp.version

/-- What a call in some stage has learned about its place. -/
def Sound (start : Overlap) (steps : List Step) (k : Nat) (place : List String) : Stage → Prop
  | .begun | .ended _ => True
  | .dated modified | .unknown modified => ∀ t, modified = some t → Dated start steps k place t
  | .stated v modified => Learned start steps k place ⟨v, modified⟩

/-- Everything that is kept, or about to be kept, for paths that are no bare names is sound. -/
structure Coherent (start : Overlap) (steps : List Step) (k : Nat) : Prop where
  kept : ∀ p stamp, 2 ≤ p.components.length →
    (start.moment steps k).box.versions.get? p.components = some stamp →
    Learned start steps k (start.box.host.placeOf p) stamp
  calls : ∀ p stage, 2 ≤ p.components.length → (p, stage) ∈ (start.moment steps k).calls →
    Sound start steps k (start.box.host.placeOf p) stage

/-- A file that is found after a step was there before, or has a time that its place never had. -/
def Grows (start : Overlap) (steps : List Step) (k : Nat) : Prop :=
  ∀ place f, (start.moment steps (k + 1)).files.node? place = some (.file f) →
    (start.moment steps k).files.node? place = some (.file f) ∨
      ∀ m ≤ k, ∀ g, (start.moment steps m).files.node? place = some (.file g) →
        g.modified ≠ f.modified

theorem grows_of_files (h : (start.moment steps (k + 1)).files = (start.moment steps k).files) :
    Grows start steps k := by
  intro place f hf
  rw [h] at hf
  exact .inl hf

theorem Fresh.grows (hfresh : start.Fresh steps) {step : Step} (h : steps[k]? = some step) :
    Grows start steps k := by
  have hsucc := start.moment_succ h
  cases step with
  | call p => exact grows_of_files (by rw [hsucc]; rfl)
  | proceed n => exact grows_of_files (by rw [hsucc, files, host_after _ rfl, files])
  | write place f =>
    intro other g hg
    rw [hsucc] at hg
    rcases FileSystem.node?_of_put _ hg with ⟨rfl, rfl⟩ | hold
    · exact .inr (hfresh k _ _ h)
    · exact .inl hold
  | remove place =>
    intro other g hg
    rw [hsucc] at hg
    exact .inl (FileSystem.node?_of_remove _ hg)

theorem Dated.succ {place : List String} {t : Int} (h : Dated start steps k place t) :
    Dated start steps (k + 1) place t := by
  obtain ⟨m, hm, hfile⟩ := h
  exact ⟨m, Nat.le_succ_of_le hm, hfile⟩

/-- A new file has another time, so nothing is said about it. -/
theorem Learned.succ {place : List String} {stamp : VersionStamp} (hgrows : Grows start steps k)
    (h : Learned start steps k place stamp) : Learned start steps (k + 1) place stamp := by
  intro t ht
  obtain ⟨hdated, hanswer⟩ := h t ht
  refine ⟨hdated.succ, fun f hf hft => ?_⟩
  rcases hgrows place f hf with hold | hnew
  · exact hanswer f hold hft
  · obtain ⟨m, hm, g, hg, hgt⟩ := hdated
    exact absurd (hgt.trans hft.symm) (hnew m hm g hg)

theorem Sound.succ {place : List String} {stage : Stage} (hgrows : Grows start steps k)
    (h : Sound start steps k place stage) : Sound start steps (k + 1) place stage := by
  cases stage with
  | begun => trivial
  | dated modified => exact fun t ht => (h t ht).succ
  | unknown modified => exact fun t ht => (h t ht).succ
  | stated v modified => exact Learned.succ hgrows h
  | ended answer => trivial

theorem Sound.next {p : Path} {stage : Stage} (hp : 2 ≤ p.components.length)
    (h : Sound start steps k (start.box.host.placeOf p) stage) :
    Sound start steps k (start.box.host.placeOf p)
      (stage.next p (start.moment steps k).box).1 := by
  have hplace {node : Node} (hnode : (start.moment steps k).box.host.node? p = some node) :
      (start.moment steps k).files.node? (start.box.host.placeOf p) = some node := by
    rw [← start.placeOf_moment steps k p]
    exact Host.node?_place _ hnode
  cases stage with
  | begun =>
    simp only [Stage.next]
    split
    · trivial
    · next node hnode =>
      intro t ht
      cases node with
      | directory => cases ht
      | file f => exact ⟨k, Nat.le_refl k, f, hplace hnode, Option.some.inj ht⟩
  | dated modified =>
    simp only [Stage.next]
    split
    · trivial
    · exact h
  | unknown modified =>
    rw [Stage.next_unknown]
    dsimp only
    split
    · trivial
    · next v hv =>
      intro t ht
      refine ⟨h t ht, fun f hf _ q => ?_⟩
      obtain ⟨g, hg, hanswer⟩ := Host.exists_file_of_statedVersion _ hp hv
      have hsame : g = f := Node.file.inj (Option.some.inj ((hplace hg).symm.trans hf))
      rw [← hsame]
      exact File.answer_eq_ok hanswer q
  | stated v modified => trivial
  | ended answer => trivial

theorem Coherent.succ (hk : Coherent start steps k) (hfresh : start.Fresh steps) {step : Step}
    (h : steps[k]? = some step) : Coherent start steps (k + 1) := by
  have hsucc := start.moment_succ h
  have hgrows := hfresh.grows h
  have hkept (p : Path) (stamp : VersionStamp) (hp : 2 ≤ p.components.length)
      (hstamp : (start.moment steps k).box.versions.get? p.components = some stamp) :
      Learned start steps (k + 1) (start.box.host.placeOf p) stamp :=
    (hk.kept p stamp hp hstamp).succ hgrows
  have hcalls (p : Path) (stage : Stage) (hp : 2 ≤ p.components.length)
      (hcall : (p, stage) ∈ (start.moment steps k).calls) :
      Sound start steps (k + 1) (start.box.host.placeOf p) stage :=
    (hk.calls p stage hp hcall).succ hgrows
  constructor
  · intro p stamp hp hstamp
    rw [hsucc] at hstamp
    cases step with
    | call _ => exact hkept p stamp hp hstamp
    | write _ _ => exact hkept p stamp hp hstamp
    | remove _ => exact hkept p stamp hp hstamp
    | proceed n =>
      simp only [after] at hstamp
      split at hstamp
      · exact hkept p stamp hp hstamp
      · next q stage hcall =>
        rcases versions_next q (start.moment steps k).box stage with hsame | ⟨v, m, rfl, hnew⟩
        · rw [hsame] at hstamp
          exact hkept p stamp hp hstamp
        · rw [hnew, Table.get?_insert] at hstamp
          split at hstamp
          · next hq =>
            have hlearned := hcalls q _ (hq ▸ hp) (List.mem_of_getElem? hcall)
            rw [← Option.some.inj hstamp, Host.placeOf, ← Path.placeFrom_congr _ hq]
            exact hlearned
          · exact hkept p stamp hp hstamp
  · intro p stage hp hcall
    rw [hsucc] at hcall
    cases step with
    | call q =>
      rcases List.mem_append.1 hcall with hold | hnew
      · exact hcalls p stage hp hold
      · cases List.mem_singleton.1 hnew
        trivial
    | write _ _ => exact hcalls p stage hp hcall
    | remove _ => exact hcalls p stage hp hcall
    | proceed n =>
      simp only [after] at hcall
      split at hcall
      · exact hcalls p stage hp hcall
      · next q before hbefore =>
        rcases List.mem_or_eq_of_mem_set hcall with hold | hnew
        · exact hcalls p stage hp hold
        · cases hnew
          have hsound := hk.calls p before hp (List.mem_of_getElem? hbefore)
          exact (hsound.next hp).succ hgrows

theorem coherent_moment (hstart : Coherent start steps 0) (hfresh : start.Fresh steps)
    (hk : k ≤ steps.length) : Coherent start steps k := by
  induction k with
  | zero => exact hstart
  | succ k ih =>
    have hstep : steps[k]? = some steps[k] := List.getElem?_eq_getElem hk
    exact (ih (Nat.le_of_succ_le hk)).succ hfresh hstep

/-- Where nothing is kept and no call was begun, all is sound. -/
theorem coherent_ofHost (host : Host) (bundle installDir : Option Path) (steps : List Step) :
    Coherent (ofToolbox (.ofHost host bundle installDir)) steps 0 := by
  constructor
  · intro p stamp _ hstamp
    cases hstamp
  · intro p stage _ hcall
    cases hcall

/-! ## One call -/

/-- What is right for a call to have found out about a file, where `gone` says that the file may
have been removed in the meantime. -/
def Expected (p : Path) (f : File) (gone : Prop) : Stage → Prop
  | .begun => True
  | .dated modified | .unknown modified | .stated _ modified => modified = some f.modified
  | .ended answer => answer = f.answer p ∨
      (gone ∧ (answer = .error (.executableMissing p) ∨ answer = .error (.notStarted p)))

/-- While a call for a path is under way that began when there was a certain file: whatever is kept
or about to be kept with the time of this file is what the file states, and the call is right. -/
structure Watched (p : Path) (f : File) (gone : Prop) (n : Nat) (o : Overlap) : Prop where
  kept : ∀ v, o.box.versions.get? p.components = some ⟨v, some f.modified⟩ → f.answer p = .ok v
  others : ∀ q v, (q, Stage.stated v (some f.modified)) ∈ o.calls → q.components = p.components →
    f.answer p = .ok v
  own : ∃ stage, o.calls[n]? = some (p, stage) ∧ Expected p f gone stage

/-- Nothing but one file stands at the place of a path, and if it does not lead to the file, the
file may have been removed. -/
structure Spared (p : Path) (f : File) (gone : Prop) (o : Overlap) : Prop where
  only : ∀ node, o.files.node? (o.box.host.placeOf p) = some node → node = .file f
  there : o.box.host.node? p = some (.file f) ∨ gone

variable {p : Path} {f : File} {gone : Prop} {n : Nat} {o : Overlap}

theorem Spared.node (h : Spared p f gone o) :
    o.box.host.node? p = some (.file f) ∨ (o.box.host.node? p = none ∧ gone) := by
  cases hnode : o.box.host.node? p with
  | none =>
    refine .inr ⟨rfl, h.there.resolve_left ?_⟩
    rw [hnode]
    nofun
  | some node => exact .inl (congrArg some (h.only node (Host.node?_place _ hnode)))

theorem Spared.stated (h : Spared p f gone o) (hp : 2 ≤ p.components.length) {q : Path}
    (hq : q.components = p.components) {v : Version} (hv : o.box.host.statedVersion q = .ok v) :
    f.answer p = .ok v := by
  obtain ⟨g, hg, hanswer⟩ := Host.exists_file_of_statedVersion _ (hq ▸ hp) hv
  have hplace := Host.node?_place _ hg
  rw [Host.placeOf, Path.placeFrom_congr _ hq] at hplace
  rw [← Node.file.inj (h.only _ hplace)]
  exact File.answer_eq_ok hanswer p

theorem Watched.own_next (hp : 2 ≤ p.components.length) (hw : Watched p f gone n o)
    (hspared : Spared p f gone o) {stage : Stage} (hcall : o.calls[n]? = some (p, stage))
    (hexpected : Expected p f gone stage) : Expected p f gone (stage.next p o.box).1 := by
  cases stage with
  | begun =>
    simp only [Stage.next]
    rcases hspared.node with hnode | ⟨hnode, hgone⟩
    · rw [hnode]
      rfl
    · rw [hnode]
      exact .inr ⟨hgone, .inl rfl⟩
  | dated modified =>
    obtain rfl : modified = some f.modified := hexpected
    simp only [Stage.next]
    split
    · next v hknown =>
      refine .inl ?_
      rw [knownVersion?] at hknown
      split at hknown
      · next stamp hstamp =>
        split at hknown
        · next htime =>
          obtain ⟨w, m⟩ := stamp
          obtain rfl := Option.some.inj hknown
          obtain rfl : m = some f.modified := htime
          exact (hw.kept _ hstamp).symm
        · cases hknown
      · cases hknown
    · rfl
  | unknown modified =>
    rw [Stage.next_unknown]
    dsimp only
    rcases hspared.node with hnode | ⟨hnode, hgone⟩
    · rw [Host.statedVersion_of_file _ hp hnode]
      split
      · next failure hanswer => exact .inl hanswer.symm
      · exact hexpected
    · have hno : ∀ g, o.box.host.node? p ≠ some (.file g) := by
        intro g
        rw [hnode]
        exact (Option.some_ne_none _).symm
      rw [Host.statedVersion_of_no_file _ hp hno]
      exact .inr ⟨hgone, .inr rfl⟩
  | stated v modified =>
    obtain rfl : modified = some f.modified := hexpected
    exact .inl (hw.others p v (List.mem_of_getElem? hcall) rfl).symm
  | ended answer => exact hexpected

theorem Watched.after (hp : 2 ≤ p.components.length) (hw : Watched p f gone n o)
    (hspared : Spared p f gone o) (step : Step) : Watched p f gone n (o.after step) := by
  obtain ⟨stage, hcall, hexpected⟩ := hw.own
  have hown : ∃ stage, (o.after step).calls[n]? = some (p, stage) ∧ Expected p f gone stage := by
    refine ⟨_, call_after hcall step, ?_⟩
    split
    · exact hw.own_next hp hspared hcall hexpected
    · exact hexpected
  cases step with
  | write place g => exact ⟨hw.kept, hw.others, hown⟩
  | remove place => exact ⟨hw.kept, hw.others, hown⟩
  | call q =>
    refine ⟨hw.kept, fun r v hr hcomponents => ?_, hown⟩
    rcases List.mem_append.1 hr with hold | hnew
    · exact hw.others r v hold hcomponents
    · cases List.mem_singleton.1 hnew
  | proceed k =>
    cases hbefore : o.calls[k]? with
    | none =>
      have hsame : o.after (.proceed k) = o := by simp only [Overlap.after, hbefore]
      rw [hsame]
      exact hw
    | some call =>
      obtain ⟨q, before⟩ := call
      have hnext : o.after (.proceed k) =
          ⟨(before.next q o.box).2, o.calls.set k (q, (before.next q o.box).1)⟩ := by
        simp only [Overlap.after, hbefore]
      rw [hnext] at hown ⊢
      refine ⟨fun v hv => ?_, fun r v hr hcomponents => ?_, hown⟩
      · rcases versions_next q o.box before with hsame | ⟨w, m, rfl, hnew⟩
        · rw [hsame] at hv
          exact hw.kept v hv
        · rw [hnew, Table.get?_insert] at hv
          split at hv
          · next hq =>
            cases hv
            exact hw.others q v (List.mem_of_getElem? hbefore) hq
          · exact hw.kept v hv
      · rcases List.mem_or_eq_of_mem_set hr with hold | hnew
        · exact hw.others r v hold hcomponents
        · obtain ⟨rfl, hstage⟩ := Prod.mk.inj hnew
          obtain ⟨-, hstated⟩ := stated_of_next hstage.symm
          exact hspared.stated hp hcomponents hstated

theorem Coherent.watched {b : Nat} (hb : Coherent start steps b)
    (hp : 2 ≤ p.components.length) (hbegin : steps[b]? = some (.call p))
    (hf : (start.moment steps b).box.host.node? p = some (.file f)) :
    Watched p f gone (start.moment steps b).calls.length (start.moment steps (b + 1)) := by
  have hplace : (start.moment steps b).files.node? (start.box.host.placeOf p) =
      some (.file f) := by
    rw [← start.placeOf_moment steps b p]
    exact Host.node?_place _ hf
  rw [start.moment_succ hbegin]
  refine ⟨?_, ?_, .begun, List.getElem?_concat_length, trivial⟩
  · intro v hv
    exact (hb.kept p _ hp hv f.modified rfl).2 f hplace rfl p
  · intro q v hq hcomponents
    rcases List.mem_append.1 hq with hold | hnew
    · have hlearned := hb.calls q _ (hcomponents ▸ hp) hold
      rw [Host.placeOf, Path.placeFrom_congr _ hcomponents] at hlearned
      exact (hlearned f.modified rfl).2 f hplace rfl p
    · cases List.mem_singleton.1 hnew

theorem Coherent.watched_moment {b e : Nat} (hb : Coherent start steps b)
    (hp : 2 ≤ p.components.length) (hbegin : steps[b]? = some (.call p))
    (hf : (start.moment steps b).box.host.node? p = some (.file f)) (hbe : b < e)
    (he : e ≤ steps.length)
    (hspared : ∀ m, b ≤ m → m < e → Spared p f gone (start.moment steps m)) :
    Watched p f gone (start.moment steps b).calls.length (start.moment steps e) := by
  induction hbe with
  | refl => exact hb.watched hp hbegin hf
  | @step e hbe ih =>
    have hbefore := ih (Nat.le_of_succ_le he) fun m hbm hm => hspared m hbm (Nat.lt_succ_of_lt hm)
    have hstep : steps[e]? = some steps[e] := List.getElem?_eq_getElem he
    rw [start.moment_succ hstep]
    exact hbefore.after hp (hspared e (Nat.le_of_lt hbe) (Nat.lt_succ_self e)) steps[e]

theorem missing_moment {b e : Nat} (hbegin : steps[b]? = some (.call p)) (hbe : b < e)
    (he : e ≤ steps.length)
    (hnone : ∀ m, b ≤ m → m < e → (start.moment steps m).box.host.node? p = none) :
    ∃ stage, (start.moment steps e).calls[(start.moment steps b).calls.length]? =
      some (p, stage) ∧ (stage = .begun ∨ stage = .ended (.error (.executableMissing p))) := by
  induction hbe with
  | refl =>
    rw [start.moment_succ hbegin]
    exact ⟨.begun, List.getElem?_concat_length, .inl rfl⟩
  | @step e hbe ih =>
    obtain ⟨stage, hcall, hstage⟩ := ih (Nat.le_of_succ_le he) fun m hbm hm =>
      hnone m hbm (Nat.lt_succ_of_lt hm)
    have hstep : steps[e]? = some steps[e] := List.getElem?_eq_getElem he
    have hnow := hnone e (Nat.le_of_lt hbe) (Nat.lt_succ_self e)
    refine ⟨_, start.moment_succ hstep ▸ call_after hcall steps[e], ?_⟩
    split
    · refine .inr ?_
      rcases hstage with rfl | rfl
      · simp only [Stage.next, hnow]
      · rfl
    · exact hstage

/-- A call that began when there was a file, and has ended, answered as a fresh one would have, or
did not find the file because it was removed. -/
theorem Coherent.answer {b e : Nat} (hb : Coherent start steps b) (hp : 2 ≤ p.components.length)
    (hbegin : steps[b]? = some (.call p))
    (hf : (start.moment steps b).box.host.node? p = some (.file f)) (hbe : b < e)
    (he : e ≤ steps.length)
    (hspared : ∀ m, b ≤ m → m < e → Spared p f gone (start.moment steps m))
    {answer : Except Failure Version}
    (hanswer : (start.moment steps e).calls[(start.moment steps b).calls.length]? =
      some (p, .ended answer)) :
    answer = (start.moment steps b).box.host.freshVersion p ∨
      (gone ∧ (answer = .error (.executableMissing p) ∨ answer = .error (.notStarted p))) := by
  obtain ⟨stage, hcall, hstage⟩ := (hb.watched_moment hp hbegin hf hbe he hspared).own
  cases hcall.symm.trans hanswer
  rw [Host.freshVersion_of_file _ hp hf]
  exact hstage

/-- A call that has ended, while what its path leads to was the same all the time, answered as a
fresh one would have. -/
theorem Coherent.answer_of_same {b e : Nat} (hb : Coherent start steps b)
    (hp : 2 ≤ p.components.length) (hbegin : steps[b]? = some (.call p)) (hbe : b < e)
    (he : e ≤ steps.length)
    (hdirectory : (start.moment steps b).box.host.node? p ≠ some .directory)
    (hsame : ∀ m, b ≤ m → m < e →
      (start.moment steps m).box.host.node? p = (start.moment steps b).box.host.node? p)
    {answer : Except Failure Version}
    (hanswer : (start.moment steps e).calls[(start.moment steps b).calls.length]? =
      some (p, .ended answer)) :
    answer = (start.moment steps b).box.host.freshVersion p := by
  cases hnode : (start.moment steps b).box.host.node? p with
  | none =>
    obtain ⟨stage, hcall, hstage⟩ := missing_moment hbegin hbe he fun m hbm hm =>
      (hsame m hbm hm).trans hnode
    cases hcall.symm.trans hanswer
    rcases hstage with hbegun | hmissing
    · cases hbegun
    · cases hmissing
      exact (Host.freshVersion_of_none _ hnode).symm
  | some node =>
    cases node with
    | directory => exact absurd hnode hdirectory
    | file f =>
      have hspared (m : Nat) (hbm : b ≤ m) (hm : m < e) :
          Spared p f False (start.moment steps m) := by
        have hfile := (hsame m hbm hm).trans hnode
        refine ⟨fun node h => ?_, .inl hfile⟩
        exact Option.some.inj (h.symm.trans (Host.node?_place _ hfile))
      exact (hb.answer hp hbegin hnode hbe he hspared hanswer).resolve_right And.left

/-! ## All calls of a run -/

/-- However calls for versions overlap and files are written and removed in between, as long as no
file is written with a time that its place had before: a call is ended by four stages. A call by a
path of more than one component during which nothing changes there answers what a fresh one would:
that there is nothing, that the file states no version, or the version. If the file was removed
during the call, but none was written, it may answer that it is missing or cannot be started. A call
that fails changes nothing that is kept. -/
theorem overlapping_calls_coherent (host : Host) (bundle installDir : Option Path)
    (steps : List Step)
    (hfresh : (ofToolbox (.ofHost host bundle installDir)).Fresh steps) :
    let now := (ofToolbox (.ofHost host bundle installDir)).moment steps
    (∀ b e p, steps[b]? = some (.call p) → b < e → e ≤ steps.length →
      let n := (now b).calls.length
      let there (m : Nat) := (now m).box.host.node? p
      (4 ≤ ((steps.take e).drop b).countP (Step.proceeds n) →
        ∃ answer, (now e).calls[n]? = some (p, .ended answer)) ∧
      ∀ answer, 2 ≤ p.components.length → (now e).calls[n]? = some (p, .ended answer) →
        (there b ≠ some .directory → (∀ m, b ≤ m → m < e → there m = there b) →
          answer = (now b).box.host.freshVersion p) ∧
        ∀ f, there b = some (.file f) →
          (∀ m, b ≤ m → m < e → ∀ node,
            (now m).files.node? ((now m).box.host.placeOf p) = some node → node = .file f) →
          answer = (now b).box.host.freshVersion p ∨
            answer = .error (.executableMissing p) ∨ answer = .error (.notStarted p)) ∧
    ∀ m e n p failure, steps[m]? = some (.proceed n) → m < e →
      (now e).calls[n]? = some (p, .ended (.error failure)) →
      (now (m + 1)).box.versions = (now m).box.versions := by
  intro now
  refine ⟨?_, fun m e n p failure hstep hme h => versions_of_failed hstep hme h⟩
  intro b e p hbegin hbe he n there
  refine ⟨exists_ended hbegin rfl hbe he, ?_⟩
  intro answer hp hanswer
  have hb : Coherent (ofToolbox (.ofHost host bundle installDir)) steps b :=
    coherent_moment (coherent_ofHost host bundle installDir steps) hfresh
      (Nat.le_of_lt (Nat.lt_of_lt_of_le hbe he))
  constructor
  · intro hdirectory hsame
    exact hb.answer_of_same hp hbegin hbe he hdirectory hsame hanswer
  · intro f hf honly
    have hspared (m : Nat) (hbm : b ≤ m) (hm : m < e) : Spared p f True (now m) :=
      ⟨honly m hbm hm, .inr trivial⟩
    exact (hb.answer hp hbegin hf hbe he hspared hanswer).imp_right And.right

def stating (modified : Int) (version : String) : File :=
  ⟨modified, true, some fun _ => ⟨Utf8.encode version.toList, [], some 0, false⟩⟩

def oldTool : Host :=
  ⟨⟨⟨[(["b"], .directory), (["b", "ruff"], .file (stating 1 "0.1.0"))]⟩⟩, .empty, []⟩

/-- The tool is replaced after the first call has looked at its time. The first call ends after the
second one and writes the old time over the new one, so the third call has to ask again. -/
def lateWriter : List Step :=
  [.call ⟨"/b/ruff"⟩, .proceed 0, .write ["b", "ruff"] (stating 2 "0.2.0"), .proceed 0, .proceed 0,
    .call ⟨"/b/ruff"⟩, .proceed 1, .proceed 1, .proceed 1, .proceed 1, .proceed 0,
    .call ⟨"/b/ruff"⟩, .proceed 2, .proceed 2, .proceed 2, .proceed 2]

theorem changesFiles_lateWriter {k : Nat} {step : Step} (h : lateWriter[k]? = some step) :
    step.changesFiles = decide (k = 2) := by
  have hk : k < lateWriter.length := (List.getElem?_eq_some_iff.1 h).1
  have hall : ∀ i < lateWriter.length,
      (lateWriter[i]?).map Step.changesFiles = some (decide (i = 2)) := by
    decide
  have hone := hall k hk
  rw [h] at hone
  exact Option.some.inj hone

theorem host_lateWriter {b m : Nat} (hbm : b ≤ m) (hm : m ≤ lateWriter.length)
    (h : m ≤ 2 ∨ 3 ≤ b) :
    ((ofToolbox (.ofHost oldTool none none)).moment lateWriter m).box.host =
      ((ofToolbox (.ofHost oldTool none none)).moment lateWriter b).box.host := by
  refine host_moment _ hbm hm fun i step hi him hstep => ?_
  rw [changesFiles_lateWriter hstep]
  exact decide_eq_false (by omega)

theorem fresh_lateWriter : (ofToolbox (.ofHost oldTool none none)).Fresh lateWriter := by
  intro k place f hwrite m hm g hg
  have hk : k = 2 := of_decide_eq_true (changesFiles_lateWriter hwrite).symm
  subst hk
  cases hwrite
  rw [files, host_lateWriter (Nat.zero_le m) (Nat.le_trans hm (by decide)) (.inl hm)] at hg
  have hold : some (Node.file (stating 1 "0.1.0")) = some (Node.file g) := hg
  cases hold
  decide

/-- The third call is not misled by what is kept. -/
theorem lateWriter_coherent :
    let now := (ofToolbox (.ofHost oldTool none none)).moment lateWriter
    (ofToolbox (.ofHost oldTool none none)).Fresh lateWriter ∧
    (now 11).box.versions.get? (Path.mk "/b/ruff").components =
      some ⟨.release 0 2 0, some 1⟩ ∧
    (now 16).calls[2]? = some (⟨"/b/ruff"⟩, .ended (.ok (.release 0 2 0))) := by
  intro now
  have hkept : (now 11).box.versions.get? (Path.mk "/b/ruff").components =
      some ⟨.release 0 2 0, some 1⟩ := by
    decide +kernel +zetaReduce
  have hcalls : (now 11).calls.length = 2 := by decide +kernel +zetaReduce
  have hfile : (now 11).box.host.isExecutable ⟨"/b/ruff"⟩ = true := by decide +kernel +zetaReduce
  have hno : (now 11).box.host.node? ⟨"/b/ruff"⟩ ≠ some .directory := by
    intro hdirectory
    rw [Host.isExecutable, hdirectory] at hfile
    cases hfile
  have hstated : (now 11).box.host.freshVersion ⟨"/b/ruff"⟩ = .ok (.release 0 2 0) :=
    Except.eq_ok_of_toOption (by decide +kernel +zetaReduce)
  have hsame (m : Nat) (hbm : 11 ≤ m) (hm : m < 16) :
      (now m).box.host.node? ⟨"/b/ruff"⟩ = (now 11).box.host.node? ⟨"/b/ruff"⟩ :=
    congrArg (fun host => Host.node? host ⟨"/b/ruff"⟩)
      (host_lateWriter hbm (Nat.le_of_lt hm) (.inr (by decide)))
  obtain ⟨hends, hright⟩ := (overlapping_calls_coherent oldTool none none lateWriter
    fresh_lateWriter).1 11 16 ⟨"/b/ruff"⟩ rfl (by decide) (by decide)
  obtain ⟨answer, hanswer⟩ := hends (by rw [hcalls]; decide)
  have hfresh := (hright answer (by decide) hanswer).1 hno hsame
  rw [hcalls] at hanswer
  refine ⟨fresh_lateWriter, hkept, hanswer.trans ?_⟩
  rw [hfresh, hstated]

/-- A machine with a file beside the server and a tool of the same name in the search path. -/
def sameName (f : File) : Host :=
  ⟨⟨⟨[(["c"], .directory), (["c", "ruff"], .file (stating 1 "0.1.0")), (["p"], .directory),
    (["p", "ruff"], .file f)]⟩⟩, ⟨[("PATH", "/p")]⟩, ["c"]⟩

-- A bare name may lead to two files: the time of the one beside the server says nothing about the
-- one that is run, so its replacement goes unnoticed.
example :
    let first := ((version ⟨"ruff"⟩).run (.ofHost (sameName (stating 1 "0.5.0")) none none)).2
    let replaced := { first with host := sameName (stating 2 "0.6.0") }
    ((version ⟨"ruff"⟩).run replaced).1.toOption = some (.release 0 5 0) ∧
      (replaced.host.freshVersion ⟨"ruff"⟩).toOption = some (.release 0 6 0) := by
  decide +kernel

end LintBridge.Toolbox.Overlap
