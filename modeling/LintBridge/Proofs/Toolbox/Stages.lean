import LintBridge.Proofs.Host.Places

/-!
The stages of a call for a version, and calls that overlap.

A call for the version of an executable takes four stages: it looks when the file was modified,
looks for a version that was kept with this time, asks the executable, and keeps the answer with the
time. Without interruption they are the call as it is made (`Stage.advance_four`). An `Overlap` is a
toolbox with calls in any stage; a `Step` begins a call, takes one to its next stage, or writes or
removes a file.

* `Overlap.call_after`: a step takes a call to its next stage, or leaves it where it is;
* `Overlap.exists_ended`: four stages end a call, whatever happens between them;
* `Overlap.versions_of_failed`: only a call that has learned a version changes what is kept, and a
  call that fails changes nothing.
-/

namespace LintBridge

/-- The version of an executable without regard to what is kept: that nothing is there, or what is
stated. -/
def Host.freshVersion (h : Host) (p : Path) : Except Failure Version :=
  match h.node? p with
  | none => .error (.executableMissing p)
  | some _ => h.statedVersion p

theorem Host.freshVersion_of_none (h : Host) {p : Path} (hnode : h.node? p = none) :
    h.freshVersion p = .error (.executableMissing p) := by
  rw [freshVersion, hnode]

theorem Host.freshVersion_of_file (h : Host) {p : Path} (hp : 2 ≤ p.components.length) {f : File}
    (hnode : h.node? p = some (.file f)) : h.freshVersion p = f.answer p := by
  rw [freshVersion, hnode]
  exact h.statedVersion_of_file hp hnode

namespace Toolbox

/-! ## The stages of a call -/

inductive Stage where
  | begun
  /-- It has been looked when the file was modified. -/
  | dated (modified : Option Int)
  /-- No version is kept with this time. -/
  | unknown (modified : Option Int)
  /-- The executable has stated a version. -/
  | stated (v : Version) (modified : Option Int)
  | ended (answer : Except Failure Version)

namespace Stage

def next (p : Path) (box : Toolbox) : Stage → Stage × Toolbox
  | .begun =>
    match box.host.node? p with
    | none => (.ended (.error (.executableMissing p)), box)
    | some node => (.dated (modifiedTime node), box)
  | .dated modified =>
    match box.knownVersion? p modified with
    | some v => (.ended (.ok v), box)
    | none => (.unknown modified, box)
  | .unknown modified =>
    let (result, box) := (run p ["--version"] none "").run box
    match result.bind (versionIn p) with
    | .error failure => (.ended (.error failure), box)
    | .ok v => (.stated v modified, box)
  | .stated v modified => (.ended (.ok v), box.rememberVersion p ⟨v, modified⟩)
  | .ended answer => (.ended answer, box)

/-- Takes a call through some stages without interruption. -/
def advance (p : Path) : Nat → Stage × Toolbox → Stage × Toolbox
  | 0, state => state
  | k + 1, (stage, box) => advance p k (stage.next p box)

theorem next_unknown (p : Path) (box : Toolbox) (modified : Option Int) :
    (unknown modified).next p box =
      (match box.host.statedVersion p with
        | .error failure => .ended (.error failure)
        | .ok v => .stated v modified,
      { box with runs := box.runs ++ (box.host.versionRun? p).toList }) := by
  simp only [next, run_eq, Host.statedVersion]
  split <;> rfl

theorem advance_four (p : Path) (box : Toolbox) :
    advance p 4 (.begun, box) = (.ended ((version p).run box).1, ((version p).run box).2) := by
  cases hnode : box.host.node? p with
  | none =>
    rw [version_run_missing box p hnode]
    simp only [advance, next, hnode]
  | some node =>
    cases hknown : box.knownVersion? p (modifiedTime node) with
    | some v =>
      rw [version_run_known box p node v hnode hknown]
      simp only [advance, next, hnode, hknown]
    | none =>
      rw [version_run_unknown box p node hnode hknown, askVersion_eq]
      have hbegun : begun.next p box = (.dated (modifiedTime node), box) := by
        simp only [next, hnode]
      have hdated : (dated (modifiedTime node)).next p box =
          (.unknown (modifiedTime node), box) := by
        simp only [next, hknown]
      simp only [advance, hbegun, hdated, next_unknown]
      cases box.host.statedVersion p <;> rfl

end Stage

/-! ## Overlapping calls -/

/-- A toolbox with the calls that were begun, in any stage. -/
structure Overlap where
  box : Toolbox
  calls : List (Path × Stage)

/-- What may happen while calls overlap. -/
inductive Step where
  | call (p : Path)
  /-- The call with a number goes to its next stage. -/
  | proceed (n : Nat)
  | write (place : List String) (f : File)
  | remove (place : List String)

namespace Step

/-- Whether a step takes the call with a number to its next stage. -/
def proceeds (n : Nat) : Step → Bool
  | .proceed k => k = n
  | _ => false

def changesFiles : Step → Bool
  | .write .. | .remove _ => true
  | .call _ | .proceed _ => false

end Step

namespace Overlap

def ofToolbox (box : Toolbox) : Overlap := ⟨box, []⟩

def files (o : Overlap) : FileSystem := o.box.host.files

def onFiles (o : Overlap) (change : FileSystem → FileSystem) : Overlap :=
  { o with box := { o.box with host := { o.box.host with files := change o.files } } }

def after (o : Overlap) : Step → Overlap
  | .call p => { o with calls := o.calls ++ [(p, .begun)] }
  | .proceed n =>
    match o.calls[n]? with
    | none => o
    | some (p, stage) => ⟨(stage.next p o.box).2, o.calls.set n (p, (stage.next p o.box).1)⟩
  | .write place f => o.onFiles fun fs => fs.put place (.file f)
  | .remove place => o.onFiles fun fs => fs.remove place

def moment (o : Overlap) (steps : List Step) (k : Nat) : Overlap := (steps.take k).foldl after o

/-- No file is written with a time of modification that its place had before. -/
def Fresh (o : Overlap) (steps : List Step) : Prop :=
  ∀ k place f, steps[k]? = some (.write place f) → ∀ m ≤ k, ∀ g,
    (o.moment steps m).files.node? place = some (.file g) → g.modified ≠ f.modified

theorem moment_succ (o : Overlap) {steps : List Step} {k : Nat} {step : Step}
    (h : steps[k]? = some step) : o.moment steps (k + 1) = (o.moment steps k).after step := by
  rw [moment, moment, List.take_add_one, h, List.foldl_append]
  rfl

/-- After the last step nothing happens. -/
theorem moment_of_none (o : Overlap) {steps : List Step} {k : Nat} (h : steps[k]? = none) :
    o.moment steps (k + 1) = o.moment steps k := by
  rw [moment, moment, List.take_add_one, h, Option.toList_none, List.append_nil]

/-! ## What a stage changes -/

@[simp] theorem host_next (p : Path) (box : Toolbox) (stage : Stage) :
    (stage.next p box).2.host = box.host := by
  cases stage with
  | begun =>
    simp only [Stage.next]
    split <;> rfl
  | dated modified =>
    simp only [Stage.next]
    split <;> rfl
  | unknown modified => rw [Stage.next_unknown]
  | stated v modified => rfl
  | ended answer => rfl

/-- The versions that are kept change in the last stage of a call that has learned a version. -/
theorem versions_next (p : Path) (box : Toolbox) (stage : Stage) :
    (stage.next p box).2.versions = box.versions ∨
      ∃ v modified, stage = .stated v modified ∧
        (stage.next p box).2.versions = box.versions.insert p.components ⟨v, modified⟩ := by
  cases stage with
  | begun =>
    refine .inl ?_
    simp only [Stage.next]
    split <;> rfl
  | dated modified =>
    refine .inl ?_
    simp only [Stage.next]
    split <;> rfl
  | unknown modified =>
    refine .inl ?_
    rw [Stage.next_unknown]
  | stated v modified => exact .inr ⟨v, modified, rfl, rfl⟩
  | ended answer => exact .inl rfl

/-- A call that has just learned a version was told it by the executable. -/
theorem stated_of_next {p : Path} {box : Toolbox} {stage : Stage} {v : Version}
    {modified : Option Int} (h : (stage.next p box).1 = .stated v modified) :
    stage = .unknown modified ∧ box.host.statedVersion p = .ok v := by
  cases stage with
  | begun =>
    simp only [Stage.next] at h
    split at h <;> cases h
  | dated modified =>
    simp only [Stage.next] at h
    split at h <;> cases h
  | unknown modified =>
    rw [Stage.next_unknown] at h
    dsimp only at h
    split at h
    · cases h
    · next hstated =>
      cases h
      exact ⟨rfl, hstated⟩
  | stated v modified => cases h
  | ended answer => cases h

theorem host_after (o : Overlap) {step : Step} (h : step.changesFiles = false) :
    (o.after step).box.host = o.box.host := by
  cases step with
  | call p => rfl
  | proceed n =>
    simp only [after]
    split
    · rfl
    · rw [host_next]
  | write place f => cases h
  | remove place => cases h

theorem cwd_after (o : Overlap) (step : Step) :
    (o.after step).box.host.cwd = o.box.host.cwd := by
  cases step with
  | call p => rfl
  | proceed n => rw [host_after o rfl]
  | write place f => rfl
  | remove place => rfl

theorem cwd_moment (o : Overlap) (steps : List Step) (k : Nat) :
    (o.moment steps k).box.host.cwd = o.box.host.cwd := by
  induction k with
  | zero => rfl
  | succ k ih =>
    cases h : steps[k]? with
    | none => rw [o.moment_of_none h, ih]
    | some step => rw [o.moment_succ h, cwd_after, ih]

/-- Paths lead to the same places at all times. -/
theorem placeOf_moment (o : Overlap) (steps : List Step) (k : Nat) (p : Path) :
    (o.moment steps k).box.host.placeOf p = o.box.host.placeOf p := by
  rw [Host.placeOf, cwd_moment, Host.placeOf]

/-- The machine is the same as long as no file is changed. -/
theorem host_moment (o : Overlap) {steps : List Step} {b m : Nat} (hbm : b ≤ m)
    (hm : m ≤ steps.length)
    (h : ∀ i step, b ≤ i → i < m → steps[i]? = some step → step.changesFiles = false) :
    (o.moment steps m).box.host = (o.moment steps b).box.host := by
  induction hbm with
  | refl => rfl
  | @step m hbm ih =>
    have hstep : steps[m]? = some steps[m] := List.getElem?_eq_getElem hm
    have hbefore := ih (Nat.le_of_succ_le hm) fun i step hi him =>
      h i step hi (Nat.lt_succ_of_lt him)
    rw [o.moment_succ hstep, host_after _ (h m _ hbm (Nat.lt_succ_self m) hstep), hbefore]

/-- Only a call that has learned a version changes what is kept. -/
theorem versions_after (o : Overlap) (step : Step) :
    (o.after step).box.versions = o.box.versions ∨
      ∃ n p v modified, step = .proceed n ∧ o.calls[n]? = some (p, .stated v modified) := by
  cases step with
  | call p => exact .inl rfl
  | write place f => exact .inl rfl
  | remove place => exact .inl rfl
  | proceed n =>
    simp only [after]
    split
    · exact .inl rfl
    · next p stage hcall =>
      rcases versions_next p o.box stage with hsame | ⟨v, modified, rfl, -⟩
      · exact .inl hsame
      · exact .inr ⟨n, p, v, modified, rfl, hcall⟩

/-! ## One call among others -/

variable {n : Nat} {p : Path}

/-- A step takes a call to its next stage, or leaves it where it is. -/
theorem call_after {o : Overlap} {stage : Stage} (h : o.calls[n]? = some (p, stage))
    (step : Step) :
    (o.after step).calls[n]? =
      some (p, if step.proceeds n then (stage.next p o.box).1 else stage) := by
  have hn : n < o.calls.length := (List.getElem?_eq_some_iff.1 h).1
  cases step with
  | call q =>
    show (o.calls ++ [(q, Stage.begun)])[n]? = _
    rw [List.getElem?_append_left hn, h]
    rfl
  | write place f => exact h
  | remove place => exact h
  | proceed k =>
    by_cases hk : k = n
    · subst hk
      have hleft : (o.after (.proceed k)).calls[k]? = some (p, (stage.next p o.box).1) := by
        simp only [after, h]
        exact List.getElem?_set_self hn
      simp [hleft, Step.proceeds]
    · have hleft : (o.after (.proceed k)).calls[n]? = o.calls[n]? := by
        simp only [after]
        split
        · rfl
        · rw [List.getElem?_set_ne hk]
      simp [hleft, h, Step.proceeds, hk]

theorem ended_moment {o : Overlap} {steps : List Step} {m e : Nat} {answer : Except Failure Version}
    (hme : m ≤ e) (h : (o.moment steps m).calls[n]? = some (p, .ended answer)) :
    (o.moment steps e).calls[n]? = some (p, .ended answer) := by
  induction hme with
  | refl => exact h
  | @step e hme ih =>
    cases hstep : steps[e]? with
    | none => rw [o.moment_of_none hstep, ih]
    | some step =>
      rw [o.moment_succ hstep, call_after ih]
      split <;> rfl

/-- How many stages a call has taken. -/
def rank : Stage → Nat
  | .begun => 0
  | .dated _ => 1
  | .unknown _ => 2
  | .stated .. => 3
  | .ended _ => 4

theorem rank_next (p : Path) (box : Toolbox) (stage : Stage) :
    min 4 (rank stage + 1) ≤ rank (stage.next p box).1 := by
  cases stage with
  | begun =>
    simp only [Stage.next]
    split <;> simp [rank]
  | dated modified =>
    simp only [Stage.next]
    split <;> simp [rank]
  | unknown modified =>
    rw [Stage.next_unknown]
    dsimp only
    split <;> simp [rank]
  | stated v modified => simp [Stage.next, rank]
  | ended answer => simp [Stage.next, rank]

theorem exists_answer_of_rank {stage : Stage} (h : 4 ≤ rank stage) :
    ∃ answer, stage = .ended answer := by
  cases stage with
  | ended answer => exact ⟨answer, rfl⟩
  | begun => simp [rank] at h
  | dated modified => simp [rank] at h
  | unknown modified => simp [rank] at h
  | stated v modified => simp [rank] at h

variable {start : Overlap} {steps : List Step} {b : Nat}

/-- A call that has begun takes as many stages as it is taken to, up to its end. -/
theorem exists_stage (hbegin : steps[b]? = some (.call p))
    (hn : (start.moment steps b).calls.length = n) {e : Nat} (hbe : b < e)
    (he : e ≤ steps.length) :
    ∃ stage, (start.moment steps e).calls[n]? = some (p, stage) ∧
      min 4 (((steps.take e).drop b).countP (Step.proceeds n)) ≤ rank stage := by
  induction hbe with
  | refl =>
    refine ⟨.begun, ?_, ?_⟩
    · rw [start.moment_succ hbegin, ← hn]
      exact List.getElem?_concat_length
    · have hone : (steps.take (b + 1)).drop b = [.call p] := by
        rw [List.take_add_one, hbegin, List.drop_append_of_le_length (by simp; omega)]
        simp
      simp [hone, Step.proceeds]
  | @step e hbe ih =>
    have hstep : steps[e]? = some steps[e] := List.getElem?_eq_getElem he
    obtain ⟨stage, hcall, hrank⟩ := ih (Nat.le_of_succ_le he)
    have hle : b + 1 ≤ e := hbe
    have hmore : (steps.take (e + 1)).drop b = (steps.take e).drop b ++ [steps[e]] := by
      rw [List.take_add_one, hstep, List.drop_append_of_le_length (by simp; omega)]
      rfl
    refine ⟨_, start.moment_succ hstep ▸ call_after hcall steps[e], ?_⟩
    rw [hmore, List.countP_append]
    cases hproceeds : steps[e].proceeds n with
    | false => simpa [hproceeds] using hrank
    | true =>
      have hnext := rank_next p (start.moment steps e).box stage
      simp [hproceeds]
      omega

/-- Four stages end a call, whatever happens between them. -/
theorem exists_ended (hbegin : steps[b]? = some (.call p))
    (hn : (start.moment steps b).calls.length = n) {e : Nat} (hbe : b < e)
    (he : e ≤ steps.length) (hfour : 4 ≤ ((steps.take e).drop b).countP (Step.proceeds n)) :
    ∃ answer, (start.moment steps e).calls[n]? = some (p, .ended answer) := by
  obtain ⟨stage, hcall, hrank⟩ := exists_stage hbegin hn hbe he
  have hlast : 4 ≤ rank stage := by omega
  obtain ⟨answer, rfl⟩ := exists_answer_of_rank hlast
  exact ⟨answer, hcall⟩

/-- A call that fails in the end changes nothing that is kept. -/
theorem versions_of_failed {m e : Nat} {failure : Failure} (hstep : steps[m]? = some (.proceed n))
    (hme : m < e) (h : (start.moment steps e).calls[n]? = some (p, .ended (.error failure))) :
    (start.moment steps (m + 1)).box.versions = (start.moment steps m).box.versions := by
  rw [start.moment_succ hstep]
  rcases (start.moment steps m).versions_after (.proceed n) with hsame | ⟨k, q, v, t, hk, hcall⟩
  · exact hsame
  · cases hk
    -- a call that has learned a version is going to answer it
    have hnext := call_after hcall (.proceed n)
    rw [← start.moment_succ hstep] at hnext
    have hended : (start.moment steps (m + 1)).calls[n]? = some (q, .ended (.ok v)) := by
      simpa [Step.proceeds, Stage.next] using hnext
    cases (ended_moment hme hended).symm.trans h

end Overlap
end Toolbox
end LintBridge
