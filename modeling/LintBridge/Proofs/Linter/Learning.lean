import LintBridge.Linter.Requests
import LintBridge.Proofs.Toolbox.Learning

/-!
What a linter learns does not change what it answers.

Linters are `Alike` when they have the same settings, their toolboxes are alike, and they answer the
same about the capabilities of all versions. A request for the edits of a document has one answer
over all linters that are alike, in which the version counts of the one executable that the settings
of the document lead to (`Linter.answers_fix`). So a request made before has no influence on it. No
number can outgrow its width in such a request (`Finishes.fix`).
-/

namespace LintBridge.Linter

/-- The place where the settings of a file lead to the tool. -/
def programFor (l : Linter) (file : Path) : Path :=
  ((Toolbox.locate (l.settingsFor file)).run l.toolbox).1

/-- Two linters have the same settings, and answer the same about all interpreters, about the
version at a path, and about the capabilities of all versions. -/
structure Alike (p : Path) (a b : Linter) : Prop where
  registry : b.registry = a.registry
  toolbox : Toolbox.Alike p a.toolbox b.toolbox
  capabilities : ∀ v, (b.capabilities.get v).1 = (a.capabilities.get v).1

theorem Alike.refl (p : Path) (a : Linter) : Alike p a a :=
  ⟨rfl, Toolbox.Alike.refl p a.toolbox, fun _ => rfl⟩

theorem get_get (cache : CapabilityCache) (v w : Version) :
    ((cache.get v).2.get w).1 = (cache.get w).1 := by
  cases hv : cache.known.get? v with
  | some c => simp [CapabilityCache.get, hv]
  | none =>
    by_cases hw : v = w
    · subst hw
      simp [CapabilityCache.get, hv]
    · cases hknown : cache.known.get? w with
      | some c => simp [CapabilityCache.get, hv, hw, hknown]
      | none => simp [CapabilityCache.get, hv, hw, hknown]

section

variable {p : Path} {l : Linter}

theorem answers_onToolbox {α : Type} {action : StateM Toolbox α} {a : α}
    (h : Answers (Toolbox.Alike p l.toolbox) action a) :
    Answers (Alike p l) (onToolbox action) a := by
  intro other hother
  obtain ⟨hanswer, halike⟩ := h other.toolbox hother.toolbox
  exact ⟨hanswer, hother.registry, halike, hother.capabilities⟩

theorem settled_onToolbox {α : Type} {action : StateM Toolbox α}
    (h : Settled (Toolbox.Alike p l.toolbox) action) : Settled (Alike p l) (onToolbox action) := by
  obtain ⟨a, ha⟩ := h
  exact ⟨a, answers_onToolbox ha⟩

theorem settled_askToolbox {α : Type} {action : StateM Toolbox (Except Failure α)}
    (h : Settled (Toolbox.Alike p l.toolbox) action) :
    Settled (Alike p l) (askToolbox action).run :=
  (settled_onToolbox h).map (Except.mapError Stop.failed)

theorem settled_capabilitiesOf (v : Version) : Settled (Alike p l) (capabilitiesOf v) := by
  refine ⟨(l.capabilities.get v).1, ?_⟩
  intro other hother
  refine ⟨hother.capabilities v, hother.registry, hother.toolbox, ?_⟩
  intro w
  exact (get_get other.capabilities v w).trans (hother.capabilities w)

theorem settled_isSkipped (file : Path) (settings : WorkspaceSettings) :
    Settled (Alike p l) (isSkipped file settings) := by
  unfold isSkipped
  cases settings.ignoreStandardLibrary with
  | false => exact .pure false
  | true =>
    refine .get_bind l (fun other hother => ?_) ?_
    · rw [hother.toolbox.host]
    · exact (settled_onToolbox (Toolbox.settled_libraryPaths settings)).bind fun _ _ => .pure _

theorem settled_executable (settings : WorkspaceSettings) (operation : Operation)
    (hp : ((Toolbox.locate settings).run l.toolbox).1 = p) :
    Settled (Alike p l) (executable settings operation).run := by
  unfold executable
  have hlocate : Settled (Alike p l) (onToolbox (Toolbox.locate settings)) :=
    settled_onToolbox (Toolbox.settled_locate settings)
  refine hlocate.lift.except_bind fun path hpath => ?_
  obtain rfl : p = path := by
    have hfound := (hpath l (Alike.refl p l)).1
    exact hp.symm.trans (Except.ok.inj hfound)
  have hversion : Settled (Alike p l) (askToolbox (Toolbox.version p)).run :=
    settled_askToolbox ⟨_, Toolbox.answers_version⟩
  refine hversion.except_bind fun v _ => ?_
  refine (settled_capabilitiesOf v).lift.except_bind fun c _ => ?_
  exact Settled.except_bind ⟨_, Answers.pure _⟩ fun _ _ => .pure _

theorem settled_runOn (program : Path) (args : List String) (settings : WorkspaceSettings)
    (d : Document) : Settled (Alike p l) (runOn program args settings d).run :=
  settled_askToolbox ⟨_, Toolbox.answers_run program args settings.cwd d.toolInput⟩

theorem settled_fix (d : Document) (only : Option String) :
    Settled (Alike (l.programFor d.path) l) (fix d only).run := by
  unfold fix
  refine .except_get_bind l (fun other hother => ?_) ?_
  · rw [settingsFor, hother.registry, ← settingsFor]
  refine (settled_isSkipped d.path (l.settingsFor d.path)).lift.except_bind fun skipped _ => ?_
  cases skipped with
  | true => exact .pure _
  | false =>
    have hprogram := settled_executable (p := l.programFor d.path) (l := l)
      (l.settingsFor d.path) (if only.isSome then .organizeImports else .fix) rfl
    refine hprogram.except_bind fun (program, c) _ => ?_
    dsimp only
    cases accepts c d with
    | false => exact .pure _
    | true =>
      refine Settled.except_bind (settled_runOn program _ _ d) fun result _ => ?_
      refine Settled.except_bind ⟨_, Answers.pure _⟩ fun _ _ => ?_
      exact ⟨_, Answers.pure _⟩

end

/-! ## Requests that come to an end -/

/-- A request in which no number outgrows its width. -/
def Finishes {α : Type} (r : Request α) : Prop := ∀ l, (r.run.run l).1 ≠ .error .overflow

namespace Finishes

theorem pure {α : Type} (a : α) : Finishes (Pure.pure a : Request α) := fun _ h => by cases h

theorem bind {α β : Type} {r : Request α} {f : α → Request β} (hr : Finishes r)
    (hf : ∀ a, Finishes (f a)) : Finishes (r >>= f) := by
  intro l
  rw [ExceptT.run_bind, StateT.run_bind]
  have hfirst := hr l
  cases hrun : r.run.run l with
  | mk answer next =>
    rw [hrun] at hfirst
    cases answer with
    | error stop =>
      intro h
      exact hfirst (congrArg Except.error (Except.error.inj h))
    | ok a => exact hf a next

theorem lift {α : Type} (action : StateM Linter α) : Finishes (liftM action : Request α) :=
  fun _ h => by cases h

theorem of_mapError {α : Type} (action : StateM Linter (Except Failure α)) :
    Finishes (ExceptT.mk (Except.mapError .failed <$> action)) := by
  intro l h
  obtain ⟨failure, hfailed⟩ := Except.exists_of_mapError h
  cases hfailed

/-- What may fail, but does not depend on anything. -/
theorem check {α : Type} (x : Except Failure α) : Finishes (liftM x : Request α) :=
  of_mapError (Pure.pure x)

theorem executable (settings : WorkspaceSettings) (operation : Operation) :
    Finishes (executable settings operation) :=
  (lift _).bind fun _ => (of_mapError _).bind fun _ => (lift _).bind fun _ =>
    (check _).bind fun _ => pure _

theorem fix (d : Document) (only : Option String) : Finishes (fix d only) := by
  refine (lift get).bind fun l => (lift _).bind fun skipped => ?_
  split
  · exact pure _
  · refine (executable _ _).bind fun (program, c) => ?_
    dsimp only
    split
    · exact (of_mapError _).bind fun _ => (check _).bind fun _ => check _
    · exact pure _

end Finishes

/-- The edits of a document by fixes have one answer over all linters that are alike. -/
theorem answers_fix (l : Linter) (d : Document) (only : Option String) :
    ∃ reply : Except Failure (Option (List DocumentEdit)),
      Answers (Alike (l.programFor d.path) l) (fix d only).run (reply.mapError .failed) := by
  obtain ⟨answer, hanswer⟩ := settled_fix (l := l) d only
  have hend : answer ≠ .error .overflow := by
    rw [← (hanswer l (Alike.refl _ l)).1]
    exact Finishes.fix d only l
  rcases answer with (failure | _) | edits
  · exact ⟨.error failure, hanswer⟩
  · exact absurd rfl hend
  · exact ⟨.ok edits, hanswer⟩

end LintBridge.Linter
