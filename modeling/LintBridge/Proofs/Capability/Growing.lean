import LintBridge.Capability
import LintBridge.Proofs.Version.Order

/-!
What a version can do, every later version can do as well.

All that depends on the version is whether it reaches a least version, for an operation
(`supports_ofVersion`), a switch, or a schema of fixes (`generation_fixSchema` counts the least
versions that are reached), and a later version reaches what an earlier one does. So capabilities
only grow (`within_of_isLE`), and how far they have grown at one version is a matter of which least
versions come first. A cache answers every request as if it had been asked nothing before, for it
only keeps what it would work out (`CapabilityCache.Faithful`).
-/

namespace LintBridge

def Operation.firstVersion : Operation → Version
  | .lint | .fix | .organizeImports | .explain => .release 0 0 189
  | .format => .release 0 0 291
  | .rangeFormat => .release 0 2 1

/-- How many schemas of fixes came before one. -/
def FixSchema.generation : FixSchema → Nat
  | .singleEdit => 0
  | .edits => 1
  | .editsOneBased => 2

namespace Capabilities

/-- What some capabilities allow, others allow as well, and nothing of them is older. -/
structure Within (c d : Capabilities) : Prop where
  supports : ∀ operation, c.supports operation = true → d.supports operation = true
  checkCommand : c.checkCommand = true → d.checkCommand = true
  cellAttribution : c.cellAttribution = true → d.cellAttribution = true
  uncodedSyntaxErrors : c.uncodedSyntaxErrors = true → d.uncodedSyntaxErrors = true
  formatFlag : c.formatFlag = .outputFormat → d.formatFlag = .outputFormat
  fixSchema : c.fixSchema.generation ≤ d.fixSchema.generation

theorem supports_ofVersion (v : Version) (operation : Operation) :
    (ofVersion v).supports operation = v.atLeast operation.firstVersion := by
  cases operation <;> exact Bool.and_true _

theorem formatFlag_eq_outputFormat_iff (v : Version) :
    (ofVersion v).formatFlag = .outputFormat ↔ v.atLeast (.release 0 0 291) = true := by
  simp only [ofVersion]
  cases v.atLeast (.release 0 0 291) <;> simp

theorem generation_fixSchema (v : Version) :
    (ofVersion v).fixSchema.generation =
      (v.atLeast (.release 0 0 260)).toNat + (v.atLeast (.release 0 0 266)).toNat := by
  have horder : v.atLeast (.release 0 0 266) = true → v.atLeast (.release 0 0 260) = true :=
    Version.atLeast_of_atLeast (by decide)
  simp only [ofVersion]
  cases h266 : v.atLeast (.release 0 0 266) with
  | true =>
    rw [horder h266]
    rfl
  | false => cases v.atLeast (.release 0 0 260) <;> rfl

theorem within_of_isLE {v w : Version} (h : (v.compare w).isLE = true) :
    (ofVersion v).Within (ofVersion w) := by
  have hreach : ∀ least, v.atLeast least = true → w.atLeast least = true :=
    fun _ => Version.atLeast_of_isLE h
  have hcount : ∀ least, (v.atLeast least).toNat ≤ (w.atLeast least).toNat := by
    intro least
    cases hv : v.atLeast least with
    | true => exact Nat.le_of_eq (congrArg Bool.toNat (hreach least hv).symm)
    | false => exact Nat.zero_le _
  refine ⟨fun operation => ?_, hreach _, hreach _, hreach _, ?_, ?_⟩
  · rw [supports_ofVersion, supports_ofVersion]
    exact hreach _
  · rw [formatFlag_eq_outputFormat_iff, formatFlag_eq_outputFormat_iff]
    exact hreach _
  · rw [generation_fixSchema, generation_fixSchema]
    exact Nat.add_le_add (hcount _) (hcount _)

end Capabilities

namespace CapabilityCache

/-- The capabilities that are kept are those of their versions. -/
def Faithful (cache : CapabilityCache) : Prop :=
  ∀ v c, cache.known.get? v = some c → c = .ofVersion v

theorem faithful_empty : empty.Faithful := by
  intro v c h
  cases h

theorem Faithful.get {cache : CapabilityCache} (h : cache.Faithful) (v : Version) :
    (cache.get v).1 = .ofVersion v ∧ (cache.get v).2.Faithful := by
  cases hknown : cache.known.get? v with
  | some c =>
    have hget : cache.get v = (c, cache) := by simp only [CapabilityCache.get, hknown]
    rw [hget]
    exact ⟨h v c hknown, h⟩
  | none =>
    have hget : cache.get v = (.ofVersion v, ⟨cache.known.insert v (.ofVersion v)⟩) := by
      simp only [CapabilityCache.get, hknown]
    rw [hget]
    refine ⟨rfl, fun w c hw => ?_⟩
    simp only [Table.get?_insert] at hw
    split at hw
    · next hsame => rw [← Option.some.inj hw, hsame]
    · exact h w c hw

def afterLookups (earlier : List Version) : CapabilityCache :=
  earlier.foldl (fun cache v => (cache.get v).2) empty

theorem faithful_afterLookups (earlier : List Version) : (afterLookups earlier).Faithful :=
  List.foldlRecOn earlier _ faithful_empty fun _ h v _ => (h.get v).2

end CapabilityCache

/-- Versions stand in one line, and along it capabilities only grow. At every version, whatever
formats ranges formats texts, whatever formats texts finds, and texts are formatted exactly if the
format of findings is chosen by the newer flag. A cache that was asked for any versions before
answers with the capabilities of the version it is asked for. -/
theorem capabilities_only_grow :
    Std.TransCmp Version.compare ∧ Std.LawfulEqCmp Version.compare ∧
    (∀ v w : Version, (v.compare w).isLE = true →
      (Capabilities.ofVersion v).Within (.ofVersion w)) ∧
    (∀ v : Version,
      ((Capabilities.ofVersion v).supports .rangeFormat = true →
        (Capabilities.ofVersion v).supports .format = true) ∧
      ((Capabilities.ofVersion v).supports .format = true →
        (Capabilities.ofVersion v).supports .lint = true) ∧
      ((Capabilities.ofVersion v).supports .format = true ↔
        (Capabilities.ofVersion v).formatFlag = .outputFormat)) ∧
    ∀ (earlier : List Version) (v : Version),
      ((CapabilityCache.afterLookups earlier).get v).1 = .ofVersion v := by
  refine ⟨inferInstance, inferInstance, fun v w => Capabilities.within_of_isLE, fun v => ?_,
    fun earlier v => ((CapabilityCache.faithful_afterLookups earlier).get v).1⟩
  simp only [Capabilities.supports_ofVersion, Capabilities.formatFlag_eq_outputFormat_iff]
  exact ⟨Version.atLeast_of_atLeast (by decide), Version.atLeast_of_atLeast (by decide), Iff.rfl⟩

/-- A pre-release of the first version that formats texts. -/
def almostFormatting : Version := ⟨0, 0, 291, [.word "rc", .number 1], []⟩

/-- A build of that version; the number of the build is written with `width` digits. -/
def buildFormatting (width : Nat) : Version := ⟨0, 0, 291, [], [.number 7 width]⟩

/-- The pre-release does not format texts yet, and the build does. Lookups of two builds whose
numbers differ in their zeros only are not mixed up. -/
theorem almostFormatting_grows :
    (almostFormatting.compare (buildFormatting 3)).isLE = true ∧
    (Capabilities.ofVersion almostFormatting).Within (.ofVersion (buildFormatting 3)) ∧
    (Capabilities.ofVersion almostFormatting).supports .format = false ∧
    (Capabilities.ofVersion (buildFormatting 3)).supports .format = true ∧
    (Capabilities.ofVersion (buildFormatting 3)).supports .lint = true ∧
    ((CapabilityCache.afterLookups [almostFormatting, buildFormatting 1]).get
      (buildFormatting 3)).1 = .ofVersion (buildFormatting 3) := by
  obtain ⟨-, -, hgrow, hnest, hcache⟩ := capabilities_only_grow
  have hle : (almostFormatting.compare (buildFormatting 3)).isLE = true := by decide
  have hformat : (Capabilities.ofVersion (buildFormatting 3)).supports .format = true := by decide
  exact ⟨hle, hgrow _ _ hle, by decide, hformat, (hnest _).2.1 hformat, hcache _ _⟩

end LintBridge
