import LintBridge.Proofs.Host.Expanding
import LintBridge.Proofs.Toolbox.Scripts

/-!
The places where the tool is searched for, in one list.

`Host.candidates` lists the places in the order in which they count, each with whether it is taken
if no place before it is. The list is made of the machine, the settings and what the first
interpreter says of itself, and of nothing that a toolbox has learned. `locate_first_accepted` says
that the first candidate that is accepted is what a toolbox answers, whatever it was asked about
tools and libraries before: an interpreter that gave no answer, which is remembered as well, only
leaves its candidate out. What a path in the settings stands for, and what an interpreter has to say
for its directory to count, is said apart from the program (`Expansion.Stands`,
`Host.reportedScripts?`).
-/

namespace LintBridge

/-- A place where the tool may be, and whether it is taken if no place before it is. -/
structure Candidate where
  path : Path
  accepted : Bool
  deriving DecidableEq, Repr

namespace Candidate

def asItIs (p : Path) : Candidate := ⟨p, true⟩

def ifThere (h : Host) (p : Path) : Candidate := ⟨p, h.pathExists p⟩

def ifExecutable (h : Host) (p : Path) : Candidate := ⟨p, h.isExecutable p⟩

/-- The place of the first candidate that is accepted. -/
def first? (candidates : List Candidate) : Option Path :=
  (candidates.find? Candidate.accepted).map Candidate.path

theorem first?_append (a b : List Candidate) : first? (a ++ b) = (first? a).or (first? b) := by
  rw [first?, List.find?_append, Option.map_or, first?, first?]

theorem first?_map (accepts : Path → Bool) (paths : List Path) :
    first? (paths.map fun p => ⟨p, accepts p⟩) = paths.find? accepts := by
  rw [first?, List.find?_map, Option.map_map]
  exact Option.map_id'

theorem first?_ifThere (h : Host) (paths : List Path) :
    first? (paths.map (ifThere h)) = paths.find? h.pathExists :=
  first?_map h.pathExists paths

theorem first?_ifExecutable (h : Host) (paths : List Path) :
    first? (paths.map (ifExecutable h)) = paths.find? h.isExecutable :=
  first?_map h.isExecutable paths

theorem first?_ifThere_toList (h : Host) (p : Option Path) :
    first? (p.toList.map (ifThere h)) = p.filter h.pathExists := by
  rw [first?_ifThere]
  cases p with
  | none => rfl
  | some p => simp [Option.filter]

theorem first?_asItIs (p : Option Path) : first? (p.toList.map asItIs) = p := by
  cases p <;> rfl

end Candidate

/-- The places of the tool on a machine, in the order in which they count: the paths in the
settings; the bundled executable, if the settings prefer it; the tool of the first interpreter, if
that says where it keeps programs; the tool beside the server; the tool in each directory of the
search path; the bundled executable; and the place beside the server or the bare name, there or
not. -/
def Host.candidates (h : Host) (bundle installDir : Option Path) (settings : WorkspaceSettings) :
    List Candidate :=
  let scripts := settings.interpreter.head?.bind h.reportedScripts?
  let beside := installDir.map (·.join Toolbox.executableName)
  (settings.path.map (Expansion.path h)).map (.ifThere h) ++
  (if settings.importStrategy = .useBundled then bundle.toList.map .asItIs else []) ++
  (scripts.map (·.join Toolbox.executableName)).toList.map (.ifThere h) ++
  beside.toList.map (.ifThere h) ++
  (h.searchPath.map fun dir => (h.withHome dir).join Toolbox.executableName).map
    (.ifExecutable h) ++
  bundle.toList.map .asItIs ++
  [.asItIs (beside.getD ⟨Toolbox.executableName⟩)]

/-- The tool of the first interpreter in the settings, if that says where it keeps programs and the
tool is there. -/
def Host.interpreterTool? (h : Host) (settings : WorkspaceSettings) : Option Path :=
  ((settings.interpreter.head?.bind h.reportedScripts?).map
    (·.join Toolbox.executableName)).filter h.pathExists

namespace Toolbox

/-- Where a toolbox finds the tool: by the settings, by an interpreter, or else without them. -/
def located (box : Toolbox) (settings : WorkspaceSettings) : Path :=
  ((box.fromSettings? settings <|> box.preferredBundle? settings) <|>
    box.host.interpreterTool? settings).getD box.fallback

section

variable {p : Path} (host : Host) (bundle installDir : Option Path) (settings : WorkspaceSettings)

/-- On a machine that nothing has been run on, this is the place of the first candidate. -/
theorem first?_candidates :
    Candidate.first? (host.candidates bundle installDir settings) =
      some ((ofHost host bundle installDir).located settings) := by
  have hpreferred : Candidate.first? (if settings.importStrategy = .useBundled then
      bundle.toList.map .asItIs else []) =
        (ofHost host bundle installDir).preferredBundle? settings := by
    unfold preferredBundle?
    split
    · exact Candidate.first?_asItIs bundle
    · rfl
  have hlast : ∀ found, Candidate.first? [.asItIs found] = some found := fun _ => rfl
  rw [Host.candidates]
  simp only [Candidate.first?_append, Candidate.first?_ifThere_toList,
    Candidate.first?_ifExecutable, Candidate.first?_asItIs, hpreferred, hlast]
  rw [Candidate.first?_ifThere]
  simp only [located, fromSettings?, Host.interpreterTool?, fallback, besideServer?, Host.which?,
    ofHost, Option.orElse_eq_orElse, Option.orElse_eq_or, ← Option.or_some, Option.or_assoc]

/-! ## The answer of a toolbox -/

theorem answers_fromInterpreter :
    Answers (Alike p (ofHost host bundle installDir)) (fromInterpreter settings)
      (host.interpreterTool? settings) := by
  unfold fromInterpreter Host.interpreterTool?
  cases settings.interpreter with
  | nil => exact Answers.pure none
  | cons interpreter rest =>
    have hinfo : Answers (Alike p (ofHost host bundle installDir))
        (Toolbox.interpreterInfo interpreter) _ := answers_interpreterInfo interpreter
    rw [interpreterInfo_fst] at hinfo
    refine hinfo.bind (.get_bind fun other h => ?_)
    rw [h.host, List.head?_cons, Option.bind_some, ← host.map_scripts_interpreterInfo,
      Option.map_map]
    exact .pure _

theorem answers_locate :
    Answers (Alike p (ofHost host bundle installDir)) (locate settings)
      ((ofHost host bundle installDir).located settings) := by
  unfold locate located
  refine .get_bind fun other h => ?_
  rw [h.fromSettings?, h.preferredBundle?]
  cases (ofHost host bundle installDir).fromSettings? settings <|>
    (ofHost host bundle installDir).preferredBundle? settings with
  | some found => exact .pure found
  | none =>
    refine (answers_fromInterpreter host bundle installDir settings).bind ?_
    show Answers _ _ ((host.interpreterTool? settings).getD _)
    cases host.interpreterTool? settings with
    | some found => exact .pure found
    | none =>
      refine .get_bind fun other h => ?_
      rw [h.fallback]
      exact .pure _

end

/-! ## What was asked before -/

/-- Something that a toolbox is asked about tools and libraries. -/
inductive Lookup where
  /-- Where the tool is. -/
  | tool (settings : WorkspaceSettings)
  /-- Where the libraries are. -/
  | libraries (settings : WorkspaceSettings)

def afterLookup (box : Toolbox) : Lookup → Toolbox
  | .tool settings => ((locate settings).run box).2
  | .libraries settings => ((libraryPaths settings).run box).2

def afterLookups (box : Toolbox) (lookups : List Lookup) : Toolbox := lookups.foldl afterLookup box

theorem Alike.afterLookup {p : Path} {a b : Toolbox} (h : Alike p a b) (l : Lookup) :
    Alike p a (b.afterLookup l) := by
  cases l with
  | tool settings =>
    obtain ⟨found, hfound⟩ : Settled (Alike p a) (locate settings) := settled_locate settings
    exact (hfound b h).2
  | libraries settings =>
    obtain ⟨found, hfound⟩ : Settled (Alike p a) (libraryPaths settings) :=
      settled_libraryPaths settings
    exact (hfound b h).2

theorem Alike.afterLookups {p : Path} {a b : Toolbox} (h : Alike p a b) (lookups : List Lookup) :
    Alike p a (b.afterLookups lookups) := by
  induction lookups generalizing b with
  | nil => exact h
  | cons l rest ih => exact ih (h.afterLookup l)

/-- The first candidate that is accepted is where a toolbox finds the tool. It makes no difference
what it was asked before, with whatever settings. The candidates that settings give are the paths
that they stand for. -/
theorem locate_first_accepted (host : Host) (bundle installDir : Option Path)
    (earlier : List Lookup) (settings : WorkspaceSettings) :
    let fresh := ofHost host bundle installDir
    let found := ((locate settings).run (fresh.afterLookups earlier)).1
    Candidate.first? (host.candidates bundle installDir settings) = some found ∧
      found = ((locate settings).run fresh).1 ∧
      ∀ raw p, Expansion.path host raw = p ↔ Expansion.Stands host raw p := by
  intro fresh found
  let p : Path := ⟨executableName⟩
  have halike : Alike p fresh fresh := Alike.refl p fresh
  have hanswers : Answers (Alike p fresh) (locate settings) (fresh.located settings) :=
    answers_locate host bundle installDir settings
  have hfound : found = fresh.located settings :=
    (hanswers _ (halike.afterLookups earlier)).1
  refine ⟨?_, ?_, Expansion.path_eq_iff host⟩
  · rw [first?_candidates, hfound]
  · exact hfound.trans (hanswers fresh halike).1.symm

/-- A machine with an interpreter, and with the tool where the interpreter says that it keeps
programs. -/
def interpreterHost : Host :=
  let report : Outcome :=
    ⟨Utf8.encode "\x7b\"scripts\": \"/py/bin\"\x7d".toList, [], some 0, false⟩
  ⟨⟨⟨[(["py"], .directory), (["py", "python"], .file ⟨0, true, some fun _ => report⟩),
    (["py", "bin"], .directory), (["py", "bin", "ruff"], .file ⟨0, false, none⟩)]⟩⟩,
    ⟨[("PY", "/py"), ("HOME", "/home")]⟩, []⟩

/-- The settings name a tool that is not there, and the interpreter by a variable. -/
def interpreterSettings : WorkspaceSettings :=
  .ofUser { UserSettings.empty with path := some ["~/ruff"], interpreter := some ["$PY/python"] }
    ⟨"/"⟩ none

theorem interpreterHost_located :
    let fresh := ofHost interpreterHost none none
    let asked := fresh.afterLookups [.libraries interpreterSettings]
    asked.interpreters.get? "$PY/python" = some (some ⟨⟨"/py/bin"⟩, []⟩) ∧
    Expansion.Stands interpreterHost "~/ruff" ⟨"/home/ruff"⟩ ∧
    Expansion.Stands interpreterHost "$PY/python" ⟨"/py/python"⟩ ∧
    interpreterHost.reportedScripts? "$PY/python" = some ⟨"/py/bin"⟩ ∧
    ((locate interpreterSettings).run asked).1 = ⟨"/py/bin/ruff"⟩ := by
  intro fresh asked
  have hfirst : Candidate.first? (interpreterHost.candidates none none interpreterSettings) =
      some ⟨"/py/bin/ruff"⟩ := by
    decide +kernel
  obtain ⟨hfound, -, hstands⟩ := locate_first_accepted interpreterHost none none
    [.libraries interpreterSettings] interpreterSettings
  refine ⟨by decide +kernel, (hstands ..).1 (by decide +kernel), (hstands ..).1 (by decide +kernel),
    by decide +kernel, ?_⟩
  exact Option.some.inj (hfound.symm.trans hfirst)

end Toolbox
end LintBridge
