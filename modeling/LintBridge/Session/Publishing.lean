import LintBridge.Session.Basic

/-!
Linting documents and publishing what was found.

A round publishes for each text of a document or for none. A cell of a notebook gets the findings
that name it, in the order of the tool.
-/

namespace LintBridge.Session

def publication (uri : Url) (version : Option Int) (findings : List Finding) : Event :=
  .publishDiagnostics uri (findings.map Diagnostic.ofFinding) version

/-- The events that publish the findings in a document: one for a text, and one for each code cell
of a notebook. -/
def publications (d : Document) (findings : List Finding) : List Event :=
  match d with
  | .notebook _ _ _ cells =>
    ((cells.zipIdx 1).filter fun (c, _) => c.isCode).map fun (c, number) =>
      publication c.uri c.version (findingsInCell findings number)
  | d => [publication d.uri d.version findings]

def publish (d : Document) (findings : List Finding) : SessionStep Unit :=
  (publications d findings).forM sendIfConnected

def clear (uris : List Url) : SessionStep Unit :=
  uris.forM fun uri => sendIfConnected (publication uri none [])

/-- Lints the document that a name belongs to, and publishes what was found. If no usable executable
was found, nothing was found in the document; after another failure, what was published before
stays. -/
def lintAndPublish (uri : Url) : SessionStep Unit := do
  let s ← get
  if s.isShuttingDown then return
  else
    match s.documents.document? uri with
    | none => return
    | some d =>
      match ← request (Linter.lint d) with
      | .ok findings => publish d (findings.getD [])
      | .error failure =>
        report .lint failure
        if failure.isMissingExecutable then publish d []

/-- Lints the document that a name belongs to if it is to be linted after each change. -/
def lintAfterChange (uri : Url) : SessionStep Unit := do
  match (← get).settingsFor? uri with
  | some settings => if settings.lintTime = .onType then lintAndPublish uri
  | none => return

end LintBridge.Session
