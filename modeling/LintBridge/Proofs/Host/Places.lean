import LintBridge.Proofs.Text.Split
import LintBridge.Proofs.Toolbox.Learning

/-!
Where paths lead, and which version the file there states.

A path that leads anywhere leads to the place that its components name (`FileSystem.find?_place`),
so two paths with the same components never lead to two places. A path of more than one component is
no bare name: it starts the file that it leads to, and the version which an executable states is the
answer of this file (`Host.statedVersion_of_file`).

Files are written and removed without a trace at other places: a file that is found after a change
was written by it, or was there before (`FileSystem.node?_of_put`, `FileSystem.node?_of_remove`).
-/

namespace LintBridge

/-! ## Places -/

namespace Path

/-- The place that a component leads to from another place. -/
def Component.move (place : List String) : Component → List String
  | .root => []
  | .here => place
  | .up => place.dropLast
  | .name s => place ++ [s]

def placeFrom (start : List String) (p : Path) : List String :=
  p.components.foldl Component.move start

theorem placeFrom_congr (start : List String) {p q : Path} (h : p.components = q.components) :
    p.placeFrom start = q.placeFrom start := by
  rw [placeFrom, placeFrom, h]

theorem length_components_of_not_mem {p : Path} (h : '/' ∉ p.text.toList) :
    p.components.length ≤ 1 := by
  have hpieces : p.pieces = [p.text.toList] := splitAtChar_of_not_mem '/' _ h
  have hrelative : p.isAbsolute = false := by
    rw [isAbsolute, beq_eq_false_iff_ne]
    intro hhead
    exact h (List.mem_of_head? hhead)
  have hone : p.components = (component? true p.text.toList).toList := by
    simp [components, hpieces, hrelative]
  rw [hone]
  cases component? true p.text.toList <;> simp

theorem slash_of_components {p : Path} (h : 2 ≤ p.components.length) :
    p.text.toList.contains '/' = true := by
  cases hslash : p.text.toList.contains '/' with
  | true => rfl
  | false =>
    have hone : p.components.length ≤ 1 :=
      length_components_of_not_mem fun hmem => by simp [hmem] at hslash
    omega

end Path

namespace FileSystem

variable (fs : FileSystem)

/-- To follow the pieces of a path is to follow the components that they stand for. -/
theorem walk?_place {place dest : List String} {pieces : List (List Char)}
    (h : fs.walk? place pieces = some dest) :
    dest = (pieces.filterMap (Path.component? false)).foldl Path.Component.move place := by
  induction pieces generalizing place with
  | nil => exact (Option.some.inj h).symm
  | cons piece rest ih =>
    rw [walk?] at h
    split at h
    · by_cases hempty : piece = []
      · simpa [hempty, Path.component?] using ih (by simpa [hempty] using h)
      · by_cases hhere : piece = ['.']
        · simpa [hhere, Path.component?] using ih (by simpa [hhere] using h)
        · by_cases hup : piece = ['.', '.']
          · simpa [hup, Path.component?, Path.Component.move] using ih (by simpa [hup] using h)
          · simpa [hempty, hhere, hup, Path.component?, Path.Component.move] using
              ih (by simpa [hempty, hhere, hup] using h)
    · cases h

/-- A dot leads nowhere else, whether it counts as a component or not. -/
theorem move_first (place : List String) (piece : List Char) :
    (Path.component? true piece).toList.foldl Path.Component.move place =
      (Path.component? false piece).toList.foldl Path.Component.move place := by
  by_cases hhere : piece = ['.']
  · simp [hhere, Path.component?, Path.Component.move]
  · simp [hhere, Path.component?]

theorem pieces_of_isAbsolute {p : Path} (h : p.isAbsolute = true) :
    ∃ rest, p.pieces = [] :: rest := by
  cases htext : p.text.toList with
  | nil => simp [Path.isAbsolute, htext] at h
  | cons c rest =>
    have hslash : c = '/' := by simpa [Path.isAbsolute, htext] using h
    exact ⟨splitAtChar '/' rest, by simp [Path.pieces, htext, hslash, splitAtChar]⟩

/-- A path that leads anywhere leads to the place that its components name. -/
theorem find?_place {start place : List String} {p : Path} {node : Node}
    (h : fs.find? start p = some (place, node)) :
    place = p.placeFrom start ∧ fs.node? place = some node := by
  rw [find?] at h
  split at h
  · cases h
  · simp only [Option.bind_eq_bind, Option.bind_eq_some_iff] at h
    obtain ⟨dest, hwalk, found, hnode, hsame⟩ := h
    cases hsame
    refine ⟨?_, hnode⟩
    cases habsolute : p.isAbsolute with
    | true =>
      obtain ⟨rest, hpieces⟩ := pieces_of_isAbsolute habsolute
      have hplace := fs.walk?_place hwalk
      simp [habsolute, hpieces, Path.component?] at hplace
      simp [hplace, Path.placeFrom, Path.components, hpieces, habsolute, Path.Component.move]
    | false =>
      have hplace := fs.walk?_place hwalk
      rw [habsolute] at hplace
      rw [hplace, Path.placeFrom, Path.components]
      cases p.pieces with
      | nil => rfl
      | cons piece rest =>
        have hcons : (piece :: rest).filterMap (Path.component? false) =
            (Path.component? false piece).toList ++ rest.filterMap (Path.component? false) := by
          cases h : Path.component? false piece <;> simp [h]
        simp only [hcons, habsolute, Bool.false_eq_true, if_false, List.foldl_append, move_first]

/-! ## Changes of files -/

theorem node?_of_insert {fs : FileSystem} {place other : List String} {new node : Node}
    (h : (⟨fs.nodes.insert place new⟩ : FileSystem).node? other = some node) :
    (other = place ∧ node = new) ∨ fs.node? other = some node := by
  rw [node?] at h ⊢
  split at h
  · next hroot => exact .inr (by rw [if_pos hroot]; exact h)
  · next hroot =>
    rw [if_neg hroot]
    simp only [Table.get?_insert] at h
    split at h
    · next hsame => exact .inl ⟨hsame.symm, (Option.some.inj h).symm⟩
    · exact .inr h

theorem node?_of_makeDirectories {place other : List String} {f : File}
    (h : (fs.makeDirectories place).node? other = some (.file f)) :
    fs.node? other = some (.file f) := by
  rw [makeDirectories] at h
  generalize List.range place.length = depths at h
  induction depths generalizing fs with
  | nil => exact h
  | cons n rest ih =>
    have hmade := ih _ h
    dsimp only at hmade
    split at hmade
    · rcases node?_of_insert hmade with ⟨-, hfile⟩ | hold
      · cases hfile
      · exact hold
    · exact hmade

/-- A file that is found after another one was put somewhere is this one, or was there before. -/
theorem node?_of_put {place other : List String} {new f : File}
    (h : (fs.put place (.file new)).node? other = some (.file f)) :
    (other = place ∧ f = new) ∨ fs.node? other = some (.file f) := by
  rcases node?_of_insert h with ⟨hplace, hfile⟩ | hold
  · exact .inl ⟨hplace, Node.file.inj hfile⟩
  · exact .inr (fs.node?_of_makeDirectories hold)

theorem node?_of_remove {place other : List String} {node : Node}
    (h : (fs.remove place).node? other = some node) : fs.node? other = some node := by
  rw [node?] at h ⊢
  split at h
  · next hroot => rw [if_pos hroot]; exact h
  · next hroot =>
    rw [if_neg hroot]
    rw [remove, Table.get?_filter_key] at h
    split at h
    · exact h
    · cases h

end FileSystem

/-! ## Versions of files -/

/-- What comes of asking a file for its version by some path: that it cannot be started, that what
it prints names no version, or the version. -/
def File.answer (f : File) (p : Path) : Except Failure Version :=
  match if f.executable then f.program else none with
  | none => .error (.notStarted p)
  | some program =>
    let outcome := program ⟨["--version"], ""⟩
    Toolbox.versionIn p ⟨outcome.stdout, outcome.stderr, outcome.code.getD (-1)⟩

theorem File.answer_eq_ok {f : File} {p : Path} {v : Version} (h : f.answer p = .ok v)
    (q : Path) : f.answer q = .ok v := by
  unfold answer at h ⊢
  split at h
  · cases h
  · dsimp only [Toolbox.versionIn] at h ⊢
    split at h
    · exact h
    · cases h

namespace Host

variable (h : Host)

def placeOf (p : Path) : List String := p.placeFrom h.cwd

theorem node?_place {p : Path} {node : Node} (hnode : h.node? p = some node) :
    h.files.node? (h.placeOf p) = some node := by
  obtain ⟨⟨place, found⟩, hfind, hsame⟩ := Option.map_eq_some_iff.1 hnode
  obtain ⟨hplace, hfound⟩ := h.files.find?_place hfind
  rw [placeOf, ← hplace, hfound]
  exact congrArg some hsame

variable {p : Path} (hp : 2 ≤ p.components.length)
include hp

theorem startable?_eq : h.startable? h.cwd p = (h.programAt? h.cwd p).map ((p, ·)) := by
  have hslash := Path.slash_of_components hp
  have hempty : p.text ≠ "" := by
    intro hnone
    simp [hnone] at hslash
  rw [startable?, if_neg hempty, if_pos hslash]

theorem statedVersion_of_file {f : File} (hf : h.node? p = some (.file f)) :
    h.statedVersion p = f.answer p := by
  obtain ⟨⟨place, node⟩, hfind, rfl⟩ := Option.map_eq_some_iff.1 hf
  have hprogram : h.programAt? h.cwd p = if f.executable then f.program else none := by
    rw [programAt?, hfind]
  rw [statedVersion, ran, File.answer]
  simp only [startDirectory?, h.startable?_eq hp, hprogram]
  cases (if f.executable then f.program else none) <;> rfl

theorem statedVersion_of_no_file (hf : ∀ f, h.node? p ≠ some (.file f)) :
    h.statedVersion p = .error (.notStarted p) := by
  have hprogram : h.programAt? h.cwd p = none := by
    rw [programAt?]
    split
    · next place f hfind => exact absurd (by rw [node?, hfind]; rfl) (hf f)
    · rfl
  rw [statedVersion, ran]
  simp only [startDirectory?, h.startable?_eq hp, hprogram]
  rfl

theorem exists_file_of_statedVersion {v : Version} (hv : h.statedVersion p = .ok v) :
    ∃ f, h.node? p = some (.file f) ∧ f.answer p = .ok v := by
  by_cases hf : ∃ f, h.node? p = some (.file f)
  · obtain ⟨f, hf⟩ := hf
    rw [h.statedVersion_of_file hp hf] at hv
    exact ⟨f, hf, hv⟩
  · have hnone := h.statedVersion_of_no_file hp fun f hf' => hf ⟨f, hf'⟩
    cases hnone.symm.trans hv

end Host
end LintBridge
