/-
  `TemporaryFileJanitor::clean` — what is old below the directory of temporary files is removed.

  Files go while the tree is scanned; directories go afterwards, the ones with long paths first, so that what is
  inside a directory has had its turn before it (`Library.Sweep`).  A path is compared with a protected one as a
  text; that these comparisons are about the components is `isPathWithin_iff`.

  * `scan_spec`             — the scan: which files go, and which directories are looked at again;
  * `clean_removes_exactly` — what is removed.

  Qt's functions on paths are fields of `PathPlatform`, and what the file system holds is asked of the session.
-/
import BreezeDesk.Core.Text
import BreezeDesk.Library.Components
import BreezeDesk.Library.Sweep
import Mathlib.Data.List.Nodup
import Mathlib.Data.List.Sort

namespace BreezeDesk

open Components Sweeping

/-! ## Paths -/

/-- What an entry of a directory may be called. -/
def IsName (name : QString) : Prop := name ≠ [] ∧ slash ∉ name ∧ name ≠ qs "." ∧ name ≠ qs ".."

instance : DecidablePred IsName := fun _ => inferInstanceAs (Decidable (_ ∧ _))

/-- An absolute path without anything to clean: a volume (a drive, or nothing), and names. -/
structure CleanPath where
  volume : QString
  names : List QString
  volume_plain : slash ∉ volume
  named : ∀ name ∈ names, IsName name

/-- A root ends with the separator. -/
def CleanPath.text (path : CleanPath) : QString :=
  if path.names.isEmpty then path.volume ++ [slash] else joined slash path.volume path.names

/-- What Qt does with paths. -/
structure PathPlatform where
  isVolume : QString → Prop
  /-- `QDir::cleanPath(QDir::fromNativeSeparators(QFileInfo(path).absoluteFilePath()))`; the empty path has none. -/
  cleaned : QString → Option CleanPath
  cleaned_volume : ∀ {text path}, cleaned text = some path → isVolume path.volume
  cleaned_text : ∀ path : CleanPath, isVolume path.volume → cleaned path.text = some path
  /-- What is compared under `PathCaseSensitivity`. -/
  fold : QString → QString
  fold_slash : ∀ before after, fold (before ++ slash :: after) = fold before ++ slash :: fold after
  fold_plain : ∀ text, slash ∉ text → slash ∉ fold text
  fold_eq_nil : ∀ text, fold text = [] ↔ text = []

namespace PathPlatform

variable (p : PathPlatform)

def normalizedPath (path : QString) : QString :=
  match p.cleaned path with
  | some path => path.text
  | none => []

def pathsAreEqual (left right : QString) : Bool := p.fold left == p.fold right

def isPathWithin (path parent : QString) : Bool :=
  if p.pathsAreEqual path parent then true
  else (p.fold (if [slash].isSuffixOf parent then parent else parent ++ [slash])).isPrefixOf (p.fold path)

def isProtected (path : QString) (protectedPaths : List QString) : Bool :=
  protectedPaths.any fun protectedPath => p.isPathWithin path protectedPath || p.isPathWithin protectedPath path

/-- `QFileInfo::isRoot`. -/
def isRoot (path : QString) : Bool :=
  match p.cleaned path with
  | some path => path.names.isEmpty
  | none => false

end PathPlatform

/-! ## The tree -/

inductive EntryKind where
  | file | directory | special
  deriving DecidableEq, Repr

structure Entry where
  /-- The names that lead to it from the directory that is cleaned. -/
  names : List QString
  kind : EntryKind
  lastModified : Int
  size : Nat := 0
  hidden : Bool := false
  deriving DecidableEq, Repr

/-- A tree without symbolic links, in the order in which it is scanned. -/
structure FileTree where
  entries : List Entry
  named : ∀ e ∈ entries, e.names ≠ [] ∧ ∀ name ∈ e.names, IsName name
  distinct : (entries.map (·.names)).Nodup
  inside : ∀ e ∈ entries, ∀ parent, parent ≠ [] → parent <+: e.names → parent ≠ e.names →
    ∃ d ∈ entries, d.names = parent ∧ d.kind = .directory

inductive Location where
  | missing
  | directory (tree : FileTree)
  /-- A file, or a symbolic link. -/
  | other

/-- One entry lies below another. -/
def IsBelow (e d : Entry) : Prop := d.names <+: e.names ∧ e.names ≠ d.names

instance : DecidableRel IsBelow := fun e d => inferInstanceAs (Decidable (d.names <+: e.names ∧ e.names ≠ d.names))

/-! ## The janitor -/

structure TemporaryCleanupPolicy where
  directory : QString := []
  maximumAgeMs : Int := 24 * 60 * 60 * 1000
  protectedPaths : List QString := []
  allowOutsideApplicationTemporaryDirectory : Bool := false

structure TemporaryCleanupReport where
  entriesScanned : Nat := 0
  filesRemoved : Nat := 0
  directoriesRemoved : Nat := 0
  failures : Nat := 0
  bytesReleased : Nat := 0
  error : QString := []

/-- The directories of the application, the clock, and the file system. -/
structure JanitorSession where
  homePath : QString
  root : QString
  temporary : QString
  currentDateTimeUtc : Int
  locate : QString → Location
  locate_nil : locate [] = .missing
  /-- Whether the operating system lets this path be removed. -/
  removes : QString → Bool
  /-- `std::sort`, longer keys first; elements with keys of one length may come in any order. -/
  sort : (Entry → Nat) → List Entry → List Entry
  sort_perm : ∀ key list, (sort key list).Perm list
  sort_ordered : ∀ key list, (sort key list).Pairwise fun first second => key second ≤ key first

structure CleanupState where
  report : TemporaryCleanupReport := {}
  remaining : List Entry
  directories : List Entry := []

section Janitor

variable (p : PathPlatform) (session : JanitorSession)

def isUnsafeRoot (directory : QString) : Bool :=
  p.isRoot directory || p.pathsAreEqual directory (p.normalizedPath session.homePath) ||
    p.pathsAreEqual directory (p.normalizedPath session.root)

/-- `normalizedPath(info.absoluteFilePath())`. -/
def entryPath (directory : QString) (e : Entry) : QString := p.normalizedPath (joined slash directory e.names)

def CleanupState.remove (e : Entry) (s : CleanupState) : CleanupState :=
  { s with remaining := s.remaining.filter (· ≠ e) }

def CleanupState.failed (s : CleanupState) : CleanupState :=
  { s with report := { s.report with failures := s.report.failures + 1 } }

/-- The body of the scan. -/
def visit (directory : QString) (protectedPaths : List QString) (threshold : Int) (s : CleanupState) (e : Entry) :
    CleanupState :=
  let s := { s with report := { s.report with entriesScanned := s.report.entriesScanned + 1 } }
  let path := entryPath p directory e
  if p.isProtected path protectedPaths then s
  else if e.kind = .directory then { s with directories := s.directories ++ [e] }
  else if threshold < e.lastModified then s
  else if session.removes path then
    let size := if e.kind = .file then e.size else 0
    { s.remove e with
      report := { s.report with
        filesRemoved := s.report.filesRemoved + 1, bytesReleased := s.report.bytesReleased + size } }
  else s.failed

/-- `QDir(path).isEmpty()`: hidden and special entries are not seen. -/
def isEmptyDirectory (remaining : List Entry) (d : Entry) : Bool :=
  !remaining.any fun e => e.names.dropLast == d.names && (e.kind != .special && !e.hidden)

/-- The body of the loop over the directories; the operating system removes none that is not empty. -/
def removeDirectory (directory : QString) (protectedPaths : List QString) (threshold : Int) (s : CleanupState)
    (d : Entry) : CleanupState :=
  let path := entryPath p directory d
  if p.isProtected path protectedPaths then s
  else if d ∈ s.remaining ∧ d.lastModified ≤ threshold ∧ isEmptyDirectory s.remaining d then
    if session.removes path ∧ ∀ e ∈ s.remaining, ¬ IsBelow e d then
      { s.remove d with report := { s.report with directoriesRemoved := s.report.directoriesRemoved + 1 } }
    else s.failed
  else s

def scan (directory : QString) (protectedPaths : List QString) (threshold : Int) (tree : FileTree) : CleanupState :=
  tree.entries.foldl (visit p session directory protectedPaths threshold) { remaining := tree.entries }

def cleanTree (directory : QString) (protectedPaths : List QString) (threshold : Int) (tree : FileTree) :
    CleanupState :=
  let s := scan p session directory protectedPaths threshold tree
  (session.sort (fun d => (entryPath p directory d).length) s.directories).foldl
    (removeDirectory p session directory protectedPaths threshold) s

/-- What there is below a directory. -/
def entriesAt (directory : QString) : List Entry :=
  match session.locate directory with
  | .directory tree => tree.entries
  | _ => []

/-- The directory that a policy is about. -/
def cleanupDirectory (policy : TemporaryCleanupPolicy) : QString :=
  p.normalizedPath (if (trimmed policy.directory).isEmpty then session.temporary else policy.directory)

/-- The report, and what remains below the directory. -/
def TemporaryFileJanitor.clean (policy : TemporaryCleanupPolicy) : TemporaryCleanupReport × List Entry :=
  let directory := cleanupDirectory p session policy
  let rejected (error : String) : TemporaryCleanupReport × List Entry :=
    ({ error := qs error }, entriesAt session directory)
  if policy.maximumAgeMs < 0 then rejected "The temporary-file maximum age cannot be negative."
  else if isUnsafeRoot p session directory then rejected "The requested cleanup location is too broad."
  else if !policy.allowOutsideApplicationTemporaryDirectory &&
      !p.isPathWithin directory (p.normalizedPath session.temporary) then
    rejected "Cleanup is restricted to the application temporary directory."
  else
    let protectedPaths := policy.protectedPaths.map p.normalizedPath
    if !protectedPaths.all fun protectedPath => p.isPathWithin protectedPath directory then
      rejected "A protected path is outside the cleanup directory."
    else
      match session.locate directory with
      | .missing => ({}, entriesAt session directory)
      | .other => rejected "The temporary cleanup location is not a regular directory."
      | .directory tree =>
        let threshold := session.currentDateTimeUtc - policy.maximumAgeMs
        let s := cleanTree p session directory protectedPaths threshold tree
        (s.report, s.remaining)

end Janitor

/-! ## Paths and their components -/

section Components

variable (p : PathPlatform) {path parent directory : QString} {dir : CleanPath}

/-- The components of a path, as they are compared. -/
def components (path : QString) : List QString := (p.fold path).splitOn slash

/-- One path is another, or leads through it. -/
def Inside (path parent : QString) : Prop := components p parent <+: components p path

/-- **Comparing texts** compares components, where the parent does not end with a separator. -/
theorem isPathWithin_iff (hparent : ¬ [slash] <:+ parent) : p.isPathWithin path parent = true ↔ Inside p path parent := by
  unfold Inside components
  rw [splitOn_prefix_iff]
  unfold PathPlatform.isPathWithin PathPlatform.pathsAreEqual
  have hbegins : p.fold (if [slash].isSuffixOf parent then parent else parent ++ [slash]) = p.fold parent ++ [slash] := by
    rw [if_neg fun h => hparent (List.isSuffixOf_iff_suffix.mp h), p.fold_slash, (p.fold_eq_nil []).mpr rfl]
  rw [hbegins]
  by_cases heq : p.fold path = p.fold parent
  · rw [if_pos (beq_iff_eq.mpr heq)]
    exact ⟨fun _ => Or.inl heq, fun _ => rfl⟩
  · rw [if_neg fun h => heq (beq_iff_eq.mp h), List.isPrefixOf_iff_prefix]
    exact ⟨Or.inr, fun h => h.resolve_left heq⟩

theorem fold_joined (first : QString) (rest : List QString) :
    p.fold (joined slash first rest) = joined slash (p.fold first) (rest.map p.fold) := by
  induction rest generalizing first with
  | nil =>
    unfold joined
    rw [List.flatMap_nil, List.append_nil, List.map_nil, List.flatMap_nil, List.append_nil]
  | cons name rest ih =>
    have hrest := ih name
    unfold joined at hrest ⊢
    rw [List.flatMap_cons, List.cons_append, p.fold_slash, hrest, List.map_cons, List.flatMap_cons, List.cons_append]

theorem CleanPath.text_of_names (h : dir.names ≠ []) : dir.text = joined slash dir.volume dir.names := by
  unfold CleanPath.text
  rw [if_neg fun hempty => h (List.isEmpty_iff.mp hempty)]

theorem components_text (h : dir.names ≠ []) :
    components p dir.text = p.fold dir.volume :: dir.names.map p.fold := by
  unfold components
  rw [CleanPath.text_of_names h, fold_joined]
  refine splitOn_joined (p.fold_plain _ dir.volume_plain) fun r hr => ?_
  obtain ⟨name, hname, rfl⟩ := List.mem_map.mp hr
  exact p.fold_plain _ (dir.named name hname).2.1

/-- Only a root ends with the separator. -/
theorem not_slash_text (h : dir.names ≠ []) : ¬ [slash] <:+ dir.text := by
  rw [CleanPath.text_of_names h]
  rintro ⟨before, hbefore⟩
  have hlast : (joined slash dir.volume dir.names).getLast? = some slash := by
    rw [← hbefore]
    exact List.getLast?_concat
  obtain ⟨front, last, hnames⟩ : ∃ front last, dir.names = front ++ [last] :=
    ⟨_, _, (List.dropLast_append_getLast h).symm⟩
  obtain ⟨hne, hplain, -, -⟩ := dir.named last (hnames ▸ List.mem_append_right _ (List.mem_singleton_self _))
  rw [hnames, joined_append] at hlast
  have hend : joined slash (joined slash dir.volume front) [last] = joined slash dir.volume front ++ slash :: last := by
    unfold joined
    rw [List.flatMap_cons, List.flatMap_nil, List.append_nil]
  rw [hend, List.getLast?_append, List.getLast?_cons, List.getLast?_eq_some_getLast hne] at hlast
  have hmem : slash = last.getLast hne := by simpa using hlast.symm
  exact hplain (hmem ▸ List.getLast_mem hne)

/-- The path below a directory that is not a root. -/
def CleanPath.below (dir : CleanPath) (names : List QString) (h : ∀ name ∈ names, IsName name) : CleanPath where
  volume := dir.volume
  names := dir.names ++ names
  volume_plain := dir.volume_plain
  named := fun name hname => (List.mem_append.mp hname).elim (dir.named name) (h name)

theorem below_text (hdir : dir.names ≠ []) {names : List QString} (h : ∀ name ∈ names, IsName name) :
    (dir.below names h).text = joined slash dir.text names := by
  rw [CleanPath.text_of_names (List.append_ne_nil_of_left_ne_nil hdir _), CleanPath.text_of_names hdir]
  exact joined_append _ _ _

theorem normalizedPath_below (hvolume : p.isVolume dir.volume) (hdir : dir.names ≠ []) {names : List QString}
    (h : ∀ name ∈ names, IsName name) :
    p.normalizedPath (joined slash dir.text names) = joined slash dir.text names := by
  have hcleaned := p.cleaned_text (dir.below names h) hvolume
  rw [below_text hdir h] at hcleaned
  unfold PathPlatform.normalizedPath
  rw [hcleaned]
  exact below_text hdir h

theorem components_below (hdir : dir.names ≠ []) {names : List QString} (h : ∀ name ∈ names, IsName name) :
    components p (joined slash dir.text names) = components p dir.text ++ names.map p.fold := by
  have hbelow := @components_text p (dir.below names h) (List.append_ne_nil_of_left_ne_nil hdir _)
  rw [below_text hdir h] at hbelow
  rw [hbelow, components_text p hdir]
  show p.fold dir.volume :: (dir.names ++ names).map p.fold = _
  rw [List.map_append, List.cons_append]

/-- What lies in a directory is no root: where the comparison says so, it is about components. -/
theorem not_slash_of_within (hdir : dir.names ≠ [])
    (h : p.isPathWithin (p.normalizedPath path) dir.text = true) : ¬ [slash] <:+ p.normalizedPath path := by
  rw [isPathWithin_iff p (not_slash_text hdir)] at h
  unfold Inside at h
  rw [components_text p hdir] at h
  obtain ⟨first, rest, hnames⟩ := List.exists_cons_of_ne_nil hdir
  have hfirst : p.fold first ≠ [] := fun hnil =>
    (dir.named first (hnames ▸ List.mem_cons_self ..)).1 ((p.fold_eq_nil first).mp hnil)
  rw [hnames, List.map_cons] at h
  unfold PathPlatform.normalizedPath at h ⊢
  cases hcleaned : p.cleaned path with
  | none =>
    rw [hcleaned] at h
    unfold components at h
    rw [(p.fold_eq_nil []).mpr rfl, List.splitOn_nil] at h
    have hlength := h.length_le
    simp at hlength
  | some clean =>
    rw [hcleaned] at h
    dsimp only at h ⊢
    by_cases hroot : clean.names = []
    · -- the only component of a root behind its volume is empty
      have htext : clean.text = clean.volume ++ [slash] := by
        unfold CleanPath.text
        rw [hroot]
        exact if_pos rfl
      have hcomponents : components p clean.text = [p.fold clean.volume, []] := by
        unfold components
        rw [htext, p.fold_slash, (p.fold_eq_nil []).mpr rfl,
          List.splitOn_append_cons_self_of_not_mem (p.fold_plain _ clean.volume_plain), List.splitOn_nil]
      rw [hcomponents] at h
      obtain ⟨others, hothers⟩ := h
      rw [List.cons_append, List.cons_append] at hothers
      injection hothers with _ htail
      injection htail with hhead _
      exact absurd hhead hfirst
    · exact not_slash_text hroot

end Components

/-! ## The scan -/

section Scan

variable {p : PathPlatform} {session : JanitorSession} {directory : QString} {protectedPaths : List QString}
  {threshold : Int}

/-- A file that the scan removes. -/
def fileGoes (p : PathPlatform) (directory : QString) (protectedPaths : List QString) (threshold : Int) (e : Entry) :
    Bool :=
  !p.isProtected (entryPath p directory e) protectedPaths && e.kind != .directory &&
    decide (e.lastModified ≤ threshold)

/-- A directory that is looked at again. -/
def isCandidate (p : PathPlatform) (directory : QString) (protectedPaths : List QString) (e : Entry) : Bool :=
  !p.isProtected (entryPath p directory e) protectedPaths && e.kind == .directory

/-- One entry of the scan. -/
theorem visit_spec (hremoves : ∀ path, session.removes path = true) (s : CleanupState) (e : Entry) :
    (visit p session directory protectedPaths threshold s e).report.error = s.report.error ∧
      (visit p session directory protectedPaths threshold s e).remaining =
        s.remaining.filter (fun x => !(fileGoes p directory protectedPaths threshold e && x == e)) ∧
      (visit p session directory protectedPaths threshold s e).directories =
        s.directories ++ [e].filter (isCandidate p directory protectedPaths) := by
  have hall : ∀ list : List Entry, list.filter (fun x => !(false && x == e)) = list := fun list =>
    List.filter_eq_self.mpr fun _ _ => rfl
  unfold visit fileGoes
  dsimp only
  rw [List.filter_singleton]
  unfold isCandidate
  cases hprotected : p.isProtected (entryPath p directory e) protectedPaths with
  | true =>
    rw [if_pos rfl]
    exact ⟨rfl, (hall _).symm, (List.append_nil _).symm⟩
  | false =>
    rw [if_neg Bool.false_ne_true]
    by_cases hkind : e.kind = .directory
    · rw [if_pos hkind, hkind]
      exact ⟨rfl, (hall _).symm, rfl⟩
    · have hfile : (e.kind != .directory) = true := bne_iff_ne.mpr hkind
      have hnot : (e.kind == .directory) = false := beq_eq_false_iff_ne.mpr hkind
      rw [if_neg hkind, hfile, hnot]
      by_cases hyoung : threshold < e.lastModified
      · have hage : decide (e.lastModified ≤ threshold) = false := decide_eq_false (by omega)
        rw [if_pos hyoung, hage]
        exact ⟨rfl, (hall _).symm, (List.append_nil _).symm⟩
      · have hage : decide (e.lastModified ≤ threshold) = true := decide_eq_true (by omega)
        rw [if_neg hyoung, if_pos (hremoves _), hage]
        refine ⟨rfl, List.filter_congr fun x _ => ?_, (List.append_nil _).symm⟩
        show decide (x ≠ e) = !(x == e)
        rw [decide_not, beq_eq_decide]

theorem foldl_visit_spec (hremoves : ∀ path, session.removes path = true) (entries : List Entry) :
    ∀ s : CleanupState,
      (entries.foldl (visit p session directory protectedPaths threshold) s).report.error = s.report.error ∧
        (∀ x, x ∈ (entries.foldl (visit p session directory protectedPaths threshold) s).remaining ↔
          x ∈ s.remaining ∧ ¬ (x ∈ entries ∧ fileGoes p directory protectedPaths threshold x = true)) ∧
        (entries.foldl (visit p session directory protectedPaths threshold) s).directories =
          s.directories ++ entries.filter (isCandidate p directory protectedPaths) := by
  induction entries with
  | nil =>
    intro s
    refine ⟨rfl, fun x => ?_, (List.append_nil _).symm⟩
    rw [and_iff_left fun h => List.not_mem_nil h.1]
    exact Iff.rfl
  | cons e rest ih =>
    intro s
    obtain ⟨herror, hremaining, hdirectories⟩ :=
      @visit_spec p session directory protectedPaths threshold hremoves s e
    obtain ⟨herror', hremaining', hdirectories'⟩ := ih (visit p session directory protectedPaths threshold s e)
    rw [List.foldl_cons]
    refine ⟨herror'.trans herror, fun x => ?_, ?_⟩
    · rw [hremaining', hremaining, List.mem_filter, Bool.not_eq_true', Bool.and_eq_false_iff, List.mem_cons]
      by_cases hx : x = e
      · subst hx
        cases fileGoes p directory protectedPaths threshold x <;> simp
      · rw [beq_eq_false_iff_ne]
        simp [hx]
    · rw [hdirectories', hdirectories, List.append_assoc, ← List.filter_append, List.singleton_append]

/-- **The scan**: the old files that are not protected go, and the directories that are not are kept in mind. -/
theorem scan_spec (hremoves : ∀ path, session.removes path = true) (tree : FileTree) :
    (scan p session directory protectedPaths threshold tree).report.error = [] ∧
      (∀ x, x ∈ (scan p session directory protectedPaths threshold tree).remaining ↔
        x ∈ tree.entries ∧ fileGoes p directory protectedPaths threshold x = false) ∧
      (scan p session directory protectedPaths threshold tree).directories =
        tree.entries.filter (isCandidate p directory protectedPaths) := by
  obtain ⟨herror, hremaining, hdirectories⟩ :=
    @foldl_visit_spec p session directory protectedPaths threshold hremoves tree.entries { remaining := tree.entries }
  refine ⟨herror, fun x => (hremaining x).trans ?_, hdirectories⟩
  constructor
  · rintro ⟨hmem, hnot⟩
    exact ⟨hmem, Bool.eq_false_iff.mpr fun hgoes => hnot ⟨hmem, hgoes⟩⟩
  · rintro ⟨hmem, hstays⟩
    exact ⟨hmem, fun h => absurd (hstays.symm.trans h.2) Bool.false_ne_true⟩

/-! ## The directories -/

def isOld (threshold : Int) (e : Entry) : Bool := decide (e.lastModified ≤ threshold)

theorem isEmptyDirectory_of_none {remaining : List Entry} {d : Entry} (hnamed : ∀ e ∈ remaining, e.names ≠ [])
    (h : ∀ e ∈ remaining, ¬ IsBelow e d) : isEmptyDirectory remaining d = true := by
  unfold isEmptyDirectory
  rw [Bool.not_eq_true', List.any_eq_false]
  intro e he hseen
  rw [Bool.and_eq_true, beq_iff_eq] at hseen
  refine h e he ⟨hseen.1 ▸ List.dropLast_prefix _, fun hsame => ?_⟩
  have hlength := congrArg List.length (hseen.1.trans hsame.symm)
  rw [List.length_dropLast] at hlength
  have hpos := List.length_pos_iff.mpr (hnamed e he)
  omega

/-- One directory is a step of the sweep. -/
theorem removeDirectory_spec (hremoves : ∀ path, session.removes path = true) {s : CleanupState} {d : Entry}
    (hnamed : ∀ e ∈ s.remaining, e.names ≠ [])
    (hprotected : p.isProtected (entryPath p directory d) protectedPaths = false) :
    (removeDirectory p session directory protectedPaths threshold s d).report.error = s.report.error ∧
      (removeDirectory p session directory protectedPaths threshold s d).remaining =
        sweepOne IsBelow (isOld threshold) s.remaining d := by
  unfold removeDirectory sweepOne isOld
  dsimp only
  rw [hprotected, if_neg Bool.false_ne_true]
  by_cases hgoes : decide (d.lastModified ≤ threshold) = true ∧ ∀ e ∈ s.remaining, ¬ IsBelow e d
  · rw [if_pos hgoes]
    by_cases hmem : d ∈ s.remaining
    · rw [if_pos ⟨hmem, of_decide_eq_true hgoes.1, isEmptyDirectory_of_none hnamed hgoes.2⟩,
        if_pos ⟨hremoves _, hgoes.2⟩]
      exact ⟨rfl, rfl⟩
    · rw [if_neg fun h => hmem h.1]
      refine ⟨rfl, (List.filter_eq_self.mpr fun x hx => decide_eq_true ?_).symm⟩
      rintro rfl
      exact hmem hx
  · rw [if_neg hgoes]
    split
    · rename_i hlooks
      rw [if_neg fun h => hgoes ⟨decide_eq_true hlooks.2.1, h.2⟩]
      exact ⟨rfl, rfl⟩
    · exact ⟨rfl, rfl⟩

theorem foldl_removeDirectory_spec (hremoves : ∀ path, session.removes path = true) (list : List Entry) :
    ∀ s : CleanupState, (∀ e ∈ s.remaining, e.names ≠ []) →
      (∀ d ∈ list, p.isProtected (entryPath p directory d) protectedPaths = false) →
      (list.foldl (removeDirectory p session directory protectedPaths threshold) s).report.error = s.report.error ∧
        (list.foldl (removeDirectory p session directory protectedPaths threshold) s).remaining =
          sweep IsBelow (isOld threshold) list s.remaining := by
  induction list with
  | nil => exact fun _ _ _ => ⟨rfl, rfl⟩
  | cons d rest ih =>
    intro s hnamed hprotected
    obtain ⟨herror, hremaining⟩ := @removeDirectory_spec p session directory protectedPaths threshold hremoves s d hnamed
      (hprotected d (List.mem_cons_self ..))
    have hnamed' : ∀ e ∈ (removeDirectory p session directory protectedPaths threshold s d).remaining,
        e.names ≠ [] := fun e he => hnamed e (sweepOne_subset (hremaining ▸ he))
    obtain ⟨herror', hremaining'⟩ := ih _ hnamed' fun x hx => hprotected x (List.mem_cons_of_mem _ hx)
    rw [List.foldl_cons]
    exact ⟨herror'.trans herror, hremaining'.trans (by rw [hremaining]; rfl)⟩

theorem length_joined_lt {first : QString} {rest more : List QString} (hmore : more ≠ []) :
    (joined slash first rest).length < (joined slash first (rest ++ more)).length := by
  obtain ⟨name, others, rfl⟩ := List.exists_cons_of_ne_nil hmore
  rw [joined_append]
  show _ < (joined slash first rest ++ (name :: others).flatMap (slash :: ·)).length
  rw [List.length_append, List.flatMap_cons, List.length_append, List.length_cons]
  omega

/-- What is below a directory has the longer path, so it stands before it. -/
theorem sort_inner_first {dir : CleanPath} (hvolume : p.isVolume dir.volume) (hdir : dir.names ≠ [])
    (tree : FileTree) {list : List Entry} (hlist : ∀ e ∈ list, e ∈ tree.entries) :
    (session.sort (fun d => (entryPath p dir.text d).length) list).Pairwise fun first second =>
      ¬ IsBelow second first := by
  have hmem : ∀ e ∈ session.sort (fun d => (entryPath p dir.text d).length) list, e ∈ tree.entries := fun e he =>
    hlist e ((session.sort_perm _ list).subset he)
  have hpath : ∀ e ∈ tree.entries, entryPath p dir.text e = joined slash dir.text e.names := fun e he =>
    normalizedPath_below p hvolume hdir (tree.named e he).2
  refine (session.sort_ordered _ list).imp_of_mem fun {first second} hfirst hsecond hle hbelow => ?_
  rw [hpath first (hmem first hfirst), hpath second (hmem second hsecond)] at hle
  obtain ⟨⟨more, hmore⟩, hne⟩ := hbelow
  have hmoreNames : more ≠ [] := by
    rintro rfl
    rw [List.append_nil] at hmore
    exact hne hmore.symm
  have hlt := @length_joined_lt dir.text first.names more hmoreNames
  rw [hmore] at hlt
  omega

/-- **A tree** that is cleaned. -/
theorem cleanTree_spec (hremoves : ∀ path, session.removes path = true) {dir : CleanPath}
    (hvolume : p.isVolume dir.volume) (hdir : dir.names ≠ []) (tree : FileTree) {s : CleanupState}
    (hs : cleanTree p session dir.text protectedPaths threshold tree = s) :
    s.report.error = [] ∧ (∀ e ∈ s.remaining, e ∈ tree.entries) ∧
      (∀ e ∈ tree.entries, e.kind ≠ .directory →
        (e ∉ s.remaining ↔ p.isProtected (entryPath p dir.text e) protectedPaths = false ∧
          e.lastModified ≤ threshold)) ∧
      ∀ d ∈ tree.entries, d.kind = .directory →
        (d ∉ s.remaining ↔ p.isProtected (entryPath p dir.text d) protectedPaths = false ∧
          d.lastModified ≤ threshold ∧ ∀ e ∈ tree.entries, IsBelow e d → e ∉ s.remaining) := by
  obtain ⟨herror, hscanned, hdirectories⟩ := @scan_spec p session dir.text protectedPaths
    threshold hremoves tree
  unfold cleanTree at hs
  dsimp only at hs
  rw [hdirectories] at hs
  have hperm := session.sort_perm (fun d => (entryPath p dir.text d).length)
    (tree.entries.filter (isCandidate p dir.text protectedPaths))
  have hinner := @sort_inner_first p session dir hvolume hdir tree
    (tree.entries.filter (isCandidate p dir.text protectedPaths)) fun e he => (List.mem_filter.mp he).1
  generalize session.sort (fun d => (entryPath p dir.text d).length)
    (tree.entries.filter (isCandidate p dir.text protectedPaths)) = list at hs hperm hinner
  have hcandidate : ∀ d, d ∈ list ↔ d ∈ tree.entries ∧ isCandidate p dir.text protectedPaths d = true := fun d =>
    hperm.mem_iff.trans List.mem_filter
  have hunprotected : ∀ d ∈ list, p.isProtected (entryPath p dir.text d) protectedPaths = false := by
    intro d hd
    have hcandidate := ((hcandidate d).mp hd).2
    unfold isCandidate at hcandidate
    rw [Bool.and_eq_true, Bool.not_eq_true'] at hcandidate
    exact hcandidate.1
  obtain ⟨herror', hremaining⟩ := @foldl_removeDirectory_spec p session dir.text protectedPaths threshold hremoves
    list _
    (fun e he => (tree.named e ((hscanned e).mp he).1).1) hunprotected
  rw [hs] at herror' hremaining
  have hnodup : list.Nodup := hperm.nodup_iff.mpr (tree.distinct.of_map.filter _)
  have hsubset : ∀ e ∈ s.remaining, e ∈ tree.entries := fun e he =>
    ((hscanned e).mp (sweep_subset list _ (hremaining ▸ he))).1
  -- what the sweep does not look at stays as the scan has left it
  have hother : ∀ e ∈ tree.entries, e ∉ list →
      (e ∉ s.remaining ↔ fileGoes p dir.text protectedPaths threshold e = true) := by
    intro e he hlist
    rw [hremaining, mem_sweep_of_not_mem hlist, hscanned, not_and, Bool.not_eq_false]
    exact ⟨fun h => h he, fun h _ => h⟩
  refine ⟨herror'.trans herror, hsubset, fun e he hkind => ?_, fun d hd hkind => ?_⟩
  · have hlist : e ∉ list := by
      intro hmem
      have hcandidate := ((hcandidate e).mp hmem).2
      unfold isCandidate at hcandidate
      rw [Bool.and_eq_true, beq_iff_eq] at hcandidate
      exact hkind hcandidate.2
    rw [hother e he hlist]
    unfold fileGoes
    rw [Bool.and_eq_true, Bool.and_eq_true, Bool.not_eq_true', decide_eq_true_eq, bne_iff_ne,
      and_iff_left hkind]
  · have hstays : fileGoes p dir.text protectedPaths threshold d = false := by
      unfold fileGoes
      rw [hkind]
      simp
    cases hprotected : p.isProtected (entryPath p dir.text d) protectedPaths with
    | true =>
      have hlist : d ∉ list := fun hmem => absurd (hprotected.symm.trans (hunprotected d hmem)) (by simp)
      rw [hother d hd hlist, hstays]
      exact ⟨fun h => absurd h Bool.false_ne_true, fun h => absurd h.1 (by simp)⟩
    | false =>
      have hlist : d ∈ list := by
        refine (hcandidate d).mpr ⟨hd, ?_⟩
        unfold isCandidate
        rw [hprotected, hkind]
        rfl
      have hsweep := @mem_sweep_iff _ _ _ _ (isOld threshold) _ _ hnodup hinner (fun _ _ h => h.2 rfl) hlist _
        ((hscanned d).mpr ⟨hd, hstays⟩)
      rw [← hremaining] at hsweep
      rw [hsweep, not_not, show isOld threshold d = true ↔ d.lastModified ≤ threshold from decide_eq_true_iff]
      constructor
      · rintro ⟨hold, hnone⟩
        exact ⟨rfl, hold, fun e _ hbelow he => hnone e he hbelow⟩
      · rintro ⟨-, hold, hall⟩
        exact ⟨hold, fun e he hbelow => hall e (hsubset e he) hbelow he⟩

end Scan

/-! ## What is removed -/

section Exactly

variable (p : PathPlatform) (session : JanitorSession) (policy : TemporaryCleanupPolicy)

/-- A path that is a protected one, or lies inside of one, or leads to one. -/
def Protected (path : QString) : Prop :=
  ∃ protectedPath ∈ policy.protectedPaths,
    Inside p path (p.normalizedPath protectedPath) ∨ Inside p (p.normalizedPath protectedPath) path

/-- What remains is all but the old entries that nothing protects. -/
structure CleansExactly (directory : QString) (entries remaining : List Entry) : Prop where
  subset : ∀ e ∈ remaining, e ∈ entries
  strictlyInside : ∀ e ∈ entries, e ∉ remaining → Inside p (entryPath p directory e) directory ∧
    components p (entryPath p directory e) ≠ components p directory
  unprotected : ∀ e ∈ entries, e ∉ remaining → ¬ Protected p policy (entryPath p directory e)
  files : ∀ e ∈ entries, e.kind ≠ .directory → (e ∉ remaining ↔
    ¬ Protected p policy (entryPath p directory e) ∧
      e.lastModified ≤ session.currentDateTimeUtc - policy.maximumAgeMs)
  directories : ∀ d ∈ entries, d.kind = .directory → (d ∉ remaining ↔
    ¬ Protected p policy (entryPath p directory d) ∧
      d.lastModified ≤ session.currentDateTimeUtc - policy.maximumAgeMs ∧
      ∀ e ∈ entries, IsBelow e d → e ∉ remaining)

variable {p session policy}

theorem isProtected_iff {dir : CleanPath} (hdir : dir.names ≠ [])
    (hinside : ∀ protectedPath ∈ policy.protectedPaths, p.isPathWithin (p.normalizedPath protectedPath) dir.text = true)
    {path : QString} (hpath : ¬ [slash] <:+ path) :
    p.isProtected path (policy.protectedPaths.map p.normalizedPath) = true ↔ Protected p policy path := by
  unfold PathPlatform.isProtected Protected
  rw [List.any_map, List.any_eq_true]
  refine exists_congr fun protectedPath => and_congr_right fun hmem => ?_
  show (p.isPathWithin path (p.normalizedPath protectedPath) ||
    p.isPathWithin (p.normalizedPath protectedPath) path) = true ↔ _
  rw [Bool.or_eq_true, isPathWithin_iff p (not_slash_of_within p hdir (hinside protectedPath hmem)),
    isPathWithin_iff p hpath]

theorem qs_ne_nil {text : String} (h : text ≠ "") : qs text ≠ [] := by
  unfold qs
  rw [ne_eq, List.map_eq_nil_iff]
  exact fun hnil => h (String.toList_inj.mp hnil)

/-- **The cleanup**: a policy that is rejected removes nothing, and every other one removes exactly the old
    entries that nothing protects. -/
theorem clean_removes_exactly (hremoves : ∀ path, session.removes path = true) :
    ((TemporaryFileJanitor.clean p session policy).1.error ≠ [] →
      (TemporaryFileJanitor.clean p session policy).2 = entriesAt session (cleanupDirectory p session policy)) ∧
    ((TemporaryFileJanitor.clean p session policy).1.error = [] →
      CleansExactly p session policy (cleanupDirectory p session policy)
        (entriesAt session (cleanupDirectory p session policy)) (TemporaryFileJanitor.clean p session policy).2) := by
  unfold TemporaryFileJanitor.clean
  dsimp only
  generalize hdirectory : cleanupDirectory p session policy = directory
  split
  · exact ⟨fun _ => rfl, fun h => absurd h (qs_ne_nil (by decide))⟩
  split
  · exact ⟨fun _ => rfl, fun h => absurd h (qs_ne_nil (by decide))⟩
  rename_i hsafe
  split
  · exact ⟨fun _ => rfl, fun h => absurd h (qs_ne_nil (by decide))⟩
  split
  · exact ⟨fun _ => rfl, fun h => absurd h (qs_ne_nil (by decide))⟩
  rename_i hprotected
  have hinside : ∀ protectedPath ∈ policy.protectedPaths,
      p.isPathWithin (p.normalizedPath protectedPath) directory = true := by
    rw [Bool.not_eq_true', Bool.not_eq_false, List.all_map, List.all_eq_true] at hprotected
    exact hprotected
  unfold entriesAt
  cases hlocation : session.locate directory with
  | missing =>
    exact ⟨fun _ => rfl, fun _ => ⟨fun _ h => h, fun _ h => (by cases h), fun _ h => (by cases h),
      fun _ h => (by cases h), fun _ h => (by cases h)⟩⟩
  | other => exact ⟨fun _ => rfl, fun h => absurd h (qs_ne_nil (by decide))⟩
  | directory tree =>
    dsimp only
    -- the directory is there, so its path is not empty, and it is no root
    obtain ⟨dir, hvolume, hdir, rfl⟩ : ∃ dir : CleanPath, p.isVolume dir.volume ∧ dir.names ≠ [] ∧
        directory = dir.text := by
      unfold cleanupDirectory PathPlatform.normalizedPath at hdirectory
      generalize (if (trimmed policy.directory).isEmpty then session.temporary else policy.directory) = chosen
        at hdirectory
      cases hcleaned : p.cleaned chosen with
      | none =>
        rw [hcleaned] at hdirectory
        rw [← show [] = directory from hdirectory, session.locate_nil] at hlocation
        cases hlocation
      | some dir =>
        rw [hcleaned] at hdirectory
        have htext : dir.text = directory := hdirectory
        have hvolume := p.cleaned_volume hcleaned
        refine ⟨dir, hvolume, fun hroot => hsafe ?_, htext.symm⟩
        unfold isUnsafeRoot PathPlatform.isRoot
        rw [← htext, p.cleaned_text dir hvolume]
        dsimp only
        rw [hroot]
        rfl
    obtain ⟨herror, hsubset, hfiles, hdirectories⟩ := @cleanTree_spec p session
      (policy.protectedPaths.map p.normalizedPath) (session.currentDateTimeUtc - policy.maximumAgeMs) hremoves dir hvolume
      hdir tree _ rfl
    have hpath : ∀ e ∈ tree.entries, entryPath p dir.text e = joined slash dir.text e.names := fun e he =>
      normalizedPath_below p hvolume hdir (tree.named e he).2
    have hprotection : ∀ e ∈ tree.entries,
        (p.isProtected (entryPath p dir.text e) (policy.protectedPaths.map p.normalizedPath) = false ↔
          ¬ Protected p policy (entryPath p dir.text e)) := by
      intro e he
      have hend : ¬ [slash] <:+ entryPath p dir.text e := by
        rw [hpath e he, ← below_text hdir (tree.named e he).2]
        exact not_slash_text (List.append_ne_nil_of_left_ne_nil hdir _)
      rw [← isProtected_iff hdir hinside hend, Bool.not_eq_true]
    refine ⟨fun h => absurd herror h, fun _ => ⟨hsubset, fun e he _ => ?_, fun e he hgone => ?_, fun e he hkind => ?_,
      fun d hd hkind => ?_⟩⟩
    · rw [hpath e he]
      unfold Inside
      rw [components_below p hdir (tree.named e he).2]
      refine ⟨List.prefix_append _ _, fun hsame => (tree.named e he).1 ?_⟩
      exact List.map_eq_nil_iff.mp (List.append_right_eq_self.mp hsame)
    · rw [← hprotection e he]
      by_cases hkind : e.kind = .directory
      · exact ((hdirectories e he hkind).mp hgone).1
      · exact ((hfiles e he hkind).mp hgone).1
    · rw [← hprotection e he]
      exact hfiles e he hkind
    · rw [← hprotection d hd]
      exact hdirectories d hd hkind

end Exactly

/-! ## Paths of one root -/

/-- One part of a path, while it is cleaned. -/
def pushName (names : List QString) (part : QString) : List QString :=
  if part = [] ∨ part = qs "." then names
  else if part = qs ".." then names.dropLast
  else names ++ [part]

theorem named_pushName {names : List QString} {part : QString} (hnames : ∀ name ∈ names, IsName name)
    (hpart : slash ∉ part) : ∀ name ∈ pushName names part, IsName name := by
  unfold pushName
  split
  · exact hnames
  · rename_i hplain
    split
    · exact fun name hname => hnames name (List.dropLast_subset _ hname)
    · rename_i hup
      intro name hname
      rcases List.mem_append.mp hname with hname | hname
      · exact hnames name hname
      · rw [List.mem_singleton.mp hname]
        exact ⟨fun h => hplain (Or.inl h), hpart, fun h => hplain (Or.inr h), hup⟩

theorem named_foldl_pushName (parts : List QString) (hparts : ∀ part ∈ parts, slash ∉ part) :
    ∀ {names : List QString}, (∀ name ∈ names, IsName name) → ∀ name ∈ parts.foldl pushName names, IsName name := by
  induction parts with
  | nil => exact fun h => h
  | cons part rest ih =>
    intro names hnames
    exact ih (fun other hother => hparts other (List.mem_cons_of_mem _ hother))
      (named_pushName hnames (hparts part (List.mem_cons_self ..)))

theorem foldl_pushName_named (parts : List QString) (hparts : ∀ part ∈ parts, IsName part) :
    ∀ names : List QString, parts.foldl pushName names = names ++ parts := by
  induction parts with
  | nil => exact fun names => (List.append_nil _).symm
  | cons part rest ih =>
    intro names
    obtain ⟨hne, -, hdot, hup⟩ := hparts part (List.mem_cons_self ..)
    have hpush : pushName names part = names ++ [part] := by
      unfold pushName
      rw [if_neg fun h => h.elim hne hdot, if_neg hup]
    rw [List.foldl_cons, hpush, ih fun other hother => hparts other (List.mem_cons_of_mem _ hother),
      List.append_assoc, List.singleton_append]

/-- Paths that begin at one root, and are compared as they are. -/
def unixPlatform (workingDirectory : QString) : PathPlatform where
  isVolume volume := volume = []
  cleaned text :=
    let absolute := if [slash].isPrefixOf text then text else workingDirectory ++ slash :: text
    if text = [] then none
    else some
      { volume := []
        names := (absolute.splitOn slash).foldl pushName []
        volume_plain := List.not_mem_nil
        named := named_foldl_pushName _ (fun _ h => not_mem_of_mem_splitOn h) fun _ h => (by cases h) }
  cleaned_volume := by
    intro text path h
    dsimp only at h
    split at h
    · cases h
    · cases h
      rfl
  cleaned_text := by
    rintro ⟨volume, names, hplain, hnamed⟩ hvolume
    obtain rfl : volume = [] := hvolume
    have hsplit : ((CleanPath.mk [] names hplain hnamed).text.splitOn slash).foldl pushName [] = names := by
      unfold CleanPath.text
      by_cases hnil : names = []
      · subst hnil
        rfl
      · dsimp only
        rw [if_neg fun h => hnil (List.isEmpty_iff.mp h), splitOn_joined hplain fun r hr => (hnamed r hr).2.1]
        exact (foldl_pushName_named names hnamed []).trans (List.nil_append _)
    have hrooted : [slash].isPrefixOf (CleanPath.mk [] names hplain hnamed).text = true := by
      unfold CleanPath.text
      cases names with
      | nil => rfl
      | cons name rest => exact List.isPrefixOf_iff_prefix.mpr ⟨name ++ rest.flatMap (slash :: ·), rfl⟩
    have hne : (CleanPath.mk [] names hplain hnamed).text ≠ [] := fun hnil => by
      rw [hnil] at hrooted
      exact Bool.false_ne_true hrooted
    simp only [hrooted, if_true, if_neg hne, hsplit]
  fold text := text
  fold_slash _ _ := rfl
  fold_plain _ h := h
  fold_eq_nil _ := Iff.rfl

/-- An old directory with one file, a new one, and a file that is protected. -/
def deskTree : FileTree where
  entries := [⟨[qs "old"], .directory, 10, 0, false⟩, ⟨[qs "old", qs "a"], .file, 10, 3, true⟩,
    ⟨[qs "new"], .directory, 90, 0, false⟩, ⟨[qs "lease"], .file, 10, 1, false⟩]
  named := by decide
  distinct := by decide
  inside := by
    intro e he parent hne hbegins hproper
    have hcases : ∀ e ∈ [⟨[qs "old"], .directory, 10, 0, false⟩, ⟨[qs "old", qs "a"], .file, 10, 3, true⟩,
        ⟨[qs "new"], .directory, 90, 0, false⟩, (⟨[qs "lease"], .file, 10, 1, false⟩ : Entry)],
        e.names.length ≤ 1 ∨ e.names = [qs "old", qs "a"] := by decide
    rcases hcases e he with hshort | hnames
    · have hle := hbegins.length_le
      have hpos := List.length_pos_iff.mpr hne
      exact absurd (hbegins.eq_of_length (by omega)) hproper
    · rw [hnames] at hbegins hproper
      refine ⟨⟨[qs "old"], .directory, 10, 0, false⟩, List.mem_cons_self .., ?_, rfl⟩
      match parent, hne, hbegins, hproper with
      | [name], _, hbegins, _ => rw [(List.cons_prefix_cons.mp hbegins).1]
      | name :: other :: rest, _, hbegins, hproper =>
        have hle := hbegins.length_le
        exact absurd (hbegins.eq_of_length (by simp only [List.length_cons, List.length_nil] at hle ⊢; omega)) hproper

def deskSession : JanitorSession where
  homePath := qs "/home"
  root := qs "/data"
  temporary := qs "/data/temporary"
  currentDateTimeUtc := 100
  locate path := if path = qs "/data/temporary" then .directory deskTree else .missing
  locate_nil := rfl
  removes _ := true
  sort key list := list.insertionSort fun first second => key second ≤ key first
  sort_perm _ _ := List.perm_insertionSort _ _
  sort_ordered key list := by
    have : Std.Total fun first second : Entry => key second ≤ key first := ⟨fun _ _ => Nat.le_total _ _⟩
    have : IsTrans Entry fun first second => key second ≤ key first := ⟨fun _ _ _ hab hbc => Nat.le_trans hbc hab⟩
    exact List.pairwise_insertionSort _ list

def deskPolicy : TemporaryCleanupPolicy where
  maximumAgeMs := 50
  protectedPaths := [qs "/data/temporary/lease"]

/-- The old directory goes with its file; the new one and the protected file stay. -/
theorem clean_removes_exactly_desk :
    (TemporaryFileJanitor.clean (unixPlatform []) deskSession deskPolicy).1.error = [] ∧
      (TemporaryFileJanitor.clean (unixPlatform []) deskSession deskPolicy).2.map (·.names) =
        [[qs "new"], [qs "lease"]] ∧
      CleansExactly (unixPlatform []) deskSession deskPolicy (cleanupDirectory (unixPlatform []) deskSession deskPolicy)
        (entriesAt deskSession (cleanupDirectory (unixPlatform []) deskSession deskPolicy))
        (TemporaryFileJanitor.clean (unixPlatform []) deskSession deskPolicy).2 := by
  have herror : (TemporaryFileJanitor.clean (unixPlatform []) deskSession deskPolicy).1.error = [] := by decide +kernel
  refine ⟨herror, by decide +kernel, ?_⟩
  exact (@clean_removes_exactly (unixPlatform []) deskSession deskPolicy fun _ => rfl).2 herror

end BreezeDesk
