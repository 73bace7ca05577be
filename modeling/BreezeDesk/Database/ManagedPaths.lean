/-
  Paths of managed files, as `SqliteRecordingRepository` compares and checks them.

  Two paths are compared after normalization, and again after their symbolic links have been followed:
  first the links at the end of the path, up to `MaxSymlinkResolutionDepth`, then, where the file is not
  there, those of its parents.

  `QFileInfo` is what the operating system says about a path at a moment (`Storage`); Qt's functions on
  the text of a path are fields of `PathRules`.  Neither is assumed to behave in any particular way.

  What the comparison is for is said by `SameFile`: both paths are one path, or both open one file
  through symbolic links, of which operating systems follow at most 63.  Paths of the same file are
  found to be equivalent (`pathsEquivalent_of_sameFile`).
-/
import BreezeDesk.Core.Text
import Mathlib.Data.List.SplitOn

namespace BreezeDesk

/-! ## Qt and the operating system -/

/-- `QFileInfo` of a path. -/
structure FileInfo where
  isAbsolute : Bool
  absoluteFilePath : QString
  absolutePath : QString
  fileName : QString
  canonicalFilePath : QString
  symLinkTarget : QString
  isSymLink : Bool
  isDir : Bool
  doesExist : Bool

abbrev Storage := QString → FileInfo

/-- Qt's functions on paths, and the directories of the application. -/
structure PathRules where
  windows : Bool
  toCaseFolded : QString → QString
  cleanPath : QString → QString
  fromNativeSeparators : QString → QString
  /-- `QDir(directory).filePath(name)`. -/
  filePath : QString → QString → QString
  /-- `QDir(directory).relativeFilePath(path)`. -/
  relativeFilePath : QString → QString → QString
  recordings : QString
  cache : QString

def colon : QChar := 0x3A

variable (p : PathRules) (look : Storage)

/-! ## Comparing paths -/

def PathRules.folded (text : QString) : QString := if p.windows then p.toCaseFolded text else text

def pathEquals (left right : QString) : Bool := p.folded left == p.folded right

def normalizedAbsolutePath (path : QString) : QString :=
  if (trimmed path).isEmpty ∨ (look path).isAbsolute = false then []
  else p.fromNativeSeparators (p.cleanPath (look path).absoluteFilePath)

def hasUnsafeWindowsPathSyntax (path : QString) : Bool :=
  if !p.windows then false
  else
    let normalized := p.fromNativeSeparators (trimmed path)
    if (qs "//?/").isPrefixOf normalized || (qs "//./").isPrefixOf normalized then true
    else if (qs "//").isPrefixOf normalized then normalized.contains colon
    else normalized.idxOf? colon != some 1 || (normalized.drop 2).contains colon

def maxSymlinkResolutionDepth : Nat := 64

/-- The components that were taken off are put back. -/
def rejoined (resolved : QString) (unresolvedComponents : List QString) : QString :=
  p.fromNativeSeparators (p.cleanPath (unresolvedComponents.foldl p.filePath resolved))

/-- The loop of `resolvedComparisonPath`: the nearest parent that can be resolved. -/
def resolvedParent (followed : QString → QString) : Nat → QString → List QString → QString
  | 0, _, _ => []
  | depth + 1, current, unresolvedComponents =>
    let canonical := p.fromNativeSeparators (look current).canonicalFilePath
    if !canonical.isEmpty then rejoined p canonical unresolvedComponents
    else if (look current).isSymLink then
      let target := followed (look current).symLinkTarget
      if target.isEmpty then [] else rejoined p target unresolvedComponents
    else
      let component := (look current).fileName
      let parent := p.fromNativeSeparators (p.cleanPath (look current).absolutePath)
      if component.isEmpty || parent.isEmpty || pathEquals p parent current then []
      else resolvedParent followed depth parent (component :: unresolvedComponents)

/-- `resolvedComparisonPath` with `remaining` links to go. -/
def resolvedWithin : Nat → QString → QString
  | 0, _ => []
  | remaining + 1, path =>
    let normalizedPath := normalizedAbsolutePath p look path
    if normalizedPath.isEmpty then []
    else if (look normalizedPath).isSymLink then
      let target := normalizedAbsolutePath p look (look normalizedPath).symLinkTarget
      if target.isEmpty || pathEquals p target normalizedPath then [] else resolvedWithin remaining target
    else resolvedParent p look (resolvedWithin remaining) 256 normalizedPath []

def resolvedComparisonPath (path : QString) : QString :=
  resolvedWithin p look (maxSymlinkResolutionDepth + 1) path

def isStrictChildPath (path directory : QString) : Bool :=
  let normalizedPath := normalizedAbsolutePath p look path
  let normalizedDirectory := normalizedAbsolutePath p look directory
  if normalizedPath.isEmpty || normalizedDirectory.isEmpty || pathEquals p normalizedPath normalizedDirectory then false
  else
    let separator := if [slash].isSuffixOf normalizedDirectory then [] else [slash]
    (p.folded (normalizedDirectory ++ separator)).isPrefixOf (p.folded normalizedPath)

def pathsEquivalent (left right : QString) : Bool :=
  let normalizedLeft := normalizedAbsolutePath p look left
  let normalizedRight := normalizedAbsolutePath p look right
  if normalizedLeft.isEmpty || normalizedRight.isEmpty then false
  else if pathEquals p normalizedLeft normalizedRight then true
  else
    let resolvedLeft := resolvedComparisonPath p look normalizedLeft
    let resolvedRight := resolvedComparisonPath p look normalizedRight
    !resolvedLeft.isEmpty && !resolvedRight.isEmpty && pathEquals p resolvedLeft resolvedRight

def pathsAreProvablyDistinct (left right : QString) : Bool :=
  let normalizedLeft := normalizedAbsolutePath p look left
  let normalizedRight := normalizedAbsolutePath p look right
  if normalizedLeft.isEmpty then false
  else if (trimmed right).isEmpty then true
  else if normalizedRight.isEmpty || pathEquals p normalizedLeft normalizedRight then false
  else
    let resolvedLeft := resolvedComparisonPath p look normalizedLeft
    let resolvedRight := resolvedComparisonPath p look normalizedRight
    !resolvedLeft.isEmpty && !resolvedRight.isEmpty && !pathEquals p resolvedLeft resolvedRight

/-! ## Which files may be removed -/

inductive ArtifactKind where
  | managedMedia | normalizedPcm | waveform
  deriving DecidableEq, Repr

def artifactRoot : ArtifactKind → QString
  | .managedMedia => p.recordings
  | .normalizedPcm | .waveform => p.cache

/-- No directory between the root and the file is a symbolic link. -/
def parentsArePlain : QString → List QString → Bool
  | _, [] => true
  | currentParent, component :: rest =>
    if component == qs "." then parentsArePlain currentParent rest
    else
      let next := p.filePath currentParent component
      if (look next).isSymLink then false else parentsArePlain next rest

def isPlainBelow (root absolutePath : QString) : Bool :=
  let relativeParent := p.fromNativeSeparators (p.relativeFilePath root (look absolutePath).absolutePath)
  if relativeParent == qs ".." || (qs "../").isPrefixOf relativeParent then false
  else
    parentsArePlain p look root ((relativeParent.splitOn slash).filter fun component => !component.isEmpty)

def isSafeArtifactPath (path : QString) (artifactKind : ArtifactKind) : Bool :=
  if hasUnsafeWindowsPathSyntax p path then false
  else
    let root := artifactRoot p artifactKind
    let absolutePath := normalizedAbsolutePath p look path
    if root.isEmpty || !isStrictChildPath p look absolutePath root then false
    else
      let canonicalRoot := p.fromNativeSeparators (look root).canonicalFilePath
      let canonicalParent :=
        p.fromNativeSeparators (look (look absolutePath).absolutePath).canonicalFilePath
      if canonicalRoot.isEmpty || canonicalParent.isEmpty ||
          (!pathEquals p canonicalParent canonicalRoot &&
            !isStrictChildPath p look canonicalParent canonicalRoot) then false
      else if !p.windows && !isPlainBelow p look root absolutePath then false
      else if (look absolutePath).isSymLink then !(look absolutePath).isDir
      else if (look absolutePath).isDir then false
      else if !(look absolutePath).doesExist then true
      else
        let canonicalPath := p.fromNativeSeparators (look absolutePath).canonicalFilePath
        !canonicalPath.isEmpty && isStrictChildPath p look canonicalPath canonicalRoot

/-! ## Paths of one file -/

/-- The path opens the file after a number of symbolic links. -/
inductive Opens : Nat → QString → QString → Prop
  | file {path : QString} (hnamed : normalizedAbsolutePath p look path ≠ [])
      (hplain : (look (normalizedAbsolutePath p look path)).isSymLink = false)
      (hfound : p.fromNativeSeparators (look (normalizedAbsolutePath p look path)).canonicalFilePath ≠ []) :
      Opens 0 path (rejoined p
        (p.fromNativeSeparators (look (normalizedAbsolutePath p look path)).canonicalFilePath) [])
  | link {path file : QString} {links : Nat} (hnamed : normalizedAbsolutePath p look path ≠ [])
      (hlink : (look (normalizedAbsolutePath p look path)).isSymLink = true)
      (htarget : normalizedAbsolutePath p look (look (normalizedAbsolutePath p look path)).symLinkTarget ≠ [])
      (hproper : pathEquals p
        (normalizedAbsolutePath p look (look (normalizedAbsolutePath p look path)).symLinkTarget)
        (normalizedAbsolutePath p look path) = false)
      (hopens : Opens links
        (normalizedAbsolutePath p look (look (normalizedAbsolutePath p look path)).symLinkTarget) file) :
      Opens (links + 1) path file

variable {p look}

/-- **Following links** finds the file, as long as there are not more of them than are followed. -/
theorem Opens.resolved {links : Nat} {path file : QString} (h : Opens p look links path file) :
    ∀ remaining, links < remaining → resolvedWithin p look remaining path = file := by
  induction h with
  | file hnamed hplain hfound =>
    intro remaining hremaining
    cases remaining with
    | zero => omega
    | succ remaining =>
      rw [resolvedWithin, if_neg (by simpa using hnamed), hplain]
      show resolvedParent p look _ (255 + 1) _ [] = _
      rw [resolvedParent, if_pos (by simpa using hfound)]
  | link hnamed hlink htarget hproper _ ih =>
    intro remaining hremaining
    cases remaining with
    | zero => omega
    | succ remaining =>
      rw [resolvedWithin, if_neg (by simpa using hnamed), if_pos hlink]
      dsimp only
      rw [hproper, if_neg (by simpa using htarget)]
      exact ih remaining (by omega)

variable (p look)

/-- Two paths that are one, or that open one file. -/
structure SameFile (left right : QString) : Prop where
  leftNamed : normalizedAbsolutePath p look left ≠ []
  rightNamed : normalizedAbsolutePath p look right ≠ []
  same : pathEquals p (normalizedAbsolutePath p look left) (normalizedAbsolutePath p look right) = true ∨
    ∃ file links links', file ≠ [] ∧ links ≤ maxSymlinkResolutionDepth ∧ links' ≤ maxSymlinkResolutionDepth ∧
      Opens p look links (normalizedAbsolutePath p look left) file ∧
      Opens p look links' (normalizedAbsolutePath p look right) file

variable {p look}

theorem pathEquals_refl (path : QString) : pathEquals p path path = true := beq_self_eq_true _

/-- **Paths of one file** are found to be equivalent. -/
theorem pathsEquivalent_of_sameFile {left right : QString} (h : SameFile p look left right) :
    pathsEquivalent p look left right = true := by
  unfold pathsEquivalent
  rw [if_neg (by simpa using ⟨h.leftNamed, h.rightNamed⟩)]
  rcases h.same with hequal | ⟨file, links, links', hfile, hlinks, hlinks', hleft, hright⟩
  · rw [if_pos hequal]
  · have hresolved : resolvedComparisonPath p look (normalizedAbsolutePath p look left) = file :=
      hleft.resolved _ (Nat.lt_succ_of_le hlinks)
    have hresolved' : resolvedComparisonPath p look (normalizedAbsolutePath p look right) = file :=
      hright.resolved _ (Nat.lt_succ_of_le hlinks')
    split
    · rfl
    · dsimp only
      rw [hresolved, hresolved', pathEquals_refl]
      simpa using hfile

/-- A path that may be removed is an absolute one. -/
theorem named_of_isSafe {path : QString} {artifactKind : ArtifactKind}
    (h : isSafeArtifactPath p look path artifactKind = true) : normalizedAbsolutePath p look path ≠ [] := by
  intro hempty
  have hnothing : normalizedAbsolutePath p look [] = [] := if_pos (Or.inl rfl)
  have hchild : isStrictChildPath p look [] (artifactRoot p artifactKind) = false := by
    unfold isStrictChildPath
    dsimp only
    rw [hnothing]
    rfl
  unfold isSafeArtifactPath at h
  dsimp only at h
  rw [hempty, hchild] at h
  simp at h

end BreezeDesk
