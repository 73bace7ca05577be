/-
  Importing the media files of a folder.

  The folder is scanned in the background.  A timer then hands the paths over in batches: a media file is
  registered where it lies, or copied in the background into the recordings of the program and registered when
  the copy is done.  At most two copies of the folder run at a time.  Files that the user drops are imported by
  the same routine, under the operation number 0, and are not counted.

  The names of the copies, the toasts and the page that is shown are left out.  A background copy is kept with
  what its callback has captured.
-/
import BreezeDesk.Core.Text

namespace BreezeDesk.FolderImport

/-! ## The library -/

/-- What `LibraryViewModel` finds when it looks at a url, and whether the repository takes the recording. -/
structure LibraryLook where
  isLocalFile : Bool := true
  isFile : Bool := true
  isSupported : Bool := true
  managedIsFile : Bool := true
  managedIsWithin : Bool := true
  managedIsSupported : Bool := true
  created : Bool := true
  deriving DecidableEq, Repr

/-- What `importUrlsInternal` finds when it looks at a url. -/
structure Url where
  path : QString
  isLocalFile : Bool := true
  isFile : Bool := true
  isSupported : Bool := true
  isInsideRecordings : Bool := false
  stagingCreated : Bool := true
  library : LibraryLook := {}
  deriving DecidableEq, Repr

/-- One turn of the loop of `importUrls`: without a repository the file is only listed. -/
def importsUrl (hasRepository : Bool) (look : LibraryLook) : Bool :=
  if !look.isLocalFile || !look.isFile then false
  else if !look.isSupported then false
  else if !hasRepository then true
  else look.created

/-- The urls that `importUrls` makes recordings of; the source returns their number. -/
def importUrls (hasRepository : Bool) (urls : List Url) : List Url :=
  urls.filter fun url => importsUrl hasRepository url.library

/-- Whether `importManagedCopy` returns the id of a recording. -/
def importManagedCopy (hasRepository : Bool) (look : LibraryLook) : Bool :=
  if !hasRepository || !look.isLocalFile || !look.isFile || !look.managedIsFile || !look.managedIsWithin then false
  else if !look.isSupported || !look.managedIsSupported then false
  else look.created

/-! ## The view model -/

/-- A background copy: its source and what its callback has captured. -/
structure ManagedCopy where
  operation : Nat
  path : QString
  /-- The import whose flag the callback reads; `none` is a flag that nothing raises. -/
  cancellation : Option Nat
  deriving DecidableEq, Repr

structure ManagedCopyResult where
  cancelled : Bool := false
  error : QString := []
  /-- The paths are where they belong and `publishManagedImport` has moved the file. -/
  published : Bool := true
  library : LibraryLook := {}
  deriving DecidableEq, Repr

structure FolderScanResult where
  paths : List QString := []
  error : QString := []
  cancelled : Bool := false
  deriving DecidableEq, Repr

/-- What can be seen of an import. -/
inductive Notice where
  | scanned (operation : Nat) (paths : List QString)
  | handed (operation : Nat) (path : QString)
  | recorded (operation : Nat) (path : QString)
  | finished (operation : Nat) (cancelled : Bool) (completed total succeeded : Nat)
  deriving DecidableEq, Repr

structure ViewModel where
  hasRepository : Bool := true
  managedMediaCopyEnabled : Bool := false
  folderImportRunning : Bool := false
  folderImportCompleted : Nat := 0
  folderImportTotal : Nat := 0
  folderImportSucceeded : Nat := 0
  folderImportActiveCopies : Int := 0
  folderImportGeneration : Nat := 0
  folderImportPendingPaths : List QString := []
  /-- The import whose flag `m_folderImportCancellation` points to. -/
  folderImportCancellation : Option Nat := none
  /-- The single-shot timer runs. -/
  folderImportBatchTimer : Bool := false
  /-- The imports whose flags are raised. -/
  raised : List Nat := []
  /-- The folder scans that have not called back. -/
  scans : List Nat := []
  activeCopies : List ManagedCopy := []
  notices : List Notice := []
  deriving DecidableEq, Repr

def isRaised (cancellation : Option Nat) (s : ViewModel) : Bool :=
  cancellation.any fun operation => s.raised.contains operation

def finishFolderImport (operation : Nat) (cancelled : Bool) (s : ViewModel) : ViewModel :=
  if operation != s.folderImportGeneration || !s.folderImportRunning then s
  else
    { s with
      folderImportBatchTimer := false
      folderImportPendingPaths := []
      folderImportRunning := false
      notices := s.notices ++
        [.finished operation cancelled s.folderImportCompleted s.folderImportTotal s.folderImportSucceeded] }

/-- The last lines of `completeFolderImportItems` and of `processFolderImportBatch`. -/
def resumeFolderImport (operation : Nat) (s : ViewModel) : ViewModel :=
  if !s.folderImportPendingPaths.isEmpty && (!s.managedMediaCopyEnabled || decide (s.folderImportActiveCopies < 2)) then
    { s with folderImportBatchTimer := true }
  else if s.folderImportPendingPaths.isEmpty && s.folderImportActiveCopies == 0 then
    finishFolderImport operation false s
  else s

def completeFolderImportItems (operation processed succeeded : Nat) (s : ViewModel) : ViewModel :=
  if operation != s.folderImportGeneration || !s.folderImportRunning then s
  else
    let s := { s with
      folderImportCompleted := min s.folderImportTotal (s.folderImportCompleted + processed)
      folderImportSucceeded := s.folderImportSucceeded + succeeded }
    if isRaised s.folderImportCancellation s then
      if s.folderImportActiveCopies == 0 then finishFolderImport operation true s else s
    else resumeFolderImport operation s

/-- The local variables of `importUrlsInternal`. -/
structure Counts where
  referencedUrls : List Url := []
  immediateCount : Nat := 0
  scheduledCount : Nat := 0
  folderSynchronousProcessed : Nat := 0
  folderSynchronousSucceeded : Nat := 0

/-- One turn of the loop of `importUrlsInternal`. -/
def importUrl (folderOperation : Nat) (cancellation : Option Nat) : ViewModel × Counts → Url → ViewModel × Counts
  | (s, counts), url =>
    let trackedFolderImport := folderOperation != 0
    if url.isLocalFile && url.isFile && !url.isSupported then
      -- the library rejects it
      (s, { counts with referencedUrls := counts.referencedUrls ++ [url] })
    else if url.isLocalFile && url.isFile && url.isInsideRecordings then
      let imported := importManagedCopy s.hasRepository url.library
      ({ s with notices := s.notices ++ if imported then [.recorded folderOperation url.path] else [] },
        { counts with
          immediateCount := counts.immediateCount + imported.toNat
          folderSynchronousProcessed := counts.folderSynchronousProcessed + trackedFolderImport.toNat
          folderSynchronousSucceeded :=
            counts.folderSynchronousSucceeded + (trackedFolderImport && imported).toNat })
    else if !s.managedMediaCopyEnabled then
      (s, { counts with referencedUrls := counts.referencedUrls ++ [url] })
    else if !url.isLocalFile || !url.isFile then
      (s, { counts with referencedUrls := counts.referencedUrls ++ [url] })
    else if !url.stagingCreated then
      (s, { counts with
        folderSynchronousProcessed := counts.folderSynchronousProcessed + trackedFolderImport.toNat })
    else
      ({ s with
        activeCopies := s.activeCopies ++ [⟨folderOperation, url.path, cancellation⟩]
        folderImportActiveCopies := s.folderImportActiveCopies + trackedFolderImport.toNat },
        { counts with scheduledCount := counts.scheduledCount + 1 })

/-- Returns the number of files that are imported or being copied, too. -/
def importUrlsInternal (urls : List Url) (folderOperation : Nat) (s : ViewModel) : Nat × ViewModel :=
  let trackedFolderImport := folderOperation != 0
  let cancellation := if trackedFolderImport then s.folderImportCancellation else none
  let (s, counts) := urls.foldl (importUrl folderOperation cancellation) (s, {})
  let referencedCount := counts.referencedUrls.length
  let referenced := importUrls s.hasRepository counts.referencedUrls
  let s := { s with notices := s.notices ++ referenced.map fun url => .recorded folderOperation url.path }
  let immediateCount := counts.immediateCount + referenced.length
  let counted := trackedFolderImport && decide (referencedCount > 0)
  let processed := counts.folderSynchronousProcessed + if counted then referencedCount else 0
  let succeeded := counts.folderSynchronousSucceeded + if counted then referenced.length else 0
  let s := if trackedFolderImport && decide (processed > 0) then
    completeFolderImportItems folderOperation processed succeeded s else s
  (immediateCount + counts.scheduledCount, s)

/-- The callback of a copy that is no longer active. -/
def copyFinished (copy : ManagedCopy) (result : ManagedCopyResult) (s : ViewModel) : ViewModel :=
  let tracked := copy.operation != 0 && copy.operation == s.folderImportGeneration
  let s := if tracked then { s with folderImportActiveCopies := s.folderImportActiveCopies - 1 } else s
  let complete (succeeded : Nat) (s : ViewModel) :=
    if tracked then completeFolderImportItems copy.operation 1 succeeded s else s
  if result.cancelled || isRaised copy.cancellation s then complete 0 s
  else if !result.error.isEmpty then complete 0 s
  else if !result.published then complete 0 s
  else if !importManagedCopy s.hasRepository result.library then complete 0 s
  else complete 1 { s with notices := s.notices ++ [.recorded copy.operation copy.path] }

/-- `readable`: the folder is local, a directory and readable. -/
def importFolder (readable : Bool) (s : ViewModel) : ViewModel :=
  if s.folderImportRunning then s
  else if !readable then s
  else
    let operation := s.folderImportGeneration + 1
    { s with
      folderImportGeneration := operation
      folderImportCancellation := some operation
      folderImportRunning := true
      folderImportCompleted := 0
      folderImportTotal := 0
      folderImportSucceeded := 0
      folderImportActiveCopies := 0
      folderImportPendingPaths := []
      scans := s.scans ++ [operation] }

/-- The callback of a scan. -/
def scanFinished (operation : Nat) (result : FolderScanResult) (s : ViewModel) : ViewModel :=
  if operation != s.folderImportGeneration || !s.folderImportRunning then s
  else if result.cancelled || isRaised s.folderImportCancellation s then finishFolderImport operation true s
  else if !result.error.isEmpty then finishFolderImport operation false s
  else if result.paths.isEmpty then finishFolderImport operation false s
  else
    { s with
      folderImportPendingPaths := result.paths
      folderImportTotal := result.paths.length
      folderImportBatchTimer := true
      notices := s.notices ++ [.scanned operation result.paths] }

def cancelFolderImport (s : ViewModel) : ViewModel :=
  if !s.folderImportRunning then s
  else
    let s := { s with
      raised := s.raised ++ s.folderImportCancellation.toList
      folderImportBatchTimer := false
      folderImportPendingPaths := [] }
    if s.folderImportActiveCopies == 0 then finishFolderImport s.folderImportGeneration true s else s

/-- How many files `processFolderImportBatch` may hand over. -/
def availableSlots (s : ViewModel) : Int :=
  if s.managedMediaCopyEnabled then max 0 (2 - s.folderImportActiveCopies)
  else min 24 s.folderImportPendingPaths.length

/-- The first `count` paths are taken from those that wait. -/
def handOver (count : Nat) (s : ViewModel) : ViewModel :=
  { s with
    folderImportPendingPaths := s.folderImportPendingPaths.drop count
    notices := s.notices ++ (s.folderImportPendingPaths.take count).map (.handed s.folderImportGeneration) }

/-- `look` is what is found at each file of the batch. -/
def processFolderImportBatch (look : Nat → QString → Url) (s : ViewModel) : ViewModel :=
  if !s.folderImportRunning || s.folderImportCancellation.isNone || isRaised s.folderImportCancellation s then
    if s.folderImportActiveCopies == 0 then finishFolderImport s.folderImportGeneration true s else s
  else if availableSlots s == 0 then s
  else
    let count := min (availableSlots s).toNat s.folderImportPendingPaths.length
    let batch := (s.folderImportPendingPaths.take count).mapIdx fun index path => { look index path with path }
    let s := (importUrlsInternal batch s.folderImportGeneration (handOver count s)).2
    resumeFolderImport s.folderImportGeneration s

/-! ## The event loop -/

inductive Event where
  | importFolder (readable : Bool)
  | cancelFolderImport
  | setManagedMediaCopyEnabled (enabled : Bool)
  | importUrls (urls : List Url)
  | scanFinished (operation : Nat) (result : FolderScanResult)
  | batchTimeout (look : Nat → QString → Url)
  | copyFinished (copy : ManagedCopy) (result : ManagedCopyResult)

/-- The timer and the callbacks come only when they are due, and once. -/
def step (s : ViewModel) : Event → ViewModel
  | .importFolder readable => importFolder readable s
  | .cancelFolderImport => cancelFolderImport s
  | .setManagedMediaCopyEnabled enabled => { s with managedMediaCopyEnabled := enabled }
  | .importUrls urls => (importUrlsInternal urls 0 s).2
  | .scanFinished operation result =>
    if operation ∈ s.scans then scanFinished operation result { s with scans := s.scans.erase operation } else s
  | .batchTimeout look =>
    if s.folderImportBatchTimer then processFolderImportBatch look { s with folderImportBatchTimer := false } else s
  | .copyFinished copy result =>
    if copy ∈ s.activeCopies then copyFinished copy result { s with activeCopies := s.activeCopies.erase copy } else s

end BreezeDesk.FolderImport
