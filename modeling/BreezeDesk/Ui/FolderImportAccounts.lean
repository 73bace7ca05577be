/-
  Every file of an imported folder is accounted for once.

  * `importUrlsInternal_tracked` — each file of a batch is copied, or settled at once, with at most one recording;
  * `Accounts`        — what holds between the lines of the source: what is handed over is settled, being settled
                        or being copied, what is not handed over waits, and the imports that are over keep their
                        last word;
  * `Good`            — the same with nothing being settled, and something that keeps the import going;
  * `step_good`       — every event keeps it.
-/
import BreezeDesk.Ui.FolderImport
import Mathlib.Data.List.Perm.Subperm

namespace BreezeDesk.FolderImport

/-! ## Notices -/

structure Summary where
  cancelled : Bool
  completed : Nat
  total : Nat
  succeeded : Nat
  deriving DecidableEq, Repr

namespace Notice

def operation : Notice → Nat
  | .scanned operation _ | .handed operation _ | .recorded operation _ | .finished operation .. => operation

def scannedPaths : Notice → List QString
  | .scanned _ paths => paths
  | _ => []

def handedPaths : Notice → List QString
  | .handed _ path => [path]
  | _ => []

def recordedPaths : Notice → List QString
  | .recorded _ path => [path]
  | _ => []

def summaries : Notice → List Summary
  | .finished _ cancelled completed total succeeded => [⟨cancelled, completed, total, succeeded⟩]
  | _ => []

end Notice

/-- The notices about one import. -/
def about (operation : Nat) (notices : List Notice) : List Notice := notices.filter (·.operation == operation)

def scanned (notices : List Notice) : List QString := notices.flatMap Notice.scannedPaths

def handed (notices : List Notice) : List QString := notices.flatMap Notice.handedPaths

def recorded (notices : List Notice) : List QString := notices.flatMap Notice.recordedPaths

def finishes (notices : List Notice) : List Summary := notices.flatMap Notice.summaries

section Notices

variable {operation other : Nat} {first second : List Notice} {paths : List QString}

@[simp] theorem about_append : about operation (first ++ second) = about operation first ++ about operation second :=
  List.filter_append ..

@[simp] theorem scanned_append : scanned (first ++ second) = scanned first ++ scanned second :=
  List.flatMap_append

@[simp] theorem handed_append : handed (first ++ second) = handed first ++ handed second :=
  List.flatMap_append

@[simp] theorem recorded_append : recorded (first ++ second) = recorded first ++ recorded second :=
  List.flatMap_append

@[simp] theorem finishes_append : finishes (first ++ second) = finishes first ++ finishes second :=
  List.flatMap_append

theorem about_same (h : ∀ notice ∈ first, notice.operation = operation) : about operation first = first :=
  List.filter_eq_self.mpr fun notice hmem => beq_iff_eq.mpr (h notice hmem)

theorem about_other (h : ∀ notice ∈ first, notice.operation ≠ operation) : about operation first = [] :=
  List.filter_eq_nil_iff.mpr fun notice hmem heq => h notice hmem (beq_iff_eq.mp heq)

@[simp] theorem notices_handed : scanned (paths.map (.handed operation)) = [] ∧
    handed (paths.map (.handed operation)) = paths ∧ recorded (paths.map (.handed operation)) = [] ∧
    finishes (paths.map (.handed operation)) = [] := by
  induction paths with
  | nil => exact ⟨rfl, rfl, rfl, rfl⟩
  | cons path rest ih =>
    obtain ⟨hscanned, hhanded, hrecorded, hfinishes⟩ := ih
    exact ⟨hscanned, congrArg (path :: ·) hhanded, hrecorded, hfinishes⟩

@[simp] theorem notices_recorded : scanned (paths.map (.recorded operation)) = [] ∧
    handed (paths.map (.recorded operation)) = [] ∧ recorded (paths.map (.recorded operation)) = paths ∧
    finishes (paths.map (.recorded operation)) = [] := by
  induction paths with
  | nil => exact ⟨rfl, rfl, rfl, rfl⟩
  | cons path rest ih =>
    obtain ⟨hscanned, hhanded, hrecorded, hfinishes⟩ := ih
    exact ⟨hscanned, hhanded, congrArg (path :: ·) hrecorded, hfinishes⟩

end Notices

/-! ## A batch -/

/-- The state after files were copied or registered on the spot. -/
def advance (operation : Nat) (cancellation : Option Nat) (copied registered : List QString) (s : ViewModel) :
    ViewModel :=
  { s with
    activeCopies := s.activeCopies ++ copied.map fun path => ⟨operation, path, cancellation⟩
    folderImportActiveCopies := s.folderImportActiveCopies + if operation = 0 then 0 else copied.length
    notices := s.notices ++ registered.map (.recorded operation) }

theorem advance_nil (operation : Nat) (cancellation : Option Nat) (s : ViewModel) :
    advance operation cancellation [] [] s = s := by
  simp [advance]

theorem advance_advance (operation : Nat) (cancellation : Option Nat)
    (copied registered more further : List QString) (s : ViewModel) :
    advance operation cancellation more further (advance operation cancellation copied registered s) =
      advance operation cancellation (copied ++ more) (registered ++ further) s := by
  by_cases h : operation = 0 <;> simp [advance, h, List.append_assoc, Int.add_assoc]

/-- How the urls of a batch are sorted: every one is copied, referenced or settled, and none is used twice. -/
structure Sorts (urls : List Url) (copied registered : List QString) (referenced : List Url) (processed : Nat) :
    Prop where
  all : processed + copied.length + referenced.length = urls.length
  few : registered.length ≤ processed
  once : ∀ path, registered.count path + copied.count path + (referenced.map (·.path)).count path ≤
    (urls.map (·.path)).count path

theorem Sorts.nil : Sorts [] [] [] [] 0 := ⟨rfl, Nat.le_refl _, fun _ => Nat.le_refl _⟩

theorem Sorts.append {urls more : List Url} {copied registered copied' registered' : List QString}
    {referenced referenced' : List Url} {processed processed' : Nat}
    (h : Sorts urls copied registered referenced processed)
    (h' : Sorts more copied' registered' referenced' processed') :
    Sorts (urls ++ more) (copied ++ copied') (registered ++ registered') (referenced ++ referenced')
      (processed + processed') where
  all := by
    have hall := h.all
    have hall' := h'.all
    simp only [List.length_append]
    omega
  few := by
    have hfew := h.few
    have hfew' := h'.few
    simp only [List.length_append]
    omega
  once path := by
    have honce := h.once path
    have honce' := h'.once path
    simp only [List.map_append, List.count_append]
    omega

/-- What the loop has counted for the folder. -/
structure Counted (operation : Nat) (before after : Counts) (registered : List QString) (referenced : List Url)
    (processed : Nat) : Prop where
  referenced : after.referencedUrls = before.referencedUrls ++ referenced
  processed : operation ≠ 0 →
    after.folderSynchronousProcessed = before.folderSynchronousProcessed + processed
  succeeded : operation ≠ 0 →
    after.folderSynchronousSucceeded = before.folderSynchronousSucceeded + registered.length

/-- One turn of the loop, case by case as in the source. -/
theorem importUrl_spec (operation : Nat) (cancellation : Option Nat) (s : ViewModel) (counts : Counts) (url : Url) :
    ∃ copied registered referenced processed, Sorts [url] copied registered referenced processed ∧
      (s.managedMediaCopyEnabled = false → copied = []) ∧
      (importUrl operation cancellation (s, counts) url).1 = advance operation cancellation copied registered s ∧
      Counted operation counts (importUrl operation cancellation (s, counts) url).2 registered referenced processed := by
  have hreferenced : ∃ copied registered referenced processed, Sorts [url] copied registered referenced processed ∧
      (s.managedMediaCopyEnabled = false → copied = []) ∧ s = advance operation cancellation copied registered s ∧
      Counted operation counts { counts with referencedUrls := counts.referencedUrls ++ [url] } registered referenced
        processed :=
    ⟨[], [], [url], 0, ⟨rfl, Nat.le_refl _, fun path => by simp⟩, fun _ => rfl, (advance_nil ..).symm, rfl,
      fun _ => rfl, fun _ => rfl⟩
  unfold importUrl
  simp only
  split
  · exact hreferenced
  · split
    · cases hyes : importManagedCopy s.hasRepository url.library with
      | false =>
        refine ⟨[], [], [], 1, ⟨rfl, Nat.zero_le _, fun path => Nat.zero_le _⟩, fun _ => rfl, by simp [advance],
          by simp, ?_, ?_⟩
        · intro hop
          simp [hop]
        · intro hop
          simp
      | true =>
        refine ⟨[], [url.path], [], 1, ⟨rfl, Nat.le_refl _, fun path => by simp⟩, fun _ => rfl, by simp [advance], by simp,
          ?_, ?_⟩
        · intro hop
          simp [hop]
        · intro hop
          simp [hop]
    · split
      · exact hreferenced
      · split
        · exact hreferenced
        · split
          · refine ⟨[], [], [], 1, ⟨rfl, Nat.zero_le _, fun path => Nat.zero_le _⟩, fun _ => rfl, (advance_nil ..).symm,
              by simp, ?_, ?_⟩
            · intro hop
              simp [hop]
            · intro hop
              simp
          · rename_i hmanaged _ _
            refine ⟨[url.path], [], [], 0, ⟨rfl, Nat.le_refl _, fun path => by simp⟩, ?_, ?_, by simp, fun _ => rfl,
              fun _ => rfl⟩
            · intro hoff
              simp [hoff] at hmanaged
            cases operation <;> simp [advance]

/-- The loop, by induction on the urls. -/
theorem foldl_importUrl (operation : Nat) (cancellation : Option Nat) (urls : List Url) :
    ∀ (s : ViewModel) (counts : Counts), ∃ copied registered referenced processed,
      Sorts urls copied registered referenced processed ∧
      (s.managedMediaCopyEnabled = false → copied = []) ∧
      (urls.foldl (importUrl operation cancellation) (s, counts)).1 =
        advance operation cancellation copied registered s ∧
      Counted operation counts (urls.foldl (importUrl operation cancellation) (s, counts)).2 registered referenced
        processed := by
  induction urls with
  | nil =>
    intro s counts
    exact ⟨[], [], [], 0, .nil, fun _ => rfl, (advance_nil ..).symm, (List.append_nil _).symm, fun _ => rfl, fun _ => rfl⟩
  | cons url rest ih =>
    intro s counts
    obtain ⟨copied, registered, referenced, processed, hsorts, hoff, hstate, hcounted⟩ :=
      importUrl_spec operation cancellation s counts url
    rw [List.foldl_cons]
    generalize importUrl operation cancellation (s, counts) url = turn at hstate hcounted ⊢
    obtain ⟨s', counts'⟩ := turn
    obtain ⟨copied', registered', referenced', processed', hsorts', hoff', hstate', hcounted'⟩ := ih s' counts'
    replace hstate : s' = advance operation cancellation copied registered s := hstate
    refine ⟨copied ++ copied', registered ++ registered', referenced ++ referenced', processed + processed',
      hsorts.append hsorts', ?_, ?_, ?_, ?_, ?_⟩
    · intro hsetting
      rw [hoff hsetting, hoff' (hstate ▸ hsetting)]
      rfl
    · rw [hstate', hstate, advance_advance]
    · rw [hcounted'.referenced, hcounted.referenced, List.append_assoc]
    · intro hop
      rw [hcounted'.processed hop, hcounted.processed hop, Nat.add_assoc]
    · intro hop
      rw [hcounted'.succeeded hop, hcounted.succeeded hop, List.length_append, Nat.add_assoc]

/-- `referencedCount > 0` decides nothing. -/
theorem ifPositive_length (urls : List Url) (f : List Url → Nat) (hf : f [] = 0) :
    (if decide (urls.length > 0) then f urls else 0) = f urls := by
  cases urls with
  | nil => exact hf.symm
  | cons url rest => rfl

/-- What `importUrlsInternal` does for a folder: some files are being copied, the others are settled. -/
theorem importUrlsInternal_tracked {operation : Nat} (hop : operation ≠ 0) (urls : List Url) (s : ViewModel) :
    ∃ copied registered processed, processed + copied.length = urls.length ∧
      registered.length ≤ processed ∧ (s.managedMediaCopyEnabled = false → copied = []) ∧
      (∀ path, registered.count path + copied.count path ≤ (urls.map (·.path)).count path) ∧
      (importUrlsInternal urls operation s).2 =
        let next := advance operation s.folderImportCancellation copied registered s
        if processed = 0 then next else completeFolderImportItems operation processed registered.length next := by
  obtain ⟨copied, registered, referenced, processed, hsorts, hoff, hstate, hcounted⟩ :=
    foldl_importUrl operation s.folderImportCancellation urls s {}
  have hreferenced := hcounted.referenced
  have hprocessed := hcounted.processed hop
  have hsucceeded := hcounted.succeeded hop
  simp only [List.nil_append, Nat.zero_add] at hreferenced hprocessed hsucceeded
  have himports : (importUrls s.hasRepository referenced).Sublist referenced := List.filter_sublist
  refine ⟨copied, registered ++ (importUrls s.hasRepository referenced).map (·.path), processed + referenced.length,
    ?_, ?_, hoff, ?_, ?_⟩
  · have hall := hsorts.all
    omega
  · have hfew := hsorts.few
    have hle := himports.length_le
    simp only [List.length_append, List.length_map]
    omega
  · intro path
    have honce := hsorts.once path
    have hle := (himports.map (·.path)).count_le path
    simp only [List.count_append]
    omega
  · unfold importUrlsInternal
    simp only [bne_iff_ne.mpr hop, if_true, Bool.true_and]
    generalize urls.foldl (importUrl operation s.folderImportCancellation) (s, {}) = out at *
    obtain ⟨next, counts⟩ := out
    simp only at hstate hreferenced hprocessed hsucceeded ⊢
    subst hstate
    rw [hreferenced, hprocessed, hsucceeded, ifPositive_length referenced List.length rfl,
      ifPositive_length referenced (fun urls => (importUrls _ urls).length) rfl]
    simp only [advance, List.map_append, List.map_map, List.append_assoc, List.length_append, List.length_map]
    by_cases hnone : processed + referenced.length = 0
    · rw [if_neg (by simp [hnone]), if_pos hnone]
      rfl
    · rw [if_pos (decide_eq_true (Nat.pos_of_ne_zero hnone)), if_neg hnone]
      rfl

/-- Files that do not come from the folder. -/
theorem importUrlsInternal_untracked (urls : List Url) (s : ViewModel) :
    ∃ copied registered, (importUrlsInternal urls 0 s).2 = advance 0 none copied registered s := by
  obtain ⟨copied, registered, referenced, processed, -, -, hstate, -⟩ := foldl_importUrl 0 none urls s {}
  refine ⟨copied, registered ++
    (importUrls s.hasRepository (urls.foldl (importUrl 0 none) (s, {})).2.referencedUrls).map (·.path), ?_⟩
  unfold importUrlsInternal
  simp only [bne_self_eq_false, Bool.false_eq_true, if_false, Bool.false_and]
  rw [hstate]
  simp [advance, List.append_assoc]

/-! ## What holds -/

def folderCopies (s : ViewModel) : List ManagedCopy := s.activeCopies.filter (·.operation != 0)

/-- The notices about the import that runs, or ran last. -/
def current (s : ViewModel) : List Notice := about s.folderImportGeneration s.notices

/-- An import that is over. -/
structure Settled (notices : List Notice) : Prop where
  finished : ∃ summary, finishes notices = [summary] ∧ (summary.cancelled = false →
    summary.completed = summary.total ∧ summary.total = (scanned notices).length ∧
    handed notices = scanned notices ∧ summary.succeeded = (recorded notices).length)
  inOrder : handed notices <+: scanned notices
  once : (recorded notices).Subperm (handed notices)

/-- The import that runs; `settled` files, `made` recordings of them, are not yet in its counts. -/
structure Present (settled made : Nat) (s : ViewModel) : Prop where
  positive : 0 < s.folderImportGeneration
  cancellation : s.folderImportCancellation = some s.folderImportGeneration
  total : s.folderImportTotal = (scanned (current s)).length
  inOrder : handed (current s) <+: scanned (current s)
  rest : s.folderImportGeneration ∉ s.raised →
    handed (current s) ++ s.folderImportPendingPaths = scanned (current s)
  dropped : s.folderImportGeneration ∈ s.raised → s.folderImportPendingPaths = []
  completed : s.folderImportCompleted + settled + (folderCopies s).length = (handed (current s)).length
  succeeded : s.folderImportSucceeded + made = (recorded (current s)).length
  once : ∀ path, (recorded (current s)).count path + ((folderCopies s).map (·.path)).count path ≤
    (handed (current s)).count path
  unfinished : finishes (current s) = []

structure Accounts (settled made : Nat) (s : ViewModel) : Prop where
  noticesKnown : ∀ notice ∈ s.notices, notice.operation ≤ s.folderImportGeneration
  raisedKnown : ∀ operation ∈ s.raised, operation ≤ s.folderImportGeneration
  scansKnown : ∀ operation ∈ s.scans, operation ≤ s.folderImportGeneration
  scansOnce : s.scans.Nodup
  copies : ∀ copy ∈ folderCopies s, copy.operation = s.folderImportGeneration
  active : s.folderImportActiveCopies = (folderCopies s).length
  slots : (folderCopies s).length ≤ 2
  past : ∀ operation, 0 < operation → operation ≤ s.folderImportGeneration →
    (s.folderImportRunning = true → operation ≠ s.folderImportGeneration) → Settled (about operation s.notices)
  idle : s.folderImportRunning = false →
    s.folderImportBatchTimer = false ∧ s.folderImportPendingPaths = [] ∧ folderCopies s = []
  present : s.folderImportRunning = true → Present settled made s

/-- The scan of the import that runs has called back. -/
def Scanned (s : ViewModel) : Prop := s.folderImportRunning = true → s.folderImportGeneration ∉ s.scans

/-- Between two events. -/
structure Good (s : ViewModel) : Prop where
  accounts : Accounts 0 0 s
  scanning : s.folderImportRunning = true → s.folderImportGeneration ∈ s.scans →
    scanned (current s) = [] ∧ s.folderImportBatchTimer = false ∧ s.folderImportGeneration ∉ s.raised
  -- the timer or the callback of a copy goes on with what waits
  goesOn : s.folderImportRunning = true → s.folderImportGeneration ∉ s.scans →
    s.folderImportBatchTimer = true ∨ folderCopies s ≠ []
  awaits : s.folderImportRunning = true → s.folderImportGeneration ∉ s.scans →
    s.folderImportPendingPaths = [] → folderCopies s ≠ []

section Accounts

variable {s : ViewModel} {settled made : Nat}

theorem about_append_other {operation : Nat} {first second : List Notice}
    (h : ∀ notice ∈ second, notice.operation ≠ operation) :
    about operation (first ++ second) = about operation first := by
  rw [about_append, about_other h, List.append_nil]

theorem operation_of_mem_singleton {notice : Notice} {operation : Nat} (h : notice.operation = operation) :
    ∀ other ∈ [notice], other.operation = operation := by
  intro other hmem
  rw [List.mem_singleton.mp hmem]
  exact h

theorem about_append_same {operation : Nat} {first second : List Notice}
    (h : ∀ notice ∈ second, notice.operation = operation) :
    about operation (first ++ second) = about operation first ++ second := by
  rw [about_append, about_same h]

theorem Present.isRaised_iff (h : Present settled made s) :
    isRaised s.folderImportCancellation s = true ↔ s.folderImportGeneration ∈ s.raised := by
  rw [h.cancellation]
  exact List.contains_iff_mem

theorem Accounts.inactive_iff (h : Accounts settled made s) :
    (s.folderImportActiveCopies == 0) = true ↔ folderCopies s = [] := by
  rw [h.active, beq_iff_eq, Int.natCast_eq_zero, List.length_eq_zero_iff]

/-- Without an import that runs nothing is being settled. -/
theorem Accounts.of_idle (h : Accounts settled made s) (hidle : s.folderImportRunning = false) : Good s where
  accounts := { h with present := fun hrun => absurd (hidle.symm.trans hrun) nofun }
  scanning hrun := absurd (hidle.symm.trans hrun) nofun
  goesOn hrun := absurd (hidle.symm.trans hrun) nofun
  awaits hrun := absurd (hidle.symm.trans hrun) nofun

/-- A copy runs only after the scan. -/
theorem Good.scanned_of_copies (h : Good s) (hcopies : folderCopies s ≠ []) : Scanned s := by
  intro hrun hscan
  have hpresent := h.accounts.present hrun
  have hhanded : handed (current s) = [] := List.prefix_nil.mp ((h.scanning hrun hscan).1 ▸ hpresent.inOrder)
  have hcompleted := hpresent.completed
  rw [hhanded, List.length_nil] at hcompleted
  exact hcopies (List.length_eq_zero_iff.mp (by omega))

/-! ## The end of an import -/

theorem finishFolderImport_idle (hidle : s.folderImportRunning = false) (operation : Nat) (cancelled : Bool) :
    finishFolderImport operation cancelled s = s := by
  simp [finishFolderImport, hidle]

theorem finishFolderImport_running (hrun : s.folderImportRunning = true) (cancelled : Bool) :
    finishFolderImport s.folderImportGeneration cancelled s =
      { s with
        folderImportBatchTimer := false
        folderImportPendingPaths := []
        folderImportRunning := false
        notices := s.notices ++ [.finished s.folderImportGeneration cancelled s.folderImportCompleted
          s.folderImportTotal s.folderImportSucceeded] } := by
  simp [finishFolderImport, hrun]

/-- The last word about an import. -/
theorem Present.settled_of_finished (h : Present settled made s) (hcopies : folderCopies s = []) {cancelled : Bool}
    (hall : cancelled = false → s.folderImportPendingPaths = [] ∧ s.folderImportGeneration ∉ s.raised ∧
      settled = 0 ∧ made = 0) :
    Settled (current s ++ [.finished s.folderImportGeneration cancelled s.folderImportCompleted s.folderImportTotal
      s.folderImportSucceeded]) := by
  have hscanned : scanned (current s ++ [.finished s.folderImportGeneration cancelled s.folderImportCompleted
      s.folderImportTotal s.folderImportSucceeded]) = scanned (current s) := by
    rw [scanned_append]
    exact List.append_nil _
  have hhanded : handed (current s ++ [.finished s.folderImportGeneration cancelled s.folderImportCompleted
      s.folderImportTotal s.folderImportSucceeded]) = handed (current s) := by
    rw [handed_append]
    exact List.append_nil _
  have hrecorded : recorded (current s ++ [.finished s.folderImportGeneration cancelled s.folderImportCompleted
      s.folderImportTotal s.folderImportSucceeded]) = recorded (current s) := by
    rw [recorded_append]
    exact List.append_nil _
  constructor
  · refine ⟨⟨cancelled, s.folderImportCompleted, s.folderImportTotal, s.folderImportSucceeded⟩, ?_, ?_⟩
    · rw [finishes_append, h.unfinished]
      rfl
    · intro hnot
      obtain ⟨hpending, hraised, hsettled, hmade⟩ := hall hnot
      have hrest : handed (current s) = scanned (current s) := by
        rw [← h.rest hraised, hpending, List.append_nil]
      have hcompleted := h.completed
      have hsucceeded := h.succeeded
      rw [hsettled, hcopies, hrest, List.length_nil] at hcompleted
      rw [hmade] at hsucceeded
      rw [hscanned, hhanded, hrecorded]
      exact ⟨hcompleted.trans h.total.symm, h.total, hrest, hsucceeded⟩
  · rw [hhanded, hscanned]
    exact h.inOrder
  · rw [hhanded, hrecorded]
    exact List.subperm_ext_iff.mpr fun path _ => Nat.le_trans (Nat.le_add_right _ _) (h.once path)

/-- An import ends when no copy runs; unless it is cancelled, everything has been handed over and counted. -/
theorem finishFolderImport_good (h : Accounts settled made s) (hcopies : folderCopies s = []) (cancelled : Bool)
    (hall : s.folderImportRunning = true → cancelled = false → s.folderImportPendingPaths = [] ∧
      s.folderImportGeneration ∉ s.raised ∧ settled = 0 ∧ made = 0) :
    Good (finishFolderImport s.folderImportGeneration cancelled s) := by
  cases hrun : s.folderImportRunning with
  | false =>
    rw [finishFolderImport_idle hrun]
    exact h.of_idle hrun
  | true =>
    have hpresent := h.present hrun
    rw [finishFolderImport_running hrun]
    have hover : Accounts 0 0 { s with
        folderImportBatchTimer := false
        folderImportPendingPaths := []
        folderImportRunning := false
        notices := s.notices ++ [.finished s.folderImportGeneration cancelled s.folderImportCompleted
          s.folderImportTotal s.folderImportSucceeded] } := {
      h with
      noticesKnown := ?_
      past := ?_
      idle := fun _ => ⟨rfl, rfl, hcopies⟩
      present := nofun }
    · exact hover.of_idle rfl
    · intro notice hmem
      rcases List.mem_append.mp hmem with hmem | hmem
      · exact h.noticesKnown notice hmem
      · rw [List.mem_singleton.mp hmem]
        exact Nat.le_refl _
    · intro operation hpos hle _
      by_cases hop : operation = s.folderImportGeneration
      · rw [hop, about_append_same fun notice hlast => by
          rw [List.mem_singleton.mp hlast]
          rfl]
        exact hpresent.settled_of_finished hcopies fun hnot => hall hrun hnot
      · rw [about_append_other fun notice hmem => List.mem_singleton.mp hmem ▸ Ne.symm hop]
        exact h.past operation hpos hle fun _ => hop

/-- What `resumeFolderImport` leaves. -/
theorem resumeFolderImport_good (h : Accounts 0 0 s) (hscanned : Scanned s)
    (hraised : s.folderImportRunning = true → s.folderImportGeneration ∉ s.raised) :
    Good (resumeFolderImport s.folderImportGeneration s) := by
  cases hrun : s.folderImportRunning with
  | false =>
    obtain ⟨-, hpending, -⟩ := h.idle hrun
    rw [resumeFolderImport, hpending, if_neg (by simp)]
    split
    · rw [finishFolderImport_idle hrun]
      exact h.of_idle hrun
    · exact h.of_idle hrun
  | true =>
    have hpresent := h.present hrun
    unfold resumeFolderImport
    split
    next hmore =>
      -- the timer is started
      have hpending : s.folderImportPendingPaths ≠ [] := by
        intro hnil
        simp [hnil] at hmore
      exact {
        accounts := { h with
          idle := fun hidle => absurd (hidle.symm.trans hrun) nofun
          present := fun _ => { hpresent with } }
        scanning := fun _ hscan => absurd hscan (hscanned hrun)
        goesOn := fun _ _ => .inl rfl
        awaits := fun _ _ hnil => absurd hnil hpending }
    next hstop =>
      split
      next hdone =>
        obtain ⟨hpending, hinactive⟩ := Bool.and_eq_true_iff.mp hdone
        exact finishFolderImport_good h (h.inactive_iff.mp hinactive) false fun _ _ =>
          ⟨List.isEmpty_iff.mp hpending, hraised hrun, rfl, rfl⟩
      next hbusy =>
        -- copies run: they fill both places, or nothing waits
        have hcopies : folderCopies s ≠ [] := by
          intro hnone
          have hactive := h.active
          rw [hnone] at hactive
          cases hpending : s.folderImportPendingPaths with
          | nil => simp [hpending, hactive] at hbusy
          | cons path rest => simp [hpending, hactive] at hstop
        exact {
          accounts := h
          scanning := fun _ hscan => absurd hscan (hscanned hrun)
          goesOn := fun _ _ => .inr hcopies
          awaits := fun _ _ _ => hcopies }

/-- `completeFolderImportItems` counts what has been settled. -/
theorem completeFolderImportItems_good (h : Accounts settled made s) (hscanned : Scanned s) :
    Good (completeFolderImportItems s.folderImportGeneration settled made s) := by
  cases hrun : s.folderImportRunning with
  | false =>
    rw [completeFolderImportItems, if_pos (by simp [hrun])]
    exact h.of_idle hrun
  | true =>
    have hpresent := h.present hrun
    have hbound : s.folderImportCompleted + settled ≤ s.folderImportTotal := by
      have hcompleted := hpresent.completed
      have hle := hpresent.inOrder.length_le
      have htotal := hpresent.total
      omega
    rw [completeFolderImportItems, if_neg (by simp [hrun]), Nat.min_eq_right hbound]
    simp only
    have hcounted : Accounts 0 0 { s with
        folderImportCompleted := s.folderImportCompleted + settled
        folderImportSucceeded := s.folderImportSucceeded + made } := {
      h with
      present := fun _ => { hpresent with } }
    split
    next hraised =>
      split
      next hinactive => exact finishFolderImport_good hcounted (hcounted.inactive_iff.mp hinactive) true nofun
      next hactive =>
        have hcopies := fun hnone => hactive (hcounted.inactive_iff.mpr hnone)
        exact {
          accounts := hcounted
          scanning := fun _ hscan => absurd hscan (hscanned hrun)
          goesOn := fun _ _ => .inr hcopies
          awaits := fun _ _ _ => hcopies }
    next hraised => exact resumeFolderImport_good hcounted hscanned fun _ hmem => hraised (hpresent.isRaised_iff.mpr hmem)

/-! ## A batch of the folder -/

theorem folderCopies_advance {operation : Nat} (hop : operation ≠ 0) (cancellation : Option Nat)
    (copied registered : List QString) :
    folderCopies (advance operation cancellation copied registered s) =
      folderCopies s ++ copied.map fun path => ⟨operation, path, cancellation⟩ := by
  unfold folderCopies advance
  rw [List.filter_append]
  congr 1
  refine List.filter_eq_self.mpr fun copy hmem => ?_
  obtain ⟨path, -, rfl⟩ := List.mem_map.mp hmem
  exact bne_iff_ne.mpr hop

theorem folderCopies_advance_untracked (copied registered : List QString) :
    folderCopies (advance 0 none copied registered s) = folderCopies s := by
  unfold folderCopies advance
  rw [List.filter_append, List.append_right_eq_self]
  refine List.filter_eq_nil_iff.mpr fun copy hmem => ?_
  obtain ⟨path, -, rfl⟩ := List.mem_map.mp hmem
  exact nofun

/-- What is said about a batch. -/
def batchNotices (operation : Nat) (batch registered : List QString) : List Notice :=
  batch.map (Notice.handed operation) ++ registered.map (Notice.recorded operation)

theorem batchNotices_operation (operation : Nat) (batch registered : List QString) :
    ∀ notice ∈ batchNotices operation batch registered, notice.operation = operation := by
  intro notice hmem
  rcases List.mem_append.mp hmem with hmem | hmem
  · obtain ⟨path, -, rfl⟩ := List.mem_map.mp hmem
    rfl
  · obtain ⟨path, -, rfl⟩ := List.mem_map.mp hmem
    rfl

theorem batchNotices_spec (operation : Nat) (batch registered : List QString) :
    scanned (batchNotices operation batch registered) = [] ∧ handed (batchNotices operation batch registered) = batch ∧
      recorded (batchNotices operation batch registered) = registered ∧
      finishes (batchNotices operation batch registered) = [] := by
  simp [batchNotices]

/-- The files of a batch are handed over, and copied or settled. -/
theorem Accounts.batch (h : Accounts 0 0 s) (hrun : s.folderImportRunning = true)
    (hraised : s.folderImportGeneration ∉ s.raised) {count processed : Nat} {copied registered : List QString}
    (hall : processed + copied.length = (s.folderImportPendingPaths.take count).length)
    (hplaces : (folderCopies s).length + copied.length ≤ 2)
    (honce : ∀ path, registered.count path + copied.count path ≤
      (s.folderImportPendingPaths.take count).count path) :
    Accounts processed registered.length
      (advance s.folderImportGeneration s.folderImportCancellation copied registered (handOver count s)) := by
  have hpresent := h.present hrun
  have hpos : s.folderImportGeneration ≠ 0 := Nat.pos_iff_ne_zero.mp hpresent.positive
  have hcopies : folderCopies (advance s.folderImportGeneration s.folderImportCancellation copied registered
      (handOver count s)) =
      folderCopies s ++ copied.map fun path => ⟨s.folderImportGeneration, path, s.folderImportCancellation⟩ :=
    folderCopies_advance hpos ..
  have hnotices : (advance s.folderImportGeneration s.folderImportCancellation copied registered
      (handOver count s)).notices =
      s.notices ++ batchNotices s.folderImportGeneration (s.folderImportPendingPaths.take count) registered :=
    List.append_assoc ..
  have hsame := batchNotices_operation s.folderImportGeneration (s.folderImportPendingPaths.take count) registered
  obtain ⟨hscanned, hhanded, hrecorded, hfinishes⟩ :=
    batchNotices_spec s.folderImportGeneration (s.folderImportPendingPaths.take count) registered
  have hcurrent : current (advance s.folderImportGeneration s.folderImportCancellation copied registered
      (handOver count s)) =
      current s ++ batchNotices s.folderImportGeneration (s.folderImportPendingPaths.take count) registered :=
    (congrArg (about _) hnotices).trans (about_append_same hsame)
  have hrest := hpresent.rest hraised
  have hnext : Present processed registered.length
      (advance s.folderImportGeneration s.folderImportCancellation copied registered (handOver count s)) := {
    hpresent with
    total := by
      rw [hcurrent, scanned_append, hscanned, List.append_nil]
      exact hpresent.total
    inOrder := by
      rw [hcurrent, scanned_append, handed_append, hscanned, hhanded, List.append_nil, ← hrest]
      exact (List.prefix_append_right_inj _).mpr (List.take_prefix ..)
    rest := fun _ => by
      rw [hcurrent, scanned_append, handed_append, hscanned, hhanded, List.append_nil, List.append_assoc]
      exact (congrArg (handed (current s) ++ ·) (List.take_append_drop ..)).trans hrest
    dropped := fun hmem => absurd hmem hraised
    completed := by
      have hcompleted := hpresent.completed
      rw [hcurrent, hcopies, handed_append, hhanded, List.length_append, List.length_append, List.length_map, ← hall]
      show s.folderImportCompleted + processed + ((folderCopies s).length + copied.length) =
        (handed (current s)).length + (processed + copied.length)
      omega
    succeeded := by
      rw [hcurrent, recorded_append, hrecorded, List.length_append, ← hpresent.succeeded]
      rfl
    once := fun path => by
      have hbefore := hpresent.once path
      have hbatch := honce path
      rw [hcurrent, hcopies, handed_append, hhanded, recorded_append, hrecorded, List.map_append, List.map_map,
        List.count_append, List.count_append, List.count_append]
      simp only [Function.comp_def, List.map_id']
      omega
    unfinished := by
      rw [hcurrent, finishes_append, hfinishes, hpresent.unfinished]
      rfl }
  exact {
    h with
    noticesKnown := fun notice hmem => by
      rw [hnotices] at hmem
      rcases List.mem_append.mp hmem with hmem | hmem
      · exact h.noticesKnown notice hmem
      · exact Nat.le_of_eq (hsame notice hmem)
    copies := fun copy hmem => by
      rw [hcopies] at hmem
      rcases List.mem_append.mp hmem with hmem | hmem
      · exact h.copies copy hmem
      · obtain ⟨path, -, rfl⟩ := List.mem_map.mp hmem
        rfl
    active := by
      rw [hcopies, List.length_append, List.length_map, Int.natCast_add, ← h.active]
      exact congrArg (fun more : Nat => s.folderImportActiveCopies + more) (if_neg hpos)
    slots := by
      rw [hcopies, List.length_append, List.length_map]
      exact hplaces
    past := fun operation hone hle hother => by
      rw [hnotices, about_append_other fun notice hmem heq => hother hrun ((hsame notice hmem).symm.trans heq).symm]
      exact h.past operation hone hle hother
    idle := fun hidle => absurd (hidle.symm.trans hrun) nofun
    present := fun _ => hnext }

/-- What ending, going on and counting leave alone. -/
structure Steady (s s' : ViewModel) : Prop where
  generation : s'.folderImportGeneration = s.folderImportGeneration
  raised : s'.raised = s.raised
  scans : s'.scans = s.scans
  activeCopies : s'.activeCopies = s.activeCopies
  running : s'.folderImportRunning = true → s.folderImportRunning = true
  pending : s'.folderImportRunning = true → s'.folderImportPendingPaths = s.folderImportPendingPaths
  timer : s'.folderImportRunning = true → s'.folderImportBatchTimer = true →
    s.folderImportBatchTimer = true ∨ s.folderImportPendingPaths ≠ []

theorem Steady.refl (s : ViewModel) : Steady s s := ⟨rfl, rfl, rfl, rfl, id, fun _ => rfl, fun _ => .inl⟩

theorem Steady.trans {s s' s'' : ViewModel} (h : Steady s s') (h' : Steady s' s'') : Steady s s'' where
  generation := h'.generation.trans h.generation
  raised := h'.raised.trans h.raised
  scans := h'.scans.trans h.scans
  activeCopies := h'.activeCopies.trans h.activeCopies
  running hrun := h.running (h'.running hrun)
  pending hrun := (h'.pending hrun).trans (h.pending (h'.running hrun))
  timer hrun htimer := by
    have hbefore := h'.running hrun
    rcases h'.timer hrun htimer with htimer | hpending
    · exact h.timer hbefore htimer
    · exact .inr (h.pending hbefore ▸ hpending)

theorem finishFolderImport_steady (operation : Nat) (cancelled : Bool) :
    Steady s (finishFolderImport operation cancelled s) := by
  unfold finishFolderImport
  split
  · exact .refl s
  · exact ⟨rfl, rfl, rfl, rfl, nofun, nofun, nofun⟩

theorem resumeFolderImport_steady (operation : Nat) : Steady s (resumeFolderImport operation s) := by
  unfold resumeFolderImport
  split
  next hmore =>
    refine ⟨rfl, rfl, rfl, rfl, id, fun _ => rfl, fun _ _ => .inr fun hnil => ?_⟩
    simp [hnil] at hmore
  next =>
    split
    · exact finishFolderImport_steady operation false
    · exact .refl s

theorem completeFolderImportItems_steady (operation settled made : Nat) :
    Steady s (completeFolderImportItems operation settled made s) := by
  unfold completeFolderImportItems
  split
  · exact .refl s
  · simp only
    have hcounted : Steady s { s with
        folderImportCompleted := min s.folderImportTotal (s.folderImportCompleted + settled)
        folderImportSucceeded := s.folderImportSucceeded + made } :=
      ⟨rfl, rfl, rfl, rfl, id, fun _ => rfl, fun _ => .inl⟩
    split
    · split
      · exact hcounted.trans (finishFolderImport_steady operation true)
      · exact hcounted
    · exact hcounted.trans (resumeFolderImport_steady operation)

/-- The urls of a batch are those of its paths. -/
theorem map_path_batch (batch : List QString) (look : Nat → QString → Url) :
    (batch.mapIdx fun index path => { look index path with path }).map (·.path) = batch := by
  refine List.ext_getElem (by rw [List.length_map, List.length_mapIdx]) fun index _ _ => ?_
  rw [List.getElem_map, List.getElem_mapIdx]

/-- A batch of the folder goes through `importUrlsInternal`. -/
theorem importUrlsInternal_batch (h : Accounts 0 0 s) (hrun : s.folderImportRunning = true) (hscanned : Scanned s)
    (hraised : s.folderImportGeneration ∉ s.raised) (count : Nat) (look : Nat → QString → Url)
    (hplaces : s.managedMediaCopyEnabled = true → (folderCopies s).length + count ≤ 2) :
    ∃ copied registered : List QString, copied.length ≤ (s.folderImportPendingPaths.take count).length ∧
      ∃ s', (importUrlsInternal ((s.folderImportPendingPaths.take count).mapIdx fun index path =>
        { look index path with path }) s.folderImportGeneration (handOver count s)).2 = s' ∧
      Accounts 0 0 s' ∧ Steady (advance s.folderImportGeneration s.folderImportCancellation copied registered
        (handOver count s)) s' := by
  have hpos : s.folderImportGeneration ≠ 0 := Nat.pos_iff_ne_zero.mp (h.present hrun).positive
  obtain ⟨copied, registered, processed, hall, hfew, hoff, honce, hstate⟩ := importUrlsInternal_tracked hpos
    ((s.folderImportPendingPaths.take count).mapIdx fun index path => { look index path with path }) (handOver count s)
  rw [List.length_mapIdx] at hall
  rw [map_path_batch] at honce
  have hfit : (folderCopies s).length + copied.length ≤ 2 := by
    cases hmanaged : s.managedMediaCopyEnabled with
    | false =>
      rw [hoff hmanaged]
      exact h.slots
    | true =>
      have hcount := hplaces hmanaged
      have htake := List.length_take_le count s.folderImportPendingPaths
      omega
  have hnext := h.batch hrun hraised hall hfit honce
  refine ⟨copied, registered, by omega, _, hstate, ?_⟩
  by_cases hnone : processed = 0
  · have hnothing : registered.length = 0 := Nat.le_zero.mp (hnone ▸ hfew)
    rw [hnone, hnothing] at hnext
    simp only [hnone, if_true]
    exact ⟨hnext, .refl _⟩
  · simp only [hnone, if_false]
    exact ⟨(completeFolderImportItems_good hnext hscanned).accounts, completeFolderImportItems_steady ..⟩

/-- How much is still to do: what waits, what is being copied, and the timer. -/
def weight (s : ViewModel) : Nat :=
  3 * s.folderImportPendingPaths.length + 2 * (folderCopies s).length + s.folderImportBatchTimer.toNat

theorem weight_steady {s s' : ViewModel} (h : Steady s s') (hrun : s'.folderImportRunning = true) :
    weight s' = 3 * s.folderImportPendingPaths.length + 2 * (folderCopies s).length +
      s'.folderImportBatchTimer.toNat := by
  unfold weight folderCopies
  rw [h.pending hrun, h.activeCopies]

/-- A batch makes less to do, also when all of its files are copied and the timer is started again. -/
theorem weight_batch {s' : ViewModel} (hoff : s.folderImportBatchTimer = false) (hop : s.folderImportGeneration ≠ 0)
    {count : Nat} (hcount : s.folderImportPendingPaths ≠ [] → 0 < count)
    (hle : count ≤ s.folderImportPendingPaths.length) {copied registered : List QString} (hcopied : copied.length ≤ count)
    (h : Steady (advance s.folderImportGeneration s.folderImportCancellation copied registered (handOver count s)) s')
    (hrun : s'.folderImportRunning = true) : weight s' ≤ weight s := by
  have hweight := weight_steady h hrun
  rw [folderCopies_advance hop, List.length_append, List.length_map] at hweight
  have hdrop : (s.folderImportPendingPaths.drop count).length = s.folderImportPendingPaths.length - count :=
    List.length_drop
  have hless : weight s' = 3 * (s.folderImportPendingPaths.drop count).length +
      2 * ((folderCopies s).length + copied.length) + s'.folderImportBatchTimer.toNat := hweight
  have hbefore : weight s = 3 * s.folderImportPendingPaths.length + 2 * (folderCopies s).length := by
    rw [weight, hoff]
    rfl
  have htimer := h.timer hrun
  have hone : s'.folderImportBatchTimer.toNat ≤ 1 := Bool.toNat_le _
  by_cases hpending : s.folderImportPendingPaths = []
  · -- nothing is left to hand over, and the timer is not started
    have hstopped : s'.folderImportBatchTimer = false := by
      rw [Bool.eq_false_iff]
      intro hon
      rcases htimer hon with hon | hmore
      · exact absurd (hoff.symm.trans hon) nofun
      · exact hmore (by rw [advance, handOver, hpending, List.drop_nil])
    rw [hpending, List.length_nil] at hle
    rw [hless, hbefore, hstopped, hpending, List.drop_nil, Bool.toNat_false, List.length_nil]
    omega
  · have hpos := hcount hpending
    omega

theorem availableSlots_nonneg (s : ViewModel) : 0 ≤ availableSlots s := by
  unfold availableSlots
  split <;> omega

/-- Without a place for another file, copies run. -/
theorem Accounts.copies_of_full (h : Accounts settled made s) (hfull : availableSlots s = 0)
    (hawaits : s.folderImportPendingPaths = [] → folderCopies s ≠ []) : folderCopies s ≠ [] := by
  have hactive := h.active
  unfold availableSlots at hfull
  split at hfull
  · intro hnone
    rw [hnone, List.length_nil] at hactive
    omega
  · exact hawaits (List.length_eq_zero_iff.mp (by omega))

/-- A batch of copies fits into the places that are free. -/
theorem Accounts.places (h : Accounts settled made s) (hmanaged : s.managedMediaCopyEnabled = true) :
    (folderCopies s).length + min (availableSlots s).toNat s.folderImportPendingPaths.length ≤ 2 := by
  have hactive := h.active
  have hslots := h.slots
  rw [availableSlots, if_pos hmanaged]
  omega

/-- The timer has gone off: a batch keeps the account, and brings the import nearer to its end. -/
theorem processFolderImportBatch_good (h : Accounts 0 0 s) (hrun : s.folderImportRunning = true)
    (hscanned : Scanned s) (hoff : s.folderImportBatchTimer = false)
    (hawaits : s.folderImportPendingPaths = [] → folderCopies s ≠ []) (look : Nat → QString → Url) :
    Good (processFolderImportBatch look s) ∧ (processFolderImportBatch look s).scans = s.scans ∧
      (processFolderImportBatch look s).folderImportGeneration = s.folderImportGeneration ∧
      ((processFolderImportBatch look s).folderImportRunning = true →
        weight (processFolderImportBatch look s) ≤ weight s) := by
  have hpresent := h.present hrun
  -- nothing is done: copies run
  have hstays : folderCopies s ≠ [] → Good s := fun hcopies => {
    accounts := h
    scanning := fun _ hscan => absurd hscan (hscanned hrun)
    goesOn := fun _ _ => .inr hcopies
    awaits := fun _ _ _ => hcopies }
  unfold processFolderImportBatch
  split
  next hraised =>
    split
    next hinactive =>
      have hsteady := finishFolderImport_steady (s := s) s.folderImportGeneration true
      refine ⟨finishFolderImport_good h (h.inactive_iff.mp hinactive) true nofun, hsteady.scans, hsteady.generation, ?_⟩
      rw [finishFolderImport_running hrun]
      exact nofun
    next hactive =>
      exact ⟨hstays fun hnone => hactive (h.inactive_iff.mpr hnone), rfl, rfl, fun _ => Nat.le_refl _⟩
  next hgo =>
    have hraised : s.folderImportGeneration ∉ s.raised := by
      intro hmem
      exact hgo (by simp [hpresent.isRaised_iff.mpr hmem])
    split
    next hfull =>
      exact ⟨hstays (h.copies_of_full (beq_iff_eq.mp hfull) hawaits), rfl, rfl, fun _ => Nat.le_refl _⟩
    next hslots =>
      simp only
      obtain ⟨copied, registered, hcopied, s', hs', haccounts, hsteady⟩ := importUrlsInternal_batch h hrun hscanned
        hraised (min (availableSlots s).toNat s.folderImportPendingPaths.length) look h.places
      rw [hs']
      have hafter := hsteady.trans (resumeFolderImport_steady s'.folderImportGeneration)
      refine ⟨resumeFolderImport_good haccounts ?_ ?_, hafter.scans, hafter.generation, ?_⟩
      · intro _ hscan
        rw [hsteady.generation, hsteady.scans] at hscan
        exact hscanned hrun hscan
      · intro _ hmem
        rw [hsteady.generation, hsteady.raised] at hmem
        exact hraised hmem
      · intro hstill
        have hplaces : 0 < (availableSlots s).toNat := Nat.pos_of_ne_zero fun hzero =>
          hslots (beq_iff_eq.mpr (Int.le_antisymm (Int.toNat_eq_zero.mp hzero) (availableSlots_nonneg s)))
        rw [List.length_take] at hcopied
        refine weight_batch hoff (Nat.pos_iff_ne_zero.mp hpresent.positive) ?_ (Nat.min_le_right ..)
          (Nat.le_trans hcopied (Nat.min_le_left ..)) hafter hstill
        intro hpending
        exact Nat.lt_min.mpr ⟨hplaces, List.length_pos_iff.mpr hpending⟩

/-! ## The other events -/

/-- The setting, and files that do not come from the folder. -/
theorem Good.aside (h : Good s) (enabled : Bool) {copies : List ManagedCopy} {more : List Notice}
    (hcopies : copies.filter (·.operation != 0) = folderCopies s) (hmore : ∀ notice ∈ more, notice.operation = 0) :
    Good { s with
      managedMediaCopyEnabled := enabled
      activeCopies := copies
      notices := s.notices ++ more } := by
  generalize hs' : { s with
    managedMediaCopyEnabled := enabled
    activeCopies := copies
    notices := s.notices ++ more } = s'
  have hfolder : folderCopies s' = folderCopies s := hs' ▸ hcopies
  have hgeneration : s'.folderImportGeneration = s.folderImportGeneration := hs' ▸ rfl
  have hnotices : s'.notices = s.notices ++ more := hs' ▸ rfl
  have habout : ∀ operation, 0 < operation → about operation s'.notices = about operation s.notices := by
    intro operation hpos
    rw [hnotices, about_append_other]
    intro notice hmem heq
    exact absurd ((hmore notice hmem).symm.trans heq) (Nat.ne_of_lt hpos)
  have hcurrent : s.folderImportRunning = true → current s' = current s := by
    intro hrun
    rw [current, current, hgeneration]
    exact habout _ (h.accounts.present hrun).positive
  subst hs'
  exact {
    accounts := {
      h.accounts with
      noticesKnown := fun notice hmem => by
        rcases List.mem_append.mp hmem with hmem | hmem
        · exact h.accounts.noticesKnown notice hmem
        · rw [hmore notice hmem]
          exact Nat.zero_le _
      copies := fun copy hmem => h.accounts.copies copy (hfolder ▸ hmem)
      active := hfolder ▸ h.accounts.active
      slots := hfolder ▸ h.accounts.slots
      past := fun operation hpos hle hother => habout operation hpos ▸ h.accounts.past operation hpos hle hother
      idle := fun hidle => hfolder ▸ h.accounts.idle hidle
      present := fun hrun => by
        have hpresent := h.accounts.present hrun
        have hsame := hcurrent hrun
        exact {
          hpresent with
          total := hsame ▸ hpresent.total
          inOrder := hsame ▸ hpresent.inOrder
          rest := hsame ▸ hpresent.rest
          completed := hsame ▸ hfolder ▸ hpresent.completed
          succeeded := hsame ▸ hpresent.succeeded
          once := hsame ▸ hfolder ▸ hpresent.once
          unfinished := hsame ▸ hpresent.unfinished } }
    scanning := fun hrun hscan => hcurrent hrun ▸ h.scanning hrun hscan
    goesOn := fun hrun hscan => hfolder ▸ h.goesOn hrun hscan
    awaits := fun hrun hscan => hfolder ▸ h.awaits hrun hscan }

theorem nothingSaid : ∀ notice ∈ ([] : List Notice), notice.operation = 0 := nofun

theorem importUrls_good (h : Good s) (urls : List Url) : Good (importUrlsInternal urls 0 s).2 := by
  obtain ⟨copied, registered, hstate⟩ := importUrlsInternal_untracked urls s
  rw [hstate]
  have hnotices : ∀ notice ∈ registered.map (Notice.recorded 0), notice.operation = 0 := by
    intro notice hmem
    obtain ⟨path, -, rfl⟩ := List.mem_map.mp hmem
    rfl
  simpa [advance] using
    h.aside s.managedMediaCopyEnabled (folderCopies_advance_untracked copied registered) hnotices

/-- A new import begins with empty accounts. -/
theorem importFolder_good (h : Good s) (readable : Bool) : Good (importFolder readable s) := by
  unfold importFolder
  split
  · exact h
  next hrun =>
    have hidle : s.folderImportRunning = false := Bool.eq_false_iff.mpr hrun
    split
    · exact h
    · obtain ⟨htimer, -, hcopies⟩ := h.accounts.idle hidle
      have hnew : about (s.folderImportGeneration + 1) s.notices = [] := about_other fun notice hmem =>
        Nat.ne_of_lt (Nat.lt_succ_of_le (h.accounts.noticesKnown notice hmem))
      have hunraised : s.folderImportGeneration + 1 ∉ s.raised := fun hmem =>
        Nat.not_succ_le_self _ (h.accounts.raisedKnown _ hmem)
      have hnone : s.folderImportGeneration + 1 ∉ s.scans := fun hmem =>
        Nat.not_succ_le_self _ (h.accounts.scansKnown _ hmem)
      simp only
      generalize hs' : { s with
        folderImportGeneration := s.folderImportGeneration + 1
        folderImportCancellation := some (s.folderImportGeneration + 1)
        folderImportRunning := true
        folderImportCompleted := 0
        folderImportTotal := 0
        folderImportSucceeded := 0
        folderImportActiveCopies := 0
        folderImportPendingPaths := []
        scans := s.scans ++ [s.folderImportGeneration + 1] } = s'
      have hcurrent : current s' = [] := hs' ▸ hnew
      have hfolder : folderCopies s' = [] := hs' ▸ hcopies
      subst hs'
      exact {
        accounts := {
          noticesKnown := fun notice hmem => Nat.le_succ_of_le (h.accounts.noticesKnown notice hmem)
          raisedKnown := fun operation hmem => Nat.le_succ_of_le (h.accounts.raisedKnown operation hmem)
          scansKnown := fun operation hmem => by
            rcases List.mem_append.mp hmem with hmem | hmem
            · exact Nat.le_succ_of_le (h.accounts.scansKnown operation hmem)
            · exact Nat.le_of_eq (List.mem_singleton.mp hmem)
          scansOnce := List.nodup_append.mpr ⟨h.accounts.scansOnce, List.pairwise_singleton _ _,
            fun operation hmem _ hlast heq => hnone (List.mem_singleton.mp hlast ▸ heq ▸ hmem)⟩
          copies := fun copy hmem => absurd (hfolder ▸ hmem) List.not_mem_nil
          active := by
            rw [hfolder]
            rfl
          slots := by
            rw [hfolder]
            exact Nat.zero_le _
          past := fun operation hpos hle hother => h.accounts.past operation hpos
            (Nat.le_of_lt_succ (Nat.lt_of_le_of_ne hle (hother rfl))) fun hwas => absurd (hidle.symm.trans hwas) nofun
          idle := nofun
          present := fun _ => {
            positive := Nat.succ_pos _
            cancellation := rfl
            total := by
              rw [hcurrent]
              rfl
            inOrder := by
              rw [hcurrent]
              exact List.nil_prefix
            rest := fun _ => by
              rw [hcurrent]
              rfl
            dropped := fun _ => rfl
            completed := by
              rw [hcurrent, hfolder]
              rfl
            succeeded := by
              rw [hcurrent]
              rfl
            once := fun path => by
              rw [hcurrent, hfolder]
              exact Nat.le_refl _
            unfinished := by
              rw [hcurrent]
              rfl } }
        scanning := fun _ _ => ⟨by
          rw [hcurrent]
          rfl, htimer, hunraised⟩
        goesOn := fun _ hscan => absurd (List.mem_append_right _ (List.mem_singleton_self _)) hscan
        awaits := fun _ hscan => absurd (List.mem_append_right _ (List.mem_singleton_self _)) hscan }

theorem cancelFolderImport_good (h : Good s) : Good (cancelFolderImport s) := by
  unfold cancelFolderImport
  split
  · exact h
  next hnot =>
    have hrun : s.folderImportRunning = true := by simpa using hnot
    have hpresent := h.accounts.present hrun
    have hflag : s.folderImportCancellation.toList = [s.folderImportGeneration] :=
      congrArg Option.toList hpresent.cancellation
    simp only [hflag]
    have hraised : Accounts 0 0 { s with
        raised := s.raised ++ [s.folderImportGeneration]
        folderImportBatchTimer := false
        folderImportPendingPaths := [] } := {
      h.accounts with
      raisedKnown := fun operation hmem => by
        rcases List.mem_append.mp hmem with hmem | hmem
        · exact h.accounts.raisedKnown operation hmem
        · exact Nat.le_of_eq (List.mem_singleton.mp hmem)
      idle := fun hidle => absurd (hidle.symm.trans hrun) nofun
      present := fun _ => {
        hpresent with
        cancellation := hpresent.cancellation
        rest := fun hmem => absurd (List.mem_append_right _ (List.mem_singleton_self _)) hmem
        dropped := fun _ => rfl } }
    split
    next hinactive => exact finishFolderImport_good hraised (hraised.inactive_iff.mp hinactive) true nofun
    next hactive =>
      have hcopies : folderCopies s ≠ [] := fun hnone => hactive (hraised.inactive_iff.mpr hnone)
      exact {
        accounts := hraised
        scanning := fun _ hscan => absurd hscan (h.scanned_of_copies hcopies hrun)
        goesOn := fun _ _ => .inr hcopies
        awaits := fun _ _ _ => hcopies }

theorem Accounts.scan_gone (h : Accounts settled made s) (operation : Nat) :
    Accounts settled made { s with scans := s.scans.erase operation } :=
  { h with
    scansKnown := fun other hother => h.scansKnown other (List.mem_of_mem_erase hother)
    scansOnce := h.scansOnce.erase operation
    present := fun hrun => { h.present hrun with } }

/-- The callback of an earlier scan changes nothing. -/
theorem scanFinished_earlier {operation : Nat}
    (hearlier : operation = s.folderImportGeneration → s.folderImportRunning = false) (result : FolderScanResult) :
    scanFinished operation result s = s := by
  rw [scanFinished, if_pos]
  by_cases hop : operation = s.folderImportGeneration
  · simp [hearlier hop]
  · simp [hop]

theorem Good.scan_gone (h : Good s) {operation : Nat}
    (hearlier : operation = s.folderImportGeneration → s.folderImportRunning = false) :
    Good { s with scans := s.scans.erase operation } := by
  have hstill : s.folderImportRunning = true →
      s.folderImportGeneration ∉ s.scans.erase operation → s.folderImportGeneration ∉ s.scans := by
    intro hrun hscan hwas
    refine hscan ((List.mem_erase_of_ne fun heq => ?_).mpr hwas)
    exact absurd ((hearlier heq.symm).symm.trans hrun) nofun
  exact {
    accounts := h.accounts.scan_gone operation
    scanning := fun hrun hscan => h.scanning hrun (List.mem_of_mem_erase hscan)
    goesOn := fun hrun hscan => h.goesOn hrun (hstill hrun hscan)
    awaits := fun hrun hscan => h.awaits hrun (hstill hrun hscan) }

/-- The scan of the import that runs calls back. -/
theorem scanFinished_now (h : Good s) (hrun : s.folderImportRunning = true)
    (hmem : s.folderImportGeneration ∈ s.scans) (result : FolderScanResult) :
    Good (scanFinished s.folderImportGeneration result
      { s with scans := s.scans.erase s.folderImportGeneration }) := by
  obtain ⟨hscanned, -, hraised⟩ := h.scanning hrun hmem
  have hpresent := h.accounts.present hrun
  have hhanded : handed (current s) = [] := List.prefix_nil.mp (hscanned ▸ hpresent.inOrder)
  have hpending : s.folderImportPendingPaths = [] := by
    have hrest := hpresent.rest hraised
    rw [hhanded, hscanned] at hrest
    exact hrest
  have hcopies : folderCopies s = [] := by
    have hcompleted := hpresent.completed
    rw [hhanded, List.length_nil] at hcompleted
    exact List.length_eq_zero_iff.mp (by omega)
  have hgone := h.accounts.scan_gone s.folderImportGeneration
  have hfinished : ∀ cancelled, Good (finishFolderImport s.folderImportGeneration cancelled
      { s with scans := s.scans.erase s.folderImportGeneration }) := fun cancelled =>
    finishFolderImport_good hgone hcopies cancelled fun _ _ => ⟨hpending, hraised, rfl, rfl⟩
  unfold scanFinished
  rw [if_neg (by simp [hrun])]
  split
  · exact hfinished true
  · split
    · exact hfinished false
    · split
      · exact hfinished false
      next hsome =>
        -- the paths wait from now on
        have hpaths : result.paths ≠ [] := fun hnil => hsome (List.isEmpty_iff.mpr hnil)
        simp only
        generalize hs' : { s with
          scans := s.scans.erase s.folderImportGeneration
          folderImportPendingPaths := result.paths
          folderImportTotal := result.paths.length
          folderImportBatchTimer := true
          notices := s.notices ++ [Notice.scanned s.folderImportGeneration result.paths] } = s'
        have hcurrent : current s' = current s ++ [Notice.scanned s.folderImportGeneration result.paths] := by
          subst hs'
          exact about_append_same (operation_of_mem_singleton rfl)
        have hscanned' : scanned (current s') = result.paths := by
          rw [hcurrent, scanned_append, hscanned]
          exact List.append_nil _
        have hhanded' : handed (current s') = [] := by
          rw [hcurrent, handed_append, hhanded]
          rfl
        have hrecorded' : recorded (current s') = recorded (current s) := by
          rw [hcurrent, recorded_append]
          exact List.append_nil _
        subst hs'
        exact {
          accounts := {
            hgone with
            noticesKnown := fun notice hlast => by
              rcases List.mem_append.mp hlast with hlast | hlast
              · exact h.accounts.noticesKnown notice hlast
              · rw [List.mem_singleton.mp hlast]
                exact Nat.le_refl _
            past := fun operation hpos hle hother => by
              rw [about_append_other fun notice hlast => by
                rw [List.mem_singleton.mp hlast]
                exact (hother hrun).symm]
              exact h.accounts.past operation hpos hle hother
            idle := fun hidle => absurd (hidle.symm.trans hrun) nofun
            present := fun _ => {
              hpresent with
              total := congrArg List.length hscanned'.symm
              inOrder := hhanded' ▸ List.nil_prefix
              rest := fun _ => by
                rw [hhanded', hscanned']
                rfl
              dropped := fun hflag => absurd hflag hraised
              completed := by
                rw [hhanded', ← hhanded]
                exact hpresent.completed
              succeeded := hrecorded' ▸ hpresent.succeeded
              once := fun path => by
                rw [hrecorded', hhanded', ← hhanded]
                exact hpresent.once path
              unfinished := by
                rw [hcurrent, finishes_append, hpresent.unfinished]
                rfl } }
          scanning := fun _ hscan => absurd hscan (h.accounts.scansOnce.not_mem_erase)
          goesOn := fun _ _ => .inl rfl
          awaits := fun _ _ hnil => absurd hnil hpaths }

/-- The callback of a copy that does not belong to the import that runs leaves the account alone. -/
theorem copyFinished_untracked {copy : ManagedCopy}
    (hother : copy.operation = 0 ∨ copy.operation ≠ s.folderImportGeneration) (result : ManagedCopyResult) :
    copyFinished copy result s = s ∨
      copyFinished copy result s = { s with notices := s.notices ++ [.recorded copy.operation copy.path] } := by
  have huntracked : (copy.operation != 0 && copy.operation == s.folderImportGeneration) = false := by
    rcases hother with hzero | hne
    · simp [hzero]
    · simp [hne]
  unfold copyFinished
  simp only [huntracked, Bool.false_eq_true, if_false]
  split
  · exact .inl rfl
  · split
    · exact .inl rfl
    · split
      · exact .inl rfl
      · split
        · exact .inl rfl
        · exact .inr rfl

/-- What is said about a copy that has become a recording, or has not. -/
def recordedNotices (copy : ManagedCopy) (made : Nat) : List Notice :=
  if made = 1 then [.recorded copy.operation copy.path] else []

theorem recordedNotices_operation (copy : ManagedCopy) (made : Nat) :
    ∀ notice ∈ recordedNotices copy made, notice.operation = copy.operation := by
  unfold recordedNotices
  split
  · exact operation_of_mem_singleton rfl
  · exact nofun

theorem recordedNotices_spec (copy : ManagedCopy) {made : Nat} (hmade : made ≤ 1) :
    scanned (recordedNotices copy made) = [] ∧ handed (recordedNotices copy made) = [] ∧
      (recorded (recordedNotices copy made)).length = made ∧
      (∀ path, (recorded (recordedNotices copy made)).count path ≤ [copy.path].count path) ∧
      finishes (recordedNotices copy made) = [] := by
  rcases Nat.le_one_iff_eq_zero_or_eq_one.mp hmade with rfl | rfl
  · exact ⟨rfl, rfl, rfl, fun path => Nat.zero_le _, rfl⟩
  · exact ⟨rfl, rfl, rfl, fun path => Nat.le_refl _, rfl⟩

/-- The callback of a copy of the import that runs settles one file, with a recording or without. -/
theorem copyFinished_tracked {copy : ManagedCopy} (hpos : copy.operation ≠ 0)
    (hop : copy.operation = s.folderImportGeneration) (result : ManagedCopyResult) :
    ∃ made, made ≤ 1 ∧ copyFinished copy result s = completeFolderImportItems copy.operation 1 made { s with
      folderImportActiveCopies := s.folderImportActiveCopies - 1
      notices := s.notices ++ recordedNotices copy made } := by
  have htracked : (copy.operation != 0 && copy.operation == s.folderImportGeneration) = true := by
    simp [hop, hop ▸ hpos]
  have hfailed : ∃ made, made ≤ 1 ∧ completeFolderImportItems copy.operation 1 0
      { s with folderImportActiveCopies := s.folderImportActiveCopies - 1 } =
      completeFolderImportItems copy.operation 1 made { s with
        folderImportActiveCopies := s.folderImportActiveCopies - 1
        notices := s.notices ++ recordedNotices copy made } :=
    ⟨0, Nat.zero_le _, by rw [recordedNotices, if_neg Nat.zero_ne_one, List.append_nil]⟩
  unfold copyFinished
  simp only [htracked, if_true]
  split
  · exact hfailed
  · split
    · exact hfailed
    · split
      · exact hfailed
      · split
        · exact hfailed
        · exact ⟨1, Nat.le_refl _, rfl⟩

theorem folderCopies_erase (copy : ManagedCopy) :
    folderCopies { s with activeCopies := s.activeCopies.erase copy } = (folderCopies s).erase copy :=
  List.erase_filter.symm

theorem folderCopies_erase_untracked {copy : ManagedCopy} (hzero : copy.operation = 0) :
    folderCopies { s with activeCopies := s.activeCopies.erase copy } = folderCopies s := by
  rw [folderCopies_erase, List.erase_of_not_mem]
  intro hmem
  exact bne_iff_ne.mp (List.mem_filter.mp hmem).2 hzero

/-- A copy of the import that runs is no longer active: one file is settled. -/
theorem Accounts.copy_gone (h : Accounts 0 0 s) (hrun : s.folderImportRunning = true) {copy : ManagedCopy}
    (hmem : copy ∈ folderCopies s) {made : Nat} (hmade : made ≤ 1) :
    Accounts 1 made { s with
      activeCopies := s.activeCopies.erase copy
      folderImportActiveCopies := s.folderImportActiveCopies - 1
      notices := s.notices ++ recordedNotices copy made } := by
  have hpresent := h.present hrun
  have hop := h.copies copy hmem
  have hsame : ∀ notice ∈ recordedNotices copy made, notice.operation = s.folderImportGeneration :=
    hop ▸ recordedNotices_operation copy made
  obtain ⟨hscanned, hhanded, hrecorded, hcount, hfinishes⟩ := recordedNotices_spec copy hmade
  generalize hs' : { s with
    activeCopies := s.activeCopies.erase copy
    folderImportActiveCopies := s.folderImportActiveCopies - 1
    notices := s.notices ++ recordedNotices copy made } = s'
  have hperm : (folderCopies s).Perm (copy :: folderCopies s') := by
    subst hs'
    exact (List.perm_cons_erase hmem).trans (.of_eq (congrArg _ (folderCopies_erase copy).symm))
  have hlength : (folderCopies s).length = (folderCopies s').length + 1 := hperm.length_eq
  have hcurrent : current s' = current s ++ recordedNotices copy made := hs' ▸ about_append_same hsame
  subst hs'
  exact {
    h with
    noticesKnown := fun notice hnotice => by
      rcases List.mem_append.mp hnotice with hnotice | hnotice
      · exact h.noticesKnown notice hnotice
      · exact Nat.le_of_eq (hsame notice hnotice)
    copies := fun other hother => h.copies other (hperm.mem_iff.mpr (List.mem_cons_of_mem _ hother))
    active := by
      have hactive := h.active
      rw [hlength] at hactive
      show s.folderImportActiveCopies - 1 = _
      omega
    slots := by
      have hslots := h.slots
      omega
    past := fun operation hpos hle hother => by
      rw [about_append_other fun notice hnotice heq => hother hrun ((hsame notice hnotice).symm.trans heq).symm]
      exact h.past operation hpos hle hother
    idle := fun hidle => absurd (hidle.symm.trans hrun) nofun
    present := fun _ => {
      hpresent with
      total := by
        rw [hcurrent, scanned_append, hscanned, List.append_nil]
        exact hpresent.total
      inOrder := by
        rw [hcurrent, scanned_append, handed_append, hscanned, hhanded, List.append_nil, List.append_nil]
        exact hpresent.inOrder
      rest := fun hraised => by
        rw [hcurrent, scanned_append, handed_append, hscanned, hhanded, List.append_nil, List.append_nil]
        exact hpresent.rest hraised
      completed := by
        have hcompleted := hpresent.completed
        rw [hcurrent, handed_append, hhanded, List.append_nil]
        rw [hlength] at hcompleted
        show s.folderImportCompleted + 1 + _ = _
        omega
      succeeded := by
        rw [hcurrent, recorded_append, List.length_append, hrecorded, ← hpresent.succeeded]
        rfl
      once := fun path => by
        have honce := hpresent.once path
        have hpath := hcount path
        rw [(hperm.map (·.path)).count_eq, List.map_cons, List.count_cons] at honce
        rw [List.count_singleton] at hpath
        rw [hcurrent, recorded_append, handed_append, hhanded, List.append_nil, List.count_append]
        omega
      unfinished := by
        rw [hcurrent, finishes_append, hfinishes, hpresent.unfinished]
        rfl } }

theorem Good.running_of_copies (h : Good s) (hcopies : folderCopies s ≠ []) : s.folderImportRunning = true := by
  by_contra hnot
  exact hcopies (h.accounts.idle (Bool.eq_false_iff.mpr hnot)).2.2

/-- A copy calls back: one of the folder that is imported, or one of other files. -/
theorem copyFinished_good (h : Good s) {copy : ManagedCopy} (hmem : copy ∈ s.activeCopies)
    (result : ManagedCopyResult) :
    Good (copyFinished copy result { s with activeCopies := s.activeCopies.erase copy }) := by
  by_cases hzero : copy.operation = 0
  · have hfilter : (s.activeCopies.erase copy).filter (·.operation != 0) = folderCopies s :=
      folderCopies_erase_untracked hzero
    rcases copyFinished_untracked (s := { s with activeCopies := s.activeCopies.erase copy }) (.inl hzero) result with
      hsame | hsame
    · rw [hsame]
      simpa using h.aside s.managedMediaCopyEnabled hfilter nothingSaid
    · rw [hsame]
      exact h.aside s.managedMediaCopyEnabled hfilter (operation_of_mem_singleton hzero)
  · have htracked : copy ∈ folderCopies s := List.mem_filter.mpr ⟨hmem, bne_iff_ne.mpr hzero⟩
    have hcopies := List.ne_nil_of_mem htracked
    have hrun := h.running_of_copies hcopies
    have hop := h.accounts.copies copy htracked
    obtain ⟨made, hmade, hstate⟩ := copyFinished_tracked (s := { s with activeCopies := s.activeCopies.erase copy })
      hzero hop result
    rw [hstate, hop]
    exact completeFolderImportItems_good (h.accounts.copy_gone hrun htracked hmade) (h.scanned_of_copies hcopies)

theorem batchTimeout_good (h : Good s) (htimer : s.folderImportBatchTimer = true) (look : Nat → QString → Url) :
    Good (processFolderImportBatch look { s with folderImportBatchTimer := false }) ∧
      (processFolderImportBatch look { s with folderImportBatchTimer := false }).scans = s.scans ∧
      (processFolderImportBatch look { s with folderImportBatchTimer := false }).folderImportGeneration =
        s.folderImportGeneration ∧
      ((processFolderImportBatch look { s with folderImportBatchTimer := false }).folderImportRunning = true →
        weight (processFolderImportBatch look { s with folderImportBatchTimer := false }) ≤
          weight { s with folderImportBatchTimer := false }) := by
  have hrun : s.folderImportRunning = true := by
    by_contra hnot
    exact Bool.false_ne_true ((h.accounts.idle (Bool.eq_false_iff.mpr hnot)).1.symm.trans htimer)
  have hscanned : Scanned s := fun _ hscan =>
    absurd ((h.scanning hrun hscan).2.1.symm.trans htimer) Bool.false_ne_true
  have hstopped : Accounts 0 0 { s with folderImportBatchTimer := false } := {
    h.accounts with
    idle := fun hidle => absurd (hidle.symm.trans hrun) Bool.false_ne_true
    present := fun _ => { h.accounts.present hrun with } }
  exact processFolderImportBatch_good hstopped hrun hscanned rfl (h.awaits hrun (hscanned hrun)) look

/-- **Step**: every event keeps the account. -/
theorem step_good (h : Good s) (event : Event) : Good (step s event) := by
  cases event with
  | importFolder readable => exact importFolder_good h readable
  | cancelFolderImport => exact cancelFolderImport_good h
  | setManagedMediaCopyEnabled enabled => simpa [step] using h.aside enabled rfl nothingSaid
  | importUrls urls => exact importUrls_good h urls
  | scanFinished operation result =>
    unfold step
    simp only
    split
    next hmem =>
      by_cases hnow : operation = s.folderImportGeneration ∧ s.folderImportRunning = true
      · obtain ⟨rfl, hrun⟩ := hnow
        exact scanFinished_now h hrun hmem result
      · have hearlier : operation = s.folderImportGeneration → s.folderImportRunning = false := fun hop =>
          Bool.eq_false_iff.mpr fun hrun => hnow ⟨hop, hrun⟩
        rw [scanFinished_earlier (s := { s with scans := s.scans.erase operation }) hearlier]
        exact h.scan_gone hearlier
    · exact h
  | batchTimeout look =>
    unfold step
    simp only
    split
    next htimer => exact (batchTimeout_good h htimer look).1
    · exact h
  | copyFinished copy result =>
    unfold step
    simp only
    split
    next hmem => exact copyFinished_good h hmem result
    · exact h

end Accounts

end BreezeDesk.FolderImport
