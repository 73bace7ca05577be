/-
  A folder import comes to its end.

  While an import runs, it waits for its scan, for the timer or for the callback of a copy.  Each of them brings
  it nearer to its end: the scan comes once, and afterwards there is less to hand over, less to copy, or the
  timer has gone off.  Nothing else takes it further away.

  * `step_progress`           — the step lemma, one case for each event;
  * `counters_earlier`        — callbacks of another import leave the counters alone;
  * `folder_import_accounted` — what is kept and what is reached, over all runs.
-/
import BreezeDesk.Library.Progress
import BreezeDesk.Ui.FolderImportAccounts
import Mathlib.Data.Prod.Lex

namespace BreezeDesk.FolderImport

open Runs Progress

/-! ## What an import waits for -/

inductive Due where
  | scan (operation : Nat)
  | timer
  | copy (copy : ManagedCopy)

/-- What the import that runs waits for. -/
def Owed (s : ViewModel) : Due → Prop
  | .scan operation => operation = s.folderImportGeneration ∧ operation ∈ s.scans
  | .timer => s.folderImportBatchTimer = true
  | .copy copy => copy ∈ folderCopies s

def Delivers : Event → Due → Prop
  | .scanFinished operation _, .scan other => operation = other
  | .batchTimeout _, .timer => True
  | .copyFinished copy _, .copy other => copy = other
  | _, _ => False

def Live (operation : Nat) (s : ViewModel) : Prop :=
  s.folderImportRunning = true ∧ s.folderImportGeneration = operation

/-- First the scan, whose paths nobody knows before, then the rest. -/
def rank (s : ViewModel) : ℕ ×ₗ ℕ :=
  toLex (if s.folderImportGeneration ∈ s.scans then 1 else 0, weight s)

variable {s s' : ViewModel} {operation : Nat} {event : Event}

theorem rank_lt (hgeneration : s'.folderImportGeneration = s.folderImportGeneration) (hscans : s'.scans = s.scans)
    (h : weight s' < weight s) : rank s' < rank s := by
  unfold rank
  rw [hgeneration, hscans]
  exact Prod.Lex.toLex_lt_toLex.mpr (.inr ⟨rfl, h⟩)

/-- The parts of the state that the import that runs depends on are the same. -/
structure Alike (s s' : ViewModel) : Prop where
  generation : s'.folderImportGeneration = s.folderImportGeneration
  scanning : s.folderImportGeneration ∈ s'.scans ↔ s.folderImportGeneration ∈ s.scans
  timer : s'.folderImportBatchTimer = s.folderImportBatchTimer
  copies : folderCopies s' = folderCopies s
  pending : s'.folderImportPendingPaths = s.folderImportPendingPaths

theorem Alike.of_eq (h : s' = s) : Alike s s' := by
  subst h
  exact ⟨rfl, Iff.rfl, rfl, rfl, rfl⟩

theorem Alike.waits (h : Alike s (step s event)) (hnone : ∀ due, Owed s due → ¬ Delivers event due) :
    Waits step rank Owed Delivers s event := by
  constructor
  · have hrank : rank (step s event) = rank s := by
      unfold rank weight
      rw [h.generation, h.timer, h.copies, h.pending]
      simp only [h.scanning]
    exact le_of_eq hrank
  · intro due howed
    refine ⟨?_, hnone due howed⟩
    cases due with
    | scan operation =>
      obtain ⟨rfl, hscan⟩ := howed
      exact ⟨h.generation.symm, h.scanning.mpr hscan⟩
    | timer => exact h.timer.trans howed
    | copy copy =>
      show copy ∈ folderCopies (step s event)
      rw [h.copies]
      exact howed

/-- While an import runs, it waits for something. -/
theorem Good.owed (h : Good s) (hrun : s.folderImportRunning = true) : ∃ due, Owed s due := by
  by_cases hscan : s.folderImportGeneration ∈ s.scans
  · exact ⟨.scan _, rfl, hscan⟩
  · rcases h.goesOn hrun hscan with htimer | hcopies
    · exact ⟨.timer, htimer⟩
    · obtain ⟨copy, hmem⟩ := List.exists_mem_of_ne_nil _ hcopies
      exact ⟨.copy copy, hmem⟩

/-! ## The step lemma -/

theorem scanFinished_kept (operation : Nat) (result : FolderScanResult) (s : ViewModel) :
    (scanFinished operation result s).scans = s.scans ∧
      (scanFinished operation result s).folderImportGeneration = s.folderImportGeneration := by
  have hfinish : ∀ cancelled, (finishFolderImport operation cancelled s).scans = s.scans ∧
      (finishFolderImport operation cancelled s).folderImportGeneration = s.folderImportGeneration := fun cancelled =>
    ⟨(finishFolderImport_steady operation cancelled).scans, (finishFolderImport_steady operation cancelled).generation⟩
  unfold scanFinished
  split
  · exact ⟨rfl, rfl⟩
  · split
    · exact hfinish true
    · split
      · exact hfinish false
      · split
        · exact hfinish false
        · exact ⟨rfl, rfl⟩

/-- With the scan the first part of the rank falls, whatever the number of paths. -/
theorem scanFinished_progress (h : Good s) (operation : Nat) (result : FolderScanResult) :
    rank (step s (.scanFinished operation result)) < rank s ∨
      Waits step rank Owed Delivers s (.scanFinished operation result) := by
  by_cases hmem : operation ∈ s.scans
  · have hstep : step s (.scanFinished operation result) =
        scanFinished operation result { s with scans := s.scans.erase operation } := if_pos hmem
    by_cases hop : operation = s.folderImportGeneration
    · subst hop
      obtain ⟨hscans, hgeneration⟩ := scanFinished_kept s.folderImportGeneration result
        { s with scans := s.scans.erase s.folderImportGeneration }
      left
      rw [hstep, rank, rank, hscans, hgeneration, if_neg h.accounts.scansOnce.not_mem_erase, if_pos hmem]
      exact Prod.Lex.toLex_lt_toLex.mpr (.inl Nat.zero_lt_one)
    · have halike : Alike s (step s (.scanFinished operation result)) := by
        rw [hstep, scanFinished_earlier (s := { s with scans := s.scans.erase operation }) fun heq => absurd heq hop]
        exact ⟨rfl, List.mem_erase_of_ne (Ne.symm hop), rfl, rfl, rfl⟩
      right
      refine halike.waits fun due howed => ?_
      cases due with
      | scan other => exact fun hsame => hop (hsame.trans howed.1)
      | timer => exact id
      | copy copy => exact id
  · have hsame : step s (.scanFinished operation result) = s := if_neg hmem
    right
    refine Alike.waits (.of_eq hsame) fun due howed => ?_
    cases due with
    | scan other => exact fun hsame => hmem (hsame ▸ howed.2)
    | timer => exact id
    | copy copy => exact id

theorem batchTimeout_progress (h : Good s) (look : Nat → QString → Url)
    (hstill : (step s (.batchTimeout look)).folderImportRunning = true) :
    rank (step s (.batchTimeout look)) < rank s ∨ Waits step rank Owed Delivers s (.batchTimeout look) := by
  cases htimer : s.folderImportBatchTimer with
  | false =>
    have hsame : step s (.batchTimeout look) = s := if_neg (by simp [htimer])
    right
    refine Alike.waits (.of_eq hsame) fun due howed => ?_
    cases due with
    | scan other => exact id
    | timer => exact fun _ => absurd (htimer.symm.trans howed) nofun
    | copy copy => exact id
  | true =>
    have hstep : step s (.batchTimeout look) =
        processFolderImportBatch look { s with folderImportBatchTimer := false } := if_pos htimer
    rw [hstep] at hstill ⊢
    obtain ⟨-, hscans, hgeneration, hweight⟩ := batchTimeout_good h htimer look
    left
    refine rank_lt hgeneration hscans ?_
    have hless : weight { s with folderImportBatchTimer := false } < weight s := by
      unfold weight folderCopies
      rw [htimer]
      exact Nat.lt_succ_self _
    exact Nat.lt_of_le_of_lt (hweight hstill) hless

theorem copyFinished_progress (h : Good s) (copy : ManagedCopy) (result : ManagedCopyResult)
    (hstill : (step s (.copyFinished copy result)).folderImportRunning = true) :
    rank (step s (.copyFinished copy result)) < rank s ∨
      Waits step rank Owed Delivers s (.copyFinished copy result) := by
  by_cases hmem : copy ∈ s.activeCopies
  · have hstep : step s (.copyFinished copy result) =
        copyFinished copy result { s with activeCopies := s.activeCopies.erase copy } := if_pos hmem
    by_cases hzero : copy.operation = 0
    · have hcopies := folderCopies_erase_untracked (s := s) hzero
      have halike : Alike s (step s (.copyFinished copy result)) := by
        rw [hstep]
        rcases copyFinished_untracked (s := { s with activeCopies := s.activeCopies.erase copy }) (.inl hzero) result
          with hsame | hsame <;> rw [hsame] <;> exact ⟨rfl, Iff.rfl, rfl, hcopies, rfl⟩
      refine .inr (halike.waits fun due howed => ?_)
      cases due with
      | scan other => exact id
      | timer => exact id
      | copy other =>
        rintro rfl
        exact bne_iff_ne.mp (List.mem_filter.mp howed).2 hzero
    · have htracked : copy ∈ folderCopies s := List.mem_filter.mpr ⟨hmem, bne_iff_ne.mpr hzero⟩
      obtain ⟨made, -, hstate⟩ := copyFinished_tracked (s := { s with activeCopies := s.activeCopies.erase copy })
        hzero (h.accounts.copies copy htracked) result
      rw [hstep, hstate] at hstill ⊢
      have hsteady := completeFolderImportItems_steady (s := { s with
        activeCopies := s.activeCopies.erase copy
        folderImportActiveCopies := s.folderImportActiveCopies - 1
        notices := s.notices ++ recordedNotices copy made }) copy.operation 1 made
      left
      refine rank_lt hsteady.generation hsteady.scans ?_
      have hcopies : (folderCopies { s with
          activeCopies := s.activeCopies.erase copy
          folderImportActiveCopies := s.folderImportActiveCopies - 1
          notices := s.notices ++ recordedNotices copy made }).length + 1 = (folderCopies s).length := by
        rw [← List.length_erase_add_one htracked, ← folderCopies_erase copy]
        rfl
      have hone : (completeFolderImportItems copy.operation 1 made { s with
          activeCopies := s.activeCopies.erase copy
          folderImportActiveCopies := s.folderImportActiveCopies - 1
          notices := s.notices ++ recordedNotices copy made }).folderImportBatchTimer.toNat ≤ 1 := Bool.toNat_le _
      rw [weight_steady hsteady hstill]
      unfold weight
      simp only
      omega
  · have hsame : step s (.copyFinished copy result) = s := if_neg hmem
    right
    refine Alike.waits (.of_eq hsame) fun due howed => ?_
    cases due with
    | scan other => exact id
    | timer => exact id
    | copy other =>
      rintro rfl
      exact hmem (List.mem_filter.mp howed).1

/-- A cancelled import that goes on waits for its copies, and no longer for the timer. -/
theorem cancelFolderImport_progress (hrun : s.folderImportRunning = true)
    (hstill : (cancelFolderImport s).folderImportRunning = true) :
    rank (cancelFolderImport s) < rank s ∨ Waits step rank Owed Delivers s .cancelFolderImport := by
  have hstate : cancelFolderImport s = { s with
      raised := s.raised ++ s.folderImportCancellation.toList
      folderImportBatchTimer := false
      folderImportPendingPaths := [] } := by
    unfold cancelFolderImport at hstill ⊢
    rw [if_neg (by simp [hrun])] at hstill ⊢
    simp only at hstill ⊢
    split
    next hinactive =>
      rw [if_pos hinactive, finishFolderImport, if_neg (by simp [hrun])] at hstill
      exact absurd hstill Bool.false_ne_true
    · rfl
  have hweight : weight (cancelFolderImport s) + s.folderImportBatchTimer.toNat ≤ weight s := by
    rw [hstate]
    unfold weight folderCopies
    simp only [List.length_nil, Bool.toNat_false]
    omega
  cases htimer : s.folderImportBatchTimer with
  | true =>
    left
    rw [htimer, Bool.toNat_true] at hweight
    exact rank_lt (by rw [hstate]) (by rw [hstate]) hweight
  | false =>
    right
    refine ⟨?_, fun due howed => ?_⟩
    · rw [show step s .cancelFolderImport = cancelFolderImport s from rfl, rank, rank, hstate]
      exact Prod.Lex.toLex_le_toLex.mpr (.inr ⟨rfl, hstate ▸ Nat.le_of_add_right_le hweight⟩)
    · rw [show step s .cancelFolderImport = cancelFolderImport s from rfl, hstate]
      cases due with
      | scan other => exact ⟨howed, id⟩
      | timer => exact absurd (htimer.symm.trans howed) Bool.false_ne_true
      | copy copy => exact ⟨howed, id⟩

/-- **Progress of a step**: it brings the import nearer to its end, or nothing that it waits for has happened. -/
theorem step_progress (h : Good s) (hlive : Live operation s) (hstill : Live operation (step s event)) :
    rank (step s event) < rank s ∨ Waits step rank Owed Delivers s event := by
  obtain ⟨hrun, -⟩ := hlive
  cases event with
  | importFolder readable =>
    have hsame : step s (.importFolder readable) = s := if_pos hrun
    exact .inr (Alike.waits (.of_eq hsame) fun due _ => by cases due <;> exact id)
  | cancelFolderImport => exact cancelFolderImport_progress hrun hstill.1
  | setManagedMediaCopyEnabled enabled =>
    exact .inr (Alike.waits ⟨rfl, Iff.rfl, rfl, rfl, rfl⟩ fun due _ => by cases due <;> exact id)
  | importUrls urls =>
    obtain ⟨copied, registered, hstate⟩ := importUrlsInternal_untracked urls s
    have halike : Alike s (step s (.importUrls urls)) := by
      rw [show step s (.importUrls urls) = advance 0 none copied registered s from hstate]
      exact ⟨rfl, Iff.rfl, rfl, folderCopies_advance_untracked copied registered, rfl⟩
    exact .inr (halike.waits fun due _ => by cases due <;> exact id)
  | scanFinished operation result => exact scanFinished_progress h operation result
  | batchTimeout look => exact batchTimeout_progress h look hstill.1
  | copyFinished copy result => exact copyFinished_progress h copy result hstill.1

/-! ## Earlier imports -/

def counters (s : ViewModel) : Nat × Nat × Nat × Int :=
  (s.folderImportCompleted, s.folderImportTotal, s.folderImportSucceeded, s.folderImportActiveCopies)

/-- The callbacks of another import leave the counters alone, whether they are still to come or not. -/
theorem counters_earlier (s : ViewModel) :
    (∀ operation result, operation ≠ s.folderImportGeneration →
      counters (step s (.scanFinished operation result)) = counters s) ∧
    ∀ copy result, copy.operation ≠ s.folderImportGeneration →
      counters (step s (.copyFinished copy result)) = counters s := by
  constructor
  · intro operation result hop
    unfold step
    simp only
    split
    · rw [scanFinished_earlier (s := { s with scans := s.scans.erase operation }) fun heq => absurd heq hop]
      rfl
    · rfl
  · intro copy result hop
    unfold step
    simp only
    split
    · rcases copyFinished_untracked (s := { s with activeCopies := s.activeCopies.erase copy }) (.inr hop) result with
        hsame | hsame <;> rw [hsame] <;> rfl
    · rfl

/-- Only a new import has a new number. -/
theorem step_generation (h : Good s) (event : Event) :
    (step s event).folderImportGeneration = s.folderImportGeneration ∨ ∃ readable, event = .importFolder readable := by
  cases event with
  | importFolder readable => exact .inr ⟨readable, rfl⟩
  | cancelFolderImport =>
    left
    show (cancelFolderImport s).folderImportGeneration = _
    unfold cancelFolderImport
    split
    · rfl
    · simp only
      split
      · rw [(finishFolderImport_steady _ _).generation]
      · rfl
  | setManagedMediaCopyEnabled enabled => exact .inl rfl
  | importUrls urls =>
    obtain ⟨copied, registered, hstate⟩ := importUrlsInternal_untracked urls s
    left
    show (importUrlsInternal urls 0 s).2.folderImportGeneration = _
    rw [hstate]
    rfl
  | scanFinished operation result =>
    left
    unfold step
    simp only
    split
    · rw [(scanFinished_kept _ _ _).2]
    · rfl
  | batchTimeout look =>
    left
    unfold step
    simp only
    split
    next htimer => exact (batchTimeout_good h htimer look).2.2.1
    · rfl
  | copyFinished copy result =>
    left
    unfold step
    simp only
    split
    next hmem =>
      by_cases hzero : copy.operation = 0
      · rcases copyFinished_untracked (s := { s with activeCopies := s.activeCopies.erase copy }) (.inl hzero) result
          with hsame | hsame <;> rw [hsame]
      · have htracked : copy ∈ folderCopies s := List.mem_filter.mpr ⟨hmem, bne_iff_ne.mpr hzero⟩
        obtain ⟨made, -, hstate⟩ := copyFinished_tracked (s := { s with activeCopies := s.activeCopies.erase copy })
          hzero (h.accounts.copies copy htracked) result
        rw [hstate, (completeFolderImportItems_steady ..).generation]
    · rfl

theorem generation_le_step (h : Good s) (event : Event) :
    s.folderImportGeneration ≤ (step s event).folderImportGeneration := by
  rcases step_generation h event with hsame | ⟨readable, rfl⟩
  · exact Nat.le_of_eq hsame.symm
  · show _ ≤ (importFolder readable s).folderImportGeneration
    unfold importFolder
    split
    · exact Nat.le_refl _
    · split
      · exact Nat.le_refl _
      · exact Nat.le_succ _

/-! ## All runs -/

def start (hasRepository : Bool) : ViewModel := { hasRepository }

theorem start_good (hasRepository : Bool) : Good (start hasRepository) where
  accounts := {
    noticesKnown := nofun
    raisedKnown := nofun
    scansKnown := nofun
    scansOnce := List.nodup_nil
    copies := nofun
    active := rfl
    slots := Nat.zero_le _
    past := fun _ hpos hle _ => absurd hpos (Nat.not_lt_of_le hle)
    idle := fun _ => ⟨rfl, rfl, rfl⟩
    present := nofun }
  scanning := nofun
  goesOn := nofun
  awaits := nofun

theorem run_good (hasRepository : Bool) (events : List Event) : Good (run step (start hasRepository) events) :=
  run_invariant (I := Good) (fun _ event h _ => step_good h event) (start_good hasRepository) (guarded_true _ events)

/-- An import is over when it has its last word. -/
theorem Good.finishes_length (h : Good s) (hpos : 0 < operation) (hle : operation ≤ s.folderImportGeneration) :
    (finishes (about operation s.notices)).length =
      if s.folderImportRunning = true ∧ operation = s.folderImportGeneration then 0 else 1 := by
  split
  next hnow =>
    obtain ⟨hrun, rfl⟩ := hnow
    exact congrArg List.length (h.accounts.present hrun).unfinished
  next hover =>
    obtain ⟨summary, hfinished, -⟩ := (h.accounts.past operation hpos hle fun hrun heq => hover ⟨hrun, heq⟩).finished
    rw [hfinished]
    rfl

/-- What is not yet begun has said nothing. -/
theorem Good.about_later (h : Good s) (hlater : s.folderImportGeneration < operation) :
    about operation s.notices = [] :=
  about_other fun notice hmem heq => absurd (h.accounts.noticesKnown notice hmem) (Nat.not_le_of_lt (heq ▸ hlater))

/-- What is said about an import, over or not. -/
theorem Good.inOrder (h : Good s) (hpos : 0 < operation) :
    handed (about operation s.notices) <+: scanned (about operation s.notices) ∧
      (recorded (about operation s.notices)).Subperm (handed (about operation s.notices)) := by
  by_cases hle : operation ≤ s.folderImportGeneration
  · by_cases hnow : s.folderImportRunning = true ∧ operation = s.folderImportGeneration
    · obtain ⟨hrun, rfl⟩ := hnow
      have hpresent := h.accounts.present hrun
      exact ⟨hpresent.inOrder,
        List.subperm_ext_iff.mpr fun path _ => Nat.le_trans (Nat.le_add_right _ _) (hpresent.once path)⟩
    · have hover := h.accounts.past operation hpos hle fun hrun heq => hnow ⟨hrun, heq⟩
      exact ⟨hover.inOrder, hover.once⟩
  · rw [h.about_later (Nat.lt_of_not_le hle)]
    exact ⟨List.nil_prefix, List.nil_subperm⟩

/-- The last word of an import that was not cancelled. -/
theorem Good.summary (h : Good s) (hpos : 0 < operation) {summary : Summary}
    (hmem : summary ∈ finishes (about operation s.notices)) (hnot : summary.cancelled = false) :
    summary.completed = summary.total ∧ summary.total = (scanned (about operation s.notices)).length ∧
      handed (about operation s.notices) = scanned (about operation s.notices) ∧
      summary.succeeded = (recorded (about operation s.notices)).length := by
  by_cases hle : operation ≤ s.folderImportGeneration
  · by_cases hnow : s.folderImportRunning = true ∧ operation = s.folderImportGeneration
    · have hlength := h.finishes_length hpos hle
      rw [if_pos hnow, List.length_eq_zero_iff] at hlength
      rw [hlength] at hmem
      exact absurd hmem List.not_mem_nil
    · obtain ⟨last, hlast, hspec⟩ := (h.accounts.past operation hpos hle fun hrun heq => hnow ⟨hrun, heq⟩).finished
      rw [hlast, List.mem_singleton] at hmem
      subst hmem
      exact hspec hnot
  · rw [h.about_later (Nat.lt_of_not_le hle)] at hmem
    exact absurd hmem List.not_mem_nil

/-- When what it waits for comes, the import that runs comes to its end. -/
theorem Good.finishes_eventually (h : Good s) (hrun : s.folderImportRunning = true) {schedule : ℕ → Event}
    (hfair : Fair step Owed Delivers s schedule) :
    ∃ n, (finishes (about s.folderImportGeneration (after step s schedule n).notices)).length = 1 := by
  have hkeep : ∀ t event, Good t ∧ s.folderImportGeneration ≤ t.folderImportGeneration →
      Good (step t event) ∧ s.folderImportGeneration ≤ (step t event).folderImportGeneration := fun t event ht =>
    ⟨step_good ht.1 event, Nat.le_trans ht.2 (generation_le_step ht.1 event)⟩
  have hends : ∃ n, 0 ≤ n ∧ ¬ Live s.folderImportGeneration (after step s schedule n) :=
    ends_of_rank (I := fun t => Good t ∧ s.folderImportGeneration ≤ t.folderImportGeneration) hkeep
      (fun t ht hlive => ht.1.owed hlive.1) (fun t event ht hlive hstill => step_progress ht.1 hlive hstill)
      ⟨h, Nat.le_refl _⟩ hfair 0
  obtain ⟨n, -, hdead⟩ := hends
  obtain ⟨hgood, hle⟩ := after_invariant (I := fun t => Good t ∧ s.folderImportGeneration ≤ t.folderImportGeneration)
    hkeep ⟨h, Nat.le_refl _⟩ schedule n
  refine ⟨n, ?_⟩
  rw [hgood.finishes_length (h.accounts.present hrun).positive hle, if_neg]
  rintro ⟨hrunning, heq⟩
  exact hdead ⟨hrunning, heq.symm⟩

/-- Three files: one is rejected, one copied and, after the setting was changed, one registered where it lies. -/
example : finishes (about 1 (run step (start true) [
    .setManagedMediaCopyEnabled true, .importFolder true, .scanFinished 1 { paths := [qs "a", qs "b", qs "c"] },
    .batchTimeout fun index path =>
      { path, isSupported := index != 0, library := { isSupported := index != 0 } },
    .setManagedMediaCopyEnabled false, .batchTimeout fun _ path => { path },
    .copyFinished ⟨1, qs "b", some 1⟩ {}]).notices) = [⟨false, 3, 3, 2⟩] := by decide

end BreezeDesk.FolderImport
