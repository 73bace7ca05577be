/-
  What a model download never does, whatever the order of its callbacks.

  Three things can be under way in an operation, one at a time: nothing (`AtRest`, with or without the
  lock), one reply (`Transferring`), or one hash (`Verifying`).  Every callback leaves one of the three,
  because whoever begins something new has ended the old before, or holds no lock.

  A reply that ignores the requested range is replaced by a deferred call of `beginRequest`, which asks for
  nothing but the lock.  When the user pauses and resumes the download before that call comes, the lock is
  that of the next attempt, and the call sends a second request beside it (`StaleRestart`).  Without such a
  call every run is safe (`download_safety`):

  * at most one reply is live, and nothing of an abandoned reply is ever written;
  * the part file does not grow beyond the size in the manifest;
  * the final path is only produced by moving a part file with the right hash;
  * completion is only reported with a file of the right hash at the final path.
-/
import BreezeDesk.Library.Runs
import BreezeDesk.Models.DownloadOperation

namespace BreezeDesk.Models

open Loop Runs

variable {d : Download} {env : Environment} {s s' s'' : ModelDownloadOperation}

/-! ## What is promised -/

/-- The replies that may still send data. -/
def liveReplies (s : ModelDownloadOperation) : List Reply := s.replies.filter fun reply => !reply.isFinished

/-- A reply that is no longer the one of the operation. -/
def Abandoned (s : ModelDownloadOperation) (id : Nat) : Prop := id < s.nextReply ∧ s.reply ≠ some id

/-- What the step has written of a reply's body, and before it. -/
def writesOf (id : Nat) (s : ModelDownloadOperation) : List PartWrite :=
  s.writes.filter fun write => write.reply == id

/-- A step reports completion by the state or by the signal. -/
def ReportsCompletion (s s' : ModelDownloadOperation) : Prop :=
  (s'.state = .completed ∧ s.state ≠ .completed) ∨ s.finished.count true < s'.finished.count true

/-- The file at the final path has the hash of the manifest. -/
def VerifiedFinal (d : Download) (s : ModelDownloadOperation) : Prop :=
  ∃ content, s.final = some content ∧ d.sha256 content = d.entry.sha256

/-- What other processes put at the final path during a callback. -/
def DownloadEvent.Publishes (event : DownloadEvent) (content : QByteArray) : Prop :=
  event.env.published = some content ∨
    match event.callback with
    | .published other => other = content
    | .others _ final => final = some content
    | _ => False

def DownloadEvent.IsOwn (event : DownloadEvent) : Prop :=
  match event.callback with
  | .others .. => False
  | _ => True

structure SafeStep (d : Download) (event : DownloadEvent) (s s' : ModelDownloadOperation) : Prop where
  part : event.IsOwn → s'.part = s.part ∨ ∀ content ∈ s'.part, content.length ≤ d.entry.fileSize
  produced : ∀ content, s'.final = some content → s.final = some content ∨
    (s.part = some content ∧ d.sha256 content = d.entry.sha256) ∨ event.Publishes content
  completed : ReportsCompletion s s' → VerifiedFinal d s'
  abandoned : ∀ id, Abandoned s id → Abandoned s' id ∧ writesOf id s' = writesOf id s
  writes : ∃ new, s'.writes = s.writes ++ new ∧
    ∀ write ∈ new, write.offset + write.data.length ≤ d.entry.fileSize

/-- The deferred call of `beginRequest` comes while something of a later attempt is under way. -/
def StaleRestart (s : ModelDownloadOperation) (event : DownloadEvent) : Prop :=
  match event.callback with
  | .restartTimer => 0 < s.restartTimers ∧ (s.reply ≠ none ∨ s.verificationInProgress = true)
  | _ => False

/-! ## What most callbacks do -/

/-- Nothing is moved to the final path and completion is not reported. -/
structure Tame (d : Download) (env : Environment) (s s' : ModelDownloadOperation) : Prop where
  part : s'.part = s.part ∨ ∀ content ∈ s'.part, content.length ≤ d.entry.fileSize
  final : ∀ content, s'.final = some content → s.final = some content ∨ env.published = some content
  state : s'.state = .completed → s.state = .completed
  finished : s'.finished.count true = s.finished.count true
  abandoned : ∀ id, Abandoned s id → Abandoned s' id
  writes : ∃ new, s'.writes = s.writes ++ new ∧
    ∀ write ∈ new, ¬ Abandoned s write.reply ∧ write.offset + write.data.length ≤ d.entry.fileSize

theorem writes_nothing_new (h : s'.writes = s.writes) : ∃ new, s'.writes = s.writes ++ new ∧
    ∀ write ∈ new, ¬ Abandoned s write.reply ∧ write.offset + write.data.length ≤ d.entry.fileSize :=
  ⟨[], h.trans (List.append_nil _).symm, fun _ hmem => absurd hmem List.not_mem_nil⟩

namespace Tame

theorem refl (s : ModelDownloadOperation) : Tame d env s s where
  part := .inl rfl
  final _ h := .inl h
  state := id
  finished := rfl
  abandoned _ h := h
  writes := writes_nothing_new rfl

theorem trans (h : Tame d env s s') (h' : Tame d env s' s'') : Tame d env s s'' where
  part := by
    rcases h'.part with hsame | hbound
    · rw [hsame]
      exact h.part
    · exact .inr hbound
  final content hcontent := (h'.final content hcontent).elim (h.final content) .inr
  state hstate := h.state (h'.state hstate)
  finished := h'.finished.trans h.finished
  abandoned id hid := h'.abandoned id (h.abandoned id hid)
  writes := by
    obtain ⟨first, hfirst, hof⟩ := h.writes
    obtain ⟨second, hsecond, hof'⟩ := h'.writes
    refine ⟨first ++ second, ?_, fun write hmem => ?_⟩
    · rw [hsecond, hfirst, List.append_assoc]
    · rcases List.mem_append.mp hmem with hmem | hmem
      · exact hof write hmem
      · exact ⟨fun hold => (hof' write hmem).1 (h.abandoned _ hold), (hof' write hmem).2⟩

/-- A callback that only sets flags. -/
theorem of_same (hpart : s'.part = s.part) (hfinal : s'.final = s.final) (hstate : s'.state = s.state)
    (hfinished : s'.finished = s.finished) (hreply : s'.reply = s.reply) (hnext : s'.nextReply = s.nextReply)
    (hwrites : s'.writes = s.writes) : Tame d env s s' where
  part := .inl hpart
  final content hcontent := .inl (hfinal ▸ hcontent)
  state h := hstate ▸ h
  finished := by rw [hfinished]
  abandoned id h := ⟨hnext ▸ h.1, hreply ▸ h.2⟩
  writes := writes_nothing_new hwrites

theorem safe {event : DownloadEvent} (h : Tame d event.env s s') : SafeStep d event s s' where
  part _ := h.part
  produced content hcontent := (h.final content hcontent).imp_right fun hpublished => .inr (.inl hpublished)
  completed hreports := by
    rcases hreports with ⟨hstate, hnot⟩ | hcount
    · exact absurd (h.state hstate) hnot
    · exact absurd hcount (h.finished ▸ Nat.lt_irrefl _)
  abandoned id hid := by
    obtain ⟨new, hwrites, hof⟩ := h.writes
    have hnone : new.filter (fun write => write.reply == id) = [] := by
      rw [List.filter_eq_nil_iff]
      intro write hmem hsame
      exact (hof write hmem).1 (beq_iff_eq.mp hsame ▸ hid)
    refine ⟨h.abandoned id hid, ?_⟩
    unfold writesOf
    rw [hwrites, List.filter_append, hnone, List.append_nil]
  writes := by
    obtain ⟨new, hwrites, hof⟩ := h.writes
    exact ⟨new, hwrites, fun write hmem => (hof write hmem).2⟩

end Tame

/-! ## What is under way -/

structure AtRest (s : ModelDownloadOperation) : Prop where
  replies : s.replies = []
  reply : s.reply = none
  verifications : s.verifications = []
  inProgress : s.verificationInProgress = false
  closed : s.partFile = .null ∨ s.partFile = .closed

structure Transferring (s : ModelDownloadOperation) (reply : Reply) : Prop where
  replies : s.replies = [reply]
  reply : s.reply = some reply.id
  verifications : s.verifications = []
  inProgress : s.verificationInProgress = false
  partFile : s.partFile = .onPart
  locked : s.isLocked = true

/-- The hash is, or will be, that of a file that stays as it is. -/
structure SoundVerification (d : Download) (s : ModelDownloadOperation) (verification : Verification) :
    Prop where
  path : verification.path = if verification.purpose = .downloadedPart then .part else .final
  content : ∃ content, contentAt verification.path s = some content ∧
    ∀ checksum ∈ verification.checksum, checksum = [] ∨ checksum = d.sha256 content
  part : verification.purpose = .finalBeforeCommit →
    ∃ content, s.part = some content ∧ d.sha256 content = d.entry.sha256

structure Verifying (d : Download) (s : ModelDownloadOperation) (verification : Verification) : Prop where
  replies : s.replies = []
  reply : s.reply = none
  verifications : s.verifications = [verification]
  inProgress : s.verificationInProgress = true
  closed : s.partFile = .null ∨ s.partFile = .closed
  locked : s.isLocked = true
  state : s.state = .verifying ∨ s.state = .cancelled
  sound : SoundVerification d s verification

def Settled (d : Download) (s : ModelDownloadOperation) : Prop :=
  AtRest s ∨ (∃ reply, Transferring s reply) ∨ ∃ verification, Verifying d s verification

/-- No hash is under way, and every reply is the current one: what a request can be ended in. -/
structure Endable (s : ModelDownloadOperation) : Prop where
  verifications : s.verifications = []
  inProgress : s.verificationInProgress = false
  replies : ∀ reply ∈ s.replies, s.reply = some reply.id

theorem AtRest.endable (h : AtRest s) : Endable s where
  verifications := h.verifications
  inProgress := h.inProgress
  replies reply hmem := by
    rw [h.replies] at hmem
    cases hmem

theorem Transferring.endable {reply : Reply} (h : Transferring s reply) : Endable s where
  verifications := h.verifications
  inProgress := h.inProgress
  replies other hmem := by
    rw [h.replies, List.mem_singleton] at hmem
    rw [hmem]
    exact h.reply

theorem AtRest.of_unlocked (h : Settled d s) (hlock : s.isLocked = false) : AtRest s := by
  rcases h with hrest | ⟨reply, htransfer⟩ | ⟨verification, hverify⟩
  · exact hrest
  · exact absurd (hlock.symm.trans htransfer.locked) Bool.false_ne_true
  · exact absurd (hlock.symm.trans hverify.locked) Bool.false_ne_true

theorem Settled.one_live (h : Settled d s) : (liveReplies s).length ≤ 1 := by
  have hall : s.replies.length ≤ 1 := by
    rcases h with hrest | ⟨reply, htransfer⟩ | ⟨verification, hverify⟩
    · rw [hrest.replies]
      exact Nat.zero_le 1
    · rw [htransfer.replies]
      exact Nat.le_refl 1
    · rw [hverify.replies]
      exact Nat.zero_le 1
  exact (List.length_filter_le _ _).trans hall

/-- What a callback owes: something of the three, without having done anything irrevocable. -/
structure Settles (d : Download) (env : Environment) (s s' : ModelDownloadOperation) : Prop where
  settled : Settled d s'
  tame : Tame d env s s'

theorem Settles.after (h : Tame d env s s') (h' : Settles d env s' s'') : Settles d env s s'' :=
  ⟨h'.settled, h.trans h'.tame⟩

/-! ## Files -/

theorem afterRemoval_closed {file onPath : PartFile} {content : Option QByteArray}
    (hclosed : file = .null ∨ file = .closed) (hopen : onPath = .onPart ∨ onPath = .onFinal) :
    file.afterRemoval onPath content = file := by
  unfold PartFile.afterRemoval
  rcases hclosed with rfl | rfl <;> rcases hopen with rfl | rfl <;> rfl

/-- Removing the part file, while nothing is open. -/
theorem removePart_closed (removes : Bool) (hclosed : s.partFile = .null ∨ s.partFile = .closed) :
    removePart removes s = (false, s) ∨ removePart removes s = (true, { s with part := none }) := by
  unfold removePart
  split
  · rw [afterRemoval_closed hclosed (.inl rfl)]
    exact .inr rfl
  · exact .inl rfl

theorem removeFinal_closed (env : Environment) (hclosed : s.partFile = .null ∨ s.partFile = .closed) :
    removeFinal env s = (false, s) ∨ removeFinal env s = (true, { s with final := none }) := by
  unfold removeFinal
  split
  · rw [afterRemoval_closed hclosed (.inr rfl)]
    exact .inr rfl
  · exact .inl rfl

theorem tame_withoutPart (s : ModelDownloadOperation) : Tame d env s { s with part := none } where
  part := .inr fun content hcontent => by cases hcontent
  final _ h := .inl h
  state := id
  finished := rfl
  abandoned _ h := h
  writes := writes_nothing_new rfl

theorem tame_withoutFinal (s : ModelDownloadOperation) : Tame d env s { s with final := none } where
  part := .inl rfl
  final := nofun
  state := id
  finished := rfl
  abandoned _ h := h
  writes := writes_nothing_new rfl

/-! ## Ending an attempt -/

theorem closeActiveRequest_atRest (h : Endable s) : AtRest (closeActiveRequest s) where
  replies := by
    refine List.filter_eq_nil_iff.mpr fun reply hmem hkept => ?_
    rw [h.replies reply hmem, bne_self_eq_false] at hkept
    exact Bool.false_ne_true hkept
  reply := rfl
  verifications := h.verifications
  inProgress := h.inProgress
  closed := ite_eq_or_eq (s.partFile = .null) PartFile.null .closed

theorem closeActiveRequest_tame (s : ModelDownloadOperation) : Tame d env s (closeActiveRequest s) where
  part := .inl rfl
  final _ h := .inl h
  state := id
  finished := rfl
  abandoned id h := ⟨h.1, Option.some_ne_none id |>.symm⟩
  writes := writes_nothing_new rfl

theorem discardPartialIfOwned_atRest (h : AtRest s) : AtRest (discardPartialIfOwned env s) := by
  unfold discardPartialIfOwned
  split
  · rcases removePart_closed env.discardsPart h.closed with hsame | hnone
    · rw [hsame]
      exact { h with }
    · rw [hnone]
      exact { h with }
  · exact h

theorem discardPartialIfOwned_tame (h : AtRest s) : Tame d env s (discardPartialIfOwned env s) := by
  unfold discardPartialIfOwned
  split
  · rcases removePart_closed env.discardsPart h.closed with hsame | hnone
    · rw [hsame]
      exact .of_same rfl rfl rfl rfl rfl rfl rfl
    · rw [hnone]
      exact (tame_withoutPart s).trans (.of_same rfl rfl rfl rfl rfl rfl rfl)
  · exact .refl s

theorem finish_atRest {success : Bool} (h : AtRest s) : AtRest (finish success s) := by
  unfold finish
  split
  · exact h
  · exact { h with }

/-- A failure is no completion. -/
theorem finish_tame (s : ModelDownloadOperation) : Tame d env s (finish false s) := by
  unfold finish
  split
  · exact .refl s
  · exact {
      part := .inl rfl
      final := fun _ h => .inl h
      state := id
      finished := by
        rw [List.count_append]
        rfl
      abandoned := fun _ h => h
      writes := writes_nothing_new rfl }

theorem setState_tame (state : DownloadState) (hstate : state ≠ .completed) (s : ModelDownloadOperation) :
    Tame d env s (setState state s) where
  part := .inl rfl
  final _ h := .inl h
  state h := absurd h hstate
  finished := rfl
  abandoned _ h := h
  writes := writes_nothing_new rfl

theorem released_tame (state : DownloadState) (hstate : state ≠ .completed) (s : ModelDownloadOperation) :
    Tame d env s (setState state (releaseDownloadLock s)) :=
  have hreleased : Tame d env s (releaseDownloadLock s) := .of_same rfl rfl rfl rfl rfl rfl rfl
  hreleased.trans (setState_tame state hstate _)

theorem scheduleRetry_tame (s : ModelDownloadOperation) : Tame d env s (scheduleRetry s) :=
  have hreleased : Tame d env s (setState .pending (releaseDownloadLock s)) := released_tame .pending nofun s
  hreleased.trans (.of_same rfl rfl rfl rfl rfl rfl rfl)

theorem removeCancelled_settles (h : AtRest s) : Settles d env s (removeCancelled env s) := by
  have hremoved : AtRest (if s.isLocked then (removePart env.removesPart s).2 else s) ∧
      Tame d env s (if s.isLocked then (removePart env.removesPart s).2 else s) := by
    split
    · rcases removePart_closed env.removesPart h.closed with hkept | hnone
      · rw [hkept]
        exact ⟨h, .refl s⟩
      · rw [hnone]
        exact ⟨{ h with }, tame_withoutPart s⟩
    · exact ⟨h, .refl s⟩
  unfold removeCancelled
  generalize (if s.isLocked then (removePart env.removesPart s).2 else s) = left at hremoved
  obtain ⟨hrest, htame⟩ := hremoved
  have hreleased : Tame d env left (releaseDownloadLock left) := .of_same rfl rfl rfl rfl rfl rfl rfl
  have hfinished : AtRest (finish false (releaseDownloadLock left)) := finish_atRest { hrest with }
  exact ⟨.inl hfinished, (htame.trans hreleased).trans (finish_tame _)⟩

/-- **Failing** ends the attempt. -/
theorem fail_settles {message : QString} {retryable discardPartial : Bool} (h : Endable s) :
    AtRest (fail env message retryable discardPartial s) ∧
      Tame d env s (fail env message retryable discardPartial s) := by
  have hclosed : AtRest (closeActiveRequest { s with error := message }) :=
    closeActiveRequest_atRest ⟨h.verifications, h.inProgress, h.replies⟩
  have hmessage : Tame d env s { s with error := message } := .of_same rfl rfl rfl rfl rfl rfl rfl
  have htame : Tame d env s (closeActiveRequest { s with error := message }) :=
    hmessage.trans (closeActiveRequest_tame _)
  clear hmessage
  unfold fail
  generalize closeActiveRequest { s with error := message } = closed at hclosed htame
  dsimp only
  split
  · exact ⟨{ hclosed with }, htame.trans (scheduleRetry_tame closed)⟩
  · have hdiscarded : AtRest (if discardPartial || retryable then discardPartialIfOwned env closed else closed) ∧
        Tame d env s (if discardPartial || retryable then discardPartialIfOwned env closed else closed) := by
      split
      · exact ⟨discardPartialIfOwned_atRest hclosed, htame.trans (discardPartialIfOwned_tame hclosed)⟩
      · exact ⟨hclosed, htame⟩
    generalize (if discardPartial || retryable then discardPartialIfOwned env closed else closed) = left
      at hdiscarded
    obtain ⟨hrest, hleft⟩ := hdiscarded
    exact ⟨finish_atRest { hrest with }, (hleft.trans (released_tame .failed nofun left)).trans (finish_tame _)⟩

theorem Settles.failed {message : QString} {retryable discardPartial : Bool} (h : Endable s) :
    Settles d env s (fail env message retryable discardPartial s) :=
  ⟨.inl (fail_settles (d := d) h).1, (fail_settles h).2⟩

/-! ## Beginning an attempt -/

theorem beginVerification_settles {path : ModelPath} {purpose : VerificationPurpose} (h : AtRest s)
    (hsound : SoundVerification d s ⟨path, purpose, none⟩) :
    Settles d env s (beginVerification env path purpose s) := by
  unfold beginVerification
  split
  · exact .failed h.endable
  next hlocked =>
    have hstate : Tame d env s (setState .verifying s) := setState_tame .verifying nofun s
    refine ⟨.inr (.inr ⟨⟨path, purpose, none⟩, ?_⟩), hstate.trans (.of_same rfl rfl rfl rfl rfl rfl rfl)⟩
    exact {
      replies := h.replies
      reply := h.reply
      verifications := by
        show s.verifications ++ _ = _
        rw [h.verifications, List.nil_append]
      inProgress := rfl
      closed := h.closed
      locked := by rwa [Bool.not_eq_true', Bool.not_eq_false] at hlocked
      state := .inl rfl
      sound := ⟨hsound.path, hsound.content, hsound.part⟩ }

/-- The hash of a part file that is there. -/
theorem beginPartVerification_settles (h : AtRest s) (hpart : partSize s ≠ 0) :
    Settles d env s (beginVerification env .part .downloadedPart s) := by
  refine beginVerification_settles h ⟨rfl, ?_, fun hpurpose => by cases hpurpose⟩
  unfold partSize at hpart
  cases hcontent : s.part with
  | none =>
    rw [hcontent] at hpart
    exact absurd rfl hpart
  | some content => exact ⟨content, hcontent, fun _ hnone => by cases hnone⟩

theorem sendRequest_settles (h : AtRest s) (hlocked : s.isLocked = true) :
    Settles d env s (sendRequest { s with partFile := .onPart, part := some (s.part.getD []) }) := by
  refine ⟨.inr (.inl ⟨{ id := s.nextReply }, ?_⟩), ?_⟩
  · exact {
      replies := by
        show s.replies ++ _ = _
        rw [h.replies, List.nil_append]
      reply := rfl
      verifications := h.verifications
      inProgress := h.inProgress
      partFile := rfl
      locked := hlocked }
  · exact {
      part := by
        show some (s.part.getD []) = s.part ∨ _
        cases s.part with
        | none =>
          refine .inr fun content hcontent => ?_
          cases hcontent
          exact Nat.zero_le _
        | some content => exact .inl rfl
      final := fun _ h => .inl h
      state := nofun
      finished := rfl
      abandoned := fun id hid => by
        refine ⟨hid.1.trans (Nat.lt_succ_self _), fun hsame => ?_⟩
        exact absurd (Option.some.inj hsame ▸ hid.1) (Nat.lt_irrefl _)
      writes := writes_nothing_new rfl }

theorem openPartFile_settles (h : AtRest s) (hlocked : s.isLocked = true) :
    Settles d env s (openPartFile env s) := by
  unfold openPartFile
  split
  · have hnull : Tame d env s { s with partFile := .null } := .of_same rfl rfl rfl rfl rfl rfl rfl
    exact .after hnull (.failed { h.endable with })
  split
  · have hclosed : Tame d env s { s with partFile := .closed } := .of_same rfl rfl rfl rfl rfl rfl rfl
    exact .after hclosed (.failed { h.endable with })
  · exact sendRequest_settles h hlocked

theorem requestRemaining_settles (h : AtRest s) (hlocked : s.isLocked = true) :
    Settles d env s (requestRemaining d env s) := by
  unfold requestRemaining
  dsimp only
  split
  next hfull =>
    have hreceived : Tame d env s { s with bytesReceived := partSize s } := .of_same rfl rfl rfl rfl rfl rfl rfl
    exact .after hreceived (beginPartVerification_settles { h with } (Nat.pos_iff_ne_zero.mp hfull.2))
  next =>
    split
    · exact .failed h.endable
    · exact openPartFile_settles h hlocked

theorem beginLockedRequest_settles (h : AtRest s) (hlocked : s.isLocked = true) :
    Settles d env s (beginLockedRequest d env s) := by
  unfold beginLockedRequest
  split
  · exact .failed h.endable
  split
  · rcases removePart_closed env.removesPart h.closed with hsame | hnone
    · rw [hsame]
      exact .failed h.endable
    · rw [hnone]
      exact .after (tame_withoutPart s) (requestRemaining_settles { h with } hlocked)
  · exact requestRemaining_settles h hlocked

/-- The final file is there, and is to be hashed. -/
theorem beginFinalVerification_settles (purpose : VerificationPurpose) (h : AtRest s)
    (hfinal : s.final.isSome = true) (hpurpose : purpose ≠ .downloadedPart)
    (hpart : purpose = .finalBeforeCommit → ∃ content, s.part = some content ∧ d.sha256 content = d.entry.sha256) :
    Settles d env s (beginVerification env .final purpose s) := by
  obtain ⟨content, hcontent⟩ := Option.isSome_iff_exists.mp hfinal
  exact beginVerification_settles h
    ⟨(if_neg hpurpose).symm, ⟨content, hcontent, fun _ hnone => by cases hnone⟩, hpart⟩

theorem inspectLockedFiles_settles (h : AtRest s) (hlocked : s.isLocked = true) :
    Settles d env s (inspectLockedFiles d env s) := by
  unfold inspectLockedFiles
  split
  · exact .failed h.endable
  split
  next hfinal => exact beginFinalVerification_settles .existingFinal h hfinal nofun nofun
  next => exact beginLockedRequest_settles h hlocked

/-- **The lock** is only asked for when nothing is under way. -/
theorem acquireDownloadLock_settles (h : Settled d s) : Settles d env s (acquireDownloadLock d env s) := by
  unfold acquireDownloadLock
  split
  · exact ⟨h, .refl s⟩
  next hfree =>
    have hunlocked : s.isLocked = false := by
      rw [Bool.not_eq_true, Bool.or_eq_false_iff] at hfree
      exact hfree.2
    have hrest : AtRest s := .of_unlocked h hunlocked
    split
    · have hlock : Tame d env s { s with isLocked := true } := .of_same rfl rfl rfl rfl rfl rfl rfl
      exact .after hlock (inspectLockedFiles_settles { hrest with } rfl)
    · have hstate : Tame d env s (setState .pending s) := setState_tame .pending nofun s
      exact ⟨.inl { hrest with }, hstate.trans (.of_same rfl rfl rfl rfl rfl rfl rfl)⟩
    · exact .failed hrest.endable

theorem beginRequest_settles (h : AtRest s) : Settles d env s (beginRequest d env s) := by
  unfold beginRequest
  split
  · exact acquireDownloadLock_settles (.inl h)
  next hlocked =>
    rw [Bool.not_eq_true', Bool.not_eq_false] at hlocked
    exact beginLockedRequest_settles h hlocked

/-! ## Replies -/

theorem concludeReply_settles {status : Nat} {networkError : Option QString} (h : Endable s) :
    Settles d env s (concludeReply d env status networkError s) := by
  have hclosed : AtRest (closeActiveRequest s) := closeActiveRequest_atRest h
  refine .after (closeActiveRequest_tame s) ?_
  unfold concludeReply
  generalize closeActiveRequest s = closed at hclosed
  dsimp only
  split
  · exact ⟨.inl hclosed, .refl closed⟩
  split
  · have hflag : Tame d env closed { closed with restartWithoutRange := false } :=
      .of_same rfl rfl rfl rfl rfl rfl rfl
    refine .after hflag ?_
    rcases removePart_closed (s := { closed with restartWithoutRange := false }) env.removesPart hclosed.closed
      with hsame | hnone
    · rw [hsame]
      exact .failed { hclosed.endable with }
    · rw [hnone]
      exact ⟨.inl { hclosed with },
        (tame_withoutPart { closed with restartWithoutRange := false }).trans
          (.of_same rfl rfl rfl rfl rfl rfl rfl)⟩
  split
  · exact .failed hclosed.endable
  split
  · exact .failed hclosed.endable
  split
  · exact .failed hclosed.endable
  split
  · exact .failed hclosed.endable
  split
  · exact .failed hclosed.endable
  next hsize =>
    refine beginPartVerification_settles hclosed ?_
    rw [not_not.mp hsize]
    exact Nat.pos_iff_ne_zero.mp d.entry.fileSize_pos

theorem Transferring.current {reply : Reply} (h : Transferring s reply) : currentReply s = some reply := by
  unfold currentReply
  rw [h.reply, h.replies, Option.bind_some]
  exact List.find?_cons_of_pos (beq_self_eq_true reply.id)

theorem Transferring.bytesAvailable {reply : Reply} (h : Transferring s reply) :
    bytesAvailable s = reply.body.length := by
  unfold Models.bytesAvailable
  rw [h.current]

/-- A reply goes on under its number. -/
theorem Transferring.update {reply : Reply} (h : Transferring s reply) (update : Reply → Reply)
    (hid : (update reply).id = reply.id) : Transferring (updateReply reply.id update s) (update reply) where
  replies := by
    show s.replies.map _ = _
    rw [h.replies, List.map_singleton, if_pos (beq_self_eq_true reply.id)]
  reply := h.reply.trans (congrArg some hid.symm)
  verifications := h.verifications
  inProgress := h.inProgress
  partFile := h.partFile
  locked := h.locked

theorem updateReply_tame (id : Nat) (update : Reply → Reply) (s : ModelDownloadOperation) :
    Tame d env s (updateReply id update s) := .of_same rfl rfl rfl rfl rfl rfl rfl

/-- **The headers** are accepted, and the transfer goes on, or they are not. -/
theorem validateResponseHeaders_settles (d : Download) (env : Environment) {reply : Reply} (h : Transferring s reply) :
    Settles d env s (validateResponseHeaders d env s).2 ∧
      ((validateResponseHeaders d env s).1 = true → Transferring (validateResponseHeaders d env s).2 reply) := by
  unfold validateResponseHeaders
  rw [h.current]
  dsimp only
  split
  · exact ⟨⟨.inr (.inl ⟨reply, h⟩), .refl s⟩, fun _ => h⟩
  split
  · exact ⟨⟨.inr (.inl ⟨reply, h⟩), .refl s⟩, fun hwaiting => absurd hwaiting Bool.false_ne_true⟩
  · have hflag : Tame d env s { s with restartWithoutRange := true } := .of_same rfl rfl rfl rfl rfl rfl rfl
    refine ⟨.after hflag ?_, fun hignored => absurd hignored Bool.false_ne_true⟩
    unfold abortReply
    split
    · exact ⟨.inr (.inl ⟨reply, { h with }⟩), .refl _⟩
    · exact concludeReply_settles { h.endable with }
  · exact ⟨⟨.inr (.inl ⟨reply, { h with }⟩), .of_same rfl rfl rfl rfl rfl rfl rfl⟩, fun _ => { h with }⟩
  · exact ⟨.failed h.endable, fun hrefused => absurd hrefused Bool.false_ne_true⟩

/-- What the loop of `handleReadyRead` keeps: the reply is the one it started with. -/
def Reading (d : Download) (env : Environment) (id : Nat) (start s : ModelDownloadOperation) : Prop :=
  Tame d env start s ∧ ∃ reply, Transferring s reply ∧ reply.id = id

/-- A write of the current reply that fits. -/
theorem writePartFile_tame {reply : Reply} (data : QByteArray) (h : Transferring s reply)
    (hfits : partSize s + data.length ≤ d.entry.fileSize) :
    Tame d env s (writePartFile reply.id data s) ∧ Transferring (writePartFile reply.id data s) reply := by
  unfold writePartFile
  rw [h.partFile]
  dsimp only
  refine ⟨?_, { h with partFile := rfl }⟩
  exact {
    part := by
      refine .inr fun content hcontent => ?_
      cases hcontent
      rw [List.length_append]
      exact hfits
    final := fun _ h => .inl h
    state := id
    finished := rfl
    abandoned := fun _ h => h
    writes := by
      refine ⟨[⟨reply.id, partSize s, data⟩], rfl, fun write hmem => ?_⟩
      rw [List.mem_singleton.mp hmem]
      exact ⟨fun hold => hold.2 h.reply, hfits⟩ }

theorem readTurn_sound (d : Download) (env : Environment) (id : Nat) (start : ModelDownloadOperation) :
    TurnSound (readTurn d env) (Reading d env id start) bytesAvailable (Settles d env start) := by
  rintro s ⟨htame, reply, htransfer, hid⟩
  have hsize : partFileSize s = partSize s := by
    unfold partFileSize
    rw [htransfer.partFile]
  generalize hturn : readTurn d env s = turn
  unfold readTurn at hturn
  rw [htransfer.current] at hturn
  dsimp only at hturn
  rw [hsize] at hturn
  split at hturn
  · subst hturn
    exact ⟨.inr (.inl ⟨reply, htransfer⟩), htame⟩
  next hsome =>
    split at hturn
    · subst hturn
      exact .after htame (.failed htransfer.endable)
    next hlarge =>
      -- from here on the data are taken from the body of the reply
      have hcount := maximumRead_pos (d.entry.fileSize - partSize s)
      generalize maximumRead (d.entry.fileSize - partSize s) = count at hturn hcount
      have hread := htransfer.update (Reply.afterRead count) rfl
      have htame' : Tame d env start (updateReply reply.id (Reply.afterRead count) s) :=
        htame.trans (updateReply_tame _ _ s)
      have hpart : partSize (updateReply reply.id (Reply.afterRead count) s) = partSize s := rfl
      generalize updateReply reply.id (Reply.afterRead count) s = after at hturn hread htame' hpart
      split at hturn
      · subst hturn
        exact .after htame' (.failed hread.endable)
      next hover =>
        have hfits : partSize after + (reply.body.take count).length ≤ d.entry.fileSize := by omega
        split at hturn
        next stored _ =>
          subst hturn
          have hstored : partSize after + ((reply.body.take count).take stored).length ≤ d.entry.fileSize := by
            have hshorter := List.length_take_le' stored (reply.body.take count)
            omega
          obtain ⟨hwritten, hafter⟩ := writePartFile_tame _ hread hstored
          exact .after (htame'.trans hwritten) (.failed hafter.endable)
        next =>
          subst hturn
          obtain ⟨hwritten, hafter⟩ := writePartFile_tame (reply.body.take count) hread hfits
          have hnext : Transferring { writePartFile reply.id (reply.body.take count) after with
              bytesReceived := partSize s + (reply.body.take count).length } (reply.afterRead count) :=
            { hafter with }
          refine ⟨⟨(htame'.trans hwritten).trans (.of_same rfl rfl rfl rfl rfl rfl rfl), _, hnext, hid⟩, ?_⟩
          have hbody : 0 < reply.body.length := List.length_pos_iff.mpr (List.isEmpty_iff.not.mp hsome)
          calc bytesAvailable _ = (reply.body.drop count).length := hnext.bytesAvailable
            _ < reply.body.length := by
              rw [List.length_drop]
              omega
            _ = bytesAvailable s := htransfer.bytesAvailable.symm

/-- **The data** that have arrived are all read, or the transfer ends. -/
theorem readAvailable_settles {reply : Reply} (h : Transferring s reply) :
    Settles d env s (readAvailable d env s) := by
  obtain ⟨last, hlast, hrun⟩ := run_total (readTurn_sound d env reply.id s) ⟨.refl s, reply, h, rfl⟩
  unfold readAvailable
  rw [hrun _ (Nat.lt_succ_self _)]
  exact hlast

theorem handleReadyRead_settles {reply : Reply} (h : Transferring s reply) :
    Settles d env s (handleReadyRead d env s) := by
  unfold handleReadyRead
  split
  · exact ⟨.inr (.inl ⟨reply, h⟩), .refl s⟩
  have hvalidated := validateResponseHeaders_settles d env h
  split
  next after heq =>
    rw [heq] at hvalidated
    exact hvalidated.1
  next after heq =>
    rw [heq] at hvalidated
    exact .after hvalidated.1.tame (readAvailable_settles (hvalidated.2 rfl))

/-- An operation with a reply is transferring. -/
theorem Settled.transferring {id : Nat} (h : Settled d s) (hreply : s.reply = some id) :
    ∃ reply, Transferring s reply := by
  rcases h with hrest | htransfer | ⟨verification, hverify⟩
  · exact absurd (hrest.reply.symm.trans hreply) nofun
  · exact htransfer
  · exact absurd (hverify.reply.symm.trans hreply) nofun

theorem readFinished_settles {reply : Reply} (h : Transferring s reply) :
    Settles d env s (readFinished d env s) := by
  have hvalidated := validateResponseHeaders_settles d env h
  unfold readFinished
  split
  next after heq =>
    rw [heq] at hvalidated
    exact hvalidated.1
  next after heq =>
    rw [heq] at hvalidated
    exact .after hvalidated.1.tame (handleReadyRead_settles (hvalidated.2 rfl))

theorem handleNetworkFinished_settles {reply : Reply} (h : Transferring s reply) :
    Settles d env s (handleNetworkFinished d env s) := by
  unfold handleNetworkFinished
  rw [h.current]
  dsimp only
  split
  · have hread : Settles d env s (readFinished d env s) := readFinished_settles h
    refine .after hread.tame ?_
    split
    next hsame =>
      obtain ⟨other, hother⟩ := hread.settled.transferring hsame
      exact concludeReply_settles hother.endable
    next => exact ⟨hread.settled, .refl _⟩
  · exact concludeReply_settles h.endable

/-- **A signal** comes from the one reply there is. -/
theorem signalled_settles {id : Nat} {signal : ReplySignal} {arrival : Arrival} (h : Settled d s) :
    Settles d env s (signalled d env id signal arrival s) := by
  unfold signalled
  split
  next hany =>
    obtain ⟨sender, hmem, hsender⟩ := List.any_eq_true.mp hany
    rw [Bool.and_eq_true, beq_iff_eq] at hsender
    rcases h with hrest | ⟨reply, htransfer⟩ | ⟨verification, hverify⟩
    · rw [hrest.replies] at hmem
      cases hmem
    · rw [htransfer.replies, List.mem_singleton] at hmem
      rw [← hsender.1, hmem]
      have harrived := htransfer.update (Reply.arrived signal arrival) rfl
      refine .after (updateReply_tame reply.id (Reply.arrived signal arrival) s) ?_
      cases signal with
      | metaDataChanged => exact (validateResponseHeaders_settles d env harrived).1
      | readyRead => exact handleReadyRead_settles harrived
      | finished => exact handleNetworkFinished_settles harrived
    · rw [hverify.replies] at hmem
      cases hmem
  next => exact ⟨h, .refl s⟩

/-! ## Hashes -/

/-- What a callback owes that may complete the download. -/
structure Outcome (d : Download) (event : DownloadEvent) (s s' : ModelDownloadOperation) : Prop where
  settled : Settled d s'
  safe : SafeStep d event s s'

theorem Settles.outcome {event : DownloadEvent} (h : Settles d event.env s s') : Outcome d event s s' :=
  ⟨h.settled, h.tame.safe⟩

/-- **Completion** is reported with the file in its place. -/
theorem Outcome.complete {event : DownloadEvent} {start : ModelDownloadOperation} (hrest : AtRest s)
    (h : SafeStep d event start s) (hfinal : VerifiedFinal d s) :
    Outcome d event start (completeSuccessfully s) := by
  have hcomplete : AtRest (completeSuccessfully s) := finish_atRest { hrest with }
  refine ⟨.inl hcomplete, ?_⟩
  unfold completeSuccessfully finish
  split
  · exact ⟨h.part, h.produced, fun _ => hfinal, h.abandoned, h.writes⟩
  · exact ⟨h.part, h.produced, fun _ => hfinal, h.abandoned, h.writes⟩

/-- Removing the part file and completing. -/
theorem Outcome.completeWithoutPart {event : DownloadEvent} {start : ModelDownloadOperation} (hrest : AtRest s)
    (h : Tame d event.env start s) (hfinal : VerifiedFinal d s) :
    Outcome d event start (completeSuccessfully (removePart event.env.removesPart s).2) := by
  rcases removePart_closed event.env.removesPart hrest.closed with hsame | hnone
  · rw [hsame]
    exact .complete hrest h.safe hfinal
  · rw [hnone]
    exact .complete { hrest with } (h.trans (tame_withoutPart s)).safe hfinal

theorem renamePart_closed (env : Environment) (hclosed : s.partFile = .null ∨ s.partFile = .closed) :
    renamePart env s = (false, s) ∨
      ∃ content, s.part = some content ∧ renamePart env s = (true, { s with part := none, final := some content }) := by
  unfold renamePart
  split
  next hrenames =>
    rw [Bool.and_eq_true, Bool.and_eq_true] at hrenames
    obtain ⟨content, hcontent⟩ := Option.isSome_iff_exists.mp hrenames.1.1
    refine .inr ⟨content, hcontent, ?_⟩
    have hfile : s.partFile ≠ .onPart := by
      rcases hclosed with h | h <;> rw [h] <;> exact nofun
    rw [if_neg hfile, hcontent]
  next => exact .inl rfl

/-- **Moving the part file**, whose content is verified. -/
theorem Outcome.completeRenamed {event : DownloadEvent} {start : ModelDownloadOperation} {content : QByteArray}
    (hrest : AtRest s) (h : Tame d event.env start s) (hpart : start.part = some content)
    (hverified : d.sha256 content = d.entry.sha256) :
    Outcome d event start (completeSuccessfully { s with part := none, final := some content }) := by
  have hmoved : Tame d event.env start { s with part := none } := h.trans (tame_withoutPart s)
  refine .complete { hrest with } ?_ ⟨content, rfl, hverified⟩
  exact { hmoved.safe with
    produced := fun other hother => by
      cases hother
      exact .inr (.inl ⟨hpart, hverified⟩)
    completed := fun _ => ⟨content, rfl, hverified⟩ }

theorem afterPublishing_tame (s : ModelDownloadOperation) : Tame d env s (afterPublishing env s) := by
  unfold afterPublishing
  split
  · exact {
      part := .inl rfl
      final := fun _ h => .inr h
      state := id
      finished := rfl
      abandoned := fun _ h => h
      writes := writes_nothing_new rfl }
  · exact .refl s

theorem afterPublishing_atRest (h : AtRest s) : AtRest (afterPublishing env s) := by
  unfold afterPublishing
  split
  · exact { h with }
  · exact h

theorem afterPublishing_part (s : ModelDownloadOperation) : (afterPublishing env s).part = s.part := by
  unfold afterPublishing
  split <;> rfl

/-- A part file of the right hash goes to the final path, or the file that is there is looked at. -/
theorem commitVerifiedPart_outcome {event : DownloadEvent} {start : ModelDownloadOperation}
    {content : QByteArray} (hrest : AtRest s) (h : Tame d event.env start s) (hsame : s.part = start.part)
    (hpart : s.part = some content) (hverified : d.sha256 content = d.entry.sha256) :
    Outcome d event start (commitVerifiedPart event.env s) := by
  unfold commitVerifiedPart
  split
  next hfinal =>
    exact (Settles.after h (beginFinalVerification_settles .finalBeforeCommit hrest hfinal nofun
      fun _ => ⟨content, hpart, hverified⟩)).outcome
  next =>
    have hpublished : Tame d event.env start (afterPublishing event.env s) := h.trans (afterPublishing_tame s)
    have hrest' : AtRest (afterPublishing event.env s) := afterPublishing_atRest hrest
    have hpart' : (afterPublishing event.env s).part = some content := (afterPublishing_part s).trans hpart
    generalize afterPublishing event.env s = after at hpublished hrest' hpart'
    rcases renamePart_closed event.env hrest'.closed with hrefused | ⟨moved, hmoved, hrenamed⟩
    · rw [hrefused]
      dsimp only
      split
      next hfinal =>
        exact (Settles.after hpublished (beginFinalVerification_settles .finalBeforeCommit hrest' hfinal nofun
          fun _ => ⟨content, hpart', hverified⟩)).outcome
      next => exact (Settles.after hpublished (.failed hrest'.endable)).outcome
    · cases hpart'.symm.trans hmoved
      rw [hrenamed]
      exact .completeRenamed hrest' hpublished (hsame.symm.trans hpart) hverified

/-- The final file is not the model: it is removed, unless that fails. -/
theorem removeFinal_outcome {event : DownloadEvent} {start : ModelDownloadOperation}
    {message : QString} {next : ModelDownloadOperation → ModelDownloadOperation}
    (hrest : AtRest s) (h : Tame d event.env start s)
    (hnext : ∀ after, AtRest after → Tame d event.env start after → after.part = s.part →
      Outcome d event start (next after)) :
    Outcome d event start
      (if !(removeFinal event.env s).1 && (removeFinal event.env s).2.final.isSome then
        fail event.env message false false (removeFinal event.env s).2
      else next (removeFinal event.env s).2) := by
  rcases removeFinal_closed event.env hrest.closed with hkept | hremoved
  · rw [hkept]
    split
    · exact (Settles.after h (.failed hrest.endable)).outcome
    · exact hnext s hrest h rfl
  · rw [hremoved]
    exact hnext _ { hrest with } (h.trans (tame_withoutFinal s)) rfl

theorem replaceInvalidFinal_outcome {event : DownloadEvent} {start : ModelDownloadOperation}
    {content : QByteArray} (hrest : AtRest s) (h : Tame d event.env start s)
    (hstart : start.part = some content) (hpart : s.part = some content)
    (hverified : d.sha256 content = d.entry.sha256) :
    Outcome d event start (replaceInvalidFinal event.env s) := by
  have hpublished := h.trans (afterPublishing_tame s)
  have hrest' : AtRest (afterPublishing event.env s) := afterPublishing_atRest hrest
  have hpart' : (afterPublishing event.env s).part = some content := (afterPublishing_part s).trans hpart
  unfold replaceInvalidFinal
  rcases renamePart_closed event.env hrest'.closed with hrefused | ⟨moved, hmoved, hrenamed⟩
  · rw [hrefused]
    exact (Settles.after hpublished (.failed hrest'.endable)).outcome
  · cases hpart'.symm.trans hmoved
    rw [hrenamed]
    exact .completeRenamed hrest' hpublished hstart hverified

/-- **A hash** of a file that stayed as it is. -/
theorem handleVerificationFinished_outcome {event : DownloadEvent} {start : ModelDownloadOperation}
    {verification : Verification} {checksum : QByteArray} (hrest : AtRest s) (h : Tame d event.env start s)
    (hsame : s.part = start.part) (hsound : SoundVerification d s verification)
    (hchecksum : verification.checksum = some checksum) :
    Outcome d event start (handleVerificationFinished d event.env checksum verification.purpose s) := by
  obtain ⟨content, hcontent, hhash⟩ := hsound.content
  have hpath := hsound.path
  -- a hash that is right is not that of an unreadable file
  have hvalid : checksum = d.entry.sha256 → d.sha256 content = d.entry.sha256 := by
    intro hright
    rcases hhash checksum hchecksum with hempty | hread
    · exact absurd (hright.symm.trans hempty) d.entry.sha256_ne_nil
    · exact hread.symm.trans hright
  unfold handleVerificationFinished
  cases hpurpose : verification.purpose with
  | existingFinal =>
    rw [hpath, hpurpose] at hcontent
    dsimp only
    split
    next hright => exact .completeWithoutPart hrest h ⟨content, hcontent, hvalid hright⟩
    next =>
      refine removeFinal_outcome hrest h fun after hafter htame _ => ?_
      exact (Settles.after htame (beginRequest_settles hafter)).outcome
  | downloadedPart =>
    rw [hpath, hpurpose] at hcontent
    dsimp only
    split
    next hright => exact commitVerifiedPart_outcome hrest h hsame hcontent (hvalid hright)
    next =>
      rcases removePart_closed event.env.removesPart hrest.closed with hkept | hremoved
      · rw [hkept]
        exact (Settles.after h (.failed hrest.endable)).outcome
      · rw [hremoved]
        exact (Settles.after (h.trans (tame_withoutPart s)) (.failed { hrest.endable with })).outcome
  | finalBeforeCommit =>
    rw [hpath, hpurpose] at hcontent
    dsimp only
    split
    next hright => exact .completeWithoutPart hrest h ⟨content, hcontent, hvalid hright⟩
    next =>
      obtain ⟨verified, hpart, hverified⟩ := hsound.part hpurpose
      exact removeFinal_outcome hrest h fun after hafter htame hkept =>
        replaceInvalidFinal_outcome hafter htame (hsame.symm.trans hpart) (hkept.trans hpart) hverified

theorem verificationFinished_outcome {event : DownloadEvent} {verification : Verification}
    {checksum : QByteArray} (h : Verifying d s verification) (hchecksum : verification.checksum = some checksum) :
    Outcome d event s (verificationFinished d event.env 0 verification checksum s) := by
  have hrest : AtRest { s with verifications := s.verifications.eraseIdx 0, verificationInProgress := false } := {
    replies := h.replies
    reply := h.reply
    verifications := by
      show s.verifications.eraseIdx 0 = []
      rw [h.verifications]
      rfl
    inProgress := rfl
    closed := h.closed }
  have htame : Tame d event.env s
      { s with verifications := s.verifications.eraseIdx 0, verificationInProgress := false } :=
    .of_same rfl rfl rfl rfl rfl rfl rfl
  have hsound : SoundVerification d
      { s with verifications := s.verifications.eraseIdx 0, verificationInProgress := false } verification :=
    ⟨h.sound.path, h.sound.content, h.sound.part⟩
  have hsame : { s with verifications := s.verifications.eraseIdx 0, verificationInProgress := false }.part =
    s.part := rfl
  unfold verificationFinished
  generalize { s with verifications := s.verifications.eraseIdx 0, verificationInProgress := false } = after
    at hrest htame hsound hsame
  dsimp only
  split
  · exact (Settles.after htame (removeCancelled_settles hrest)).outcome
  · exact handleVerificationFinished_outcome hrest htame hsame hsound hchecksum

/-! ## Steps and runs -/

theorem start_settles (h : Settled d s) : Settles d env s (start d env s) := by
  unfold start
  split
  · exact ⟨h, .refl s⟩
  next hstate =>
    have hflags : Tame d env s { s with
        cancelled := false, userPaused := false, finishedEmitted := false, retryCount := 0, error := [] } :=
      .of_same rfl rfl rfl rfl rfl rfl rfl
    refine .after hflags (acquireDownloadLock_settles ?_)
    rcases h with hrest | ⟨reply, htransfer⟩ | ⟨verification, hverify⟩
    · exact .inl { hrest with }
    · exact .inr (.inl ⟨reply, { htransfer with }⟩)
    · rcases hverify.state with hverifying | hcancelled
      · rw [hverifying] at hstate
        exact absurd ⟨nofun, nofun⟩ hstate
      · rw [hcancelled] at hstate
        exact absurd ⟨nofun, nofun⟩ hstate

/-- A hash is neither paused nor resumed: the commands look at the state first. -/
theorem Settled.endable (h : Settled d s) (hverifying : s.state ≠ .verifying) (hcancelled : s.state ≠ .cancelled) :
    Endable s := by
  rcases h with hrest | ⟨reply, htransfer⟩ | ⟨verification, hverify⟩
  · exact hrest.endable
  · exact htransfer.endable
  · exact absurd hverify.state (not_or.mpr ⟨hverifying, hcancelled⟩)

theorem pause_settles (h : Settled d s) : Settles d env s (pause s) := by
  unfold pause
  split
  · exact ⟨h, .refl s⟩
  next hstate =>
    have hendable : Endable s := by
      refine h.endable (fun hverifying => ?_) (fun hcancelled => ?_)
      · rw [hverifying] at hstate
        exact hstate ⟨nofun, nofun⟩
      · rw [hcancelled] at hstate
        exact hstate ⟨nofun, nofun⟩
    have hflags : Tame d env s { s with userPaused := true, lockRetryActive := false } :=
      .of_same rfl rfl rfl rfl rfl rfl rfl
    have hclosed : AtRest (closeActiveRequest { s with userPaused := true, lockRetryActive := false }) :=
      closeActiveRequest_atRest { hendable with }
    exact ⟨.inl { hclosed with },
      (hflags.trans (closeActiveRequest_tame _)).trans (released_tame .paused nofun _)⟩

theorem resume_settles (h : Settled d s) : Settles d env s (resume d env s) := by
  unfold resume
  split
  · exact ⟨h, .refl s⟩
  next hstate =>
    have hpending : Tame d env s (setState .pending s) := setState_tame .pending nofun s
    have hflags : Tame d env (setState .pending s) { setState .pending s with
        userPaused := false, cancelled := false, restartWithoutRange := false, responseValidated := false
        finishedEmitted := false, error := [] } := .of_same rfl rfl rfl rfl rfl rfl rfl
    refine .after (hpending.trans hflags) (acquireDownloadLock_settles ?_)
    rcases h with hrest | ⟨reply, htransfer⟩ | ⟨verification, hverify⟩
    · exact .inl { hrest with }
    · exact .inr (.inl ⟨reply, { htransfer with }⟩)
    · rcases hverify.state with hverifying | hcancelled
      · rw [hverifying] at hstate
        exact absurd ⟨nofun, nofun⟩ hstate
      · rw [hcancelled] at hstate
        exact absurd ⟨nofun, nofun⟩ hstate

theorem cancel_settles (h : Settled d s) : Settles d env s (cancel env s) := by
  unfold cancel
  split
  · exact ⟨h, .refl s⟩
  have hflags : Tame d env s { s with cancelled := true, lockRetryActive := false } :=
    .of_same rfl rfl rfl rfl rfl rfl rfl
  have htame : Tame d env s (setState .cancelled { s with cancelled := true, lockRetryActive := false }) :=
    hflags.trans (setState_tame .cancelled nofun _)
  refine .after htame ?_
  dsimp only
  split
  next hinProgress =>
    refine ⟨?_, .refl _⟩
    rcases h with hrest | ⟨reply, htransfer⟩ | ⟨verification, hverify⟩
    · exact absurd (hrest.inProgress.symm.trans hinProgress) nofun
    · exact absurd (htransfer.inProgress.symm.trans hinProgress) nofun
    · -- the hash goes on, for a download that is given up
      exact .inr (.inr ⟨verification, { hverify with
        state := .inr rfl
        sound := ⟨hverify.sound.path, hverify.sound.content, hverify.sound.part⟩ }⟩)
  next hinProgress =>
    have hendable : Endable s := by
      rcases h with hrest | ⟨reply, htransfer⟩ | ⟨verification, hverify⟩
      · exact hrest.endable
      · exact htransfer.endable
      · exact absurd hverify.inProgress hinProgress
    have hclosed : AtRest (closeActiveRequest
        (setState .cancelled { s with cancelled := true, lockRetryActive := false })) :=
      closeActiveRequest_atRest { hendable with }
    refine .after (closeActiveRequest_tame _) ?_
    generalize closeActiveRequest (setState .cancelled { s with cancelled := true, lockRetryActive := false }) =
      closed at hclosed
    split
    · have hlocked : Tame d env closed { closed with isLocked := true } := .of_same rfl rfl rfl rfl rfl rfl rfl
      exact .after hlocked (removeCancelled_settles { hclosed with })
    · exact removeCancelled_settles hclosed

/-- Reading a file gives its hash, or nothing. -/
theorem SoundVerification.hashed {verification : Verification} (h : SoundVerification d s verification)
    (readable : Bool) : SoundVerification d s (hashFile d readable s verification) where
  path := h.path
  content := by
    obtain ⟨content, hcontent, hchecksum⟩ := h.content
    refine ⟨content, hcontent, fun checksum hmem => ?_⟩
    have hread : verification.checksum.getD
        (if readable then ((contentAt verification.path s).map d.sha256).getD [] else []) = checksum :=
      Option.some.inj hmem
    rw [← hread, hcontent]
    cases hold : verification.checksum with
    | some old => exact hchecksum old hold
    | none =>
      cases readable with
      | true => exact .inr rfl
      | false => exact .inl rfl
  part := h.part

theorem fileHashed_settles (index : Nat) (readable : Bool) (h : Settled d s) :
    Settles d env s (fileHashed d index readable s) := by
  refine ⟨?_, .of_same rfl rfl rfl rfl rfl rfl rfl⟩
  have hlist {list : List Verification} (hsame : s.verifications = list) :
      (fileHashed d index readable s).verifications = list.modify index (hashFile d readable s) := by
    rw [← hsame]
    rfl
  rcases h with hrest | ⟨reply, htransfer⟩ | ⟨verification, hverify⟩
  · exact .inl { hrest with verifications := (hlist hrest.verifications).trans (List.modify_nil ..) }
  · exact .inr (.inl ⟨reply, { htransfer with
      verifications := (hlist htransfer.verifications).trans (List.modify_nil ..) }⟩)
  · cases index with
    | zero =>
      have hhashed := hverify.sound.hashed readable
      exact .inr (.inr ⟨hashFile d readable s verification, { hverify with
        verifications := hlist hverify.verifications
        sound := ⟨hhashed.path, hhashed.content, hhashed.part⟩ }⟩)
    | succ index =>
      refine .inr (.inr ⟨verification, { hverify with
        verifications := (hlist hverify.verifications).trans ?_
        sound := ⟨hverify.sound.path, hverify.sound.content, hverify.sound.part⟩ }⟩)
      rw [List.modify_succ_cons, List.modify_nil]

/-- A file that appears at the final path is not the one that is hashed. -/
theorem SoundVerification.published {verification : Verification} {content : QByteArray}
    (h : SoundVerification d s verification) (hnone : s.final = none) :
    SoundVerification d { s with final := some content } verification where
  path := h.path
  content := by
    obtain ⟨hashed, hhashed, hchecksum⟩ := h.content
    refine ⟨hashed, ?_, hchecksum⟩
    cases hpath : verification.path with
    | part =>
      rw [hpath] at hhashed
      exact hhashed
    | final =>
      rw [hpath] at hhashed
      exact absurd (hnone.symm.trans hhashed) nofun
  part := h.part

theorem verificationResult_outcome {event : DownloadEvent} {index : Nat} (h : Settled d s) :
    Outcome d event s (match s.verifications[index]? with
      | some verification =>
        match verification.checksum with
        | some checksum => verificationFinished d event.env index verification checksum s
        | none => s
      | none => s) := by
  have hnothing : Outcome d event s s := ⟨h, (Tame.refl s).safe⟩
  split
  next verification hfound =>
    split
    next checksum hchecksum =>
      rcases h with hrest | ⟨reply, htransfer⟩ | ⟨started, hverify⟩
      · rw [hrest.verifications] at hfound
        cases hfound
      · rw [htransfer.verifications] at hfound
        cases hfound
      · rw [hverify.verifications] at hfound
        cases index with
        | zero =>
          cases hfound
          exact verificationFinished_outcome hverify hchecksum
        | succ index => cases hfound
    next => exact hnothing
  next => exact hnothing

theorem published_outcome {event : DownloadEvent} {content : QByteArray}
    (hevent : event.callback = .published content) (h : Settled d s) :
    Outcome d event s (if s.final.isNone then { s with final := some content } else s) := by
  split
  next hnone =>
    have hempty : s.final = none := Option.isNone_iff_eq_none.mp hnone
    refine ⟨?_, ?_⟩
    · rcases h with hrest | ⟨reply, htransfer⟩ | ⟨verification, hverify⟩
      · exact .inl { hrest with }
      · exact .inr (.inl ⟨reply, { htransfer with }⟩)
      · exact .inr (.inr ⟨verification, { hverify with sound := hverify.sound.published hempty }⟩)
    · have hsame : Tame d event.env s s := .refl s
      exact { hsame.safe with
        produced := fun other hother => by
          refine .inr (.inr (.inr ?_))
          rw [hevent]
          exact Option.some.inj hother
        completed := fun hreports => by
          rcases hreports with ⟨hstate, hnot⟩ | hcount
          · exact absurd hstate hnot
          · exact absurd hcount (Nat.lt_irrefl _) }
  next => exact ⟨h, (Tame.refl s).safe⟩

theorem others_outcome {event : DownloadEvent} {part final : Option QByteArray}
    (hevent : event.callback = .others part final) (h : Settled d s) :
    Outcome d event s (if s.isLocked then s
      else { s with
        part := part, final := final
        partFile := (s.partFile.afterRemoval .onPart s.part).afterRemoval .onFinal s.final }) := by
  split
  · exact ⟨h, (Tame.refl s).safe⟩
  next hlocked =>
    have hrest : AtRest s := .of_unlocked h (Bool.not_eq_true _ ▸ hlocked)
    have hfile : (s.partFile.afterRemoval .onPart s.part).afterRemoval .onFinal s.final = s.partFile := by
      rw [afterRemoval_closed hrest.closed (.inl rfl), afterRemoval_closed hrest.closed (.inr rfl)]
    rw [hfile]
    refine ⟨.inl { hrest with }, ?_⟩
    have hsame : Tame d event.env s s := .refl s
    exact { hsame.safe with
      part := fun hown => by
        unfold DownloadEvent.IsOwn at hown
        rw [hevent] at hown
        exact hown.elim
      produced := fun content hcontent => by
        refine .inr (.inr (.inr ?_))
        rw [hevent]
        exact hcontent
      completed := fun hreports => by
        rcases hreports with ⟨hstate, hnot⟩ | hcount
        · exact absurd hstate hnot
        · exact absurd hcount (Nat.lt_irrefl _) }

/-- A deferred call that is not stale finds nothing under way. -/
theorem restartTimer_settles (h : Settled d s)
    (hfresh : ¬ (0 < s.restartTimers ∧ (s.reply ≠ none ∨ s.verificationInProgress = true))) :
    Settles d env s (if s.restartTimers = 0 then s
      else beginRequest d env { s with restartTimers := s.restartTimers - 1 }) := by
  split
  · exact ⟨h, .refl s⟩
  next htimers =>
    have hnothing := not_or.mp (not_and.mp hfresh (Nat.pos_of_ne_zero htimers))
    have hrest : AtRest s := by
      rcases h with hrest | ⟨reply, htransfer⟩ | ⟨verification, hverify⟩
      · exact hrest
      · exact absurd (htransfer.reply.symm.trans (not_not.mp hnothing.1)) nofun
      · exact absurd hverify.inProgress hnothing.2
    have htimer : Tame d env s { s with restartTimers := s.restartTimers - 1 } :=
      .of_same rfl rfl rfl rfl rfl rfl rfl
    exact .after htimer (beginRequest_settles { hrest with })

/-- Flags outside of what is under way. -/
theorem Settled.flags (h : Settled d s) (hsame : s'.part = s.part ∧ s'.final = s.final ∧ s'.reply = s.reply ∧
      s'.replies = s.replies ∧ s'.verifications = s.verifications ∧
      s'.verificationInProgress = s.verificationInProgress ∧ s'.partFile = s.partFile ∧
      s'.isLocked = s.isLocked ∧ s'.state = s.state) : Settled d s' := by
  obtain ⟨hpart, hfinal, hreply, hreplies, hverifications, hinProgress, hfile, hlocked, hstate⟩ := hsame
  have hcontent (path : ModelPath) : contentAt path s' = contentAt path s := by
    cases path with
    | part => exact hpart
    | final => exact hfinal
  rcases h with hrest | ⟨reply, htransfer⟩ | ⟨verification, hverify⟩
  · exact .inl ⟨hreplies ▸ hrest.replies, hreply ▸ hrest.reply, hverifications ▸ hrest.verifications,
      hinProgress ▸ hrest.inProgress, hfile ▸ hrest.closed⟩
  · exact .inr (.inl ⟨reply, hreplies ▸ htransfer.replies, hreply ▸ htransfer.reply,
      hverifications ▸ htransfer.verifications, hinProgress ▸ htransfer.inProgress, hfile ▸ htransfer.partFile,
      hlocked ▸ htransfer.locked⟩)
  · exact .inr (.inr ⟨verification, hreplies ▸ hverify.replies, hreply ▸ hverify.reply,
      hverifications ▸ hverify.verifications, hinProgress ▸ hverify.inProgress, hfile ▸ hverify.closed,
      hlocked ▸ hverify.locked, hstate ▸ hverify.state,
      ⟨hverify.sound.path, hcontent verification.path ▸ hverify.sound.content, hpart ▸ hverify.sound.part⟩⟩)

/-- **One callback.** -/
theorem step_outcome (event : DownloadEvent) (h : Settled d s) (hfresh : ¬ StaleRestart s event) :
    Outcome d event s (step d s event) := by
  unfold StaleRestart at hfresh
  unfold step
  cases hevent : event.callback with
  | start => exact (start_settles h).outcome
  | pause => exact (pause_settles h).outcome
  | resume => exact (resume_settles h).outcome
  | cancel => exact (cancel_settles h).outcome
  | network id signal arrival => exact (signalled_settles h).outcome
  | restartTimer =>
    rw [hevent] at hfresh
    exact (restartTimer_settles h hfresh).outcome
  | retryTimer =>
    dsimp only
    split
    · exact ⟨h, (Tame.refl s).safe⟩
    · have htimer : Tame d event.env s { s with retryTimers := s.retryTimers - 1 } :=
        .of_same rfl rfl rfl rfl rfl rfl rfl
      have hsettled : Settled d { s with retryTimers := s.retryTimers - 1 } :=
        h.flags ⟨rfl, rfl, rfl, rfl, rfl, rfl, rfl, rfl, rfl⟩
      exact (Settles.after htimer (acquireDownloadLock_settles hsettled)).outcome
  | lockRetryTimer =>
    dsimp only
    split
    · have htimer : Tame d event.env s { s with lockRetryActive := false } :=
        .of_same rfl rfl rfl rfl rfl rfl rfl
      have hsettled : Settled d { s with lockRetryActive := false } :=
        h.flags ⟨rfl, rfl, rfl, rfl, rfl, rfl, rfl, rfl, rfl⟩
      exact (Settles.after htimer (acquireDownloadLock_settles hsettled)).outcome
    · exact ⟨h, (Tame.refl s).safe⟩
  | fileHashed index readable => exact (fileHashed_settles index readable h).outcome
  | verificationFinished index => exact verificationResult_outcome h
  | published content => exact published_outcome hevent h
  | others part final => exact others_outcome hevent h

theorem created_settled (part final : Option QByteArray) : Settled d (created part final) :=
  .inl ⟨rfl, rfl, rfl, rfl, .inl rfl⟩

/-- Every state has at most one live reply, and every step is safe. -/
def SafeRun (d : Download) (start : ModelDownloadOperation) (events : List DownloadEvent) : Prop :=
  (∀ s ∈ states (step d) start events, (liveReplies s).length ≤ 1) ∧
    Guarded (step d) (fun s event => SafeStep d event s (step d s event)) start events

/-- **Download safety.**  Whatever the files are at the start, and in whatever order the callbacks come: as
    long as no deferred restart comes while a later attempt is under way, the run is safe. -/
theorem download_safety (d : Download) (part final : Option QByteArray) (events : List DownloadEvent)
    (hfresh : Guarded (step d) (fun s event => ¬ StaleRestart s event) (created part final) events) :
    SafeRun d (created part final) events := by
  have hkeeps : StepKeeps (step d) (fun s event => ¬ StaleRestart s event) (Settled d) :=
    fun _ event h hstep => (step_outcome event h hstep).settled
  have hsettled := states_invariant hkeeps (created_settled part final) hfresh
  refine ⟨fun s hs => (hsettled s hs).one_live, ?_⟩
  exact (hfresh.of_states hsettled).imp fun s event h => (step_outcome event h.1 h.2).safe

instance (s : ModelDownloadOperation) (event : DownloadEvent) : Decidable (StaleRestart s event) := by
  unfold StaleRestart
  split <;> infer_instance

/-- A model of three bytes, and their hash. -/
def abcDownload : Download where
  entry := {
    fileSize := 3
    sha256 := qba "ba7816bf8f01cfea414140de5dae2223b00361a396177a9cb410ff61f20015ad"
    fileSize_pos := by decide
    sha256_size := by decide }
  network := true
  sha256 content :=
    if content = qba "abc" then qba "ba7816bf8f01cfea414140de5dae2223b00361a396177a9cb410ff61f20015ad" else []

def rangeHeaders (range : String) : RawHeaders := [(qba "Content-Range", qba range)]

/-- The rest of the file comes in two parts, with a pause between them. -/
def resumedDownload : List DownloadEvent :=
  [⟨.start, {}⟩,
    ⟨.network 0 .readyRead { status := 206, headers := rangeHeaders "bytes 1-2/3", data := qba "b" }, {}⟩,
    ⟨.pause, {}⟩, ⟨.resume, {}⟩,
    ⟨.network 1 .finished { status := 206, headers := rangeHeaders "bytes 2-2/3", data := qba "c" }, {}⟩,
    ⟨.fileHashed 0 true, {}⟩, ⟨.verificationFinished 0, {}⟩]

theorem download_safety_resumed :
    SafeRun abcDownload (created (some (qba "a")) none) resumedDownload ∧
      (run (step abcDownload) (created (some (qba "a")) none) resumedDownload).final = some (qba "abc") ∧
      (run (step abcDownload) (created (some (qba "a")) none) resumedDownload).state = .completed :=
  ⟨download_safety abcDownload (some (qba "a")) none resumedDownload (by decide), by decide, by decide⟩

/-- The server ignores the range; the user pauses and resumes before the deferred call. -/
def staleRestart : List DownloadEvent :=
  [⟨.start, {}⟩, ⟨.network 0 .metaDataChanged { status := 200 }, {}⟩, ⟨.pause, {}⟩, ⟨.resume, {}⟩,
    ⟨.restartTimer, {}⟩]

/-- **Two requests at once.** -/
theorem download_safety_staleRestart :
    ¬ SafeRun abcDownload (created (some (qba "a")) none) staleRestart := by
  intro hsafe
  have hlive := hsafe.1 _ (run_mem_states _ staleRestart)
  have htwo : (liveReplies (run (step abcDownload) (created (some (qba "a")) none) staleRestart)).length = 2 := by
    decide
  omega

end BreezeDesk.Models
