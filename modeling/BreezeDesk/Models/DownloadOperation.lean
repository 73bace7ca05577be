/-
  The download of one model file (`ModelDownloadOperation`), as a state machine.

  An operation appends the body of a network reply to a partial file and, when the file is complete, has
  its SHA-256 computed in the background and moves it to its final path.  It works on the two files only
  while it holds the lock of the model.  Between two callbacks (a command of the user, a signal of a reply,
  a timer, the end of a hash) it does nothing, so that a run is a list of callbacks.

  `Environment` is what the operating system answers during one callback.  Processes that do not hold the
  lock leave the files alone, except that one may put a file at the final path where there is none
  (`published`); while the operation does not hold the lock either, anything may happen to them (`others`).

  `abort` emits `finished` at once, unless the reply has finished already: that is the one place where a
  handler runs inside another one.
-/
import BreezeDesk.Library.Loop
import BreezeDesk.Models.DownloadHeaders

namespace BreezeDesk.Models

open Loop

/-! ## States -/

def diskSafetyMargin : Nat := 256 * 1024 * 1024

def maximumReadChunk : Nat := 1024 * 1024

def maximumRetries : Nat := 4

inductive DownloadState where
  | pending | downloading | paused | verifying | completed | cancelled | failed
  deriving DecidableEq

inductive VerificationPurpose where
  | existingFinal | downloadedPart | finalBeforeCommit
  deriving DecidableEq

/-- `m_partPath` and `m_finalPath`. -/
inductive ModelPath where
  | part | final
  deriving DecidableEq

/-- `m_partFile`.  An open file keeps its content when its path is removed or moved. -/
inductive PartFile where
  | null | closed | onPart | onFinal
  | unlinked (content : QByteArray)
  deriving DecidableEq

/-- A `QNetworkReply` that is connected to the operation. -/
structure Reply where
  id : Nat
  status : Nat := 0
  headers : RawHeaders := []
  /-- What has arrived and was not read yet. -/
  body : QByteArray := []
  error : Option QString := none
  isFinished : Bool := false

/-- A hash in the background, with its result once the file has been read. -/
structure Verification where
  path : ModelPath
  purpose : VerificationPurpose
  checksum : Option QByteArray := none

/-- Bytes that were written to the part file: whose body they are from, and where they were put. -/
structure PartWrite where
  reply : Nat
  offset : Nat
  data : QByteArray

/-- What an operation is constructed with, and the hash (in hexadecimal digits). -/
structure Download where
  entry : ModelManifestEntry
  network : Bool
  sha256 : QByteArray → QByteArray

structure ModelDownloadOperation where
  state : DownloadState := .pending
  isLocked : Bool := false
  /-- The files at the two paths. -/
  part : Option QByteArray := none
  final : Option QByteArray := none
  partFile : PartFile := .null
  /-- `m_reply`. -/
  reply : Option Nat := none
  replies : List Reply := []
  nextReply : Nat := 0
  verifications : List Verification := []
  /-- The single shots that will call `beginRequest`. -/
  restartTimers : Nat := 0
  /-- The single shots that will call `acquireDownloadLock`. -/
  retryTimers : Nat := 0
  lockRetryActive : Bool := false
  bytesReceived : Nat := 0
  requestOffset : Nat := 0
  retryCount : Nat := 0
  error : QString := []
  userPaused : Bool := false
  cancelled : Bool := false
  restartWithoutRange : Bool := false
  responseValidated : Bool := false
  verificationInProgress : Bool := false
  finishedEmitted : Bool := false
  /-- The `success` of every `finished` that was emitted. -/
  finished : List Bool := []
  writes : List PartWrite := []

/-- A new operation, with what is at its two paths. -/
def created (part final : Option QByteArray) : ModelDownloadOperation := { part := part, final := final }

/-! ## The environment of a callback -/

inductive LockResult where
  | acquired | held | failed

structure Environment where
  lock : LockResult := .acquired
  /-- `QStorageInfo::bytesAvailable`, where the storage is valid. -/
  bytesAvailable : Option Nat := none
  creates : Bool := true
  opens : Bool := true
  removesPart : Bool := true
  removesFinal : Bool := true
  discardsPart : Bool := true
  /-- How many bytes a write at this size of the file stores, when it fails. -/
  writeFails : Nat → Option Nat := fun _ => none
  /-- What another process puts at the final path, after it was found empty. -/
  published : Option QByteArray := none
  renames : Bool := true
  fileError : QString := []

variable (d : Download) (env : Environment)

/-! ## Files -/

/-- An open file outlives its path. -/
def PartFile.afterRemoval (file onPath : PartFile) (content : Option QByteArray) : PartFile :=
  if file = onPath then .unlinked (content.getD []) else file

/-- `QFile::remove(m_partPath)`. -/
def removePart (removes : Bool) (s : ModelDownloadOperation) : Bool × ModelDownloadOperation :=
  if s.part.isSome && removes then
    (true, { s with part := none, partFile := s.partFile.afterRemoval .onPart s.part })
  else (false, s)

/-- `QFile::remove(m_finalPath)`. -/
def removeFinal (s : ModelDownloadOperation) : Bool × ModelDownloadOperation :=
  if s.final.isSome && env.removesFinal then
    (true, { s with final := none, partFile := s.partFile.afterRemoval .onFinal s.final })
  else (false, s)

/-- `QFile::rename(m_partPath, m_finalPath)`, which does not replace a file. -/
def renamePart (s : ModelDownloadOperation) : Bool × ModelDownloadOperation :=
  if s.part.isSome && s.final.isNone && env.renames then
    (true, { s with
      part := none, final := s.part
      partFile := if s.partFile = .onPart then .onFinal else s.partFile })
  else (false, s)

/-- Another process may have been faster. -/
def afterPublishing (s : ModelDownloadOperation) : ModelDownloadOperation :=
  if s.final.isNone then { s with final := env.published } else s

/-- `QFileInfo(m_partPath).size()`. -/
def partSize (s : ModelDownloadOperation) : Nat := (s.part.getD []).length

/-- `m_partFile->size()`. -/
def partFileSize (s : ModelDownloadOperation) : Nat :=
  match s.partFile with
  | .onFinal => (s.final.getD []).length
  | .unlinked content => content.length
  | _ => partSize s

/-- What a write to the part file stores, when it fails. -/
def storedOnly (s : ModelDownloadOperation) : Option Nat :=
  if s.partFile = .null ∨ s.partFile = .closed then some 0 else env.writeFails (partFileSize s)

def closePartFile (s : ModelDownloadOperation) : ModelDownloadOperation :=
  { s with partFile := if s.partFile = .null then .null else .closed }

/-- `m_partFile->write(data)`. -/
def writePartFile (id : Nat) (data : QByteArray) (s : ModelDownloadOperation) : ModelDownloadOperation :=
  match s.partFile with
  | .onPart => { s with
      part := some (s.part.getD [] ++ data), writes := s.writes ++ [⟨id, partSize s, data⟩] }
  | .onFinal => { s with final := some (s.final.getD [] ++ data) }
  | .unlinked content => { s with partFile := .unlinked (content ++ data) }
  | _ => s

/-! ## Ending an attempt -/

def setState (state : DownloadState) (s : ModelDownloadOperation) : ModelDownloadOperation :=
  { s with state := state }

def releaseDownloadLock (s : ModelDownloadOperation) : ModelDownloadOperation := { s with isLocked := false }

def finish (success : Bool) (s : ModelDownloadOperation) : ModelDownloadOperation :=
  if s.finishedEmitted then s else { s with finishedEmitted := true, finished := s.finished ++ [success] }

def completeSuccessfully (s : ModelDownloadOperation) : ModelDownloadOperation :=
  finish true (setState .completed (releaseDownloadLock s))

/-- The reply is aborted, disconnected or not, and deleted. -/
def disposeReply (s : ModelDownloadOperation) : ModelDownloadOperation :=
  { s with reply := none, replies := s.replies.filter fun reply => s.reply != some reply.id }

def closeActiveRequest (s : ModelDownloadOperation) : ModelDownloadOperation := closePartFile (disposeReply s)

def discardPartialIfOwned (s : ModelDownloadOperation) : ModelDownloadOperation :=
  if s.isLocked then { (removePart env.discardsPart s).2 with bytesReceived := 0 } else s

def scheduleRetry (s : ModelDownloadOperation) : ModelDownloadOperation :=
  { setState .pending (releaseDownloadLock s) with
    retryCount := s.retryCount + 1, retryTimers := s.retryTimers + 1 }

def fail (message : QString) (retryable discardPartial : Bool) (s : ModelDownloadOperation) :
    ModelDownloadOperation :=
  let s := closeActiveRequest { s with error := message }
  if retryable && s.retryCount < maximumRetries && !s.cancelled && !s.userPaused then scheduleRetry s
  else
    let s := if discardPartial || retryable then discardPartialIfOwned env s else s
    finish false (setState .failed (releaseDownloadLock s))

/-- The end of a cancelled download, whose part file is removed where the lock is held. -/
def removeCancelled (s : ModelDownloadOperation) : ModelDownloadOperation :=
  let s := if s.isLocked then (removePart env.removesPart s).2 else s
  finish false (releaseDownloadLock s)

/-! ## Beginning an attempt -/

def beginVerification (path : ModelPath) (purpose : VerificationPurpose) (s : ModelDownloadOperation) :
    ModelDownloadOperation :=
  if !s.isLocked then fail env (qs "The model download lock was lost before verification.") false false s
  else { setState .verifying s with
    verificationInProgress := true, verifications := s.verifications ++ [⟨path, purpose, none⟩] }

/-- The request goes out, behind what the part file holds already. -/
def sendRequest (s : ModelDownloadOperation) : ModelDownloadOperation :=
  { setState .downloading s with
    requestOffset := partFileSize s, responseValidated := false, bytesReceived := partFileSize s
    reply := some s.nextReply, replies := s.replies ++ [{ id := s.nextReply }], nextReply := s.nextReply + 1 }

/-- `m_partFile` is made anew and opened for appending. -/
def openPartFile (s : ModelDownloadOperation) : ModelDownloadOperation :=
  if !env.creates then
    fail env (qs "The model download file could not be created.") false true { s with partFile := .null }
  else if !env.opens then fail env env.fileError false true { s with partFile := .closed }
  else sendRequest { s with partFile := .onPart, part := some (s.part.getD []) }

/-- The request for what is missing of a part file that is not too large. -/
def requestRemaining (s : ModelDownloadOperation) : ModelDownloadOperation :=
  let existing := partSize s
  if existing = d.entry.fileSize ∧ existing > 0 then
    beginVerification env .part .downloadedPart { s with bytesReceived := existing }
  else if env.bytesAvailable.any fun available =>
      available < d.entry.fileSize - existing + diskSafetyMargin then
    fail env (qs "Insufficient disk space for model download.") false false s
  else openPartFile env s

/-- `beginRequest`, where the lock is held. -/
def beginLockedRequest (s : ModelDownloadOperation) : ModelDownloadOperation :=
  if !d.network then fail env (qs "Network service is unavailable.") false false s
  else if partSize s > d.entry.fileSize then
    match removePart env.removesPart s with
    | (false, s) =>
      fail env (qs "The partial model download is larger than the manifest.") false false s
    | (true, s) => requestRemaining d env s
  else requestRemaining d env s

def inspectLockedFiles (s : ModelDownloadOperation) : ModelDownloadOperation :=
  if !s.isLocked then fail env (qs "The model download lock was lost.") false false s
  else if s.final.isSome then beginVerification env .final .existingFinal s
  else beginLockedRequest d env s

def acquireDownloadLock (s : ModelDownloadOperation) : ModelDownloadOperation :=
  if s.cancelled || s.userPaused || s.isLocked then s
  else
    match env.lock with
    | .acquired => inspectLockedFiles d env { s with isLocked := true }
    | .held => { setState .pending s with lockRetryActive := true }
    | .failed => fail env (qs "The model download lock could not be acquired.") false false s

def beginRequest (s : ModelDownloadOperation) : ModelDownloadOperation :=
  if !s.isLocked then acquireDownloadLock d env s else beginLockedRequest d env s

/-! ## Replies -/

/-- What `m_reply` points to. -/
def currentReply (s : ModelDownloadOperation) : Option Reply :=
  s.reply.bind fun id => s.replies.find? fun reply => reply.id == id

def updateReply (id : Nat) (update : Reply → Reply) (s : ModelDownloadOperation) : ModelDownloadOperation :=
  { s with replies := s.replies.map fun reply => if reply.id == id then update reply else reply }

/-- `handleNetworkFinished` once the reply has been read. -/
def concludeReply (status : Nat) (networkError : Option QString) (s : ModelDownloadOperation) :
    ModelDownloadOperation :=
  let s := closeActiveRequest s
  if s.cancelled || s.userPaused then s
  else if s.restartWithoutRange then
    match removePart env.removesPart { s with restartWithoutRange := false } with
    | (false, s) => fail env (qs "The partial model download could not be restarted.") false false s
    | (true, s) => { s with restartTimers := s.restartTimers + 1 }
  else if 500 ≤ status ∧ status ≤ 599 then fail env (httpMessage status) true false s
  else if status = 0 ∧ networkError.isSome then
    fail env (qs "Model download failed: " ++ networkError.getD []) true false s
  else if status ≠ 200 ∧ status ≠ 206 then fail env (httpMessage status) false true s
  else if networkError.isSome then
    fail env (qs "Model download failed: " ++ networkError.getD []) true false s
  else if partSize s ≠ d.entry.fileSize then
    fail env (qs "Downloaded model size does not match the manifest.") true false s
  else beginVerification env .part .downloadedPart s

/-- `m_reply->abort()`, after a range was ignored. -/
def abortReply (reply : Reply) (s : ModelDownloadOperation) : ModelDownloadOperation :=
  if reply.isFinished then s
  else concludeReply d env reply.status (some (qs "Operation canceled")) s

def validateResponseHeaders (s : ModelDownloadOperation) : Bool × ModelDownloadOperation :=
  match currentReply s with
  | none => (s.responseValidated, s)
  | some reply =>
    if s.responseValidated || s.restartWithoutRange then (s.responseValidated, s)
    else
      match headerVerdict d.entry.fileSize s.requestOffset reply.status reply.headers with
      | .waiting => (false, s)
      | .rangeIgnored => (false, abortReply d env reply { s with restartWithoutRange := true })
      | .accepted => (true, { s with responseValidated := true })
      | .refused message retryable discardPartial => (false, fail env message retryable discardPartial s)

/-- One byte more than fits shows that the body is too long. -/
def maximumRead (remaining : Nat) : Nat :=
  if remaining ≥ maximumReadChunk then maximumReadChunk else remaining + 1

theorem maximumRead_pos (remaining : Nat) : 0 < maximumRead remaining := by
  unfold maximumRead
  split
  · exact Nat.two_pow_pos 20
  · exact Nat.succ_pos remaining

/-- What is left of the body after a read. -/
def Reply.afterRead (count : Nat) (reply : Reply) : Reply := { reply with body := reply.body.drop count }

/-- One turn of the loop of `handleReadyRead`. -/
def readTurn (s : ModelDownloadOperation) : Turn ModelDownloadOperation ModelDownloadOperation :=
  match currentReply s with
  | none => .done s
  | some reply =>
    let currentSize := partFileSize s
    if reply.body.isEmpty then .done s
    else if currentSize > d.entry.fileSize then
      .done (fail env (qs "The partial model download exceeds the manifest size.") false true s)
    else
      let remaining := d.entry.fileSize - currentSize
      let data := reply.body.take (maximumRead remaining)
      let s := updateReply reply.id (Reply.afterRead (maximumRead remaining)) s
      if data.length > remaining then
        .done (fail env (qs "The model response exceeds the manifest size.") false true s)
      else
        match storedOnly env s with
        | some stored => .done (fail env (qs "Could not write the model download: " ++ env.fileError) false true
            (writePartFile reply.id (data.take stored) s))
        | none => .again { writePartFile reply.id data s with bytesReceived := currentSize + data.length }

/-- `m_reply->bytesAvailable()`. -/
def bytesAvailable (s : ModelDownloadOperation) : Nat :=
  match currentReply s with
  | none => 0
  | some reply => reply.body.length

/-- The loop reads at least one byte in each turn. -/
def readAvailable (s : ModelDownloadOperation) : ModelDownloadOperation :=
  (run (readTurn d env) (bytesAvailable s + 1) s).getD s

def handleReadyRead (s : ModelDownloadOperation) : ModelDownloadOperation :=
  if (currentReply s).isNone || s.partFile = .null || s.restartWithoutRange then s
  else
    match validateResponseHeaders d env s with
    | (false, s) => s
    | (true, s) => readAvailable d env s

/-- The final read, behind the headers. -/
def readFinished (s : ModelDownloadOperation) : ModelDownloadOperation :=
  match validateResponseHeaders d env s with
  | (false, s) => s
  | (true, s) => handleReadyRead d env s

def handleNetworkFinished (s : ModelDownloadOperation) : ModelDownloadOperation :=
  match currentReply s with
  | none => s
  | some finishedReply =>
    let conclude := concludeReply d env finishedReply.status finishedReply.error
    if (finishedReply.status = 200 ∨ finishedReply.status = 206) ∧ s.restartWithoutRange = false then
      let s := readFinished d env s
      if s.reply = some finishedReply.id then conclude s else s
    else conclude s

/-! ## Hashes -/

def contentAt (path : ModelPath) (s : ModelDownloadOperation) : Option QByteArray :=
  match path with
  | .part => s.part
  | .final => s.final

/-- `sha256File`: an unreadable file has the empty hash. -/
def hashFile (readable : Bool) (s : ModelDownloadOperation) (verification : Verification) : Verification :=
  let checksum := if readable then ((contentAt verification.path s).map d.sha256).getD [] else []
  { verification with checksum := some (verification.checksum.getD checksum) }

def commitVerifiedPart (s : ModelDownloadOperation) : ModelDownloadOperation :=
  if s.final.isSome then beginVerification env .final .finalBeforeCommit s
  else
    match renamePart env (afterPublishing env s) with
    | (true, s) => completeSuccessfully s
    | (false, s) =>
      if s.final.isSome then beginVerification env .final .finalBeforeCommit s
      else fail env (qs "The verified model could not be committed atomically.") false false s

/-- The verified part file takes the place of a final one that was not the model. -/
def replaceInvalidFinal (s : ModelDownloadOperation) : ModelDownloadOperation :=
  match renamePart env (afterPublishing env s) with
  | (true, s) => completeSuccessfully s
  | (false, s) => fail env (qs "The verified model could not be committed atomically.") false false s

def handleVerificationFinished (checksum : QByteArray) (purpose : VerificationPurpose)
    (s : ModelDownloadOperation) : ModelDownloadOperation :=
  let valid := checksum = d.entry.sha256
  match purpose with
  | .existingFinal =>
    if valid then completeSuccessfully (removePart env.removesPart s).2
    else
      let (removed, s) := removeFinal env s
      if !removed && s.final.isSome then
        fail env (qs "The invalid model file could not be removed.") false false s
      else beginRequest d env s
  | .downloadedPart =>
    if valid then commitVerifiedPart env s
    else fail env (qs "Model checksum validation failed. The corrupt download was removed.") false false
      (removePart env.removesPart s).2
  | .finalBeforeCommit =>
    if valid then completeSuccessfully (removePart env.removesPart s).2
    else
      let (removed, s) := removeFinal env s
      if !removed && s.final.isSome then
        fail env (qs "The invalid model file could not be replaced.") false false s
      else replaceInvalidFinal env s

/-- The watcher of a hash has finished. -/
def verificationFinished (index : Nat) (verification : Verification) (checksum : QByteArray)
    (s : ModelDownloadOperation) : ModelDownloadOperation :=
  let s := { s with verifications := s.verifications.eraseIdx index, verificationInProgress := false }
  if s.cancelled then removeCancelled env s
  else handleVerificationFinished d env checksum verification.purpose s

/-! ## Commands -/

def start (s : ModelDownloadOperation) : ModelDownloadOperation :=
  if s.state ≠ .pending ∧ s.state ≠ .failed then s
  else acquireDownloadLock d env { s with
    cancelled := false, userPaused := false, finishedEmitted := false, retryCount := 0, error := [] }

def pause (s : ModelDownloadOperation) : ModelDownloadOperation :=
  if s.state ≠ .downloading ∧ ¬(s.state = .pending ∧ s.lockRetryActive = true) then s
  else setState .paused (releaseDownloadLock (closeActiveRequest
    { s with userPaused := true, lockRetryActive := false }))

def resume (s : ModelDownloadOperation) : ModelDownloadOperation :=
  if s.state ≠ .paused ∧ s.state ≠ .failed then s
  else acquireDownloadLock d env { setState .pending s with
    userPaused := false, cancelled := false, restartWithoutRange := false, responseValidated := false
    finishedEmitted := false, error := [] }

def cancel (s : ModelDownloadOperation) : ModelDownloadOperation :=
  if s.state = .completed ∨ s.state = .cancelled then s
  else
    let s := setState .cancelled { s with cancelled := true, lockRetryActive := false }
    if s.verificationInProgress then s
    else
      let s := closeActiveRequest s
      let s := match s.isLocked, env.lock with
        | false, .acquired => { s with isLocked := true }
        | _, _ => s
      removeCancelled env s

/-! ## Runs -/

inductive ReplySignal where
  | metaDataChanged | readyRead | finished

/-- What has become of a reply when it emits a signal. -/
structure Arrival where
  status : Nat := 200
  headers : RawHeaders := []
  data : QByteArray := []
  error : Option QString := none

def Reply.arrived (signal : ReplySignal) (arrival : Arrival) (reply : Reply) : Reply :=
  { reply with
    status := arrival.status, headers := arrival.headers, body := reply.body ++ arrival.data
    error := arrival.error
    isFinished := match signal with
      | .finished => true
      | _ => reply.isFinished }

inductive Callback where
  | start | pause | resume | cancel
  | network (id : Nat) (signal : ReplySignal) (arrival : Arrival)
  | restartTimer | retryTimer | lockRetryTimer
  | fileHashed (index : Nat) (readable : Bool)
  | verificationFinished (index : Nat)
  | published (content : QByteArray)
  | others (part final : Option QByteArray)

structure DownloadEvent where
  callback : Callback
  env : Environment := {}

/-- A signal of a reply reaches its handler, which asks `m_reply` and not the sender. -/
def signalled (id : Nat) (signal : ReplySignal) (arrival : Arrival) (s : ModelDownloadOperation) :
    ModelDownloadOperation :=
  if s.replies.any fun reply => reply.id == id && !reply.isFinished then
    let s := updateReply id (Reply.arrived signal arrival) s
    match signal with
    | .metaDataChanged => (validateResponseHeaders d env s).2
    | .readyRead => handleReadyRead d env s
    | .finished => handleNetworkFinished d env s
  else s

def fileHashed (index : Nat) (readable : Bool) (s : ModelDownloadOperation) : ModelDownloadOperation :=
  { s with verifications := s.verifications.modify index (hashFile d readable s) }

def step (s : ModelDownloadOperation) (event : DownloadEvent) : ModelDownloadOperation :=
  let env := event.env
  match event.callback with
  | .start => start d env s
  | .pause => pause s
  | .resume => resume d env s
  | .cancel => cancel env s
  | .network id signal arrival => signalled d env id signal arrival s
  | .restartTimer =>
    if s.restartTimers = 0 then s else beginRequest d env { s with restartTimers := s.restartTimers - 1 }
  | .retryTimer =>
    if s.retryTimers = 0 then s else acquireDownloadLock d env { s with retryTimers := s.retryTimers - 1 }
  | .lockRetryTimer =>
    if s.lockRetryActive then acquireDownloadLock d env { s with lockRetryActive := false } else s
  | .fileHashed index readable => fileHashed d index readable s
  | .verificationFinished index =>
    match s.verifications[index]? with
    | some verification =>
      match verification.checksum with
      | some checksum => verificationFinished d env index verification checksum s
      | none => s
    | none => s
  | .published content => if s.final.isNone then { s with final := some content } else s
  | .others part final =>
    if s.isLocked then s
    else { s with
      part := part, final := final
      partFile := (s.partFile.afterRemoval .onPart s.part).afterRemoval .onFinal s.final }

end BreezeDesk.Models
