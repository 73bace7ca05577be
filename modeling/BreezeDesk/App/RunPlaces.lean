/-
  Where a run is, and how it gets on from there.

  A `Place` is what the next part of a run goes by: the plan, the chunks in memory, and whether a request or a
  callback goes on with the job.  `Going` is the invariant for the time in which a handler works for the job: the
  end is not decided, and the run is at some place.

  * `Going.wrote`     — a plain write leaves the run where it is;
  * `Going.posted`, `Going.sent` — what goes on with the job is left behind, when nothing else does;
  * `Going.adopted`   — the plan of the run becomes known;
  * `Going.committed` — the current chunk is completed, in the store and in memory;
  * `Going.started`   — the next open chunk becomes the current one, or there is none (`Going.all_done`).
-/
import BreezeDesk.App.RunEndings

namespace BreezeDesk.TranscriptionCoordinator

open Effect Ipc Ledger

structure Place where
  plan : List JobChunk
  commits : List QString
  chunks : List JobChunk
  current : Option Nat
  state : JobState
  jobId : QString
  ownerToken : QString
  requestId : QString
  kind : RequestKind
  serving : List QString
  /-- How many callbacks go on with the job. -/
  carried : Nat

def Coordinator.place (s : Coordinator) : Place where
  plan := planOf s.ownerToken s.log
  commits := commitsOf s.ownerToken s.log
  chunks := s.chunks
  current := s.currentChunkIndex
  state := s.activeJob.state
  jobId := s.activeJob.id
  ownerToken := s.ownerToken
  requestId := s.requestId
  kind := s.requestKind
  serving := s.worker.serving
  carried := s.callbacks.countP (carries s.activeJob.id s.ownerToken)

/-- Nothing goes on with the job but the handler. -/
def Place.Idle (p : Place) : Prop := p.requestId = [] ∧ p.carried = 0

def Place.Fits (kind : RequestKind) (p : Place) : Prop := RequestFits .between p.plan p.chunks p.current kind

structure Going (w : World) (moment : Moment) (φ : Place → Prop) (s : Coordinator) : Prop where
  sound : SoundBut w moment s
  active : s.activeJob.id ≠ []
  undecided : s.pendingTerminalAction = .None
  place : φ s.place

variable {w : World} {s : Coordinator} {moment : Moment} {φ ψ : Place → Prop}

theorem Going.imp (h : Going w moment φ s) (hplace : φ s.place → ψ s.place) : Going w moment ψ s :=
  ⟨h.sound, h.active, h.undecided, hplace h.place⟩

theorem Going.asked (h : Going w moment φ s) : Going w moment φ { s with calls := s.calls + 1 } :=
  ⟨h.sound.asked, h.active, h.undecided, h.place⟩

/-! ## Writes -/

/-- A write on the way: it stops nothing, commits nothing and completes nothing. -/
def Write.plain : Write → Bool
  | .transition state _ _ => !isStopped state
  | .updateChunk chunk => !isStoppedChunk chunk.state && !decide (chunk.state = .completed)
  | .completeAndActivate => false
  | _ => true

theorem plain_stops {change : Write} (h : change.plain = true) (accepted : Bool) :
    (Act.write change accepted).stops = false := by
  cases change <;> simp_all [Write.plain, Act.stops]

theorem plain_commit {change : Write} (h : change.plain = true) (accepted : Bool) :
    (Act.write change accepted).commit? = none := by
  cases change <;> cases accepted <;> simp_all [Write.plain, Act.commit?]

theorem plain_completes {change : Write} (h : change.plain = true) (accepted : Bool) :
    (Act.write change accepted).completes = false := by
  cases change <;> simp_all [Write.plain, Act.completes]

theorem plain_ends {change : Write} (h : change.plain = true) (accepted : Bool) :
    (Act.write change accepted).ends = false := by
  cases change <;> simp_all [Write.plain, Act.ends]

theorem place_noted {change : Write} {accepted : Bool} (s : Coordinator)
    (hcommit : (Act.write change accepted).commit? = none) : (noted (.write change accepted) s).place = s.place := by
  have hplan : planOf s.ownerToken (noted (.write change accepted) s).log = planOf s.ownerToken s.log :=
    planOf_concat ..
  have hcommits := commitsOf_noted s hcommit
  exact congrArg₂ (fun plan commits => { s.place with plan, commits }) hplan hcommits

/-- What a run may write that goes on. -/
theorem Going.permitted {change : Write} {accepted : Bool} (h : Going w moment φ s)
    (hstops : (Act.write change accepted).stops = false)
    (hcomplete : (Act.write change accepted).completes = true → planOf s.ownerToken s.log ≠ [] ∧
      commitsOf s.ownerToken s.log = openIds (planOf s.ownerToken s.log)) : Permitted (.write change accepted) s where
  active := h.active
  quiet hno := by rw [hstops] at hno; cases hno
  undecided _ _ := h.undecided
  cancelled _ hno := by rw [hstops] at hno; cases hno
  abandoned _ habandoned := by rw [h.undecided] at habandoned; cases habandoned
  decision _ hsome := by cases hsome
  complete := hcomplete

theorem Going.wrote {change : Write} {accepted : Bool} (h : Going w moment φ s) (hmoment : moment ≠ .ended)
    (hplain : change.plain = true) : Going w moment φ (noted (.write change accepted) s) where
  sound := by
    have hcompletes := plain_completes hplain accepted
    have hpermitted : Permitted (.write change accepted) s :=
      h.permitted (plain_stops hplain accepted) fun hyes => by rw [hcompletes] at hyes; cases hyes
    have hleaves : (Act.write change accepted).leaves moment = moment :=
      if_neg (by rw [plain_ends hplain accepted]; exact Bool.false_ne_true)
    have hnoted := h.sound.noted hmoment hpermitted (fun chunks hplan => by cases hplan)
      (plain_commit hplain accepted)
    rw [hleaves] at hnoted
    exact hnoted
  active := h.active
  undecided := h.undecided
  place := by
    rw [place_noted s (plain_commit hplain accepted)]
    exact h.place

/-! ## Leaving something behind -/

theorem carried_none (h : s.place.carried = 0) (callback : Callback) (hmem : callback ∈ s.callbacks) :
    carries s.activeJob.id s.ownerToken callback = false :=
  Bool.eq_false_iff.mpr (List.countP_eq_zero.mp h callback hmem)

theorem Going.no_waveform (h : Going w moment φ s) (hidle : s.place.Idle) : s.waveformCancellation = none := by
  by_contra hsome
  obtain ⟨callback, hmem, -, hcarries⟩ := h.sound.background.carried hsome
  rw [carried_none hidle.2 callback hmem] at hcarries
  cases hcarries

/-- What a callback needs to go on with the run. -/
structure Onward (callback : Callback) (s : Coordinator) : Prop where
  token : callback.ownerToken? = some s.ownerToken
  carries : carries s.activeJob.id s.ownerToken callback = true
  fits : CallbackFits (planOf s.ownerToken s.log) s.chunks s.currentChunkIndex s.activeJob.state callback
  operation : ∀ operation jobId ownerToken, callback = .normalizationFinished operation jobId ownerToken →
    operation < s.calls

/-- **A callback goes on with the run**, when nothing else does. -/
theorem Going.posted {callback : Callback} (h : Going w .between φ s) (hidle : s.place.Idle)
    (honward : Onward callback s) {waveformCancellation : Option Nat}
    (hwaveform : waveformCancellation ≠ none → callback.isWaveform = true) :
    Sound w { s with callbacks := s.callbacks ++ [callback], waveformCancellation } where
  barrier := h.sound.barrier
  names := { h.sound.names with
    callback := fun other hmem token htoken => by
      rcases List.mem_append.mp hmem with hold | hnew
      · exact h.sound.names.callback other hold token htoken
      · rw [List.mem_singleton.mp hnew, honward.token] at htoken
        obtain rfl := Option.some.inj htoken
        exact h.sound.names.owner (h.sound.names.job h.active) }
  tokens := by
    obtain ⟨hrequest, hcarried⟩ := hidle
    refine ⟨?_, fun other hmem hcarries => ?_, fun hne => absurd hrequest hne⟩
    · have hzero : s.callbacks.countP (carries s.activeJob.id s.ownerToken) = 0 := hcarried
      have hid : s.requestId = [] := hrequest
      show (s.callbacks ++ [callback]).countP _ + (if s.requestId = [] then 0 else 1) ≤ 1
      rw [List.countP_append, List.countP_singleton, hzero, if_pos honward.carries, if_pos hid]
    · rcases List.mem_append.mp hmem with hold | hnew
      · exact h.sound.tokens.callback other hold hcarries
      · rw [List.mem_singleton.mp hnew]
        exact honward.fits
  background := by
    have hback := h.sound.background
    refine ⟨fun operation jobId ownerToken hmem => ?_, fun operation jobId ownerToken hsome hmem => ?_,
      fun hsome => ⟨callback, List.mem_append_right _ (List.mem_singleton.mpr rfl), hwaveform hsome, honward.carries⟩,
      fun hnone => absurd hnone h.active⟩
    · rcases List.mem_append.mp hmem with hold | hnew
      · exact hback.operations operation jobId ownerToken hold
      · exact honward.operation operation jobId ownerToken (List.mem_singleton.mp hnew).symm
    · rcases List.mem_append.mp hmem with hold | hnew
      · exact hback.mine operation jobId ownerToken hsome hold
      · have hcarries := honward.carries
        rw [← List.mem_singleton.mp hnew] at hcarries
        simpa [carries, h.active] using hcarries
  cursor := h.sound.cursor
  books := h.sound.books

/-- The state after a request was sent. -/
def sent (w : World) (kind : RequestKind) (s : Coordinator) : Coordinator :=
  { s with
    requestKind := kind, requestId := w.uuid s.drawn, drawn := s.drawn + 1
    worker := { s.worker with
      serving := if kind.usesRuntime then s.worker.serving ++ [w.uuid s.drawn] else s.worker.serving } }

theorem Going.quiet (h : Going w moment φ s) (hidle : s.place.Idle) : s.worker.serving = [] :=
  h.sound.idle_worker (Bool.eq_false_iff.mpr fun hrun => (mayStillRun_iff.mp hrun).1 hidle.1)

/-- When no callback goes on with the run, some may be dropped. -/
theorem Going.disconnected (h : Going w moment φ s) (hidle : s.place.Idle) :
    Going w moment φ (disconnectVadDownload s) := by
  have hold : ∀ callback ∈ (disconnectVadDownload s).callbacks, callback ∈ s.callbacks :=
    fun callback hmem => List.mem_of_mem_filter hmem
  have hzero : (disconnectVadDownload s).callbacks.countP (carries s.activeJob.id s.ownerToken) = 0 :=
    List.countP_eq_zero.mpr fun callback hmem => by
      rw [carried_none hidle.2 callback (hold callback hmem)]
      exact Bool.false_ne_true
  refine ⟨?_, h.active, h.undecided, ?_⟩
  · exact {
      barrier := h.sound.barrier
      names := { h.sound.names with
        callback := fun callback hmem => h.sound.names.callback callback (hold callback hmem) }
      tokens := {
        one := by
          show (disconnectVadDownload s).callbacks.countP (carries s.activeJob.id s.ownerToken) + _ ≤ 1
          rw [hzero, Nat.zero_add]
          split <;> omega
        callback := fun callback hmem => h.sound.tokens.callback callback (hold callback hmem)
        request := h.sound.tokens.request }
      background := {
        operations := fun _ _ _ hmem => h.sound.background.operations _ _ _ (hold _ hmem)
        mine := fun _ _ _ hsome hmem => h.sound.background.mine _ _ _ hsome (hold _ hmem)
        carried := fun hsome => absurd (h.no_waveform hidle) hsome
        idle := h.sound.background.idle }
      cursor := h.sound.cursor
      books := h.sound.books }
  · have hplace : (disconnectVadDownload s).place = s.place :=
      congrArg (fun carried => { s.place with carried }) (hzero.trans hidle.2.symm)
    rw [hplace]
    exact h.place

/-- The kind of a request that could not be sent does not matter. -/
theorem Going.unsent (h : Going w moment φ s) (hidle : s.place.Idle) (requestKind : RequestKind) :
    SoundBut w moment { s with requestKind, requestId := [] } where
  barrier := by
    have hquiet := h.quiet hidle
    refine { h.sound.barrier with
      serving := fun request hmem => ?_
      waits := fun hpending => absurd h.undecided hpending
      forced := fun hpending => absurd h.undecided hpending }
    have hmem' : request ∈ s.worker.serving := hmem
    rw [hquiet] at hmem'
    cases hmem'
  names := { h.sound.names with request := fun hne => absurd rfl hne }
  tokens := by
    refine ⟨?_, h.sound.tokens.callback, fun hne => absurd rfl hne⟩
    have hzero : s.callbacks.countP (carries s.activeJob.id s.ownerToken) = 0 := hidle.2
    show s.callbacks.countP (carries s.activeJob.id s.ownerToken) + _ ≤ 1
    rw [hzero, if_pos rfl]
    exact Nat.zero_le 1
  background := { h.sound.background with idle := fun hnone => absurd hnone h.active }
  cursor := h.sound.cursor
  books := h.sound.books

/-- **A request goes on with the run**, when nothing else does. -/
theorem Going.sent (hw : w.Fresh) {kind : RequestKind} (h : Going w .between φ s) (hidle : s.place.Idle)
    (hfits : s.place.Fits kind) (hready : s.worker.ready = true) : Sound w (sent w kind s) where
  barrier := by
    have hquiet := h.quiet hidle
    have hserving : ∀ request ∈ (TranscriptionCoordinator.sent w kind s).worker.serving,
        request = w.uuid s.drawn ∧ kind.usesRuntime = true := by
      intro request hmem
      have hmem' : request ∈ if kind.usesRuntime then s.worker.serving ++ [w.uuid s.drawn] else s.worker.serving :=
        hmem
      rw [hquiet] at hmem'
      split at hmem'
      · rename_i huses
        exact ⟨List.mem_singleton.mp hmem', huses⟩
      · cases hmem'
    refine ⟨fun request hmem => ⟨(hserving request hmem).1, hw.ne_nil _, (hserving request hmem).2⟩,
      h.sound.barrier.up, fun _ => ⟨h.sound.barrier.up hready, fun _ => hready⟩, fun key hkey hmem => ?_,
      fun hpending => absurd h.undecided hpending, fun hpending => absurd h.undecided hpending,
      fun hconfirmed => absurd h.undecided (h.sound.barrier.known hconfirmed).1⟩
    exact (h.sound.names.terminal key hkey).ne_fresh hw (hserving _ hmem).1
  names := { h.sound.names.mono (Nat.le_succ _) with request := fun _ => ⟨s.drawn, Nat.lt_succ_self _, rfl⟩ }
  tokens := by
    refine ⟨?_, h.sound.tokens.callback, fun _ _ => hfits⟩
    have hzero : s.callbacks.countP (carries s.activeJob.id s.ownerToken) = 0 := hidle.2
    show s.callbacks.countP (carries s.activeJob.id s.ownerToken) + (if w.uuid s.drawn = [] then 0 else 1) ≤ 1
    rw [hzero, if_neg (hw.ne_nil _)]
  background := { h.sound.background with idle := fun hnone => absurd hnone h.active }
  cursor := h.sound.cursor
  books := h.sound.books

/-! ## The plan -/

/-- **The plan becomes known**, before the first chunk. -/
theorem Going.adopted (h : Going w .between φ s) (chunks : List JobChunk) (hcurrent : s.currentChunkIndex = none)
    (hcarried : s.place.carried = 0)
    (hsome : s.requestId ≠ [] ∨ s.activeJob.state = .waitingForModel → chunks ≠ []) :
    Sound w (noted (.planned chunks) { s with chunks }) := by
  have hplan : planOf s.ownerToken (noted (.planned chunks) { s with chunks }).log = chunks := by
    show planOf s.ownerToken (s.log ++ [_]) = _
    rw [planOf_concat]
    exact if_pos rfl
  have hcommits : commitsOf s.ownerToken (noted (.planned chunks) { s with chunks }).log =
      commitsOf s.ownerToken s.log := commitsOf_noted { s with chunks } rfl
  have hpermitted : Permitted (.planned chunks) s :=
    ⟨h.active, fun hno => (by cases hno), fun _ _ => h.undecided, fun _ hno => (by cases hno),
      fun _ habandoned => (by rw [h.undecided] at habandoned; cases habandoned), fun _ hno => (by cases hno),
      fun hno => by cases hno⟩
  refine ⟨h.sound.barrier, h.sound.names.noted h.active, ?_,
    { h.sound.background with idle := fun hnone => absurd hnone h.active }, ?_,
    h.sound.books.noted (fun hmoment => by cases hmoment) hpermitted⟩
  · show Tokens .between (planOf s.ownerToken _) chunks s.currentChunkIndex _ _ _ _ _ _ _
    rw [hplan]
    refine ⟨h.sound.tokens.one, fun callback hmem hcarries => ?_, fun hid hpending => ?_⟩
    · exact absurd ((carried_none hcarried callback hmem).symm.trans hcarries) Bool.false_ne_true
    · have hfits := h.sound.tokens.request hid hpending
      show RequestFits .between chunks chunks s.currentChunkIndex s.requestKind
      cases hkind : s.requestKind with
      | TranscribeChunk =>
        rw [hkind, hcurrent] at hfits
        rcases hfits.1 with hmoment | ⟨index, chunk, hindex, -⟩
        · exact absurd rfl hmoment
        · cases hindex
      | LoadModel => exact ⟨hcurrent, hsome (Or.inl hid)⟩
      | None | GetCapabilities | AnalyzeSpeech => exact hcurrent
  · show Cursor (planOf s.ownerToken _) (commitsOf s.ownerToken _) chunks s.currentChunkIndex s.activeJob.state
    rw [hplan, hcommits, h.sound.cursor.commits, hcurrent]
    exact ⟨rfl, rfl, fun index hindex => (by cases hindex), fun hstate => hsome (Or.inr hstate)⟩

theorem openIds_append (before after : List JobChunk) :
    openIds (before ++ after) = openIds before ++ openIds after := by
  unfold openIds
  rw [List.filter_append, List.map_append]

theorem openIds_completed {chunks : List JobChunk} (h : ∀ chunk ∈ chunks, chunk.state = .completed) :
    openIds chunks = [] := by
  unfold openIds
  rw [List.filter_eq_nil_iff.mpr fun chunk hmem => by simpa using h chunk hmem]
  rfl

/-- **The current chunk is committed**: its completion was written, and is now known in memory. -/
theorem Going.committed {index : Nat} {chunk completed : JobChunk}
    (h : Going w .between (fun p => p.requestId ≠ [] ∧ p.kind = .TranscribeChunk) s)
    (hindex : s.currentChunkIndex = some index) (hchunk : s.chunks[index]? = some chunk)
    (hid : completed.id = chunk.id) (hcompleted : completed.state = .completed) :
    SoundBut w .answered { noted (.write (.updateChunk completed) true) s with
      chunks := s.chunks.set index completed } := by
  obtain ⟨hrequest, hkind⟩ := h.place
  obtain ⟨hlt, -⟩ := List.getElem?_eq_some_iff.mp hchunk
  have hfits := h.sound.tokens.request hrequest h.undecided
  have hkind' : s.requestKind = .TranscribeChunk := hkind
  rw [hkind'] at hfits
  obtain ⟨hin, hplanned⟩ := hfits
  have hopen : chunk.state ≠ .completed := by
    rcases hin with hmoment | ⟨other, current, hother, hcurrent, hstate⟩
    · exact absurd rfl hmoment
    · obtain rfl := Option.some.inj (hindex.symm.trans hother)
      cases hchunk.symm.trans hcurrent
      exact hstate
  have hcarried : s.callbacks.countP (carries s.activeJob.id s.ownerToken) = 0 := by
    have hone := h.sound.tokens.one
    have hid : s.requestId ≠ [] := hrequest
    rw [if_neg hid] at hone
    exact Nat.le_zero.mp (Nat.le_of_succ_le_succ hone)
  have hplan : planOf s.ownerToken (noted (.write (.updateChunk completed) true) s).log =
      planOf s.ownerToken s.log := planOf_concat ..
  have hcommits : commitsOf s.ownerToken
      (noted (.write (.updateChunk completed) true) s).log =
      commitsOf s.ownerToken s.log ++ [completed.id] := by
    show commitsOf s.ownerToken (s.log ++ [_]) = _
    rw [commitsOf_concat]
    dsimp only [Act.commit?]
    rw [if_pos rfl, if_pos hcompleted]
    rfl
  have hpermitted : Permitted (.write (.updateChunk completed) true) s :=
    h.permitted (by show isStoppedChunk completed.state = false; rw [hcompleted]; rfl) fun hno => by cases hno
  have hbooks := h.sound.books.noted (fun hmoment => by cases hmoment) hpermitted
  refine ⟨h.sound.barrier, h.sound.names.noted h.active, ?_,
    { h.sound.background with idle := fun hnone => absurd hnone h.active }, ?_,
    hbooks.unended fun hmoment => by cases hmoment⟩
  · show Tokens .answered (planOf s.ownerToken _) _ _ _ _ _ _ _ _ _
    rw [hplan]
    refine ⟨h.sound.tokens.one, fun callback hmem hcarries => ?_, fun _ _ => ?_⟩
    · exact absurd ((carried_none hcarried callback hmem).symm.trans hcarries) Bool.false_ne_true
    · show RequestFits .answered _ _ _ s.requestKind
      rw [hkind']
      exact ⟨Or.inl fun hmoment => (by cases hmoment), hplanned⟩
  · show Cursor (planOf s.ownerToken _) (commitsOf s.ownerToken _) (s.chunks.set index completed)
      s.currentChunkIndex s.activeJob.state
    rw [hplan, hcommits]
    have hnew : (s.chunks.set index completed)[index]? = some completed := List.getElem?_set_self hlt
    obtain ⟨old, planned, hold, hplan', hsame, hstate⟩ := h.sound.cursor.here index hindex
    cases hchunk.symm.trans hold
    refine ⟨?_, ?_, fun other hother => ?_, h.sound.cursor.waiting⟩
    · rw [dealt_completed hindex hnew hcompleted, h.sound.cursor.commits, dealt_open hindex hchunk hopen,
        List.take_add_one, hplan', openIds_append, hid, hsame]
      congr 1
      unfold openIds
      rw [Option.toList_some, List.filter_cons_of_pos (by simpa using hstate)]
      rfl
    · have hrest := h.sound.cursor.rest
      rw [hindex] at hrest ⊢
      show (s.chunks.set index completed).drop (index + 1) = _
      rw [List.drop_set_of_lt (Nat.lt_succ_self index)]
      exact hrest
    · obtain rfl : index = other := Option.some.inj (hindex.symm.trans hother)
      exact ⟨completed, planned, hnew, hplan', hid.trans hsame, hstate⟩

/-! ## The next chunk -/

theorem nextOpen_completed (chunks : List JobChunk) (index : Nat) :
    ∀ chunk ∈ (chunks.drop index).take (nextOpen chunks index - index), chunk.state = .completed := by
  intro chunk hmem
  unfold nextOpen at hmem
  rw [Nat.add_sub_cancel_left, ← List.prefix_iff_eq_take.mp (List.takeWhile_prefix _)] at hmem
  simpa using List.mem_takeWhile_imp hmem

theorem nextOpen_open {chunks : List JobChunk} {index : Nat} {chunk : JobChunk}
    (h : chunks[nextOpen chunks index]? = some chunk) : chunk.state ≠ .completed := by
  unfold nextOpen at h
  rw [← List.getElem?_drop] at h
  generalize chunks.drop index = rest at h
  induction rest with
  | nil => cases h
  | cons first rest ih =>
    by_cases hfirst : first.state = .completed
    · rw [List.takeWhile_cons_of_pos (by simpa using hfirst), List.length_cons, List.getElem?_cons_succ] at h
      exact ih h
    · rw [List.takeWhile_cons_of_neg (by simpa using hfirst)] at h
      cases h
      exact hfirst

theorem nextOpen_none {chunks : List JobChunk} {index : Nat} (h : chunks[nextOpen chunks index]? = none) :
    ∀ chunk ∈ chunks.drop index, chunk.state = .completed := by
  intro chunk hmem
  refine nextOpen_completed chunks index chunk ?_
  rw [List.take_of_length_le]
  · exact hmem
  · have hlen := List.getElem?_eq_none_iff.mp h
    rw [List.length_drop]
    omega

theorem nextOpen_le (chunks : List JobChunk) (index : Nat) : index ≤ nextOpen chunks index := Nat.le_add_right ..

theorem dealt_between {chunks : List JobChunk} {current : Option Nat} (h : Between chunks current) :
    dealt chunks current = following current := by
  cases current with
  | none => rfl
  | some index =>
    obtain ⟨chunk, hchunk, hcompleted⟩ := h index rfl
    exact dealt_completed rfl hchunk hcompleted

/-- **All chunks are dealt with**: those that the run has committed are those that were open. -/
theorem Going.all_done (h : Going w moment φ s) (hbetween : Between s.chunks s.currentChunkIndex)
    (hnone : s.chunks[nextOpen s.chunks (following s.currentChunkIndex)]? = none) :
    commitsOf s.ownerToken s.log = openIds (planOf s.ownerToken s.log) := by
  rw [h.sound.cursor.commits, dealt_between hbetween]
  conv_rhs => rw [← List.take_append_drop (following s.currentChunkIndex) (planOf s.ownerToken s.log)]
  have hrest : openIds ((planOf s.ownerToken s.log).drop (following s.currentChunkIndex)) = [] := by
    refine openIds_completed ?_
    rw [← h.sound.cursor.rest]
    exact nextOpen_none hnone
  rw [openIds_append, hrest, List.append_nil]

/-- **The next open chunk** becomes the current one. -/
theorem Going.started {chunk changed : JobChunk} (h : Going w .between φ s) (hidle : s.place.Idle)
    (hbetween : Between s.chunks s.currentChunkIndex)
    (hchunk : s.chunks[nextOpen s.chunks (following s.currentChunkIndex)]? = some chunk)
    (hid : changed.id = chunk.id) (hchanged : changed.state ≠ .completed) :
    Sound w { s with
      currentChunkIndex := some (nextOpen s.chunks (following s.currentChunkIndex))
      chunks := s.chunks.set (nextOpen s.chunks (following s.currentChunkIndex)) changed } := by
  have hopen := nextOpen_open hchunk
  have hle := nextOpen_le s.chunks (following s.currentChunkIndex)
  have hskipped := nextOpen_completed s.chunks (following s.currentChunkIndex)
  obtain ⟨next, hnext⟩ : ∃ next, next = nextOpen s.chunks (following s.currentChunkIndex) := ⟨_, rfl⟩
  rw [← hnext] at hchunk hle hskipped ⊢
  obtain ⟨hlt, -⟩ := List.getElem?_eq_some_iff.mp hchunk
  have hnew : (s.chunks.set next changed)[next]? = some changed := List.getElem?_set_self hlt
  have hrest := h.sound.cursor.rest
  refine ⟨h.sound.barrier, h.sound.names, ⟨h.sound.tokens.one, fun callback hmem hcarries => ?_,
    fun hne => absurd hidle.1 hne⟩, { h.sound.background with idle := fun hnone => absurd hnone h.active },
    ⟨?_, ?_, fun other hother => ?_, h.sound.cursor.waiting⟩, h.sound.books⟩
  · exact absurd ((carried_none hidle.2 callback hmem).symm.trans hcarries) Bool.false_ne_true
  · have htake : (planOf s.ownerToken s.log).take next = (planOf s.ownerToken s.log).take
        (following s.currentChunkIndex) ++ (s.chunks.drop (following s.currentChunkIndex)).take
          (next - following s.currentChunkIndex) := by
      rw [hrest, ← List.take_add, Nat.add_sub_cancel' hle]
    show _ = openIds (List.take (dealt (s.chunks.set next changed) (some next)) _)
    rw [dealt_open rfl hnew hchanged, htake, openIds_append, openIds_completed hskipped, List.append_nil,
      h.sound.cursor.commits, dealt_between hbetween]
  · show (s.chunks.set next changed).drop (next + 1) = (planOf s.ownerToken s.log).drop (next + 1)
    have hdrop : ∀ chunks : List JobChunk, chunks.drop (next + 1) =
        (chunks.drop (following s.currentChunkIndex)).drop (next + 1 - following s.currentChunkIndex) := by
      intro chunks
      rw [List.drop_drop, Nat.add_sub_cancel' (Nat.le_succ_of_le hle)]
    rw [List.drop_set_of_lt (Nat.lt_succ_self next), hdrop, hrest, ← hdrop]
  · obtain rfl := Option.some.inj hother
    have hplanned : (planOf s.ownerToken s.log)[next]? = some chunk := by
      have hsplit : next = following s.currentChunkIndex + (next - following s.currentChunkIndex) := by omega
      rw [hsplit, ← List.getElem?_drop, ← hrest, List.getElem?_drop, ← hsplit]
      exact hchunk
    exact ⟨changed, chunk, hnew, hplanned, hid, hopen⟩

end BreezeDesk.TranscriptionCoordinator
