/-
  Who gets through to the worker.

  What a connection may get through is `admitted`: nothing without a correct `Hello` in front, and behind
  it what comes before the first envelope with a wrong version or a wrong token.
  `received_authenticated` says that this is what `envelopeReceived` has been emitted for, in every run.

  The invariant is `Consistent`: a connection is there only as long as it has kept to the rules, and its
  entry is what its stream makes of it.  The walk over the envelopes of a read keeps it, by induction on
  the envelopes (`processEnvelopes_walked`).
-/
import BreezeDesk.Ipc.WorkerServer
import BreezeDesk.Library.Runs

namespace BreezeDesk.Ipc

open WorkerServer

/-! ## What may get through -/

/-- The envelopes keep to the rules: a `Hello` in front, and all of them correct. -/
def Orderly (token : QByteArray) (envelopes : List Envelope) : Prop :=
  (∀ envelope ∈ envelopes, Correct token envelope) ∧
    ∀ first, envelopes.head? = some first → first.type = .Hello

/-- The envelopes of the reads before the first one with an error. -/
def accepted (results : List FrameParseResult) : List Envelope :=
  (results.takeWhile fun result => result.error.isNone).flatMap (·.envelopes)

/-- Behind the `Hello`; a `Ping` is answered and goes no further. -/
def passed (token : QByteArray) (envelopes : List Envelope) : List Envelope :=
  (envelopes.takeWhile fun envelope => decide (Correct token envelope)).filter fun envelope =>
    envelope.type ≠ .Ping

def admitted (token : QByteArray) : List Envelope → List Envelope
  | [] => []
  | first :: rest => if Correct token first ∧ first.type = .Hello then passed token rest else []

/-- A rule has been broken on the connection: an error of the decoder, a wrong version, a wrong token, or
    no `Hello` in front. -/
def Violated (token : QByteArray) (results : List FrameParseResult) : Prop :=
  firstError results ≠ none ∨ ¬Orderly token (emitted results)

variable {cbor : QCborCodec} {token : QByteArray} {before after : List Envelope} {envelope : Envelope}

theorem orderly_nil : Orderly token [] :=
  ⟨fun _ hmem => (by cases hmem), fun _ hhead => (by cases hhead)⟩

theorem Orderly.of_append (h : Orderly token (before ++ after)) : Orderly token before := by
  refine ⟨fun envelope hmem => h.1 envelope (List.mem_append_left after hmem), fun first hhead => h.2 first ?_⟩
  rw [List.head?_append, hhead]
  rfl

theorem orderly_snoc_iff (h : Orderly token before) :
    Orderly token (before ++ [envelope]) ↔
      Correct token envelope ∧ (before = [] → envelope.type = .Hello) := by
  constructor
  · intro hsnoc
    refine ⟨hsnoc.1 envelope (List.mem_append_right before (List.mem_singleton_self envelope)), ?_⟩
    rintro rfl
    exact hsnoc.2 envelope rfl
  · rintro ⟨hcorrect, hfront⟩
    refine ⟨fun other hmem => ?_, fun first hhead => ?_⟩
    · rcases List.mem_append.mp hmem with hmem | hmem
      · exact h.1 other hmem
      · rw [List.mem_singleton.mp hmem]
        exact hcorrect
    · cases before with
      | nil =>
        cases hhead
        exact hfront rfl
      | cons front rest => exact h.2 first hhead

theorem passed_append (h : ∀ envelope ∈ before, Correct token envelope) :
    passed token (before ++ after) = passed token before ++ passed token after := by
  have hall : ∀ envelope ∈ before, decide (Correct token envelope) = true :=
    fun envelope hmem => decide_eq_true (h envelope hmem)
  unfold passed
  rw [List.takeWhile_append_of_pos hall, List.filter_append, List.takeWhile_eq_self_iff.mpr hall]

theorem passed_wrong (h : ¬Correct token envelope) : passed token (envelope :: after) = [] := by
  unfold passed
  rw [List.takeWhile_cons, decide_eq_false h]
  rfl

theorem passed_singleton (h : Correct token envelope) :
    passed token [envelope] = if envelope.type = .Ping then [] else [envelope] := by
  unfold passed
  rw [List.takeWhile_cons, decide_eq_true h]
  show List.filter (fun envelope => decide (envelope.type ≠ .Ping)) [envelope] = _
  by_cases hping : envelope.type = .Ping
  · rw [if_pos hping, List.filter_cons_of_neg (by rw [hping]; decide), List.filter_nil]
  · rw [if_neg hping, List.filter_cons_of_pos (by simpa using hping), List.filter_nil]

theorem admitted_cons {first : Envelope} {rest : List Envelope} (h : Orderly token (first :: rest)) :
    ∀ others, admitted token (first :: others) = passed token others := by
  intro others
  show (if Correct token first ∧ first.type = .Hello then passed token others else []) = passed token others
  rw [if_pos ⟨h.1 first (List.mem_cons_self ..), h.2 first rfl⟩]

theorem admitted_refused (h : Orderly token before) (hrefused : ¬Orderly token (before ++ [envelope])) :
    admitted token (before ++ envelope :: after) = admitted token before := by
  rw [orderly_snoc_iff h] at hrefused
  cases before with
  | nil =>
    have hnot : ¬(Correct token envelope ∧ envelope.type = .Hello) :=
      fun hgood => hrefused ⟨hgood.1, fun _ => hgood.2⟩
    show (if Correct token envelope ∧ envelope.type = .Hello then passed token after else []) = []
    rw [if_neg hnot]
  | cons first rest =>
    have hnot : ¬Correct token envelope := fun hgood => hrefused ⟨hgood, fun hnil => (by cases hnil)⟩
    have hrest : ∀ other ∈ rest, Correct token other :=
      fun other hmem => h.1 other (List.mem_cons_of_mem first hmem)
    rw [List.cons_append, admitted_cons h, admitted_cons h, passed_append hrest, passed_wrong hnot,
      List.append_nil]

theorem admitted_snoc (h : Orderly token (before ++ [envelope])) :
    admitted token (before ++ [envelope]) =
      admitted token before ++ if before = [] ∨ envelope.type = .Ping then [] else [envelope] := by
  have hcorrect : Correct token envelope :=
    h.1 envelope (List.mem_append_right before (List.mem_singleton_self envelope))
  cases before with
  | nil =>
    show admitted token [envelope] = _
    rw [admitted_cons h, if_pos (Or.inl rfl)]
    rfl
  | cons first rest =>
    have hbefore := h.of_append
    have hrest : ∀ other ∈ rest, Correct token other :=
      fun other hmem => hbefore.1 other (List.mem_cons_of_mem first hmem)
    rw [List.cons_append, admitted_cons hbefore, admitted_cons hbefore, passed_append hrest,
      passed_singleton hcorrect]
    by_cases hping : envelope.type = .Ping
    · rw [if_pos hping, if_pos (Or.inr hping)]
    · have hneither : ¬(first :: rest = [] ∨ envelope.type = .Ping) :=
        fun h => h.elim (List.cons_ne_nil first rest) hping
      rw [if_neg hping, if_neg hneither]

/-- What is admitted is correct, and stands behind a `Hello`. -/
theorem of_mem_admitted {envelopes : List Envelope} (h : envelope ∈ admitted token envelopes) :
    Correct token envelope ∧ ∃ first rest, envelopes = first :: rest ∧ Correct token first ∧
      first.type = .Hello ∧ envelope ∈ rest := by
  cases envelopes with
  | nil => cases h
  | cons first rest =>
    have hmem : envelope ∈ if Correct token first ∧ first.type = .Hello then passed token rest else [] := h
    split at hmem
    next hfirst =>
      have htaken : envelope ∈ rest.takeWhile fun other => decide (Correct token other) :=
        List.mem_of_mem_filter hmem
      have hcorrect := List.mem_takeWhile_imp (p := fun other => decide (Correct token other)) htaken
      exact ⟨of_decide_eq_true hcorrect, first, rest, rfl, hfirst.1, hfirst.2,
        (List.takeWhile_prefix _).subset htaken⟩
    · cases hmem

/-! ## One connection's walk -/

variable {clientId : Nat} {server : WorkerServer} {state : ClientState}

/-- A walk over the envelopes that have been decoded before and those of this read. -/
structure Walked (clientId : Nat) (server : WorkerServer) (decoder : FrameDecoder)
    (before envelopes : List Envelope) (done : WorkerServer × List ServerOutput) : Prop where
  concerns : ConcernsOnly clientId server done
  kept : Orderly server.sessionToken (before ++ envelopes) →
    done.1.clients clientId = some { decoder, ready := !(before ++ envelopes).isEmpty }
  dropped : ¬Orderly server.sessionToken (before ++ envelopes) → done.1.clients clientId = none
  received : admitted server.sessionToken (before ++ envelopes) =
    admitted server.sessionToken before ++ receivedOn clientId done.2

/-- **The walk**, by induction on the envelopes of the read. -/
theorem processEnvelopes_walked (envelopes : List Envelope) :
    ∀ {server : WorkerServer} {before : List Envelope} {decoder : FrameDecoder},
      server.clients clientId = some { decoder, ready := !before.isEmpty } →
      Orderly server.sessionToken before →
      Walked clientId server decoder before envelopes (server.processEnvelopes cbor clientId envelopes) := by
  induction envelopes with
  | nil =>
    intro server before decoder hstate hbefore
    exact {
      concerns := .refl [] fun _ => rfl
      kept := fun _ => by rw [List.append_nil]; exact hstate
      dropped := fun hnot => absurd (by rw [List.append_nil]; exact hbefore) hnot
      received := by rw [List.append_nil]; exact (List.append_nil _).symm }
  | cons envelope envelopes ih =>
    intro server before decoder hstate hbefore
    have hsplit : before ++ envelope :: envelopes = before ++ [envelope] ++ envelopes := by
      rw [List.append_assoc, List.singleton_append]
    have hfront : (!before.isEmpty) = false ↔ before = [] := by
      rw [Bool.not_eq_false', List.isEmpty_iff]
    by_cases hnext : Orderly server.sessionToken (before ++ [envelope])
    · obtain ⟨hcorrect, htype⟩ := (orderly_snoc_iff hbefore).mp hnext
      obtain ⟨outputs, hstep, houtputs⟩ :=
        @processEnvelope_correct cbor envelope clientId server _ hstate hcorrect fun h => htype (hfront.mp h)
      let greeted := server.setClient clientId (some { decoder, ready := true })
      have hgreeted : greeted.clients clientId = some { decoder, ready := !(before ++ [envelope]).isEmpty } := by
        have hnonempty : (before ++ [envelope]).isEmpty = false := by cases before <;> rfl
        rw [hnonempty]
        exact Function.update_self ..
      have hwalked := ih hgreeted hnext
      have hwalk : server.processEnvelopes cbor clientId (envelope :: envelopes) =
          ((greeted.processEnvelopes cbor clientId envelopes).1,
            outputs ++ (greeted.processEnvelopes cbor clientId envelopes).2) := by
        rw [processEnvelopes, hstep]
      have hfirst : receivedOn clientId outputs =
          if before = [] ∨ envelope.type = .Ping then [] else [envelope] := by
        rw [houtputs clientId]
        by_cases hping : envelope.type = .Ping
        · rw [if_pos (Or.inr hping), if_neg fun h => h.2.2 hping]
        · cases before with
          | nil => rw [if_pos (Or.inl rfl), if_neg fun h => (by cases h.2.1)]
          | cons first rest =>
            rw [if_pos ⟨rfl, rfl, hping⟩, if_neg fun h => h.elim (List.cons_ne_nil first rest) hping]
      rw [hwalk]
      exact {
        concerns := .trans (.update _ outputs fun other hne => by rw [houtputs, if_neg fun h => hne h.1])
          hwalked.concerns
        kept := hsplit ▸ hwalked.kept
        dropped := hsplit ▸ hwalked.dropped
        received := by
          rw [hsplit, receivedOn_append, ← List.append_assoc, hfirst, ← admitted_snoc hnext]
          exact hwalked.received }
    · obtain ⟨error, hstep⟩ := @processEnvelope_refused cbor envelope clientId server _ hstate (by
        rw [orderly_snoc_iff hbefore] at hnext
        rintro ⟨hcorrect, htype⟩
        exact hnext ⟨hcorrect, fun h => htype (hfront.mpr h)⟩)
      have hwalk : server.processEnvelopes cbor clientId (envelope :: envelopes) =
          server.disconnectClient clientId (some error) := by
        unfold processEnvelopes
        rw [hstep]
      have hnot : ¬Orderly server.sessionToken (before ++ envelope :: envelopes) := by
        rw [hsplit]
        exact fun h => hnext h.of_append
      rw [hwalk]
      exact {
        concerns := disconnect_concerns _
        kept := fun h => absurd h hnot
        dropped := fun _ => disconnect_gone ..
        received := by rw [admitted_refused hbefore hnext, receivedOn_disconnect, List.append_nil] }

/-! ## Reads -/

theorem appendAll_snoc (reads : List QByteArray) (bytes : QByteArray) :
    ∀ {decoder : FrameDecoder}, decoder.appendAll cbor (reads ++ [bytes]) =
      ((decoder.appendAll cbor reads).1 ++ [((decoder.appendAll cbor reads).2.append cbor bytes).1],
        ((decoder.appendAll cbor reads).2.append cbor bytes).2) := by
  induction reads with
  | nil => exact rfl
  | cons first reads ih =>
    intro decoder
    rw [List.cons_append]
    unfold FrameDecoder.appendAll
    dsimp only
    rw [ih]
    rfl

theorem error_of_firstError {results : List FrameParseResult} (h : firstError results = none) :
    ∀ result ∈ results, result.error.isNone = true := fun result hmem => by
  rw [Option.isNone_iff_eq_none]
  exact List.findSome?_eq_none_iff.mp h result hmem

theorem accepted_of_firstError {results : List FrameParseResult} (h : firstError results = none) :
    accepted results = emitted results := by
  unfold accepted
  rw [List.takeWhile_eq_self_iff.mpr (error_of_firstError h)]
  rfl

theorem firstError_snoc {results : List FrameParseResult} (h : firstError results = none)
    (result : FrameParseResult) : firstError (results ++ [result]) = result.error := by
  unfold firstError at h ⊢
  rw [List.findSome?_append, h, List.findSome?_singleton]
  rfl

theorem emitted_snoc (results : List FrameParseResult) (result : FrameParseResult) :
    emitted (results ++ [result]) = emitted results ++ result.envelopes := by
  unfold emitted
  rw [List.flatMap_append, List.flatMap_singleton]

/-- The envelopes of a read that ends in an error are not looked at. -/
theorem accepted_error {results : List FrameParseResult} (h : firstError results = none)
    {result : FrameParseResult} (herror : result.error ≠ none) :
    accepted (results ++ [result]) = emitted results := by
  have hsome : ¬result.error.isNone = true := by
    rw [Option.isNone_iff_eq_none]
    exact herror
  have hlast := List.takeWhile_cons_of_neg (p := fun result : FrameParseResult => result.error.isNone) (l := []) hsome
  unfold accepted
  rw [List.takeWhile_append_of_pos (error_of_firstError h), hlast, List.append_nil]
  rfl

/-! ## Every run -/

/-- A connection that is there has kept to the rules, and its entry is what its stream makes of it. -/
structure Alive (cbor : QCborCodec) (history : ServerHistory) (clientId : Nat) (state : ClientState) : Prop where
  clean : firstError (history.decoded cbor clientId) = none
  orderly : Orderly history.server.sessionToken (emitted (history.decoded cbor clientId))
  decoder : state.decoder = (({} : FrameDecoder).appendAll cbor (history.heard clientId)).2
  ready : state.ready = !(emitted (history.decoded cbor clientId)).isEmpty

/-- **The invariant**, for one connection. -/
structure Consistent (cbor : QCborCodec) (history : ServerHistory) (clientId : Nat) : Prop where
  alive : ∀ state, history.server.clients clientId = some state → Alive cbor history clientId state
  fresh : history.server.nextClientId ≤ clientId →
    history.server.clients clientId = none ∧ history.heard clientId = []
  received : receivedOn clientId history.outputs =
    admitted history.server.sessionToken (accepted (history.decoded cbor clientId))

variable {history next : ServerHistory}

/-- What a step does not touch stays consistent, and so does a connection that is dropped. -/
theorem Consistent.carry (h : Consistent cbor history clientId)
    (hclients : ∀ state, next.server.clients clientId = some state →
      history.server.clients clientId = some state)
    (hheard : next.heard clientId = history.heard clientId)
    (houtputs : receivedOn clientId next.outputs = receivedOn clientId history.outputs)
    (htoken : next.server.sessionToken = history.server.sessionToken)
    (hnext : history.server.nextClientId ≤ next.server.nextClientId) : Consistent cbor next clientId := by
  have hdecoded : next.decoded cbor clientId = history.decoded cbor clientId := by
    unfold ServerHistory.decoded
    rw [hheard]
  refine ⟨fun state hstate => ?_, fun hle => ?_, ?_⟩
  · obtain ⟨hclean, horderly, hdecoder, hready⟩ := h.alive state (hclients state hstate)
    exact ⟨hdecoded ▸ hclean, by rw [htoken, hdecoded]; exact horderly, by rw [hheard]; exact hdecoder,
      hdecoded ▸ hready⟩
  · obtain ⟨hnone, hnothing⟩ := h.fresh (hnext.trans hle)
    refine ⟨?_, hheard.trans hnothing⟩
    cases hstate : next.server.clients clientId with
    | none => rfl
    | some state =>
      have := hclients state hstate
      rw [hnone] at this
      cases this
  · rw [houtputs, hdecoded, htoken]
    exact h.received

/-- A connection the step is not about. -/
theorem Consistent.other {done : WorkerServer × List ServerOutput} {other : Nat}
    (h : Consistent cbor history other) (hdone : ConcernsOnly clientId history.server done)
    (hne : other ≠ clientId) (hserver : next.server = done.1)
    (houtputs : next.outputs = history.outputs ++ done.2) (hheard : next.heard other = history.heard other) :
    Consistent cbor next other := by
  refine h.carry (fun state hstate => ?_) hheard ?_ ?_ ?_
  · rw [hserver, hdone.clients other hne] at hstate
    exact hstate
  · rw [houtputs, receivedOn_append, hdone.received other hne, List.append_nil]
  · rw [hserver, hdone.token]
  · rw [hserver, hdone.next]

theorem consistent_drop (h : Consistent cbor history clientId) (error : Option ProtocolError)
    (hserver : next.server = (history.server.disconnectClient clientId error).1)
    (houtputs : next.outputs = history.outputs ++ (history.server.disconnectClient clientId error).2)
    (hheard : next.heard clientId = history.heard clientId) : Consistent cbor next clientId := by
  have hconcerns := @disconnect_concerns clientId history.server error
  refine h.carry (fun state hstate => ?_) hheard ?_ ?_ ?_
  · rw [hserver, disconnect_gone] at hstate
    cases hstate
  · rw [houtputs, receivedOn_append, receivedOn_disconnect, List.append_nil]
  · rw [hserver, hconcerns.token]
  · rw [hserver, hconcerns.next]

theorem readClient_error {error : ProtocolError} {bytes : QByteArray} (hstate : server.clients clientId = some state)
    (herror : (state.decoder.append cbor bytes).1.error = some error) :
    server.readClient cbor clientId bytes =
      (server.setClient clientId (some { state with
        decoder := (state.decoder.append cbor bytes).2 })).disconnectClient clientId (some error) := by
  unfold readClient
  rw [hstate]
  dsimp only
  rw [herror]

theorem readClient_clean {bytes : QByteArray} (hstate : server.clients clientId = some state)
    (herror : (state.decoder.append cbor bytes).1.error = none) :
    server.readClient cbor clientId bytes =
      (server.setClient clientId (some { state with
        decoder := (state.decoder.append cbor bytes).2 })).processEnvelopes cbor clientId
          (state.decoder.append cbor bytes).1.envelopes := by
  unfold readClient
  rw [hstate]
  dsimp only
  rw [herror]

/-- The walk of a read of a connection that is there. -/
theorem readClient_walked {bytes : QByteArray} (h : Alive cbor history clientId state)
    (hstate : history.server.clients clientId = some state)
    (herror : (state.decoder.append cbor bytes).1.error = none) :
    Walked clientId (history.server.setClient clientId (some { state with
        decoder := (state.decoder.append cbor bytes).2 })) (state.decoder.append cbor bytes).2
      (emitted (history.decoded cbor clientId)) (state.decoder.append cbor bytes).1.envelopes
      (history.server.readClient cbor clientId bytes) := by
  rw [readClient_clean hstate herror]
  refine processEnvelopes_walked _ ?_ h.orderly
  rw [← h.ready]
  exact Function.update_self ..

theorem readClient_concerns (h : Consistent cbor history clientId) (bytes : QByteArray) :
    ConcernsOnly clientId history.server (history.server.readClient cbor clientId bytes) := by
  cases hstate : history.server.clients clientId with
  | none =>
    have hnothing : history.server.readClient cbor clientId bytes = (history.server, []) := by
      unfold readClient
      rw [hstate]
    rw [hnothing]
    exact .refl [] fun _ => rfl
  | some state =>
    have hstored : ConcernsOnly clientId history.server (history.server.setClient clientId (some { state with
        decoder := (state.decoder.append cbor bytes).2 }), []) := .update _ [] fun _ _ => rfl
    cases herror : (state.decoder.append cbor bytes).1.error with
    | none => exact hstored.trans (readClient_walked (h.alive state hstate) hstate herror).concerns
    | some error =>
      rw [readClient_error hstate herror]
      exact hstored.trans (disconnect_concerns _)

/-- **A read** of a connection that is there. -/
theorem consistent_read (h : Consistent cbor history clientId) (hstate : history.server.clients clientId = some state)
    (bytes : QByteArray) : Consistent cbor (history.step cbor (.readyRead clientId bytes)) clientId := by
  have halive := h.alive state hstate
  have hconcerns := readClient_concerns h bytes
  let next := history.step cbor (.readyRead clientId bytes)
  have hheard : next.heard clientId = history.heard clientId ++ [bytes] := by
    show history.hear (.readyRead clientId bytes) clientId = _
    unfold ServerHistory.hear
    dsimp only
    rw [hstate]
    exact Function.update_self ..
  have hall := @appendAll_snoc cbor (history.heard clientId) bytes {}
  rw [← halive.decoder, ← hheard] at hall
  have hdecoded : next.decoded cbor clientId =
      history.decoded cbor clientId ++ [(state.decoder.append cbor bytes).1] := congrArg Prod.fst hall
  have hreceived := h.received
  rw [accepted_of_firstError halive.clean] at hreceived
  have houtputs : receivedOn clientId next.outputs =
      receivedOn clientId history.outputs ++
        receivedOn clientId (history.server.readClient cbor clientId bytes).2 := receivedOn_append ..
  have hfresh : next.server.nextClientId ≤ clientId → False := by
    intro hle
    have hle' : history.server.nextClientId ≤ clientId := hconcerns.next ▸ hle
    rw [(h.fresh hle').1] at hstate
    cases hstate
  cases herror : (state.decoder.append cbor bytes).1.error with
  | some error =>
    have hdone := @readClient_error cbor clientId history.server state error bytes hstate herror
    refine ⟨fun state' hstate' => ?_, fun hle => (hfresh hle).elim, ?_⟩
    · have hgone : next.server.clients clientId = none := by
        show (history.server.readClient cbor clientId bytes).1.clients clientId = none
        rw [hdone]
        exact disconnect_gone ..
      rw [hgone] at hstate'
      cases hstate'
    · show receivedOn clientId next.outputs =
        admitted (history.server.readClient cbor clientId bytes).1.sessionToken (accepted (next.decoded cbor clientId))
      rw [houtputs, hconcerns.token, hdecoded, accepted_error halive.clean (by rw [herror]; nofun), hreceived,
        hdone, receivedOn_disconnect, List.append_nil]
  | none =>
    have hwalked := readClient_walked halive hstate herror
    have hclean : firstError (next.decoded cbor clientId) = none := by
      rw [hdecoded, firstError_snoc halive.clean]
      exact herror
    have hemitted : emitted (next.decoded cbor clientId) =
        emitted (history.decoded cbor clientId) ++ (state.decoder.append cbor bytes).1.envelopes := by
      rw [hdecoded, emitted_snoc]
    have htoken : next.server.sessionToken = history.server.sessionToken := hconcerns.token
    refine ⟨fun state' hstate' => ?_, fun hle => (hfresh hle).elim, ?_⟩
    · have horderly : Orderly history.server.sessionToken (emitted (next.decoded cbor clientId)) := by
        by_contra hnot
        rw [hemitted] at hnot
        have hgone : next.server.clients clientId = none := hwalked.dropped hnot
        rw [hgone] at hstate'
        cases hstate'
      have hentry : next.server.clients clientId = _ := hwalked.kept (hemitted ▸ horderly)
      rw [hentry] at hstate'
      cases hstate'
      exact ⟨hclean, htoken ▸ horderly, (congrArg Prod.snd hall).symm, by rw [hemitted]⟩
    · rw [accepted_of_firstError hclean, hemitted, houtputs, htoken, hreceived]
      exact hwalked.received.symm

/-- A new connection. -/
theorem consistent_accept (h : Consistent cbor history clientId) :
    Consistent cbor (history.step cbor .newConnection) clientId := by
  by_cases hnew : clientId = history.server.nextClientId
  · obtain ⟨hnone, hnothing⟩ := h.fresh hnew.ge
    have hdecoded : (history.step cbor .newConnection).decoded cbor clientId = [] := by
      show (FrameDecoder.appendAll cbor {} (history.heard clientId)).1 = []
      rw [hnothing]
      rfl
    have hbefore : history.decoded cbor clientId = [] := hdecoded
    refine ⟨fun state hstate => ?_, fun hle => ?_, ?_⟩
    · have hentry : (history.step cbor .newConnection).server.clients clientId = some {} := by
        rw [hnew]
        exact Function.update_self ..
      rw [hentry] at hstate
      cases hstate
      refine ⟨by rw [hdecoded]; rfl, by rw [hdecoded]; exact orderly_nil, ?_, by rw [hdecoded]; rfl⟩
      show _ = (FrameDecoder.appendAll cbor {} (history.heard clientId)).2
      rw [hnothing]
      rfl
    · have : history.server.nextClientId + 1 ≤ clientId := hle
      omega
    · have hreceived := h.received
      rw [hbefore] at hreceived
      rw [hdecoded]
      show receivedOn clientId (history.outputs ++ []) = _
      rw [List.append_nil]
      exact hreceived
  · refine h.carry (fun state hstate => ?_) rfl ?_ rfl (Nat.le_succ _)
    · have hentry : (history.step cbor .newConnection).server.clients clientId = history.server.clients clientId :=
        Function.update_of_ne hnew ..
      exact hentry.symm.trans hstate
    · show receivedOn clientId (history.outputs ++ []) = _
      rw [List.append_nil]

/-- The connection an event is about; a new connection gets the next id. -/
def ServerEvent.client (server : WorkerServer) : ServerEvent → Nat
  | .newConnection => server.nextClientId
  | .readyRead clientId _ | .disconnected clientId | .errorOccurred clientId _ | .heartbeatTimeout clientId =>
    clientId

theorem heard_other {event : ServerEvent} (h : clientId ≠ event.client history.server) :
    (history.step cbor event).heard clientId = history.heard clientId := by
  cases event with
  | readyRead other bytes =>
    show history.hear (.readyRead other bytes) clientId = history.heard clientId
    unfold ServerHistory.hear
    dsimp only
    cases history.server.clients other with
    | none => rfl
    | some state => exact Function.update_of_ne h ..
  | _ => rfl

theorem errorOccurred_eq (server : WorkerServer) (clientId : Nat) (detail : QString) :
    ∃ outputs, server.handle cbor (.errorOccurred clientId detail) = (server, outputs) ∧
      ∀ other, receivedOn other outputs = [] := by
  unfold handle
  dsimp only
  cases server.clients clientId with
  | none => exact ⟨[], rfl, fun _ => rfl⟩
  | some state => exact ⟨_, rfl, fun _ => rfl⟩

theorem errorOccurred_concerns (detail : QString) :
    ConcernsOnly clientId server (server.handle cbor (.errorOccurred clientId detail)) := by
  obtain ⟨outputs, hdone, hnothing⟩ := @errorOccurred_eq cbor server clientId detail
  rw [hdone]
  exact .refl outputs hnothing

/-- **One event**, for the connection it is about and for the others. -/
theorem consistent_step (h : ∀ clientId, Consistent cbor history clientId) (event : ServerEvent) :
    ∀ clientId, Consistent cbor (history.step cbor event) clientId := by
  intro clientId
  cases event with
  | newConnection => exact consistent_accept (h clientId)
  | readyRead other bytes =>
    by_cases hother : clientId = other
    · subst hother
      cases hstate : history.server.clients clientId with
      | some state => exact consistent_read (h clientId) hstate bytes
      | none =>
        have hstep : history.step cbor (.readyRead clientId bytes) = history := by
          have hdone : history.server.handle cbor (.readyRead clientId bytes) = (history.server, []) := by
            show history.server.readClient cbor clientId bytes = _
            unfold readClient
            rw [hstate]
          have hheard : history.hear (.readyRead clientId bytes) = history.heard := by
            unfold ServerHistory.hear
            dsimp only
            rw [hstate]
          unfold ServerHistory.step
          rw [hdone, hheard]
          dsimp only
          rw [List.append_nil]
        rw [hstep]
        exact h clientId
    · exact (h clientId).other (readClient_concerns (h other) bytes) hother rfl rfl (heard_other hother)
  | disconnected other =>
    by_cases hother : clientId = other
    · subst hother
      exact consistent_drop (h clientId) none rfl rfl rfl
    · exact (h clientId).other (disconnect_concerns none) hother rfl rfl rfl
  | errorOccurred other detail =>
    obtain ⟨outputs, hdone, hnothing⟩ := @errorOccurred_eq cbor history.server other detail
    have hserver : (history.step cbor (.errorOccurred other detail)).server = history.server :=
      congrArg Prod.fst hdone
    have houtputs : (history.step cbor (.errorOccurred other detail)).outputs = history.outputs ++ outputs :=
      congrArg (history.outputs ++ ·) (congrArg Prod.snd hdone)
    refine (h clientId).carry (fun state hstate => hserver ▸ hstate) rfl ?_ ?_ ?_
    · rw [houtputs, receivedOn_append, hnothing, List.append_nil]
    · rw [hserver]
    · rw [hserver]
  | heartbeatTimeout other =>
    by_cases hother : clientId = other
    · subst hother
      exact consistent_drop (h clientId) (some timeoutError) rfl rfl rfl
    · exact (h clientId).other (disconnect_concerns (some timeoutError)) hother rfl rfl rfl

/-- The state of another connection, and what it has received, stay as they are. -/
theorem step_other (h : ∀ clientId, Consistent cbor history clientId) {event : ServerEvent}
    (hne : clientId ≠ event.client history.server) :
    (history.step cbor event).server.clients clientId = history.server.clients clientId ∧
      receivedOn clientId (history.step cbor event).outputs = receivedOn clientId history.outputs := by
  have hboth : ∀ {other : Nat} {done : WorkerServer × List ServerOutput},
      ConcernsOnly other history.server done → clientId ≠ other →
      done.1.clients clientId = history.server.clients clientId ∧
        receivedOn clientId (history.outputs ++ done.2) = receivedOn clientId history.outputs := by
    intro other done hdone hother
    rw [receivedOn_append, hdone.received clientId hother, List.append_nil]
    exact ⟨hdone.clients clientId hother, rfl⟩
  cases event with
  | newConnection =>
    refine ⟨Function.update_of_ne hne .., ?_⟩
    show receivedOn clientId (history.outputs ++ []) = _
    rw [List.append_nil]
  | readyRead other bytes => exact hboth (readClient_concerns (h other) bytes) hne
  | disconnected other => exact hboth (disconnect_concerns none) hne
  | errorOccurred other detail => exact hboth (errorOccurred_concerns detail) hne
  | heartbeatTimeout other => exact hboth (disconnect_concerns (some timeoutError)) hne

theorem step_token (h : ∀ clientId, Consistent cbor history clientId) (event : ServerEvent) :
    (history.step cbor event).server.sessionToken = history.server.sessionToken := by
  cases event with
  | newConnection => rfl
  | readyRead clientId bytes => exact (readClient_concerns (h clientId) bytes).token
  | disconnected clientId => exact (@disconnect_concerns clientId _ none).token
  | errorOccurred clientId detail => exact (@errorOccurred_concerns cbor clientId _ detail).token
  | heartbeatTimeout clientId => exact (@disconnect_concerns clientId _ (some timeoutError)).token

theorem step_next (h : ∀ clientId, Consistent cbor history clientId) (event : ServerEvent) :
    history.server.nextClientId ≤ (history.step cbor event).server.nextClientId := by
  cases event with
  | newConnection => exact Nat.le_succ _
  | readyRead clientId bytes => exact (readClient_concerns (h clientId) bytes).next.ge
  | disconnected clientId => exact (@disconnect_concerns clientId _ none).next.ge
  | errorOccurred clientId detail => exact (@errorOccurred_concerns cbor clientId _ detail).next.ge
  | heartbeatTimeout clientId => exact (@disconnect_concerns clientId _ (some timeoutError)).next.ge

/-- A history in which every connection is consistent. -/
structure Sound (cbor : QCborCodec) (token : QByteArray) (history : ServerHistory) : Prop where
  token : history.server.sessionToken = token
  consistent : ∀ clientId, Consistent cbor history clientId

theorem sound_step :
    Runs.StepKeeps (ServerHistory.step cbor) (fun _ _ => True) (Sound cbor token) :=
  fun _ event h _ => ⟨(step_token h.consistent event).trans h.token, consistent_step h.consistent event⟩

/-- The server after a sequence of events. -/
def serverRun (cbor : QCborCodec) (token : QByteArray) (events : List ServerEvent) : ServerHistory :=
  Runs.run (ServerHistory.step cbor) (.listening token) events

theorem sound_run (events : List ServerEvent) : Sound cbor token (serverRun cbor token events) := by
  refine Runs.run_invariant sound_step ⟨rfl, fun clientId => ?_⟩ (Runs.guarded_true _ events)
  exact ⟨fun state hstate => (by cases hstate), fun _ => ⟨rfl, rfl⟩, rfl⟩

/-- A connection that is gone, with what it has received so far. -/
structure Gone (cbor : QCborCodec) (token : QByteArray) (clientId : Nat) (received : List Envelope)
    (history : ServerHistory) : Prop where
  sound : Sound cbor token history
  dropped : history.server.clients clientId = none
  used : clientId < history.server.nextClientId
  received : receivedOn clientId history.outputs = received

/-- **It stays gone**: no event brings it back or emits anything for it. -/
theorem gone_step {received : List Envelope} :
    Runs.StepKeeps (ServerHistory.step cbor) (fun _ _ => True) (Gone cbor token clientId received) := by
  intro history event h _
  have hsound := sound_step history event h.sound trivial
  have hused := h.used.trans_le (step_next h.sound.consistent event)
  by_cases hother : clientId = event.client history.server
  · -- nothing is done for a connection without an entry
    have hnothing : history.server.handle cbor event = (history.server, []) := by
      cases event with
      | newConnection => exact absurd h.used (by rw [hother]; exact lt_irrefl _)
      | readyRead other bytes =>
        show history.server.readClient cbor other bytes = _
        unfold readClient
        rw [← show clientId = other from hother, h.dropped]
      | disconnected other =>
        show history.server.disconnectClient other none = _
        unfold disconnectClient
        rw [← show clientId = other from hother, h.dropped]
      | errorOccurred other detail =>
        unfold handle
        dsimp only
        rw [← show clientId = other from hother, h.dropped]
      | heartbeatTimeout other =>
        show history.server.disconnectClient other (some timeoutError) = _
        unfold disconnectClient
        rw [← show clientId = other from hother, h.dropped]
    refine ⟨hsound, ?_, hused, ?_⟩
    · show (history.server.handle cbor event).1.clients clientId = none
      rw [hnothing]
      exact h.dropped
    · show receivedOn clientId (history.outputs ++ (history.server.handle cbor event).2) = received
      rw [hnothing, List.append_nil]
      exact h.received
  · obtain ⟨hclients, hreceived⟩ := step_other h.sound.consistent hother
    exact ⟨hsound, hclients.trans h.dropped, hused, hreceived.trans h.received⟩

theorem gone_of_violated (h : Sound cbor token history) (hviolated : Violated token (history.decoded cbor clientId)) :
    Gone cbor token clientId (receivedOn clientId history.outputs) history := by
  refine ⟨h, ?_, ?_, rfl⟩
  · cases hstate : history.server.clients clientId with
    | none => rfl
    | some state =>
      obtain ⟨hclean, horderly, -, -⟩ := (h.consistent clientId).alive state hstate
      rw [h.token] at horderly
      rcases hviolated with herror | hrule
      · exact absurd hclean herror
      · exact absurd horderly hrule
  · by_contra hfresh
    have hnothing : history.decoded cbor clientId = [] := by
      unfold ServerHistory.decoded
      rw [((h.consistent clientId).fresh (not_lt.mp hfresh)).2]
      rfl
    rw [hnothing] at hviolated
    rcases hviolated with herror | hrule
    · exact herror rfl
    · exact hrule orderly_nil

theorem accepted_prefix (results : List FrameParseResult) : ∃ more, emitted results = accepted results ++ more := by
  refine ⟨(results.dropWhile fun result => result.error.isNone).flatMap (·.envelopes), ?_⟩
  unfold emitted accepted
  rw [← List.flatMap_append, List.takeWhile_append_dropWhile]

/-- **The gate.**  On each connection `envelopeReceived` is emitted for what `admitted` lets through of
    the reads before the first error, so only behind a correct `Hello` and for correct envelopes; after a
    violation the connection is gone for good; and an event changes nothing for the other connections. -/
theorem received_authenticated (cbor : QCborCodec) (token : QByteArray) (events : List ServerEvent) :
    let history := serverRun cbor token events
    (∀ clientId, receivedOn clientId history.outputs =
      admitted token (accepted (history.decoded cbor clientId))) ∧
    (∀ clientId, ∀ envelope ∈ receivedOn clientId history.outputs, Correct token envelope ∧
      ∃ first rest, emitted (history.decoded cbor clientId) = first :: rest ∧ Correct token first ∧
        first.type = .Hello ∧ envelope ∈ rest) ∧
    (∀ clientId, Violated token (history.decoded cbor clientId) → ∀ later : List ServerEvent,
      (serverRun cbor token (events ++ later)).server.clients clientId = none ∧
        receivedOn clientId (serverRun cbor token (events ++ later)).outputs =
          receivedOn clientId history.outputs) ∧
    ∀ (event : ServerEvent) (clientId : Nat), clientId ≠ event.client history.server →
      (serverRun cbor token (events ++ [event])).server.clients clientId = history.server.clients clientId ∧
        receivedOn clientId (serverRun cbor token (events ++ [event])).outputs =
          receivedOn clientId history.outputs := by
  intro history
  have hsound : Sound cbor token history := sound_run events
  have hlater : ∀ later, serverRun cbor token (events ++ later) = Runs.run (ServerHistory.step cbor) history later :=
    fun later => List.foldl_append
  have hreceived : ∀ clientId, receivedOn clientId history.outputs =
      admitted token (accepted (history.decoded cbor clientId)) :=
    fun clientId => hsound.token ▸ (hsound.consistent clientId).received
  refine ⟨hreceived, fun clientId envelope hmem => ?_, fun clientId hviolated later => ?_,
    fun event clientId hne => ?_⟩
  · rw [hreceived] at hmem
    obtain ⟨hcorrect, first, rest, haccepted, hfirst, htype, hrest⟩ := of_mem_admitted hmem
    obtain ⟨more, hmore⟩ := accepted_prefix (history.decoded cbor clientId)
    rw [haccepted, List.cons_append] at hmore
    exact ⟨hcorrect, first, rest ++ more, hmore, hfirst, htype, List.mem_append_left more hrest⟩
  · rw [hlater]
    have hgone := Runs.run_invariant gone_step (gone_of_violated hsound hviolated) (Runs.guarded_true history later)
    exact ⟨hgone.dropped, hgone.received⟩
  · rw [hlater]
    exact step_other hsound.consistent hne

def helloBody : QByteArray := definiteCbor.toCbor (.map { pongEnvelope with type := .Hello }.toCbor)

/-- A `Hello` and a message in one read, then an empty frame. -/
def helloEvents : List ServerEvent :=
  [.newConnection, .readyRead 1 (frameOf helloBody ++ frameOf pongBody), .readyRead 1 [0, 0, 0, 0]]

theorem received_helloEvents :
    (receivedOn 1 (serverRun definiteCbor [7, 7, 7, 7] helloEvents).outputs).map (·.type) = [.Pong] ∧
      receivedOn 1 (serverRun definiteCbor [7, 7, 7, 7]
        (helloEvents ++ [.readyRead 1 (frameOf pongBody), .newConnection])).outputs =
        receivedOn 1 (serverRun definiteCbor [7, 7, 7, 7] helloEvents).outputs := by
  have herror : (firstError ((serverRun definiteCbor [7, 7, 7, 7] helloEvents).decoded definiteCbor 1)).isSome :=
    by decide +kernel
  have hviolated : Violated [7, 7, 7, 7]
      ((serverRun definiteCbor [7, 7, 7, 7] helloEvents).decoded definiteCbor 1) :=
    Or.inl (Option.isSome_iff_ne_none.mp herror)
  have hgate := received_authenticated definiteCbor [7, 7, 7, 7] helloEvents
  exact ⟨by decide +kernel, (hgate.2.2.1 1 hviolated [.readyRead 1 (frameOf pongBody), .newConnection]).2⟩

end BreezeDesk.Ipc
