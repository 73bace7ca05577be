/-
  Work in parts, each of which is committed as a whole, and which is taken up again after a stop.

  1. On the disk: a `Part` takes the disk to what it commits, or fails.  `runParts` runs parts up to the
     first that fails; `Committed parts d t` says that all of them went through, from `d` to `t`.  What
     some first parts have committed is where the others go on (`Committed.resume`).

  2. In the program: a part is a process over a larger state, of which the `disk` is what a stop leaves.
     `Atomic` says that it changes the disk at most once, at its end, and not when it fails.  The parts in
     order can only be stopped where some first parts are committed (`stops_inOrder`), and end as
     `runParts` does (`outcome_inOrder`).

  Nothing here mentions a particular program.
-/
import BreezeDesk.Library.Process

namespace BreezeDesk.Resumable

variable {δ τ ε α β : Type}

/-! ## On the disk -/

abbrev Part (δ ε : Type) := δ → Except ε δ

/-- How the parts end, and what they have committed by then. -/
def runParts : List (Part δ ε) → δ → Except ε Unit × δ
  | [], d => (.ok (), d)
  | part :: pending, d =>
    match part d with
    | .ok d' => runParts pending d'
    | .error e => (.error e, d)

/-- All the parts go through. -/
inductive Committed : List (Part δ ε) → δ → δ → Prop
  | nil (d : δ) : Committed [] d d
  | cons {part : Part δ ε} {pending : List (Part δ ε)} {d mid t : δ} :
    part d = .ok mid → Committed pending mid t → Committed (part :: pending) d t

theorem Committed.append {done pending : List (Part δ ε)} {d mid t : δ} (h : Committed done d mid)
    (hrest : Committed pending mid t) : Committed (done ++ pending) d t := by
  induction h with
  | nil => exact hrest
  | cons hpart _ ih => exact .cons hpart (ih hrest)

/-- **Taking up**: after some first parts, the others are what is left of the run. -/
theorem Committed.resume {done : List (Part δ ε)} {d t : δ} (h : Committed done d t)
    (pending : List (Part δ ε)) : runParts (done ++ pending) d = runParts pending t := by
  induction h with
  | nil => rfl
  | cons hpart _ ih =>
    rw [List.cons_append, runParts, hpart]
    exact ih

/-- What is committed in the end is what some first parts have committed; all of them, where none failed. -/
theorem runParts_committed (parts : List (Part δ ε)) (d : δ) : ∃ i ≤ parts.length,
    Committed (parts.take i) d (runParts parts d).2 ∧ ∀ u, (runParts parts d).1 = .ok u → i = parts.length := by
  induction parts generalizing d with
  | nil => exact ⟨0, Nat.le_refl _, .nil d, fun _ _ => rfl⟩
  | cons part pending ih =>
    rw [runParts]
    match hpart : part d with
    | .ok d' =>
      obtain ⟨i, hi, hdone, hall⟩ := ih d'
      exact ⟨i + 1, Nat.succ_le_succ hi, .cons hpart hdone, fun u hok => congrArg Nat.succ (hall u hok)⟩
    | .error e => exact ⟨0, Nat.zero_le _, .nil d, fun u hok => by cases hok⟩

/-- What the parts keep, one after the other, with the number of parts behind. -/
theorem Committed.invariant {J : Nat → δ → Prop} {done : List (Part δ ε)} {d t : δ}
    (h : Committed done d t) : ∀ {k : Nat}, J k d →
    (∀ i part, done[i]? = some part → ∀ d d', J (k + i) d → part d = .ok d' → J (k + i + 1) d') →
    J (k + done.length) t := by
  induction h with
  | nil => exact fun hJ _ => hJ
  | @cons part pending d mid t hpart _ ih =>
    intro k hJ hkeep
    have hnext := ih (k := k + 1) (hkeep 0 part rfl d mid hJ hpart) fun i other hother d d' hJ' hok => by
      have hkept := hkeep (i + 1) other hother d d'
      rw [← Nat.add_assoc k i 1, Nat.add_right_comm k i 1] at hkept
      exact hkept hJ' hok
    rw [List.length_cons, Nat.add_comm pending.length 1, ← Nat.add_assoc]
    exact hnext

/-! ## In the program -/

open Process

/-- The process after which something is undone when it fails. -/
def rescue (p : Process τ ε α) (undo : τ → τ) : Process τ ε α := fun s =>
  match p s with
  | (passed, .error e) => (passed ++ [undo (passed.getLastD s)], .error e)
  | (passed, .ok r) => (passed, .ok r)

/-- A step that reports what has come of it. -/
def call (step : τ → α × τ) : Process τ ε α := fun s => ([(step s).2], .ok ((step s).1, (step s).2))

def inOrder : List (Process τ ε Unit) → α → Process τ ε α
  | [], a => pure a
  | part :: pending, a => part >>= fun _ => inOrder pending a

variable (disk : τ → δ) (rest : δ → τ)

/-- How the process ends, and what is on the disk then. -/
def outcome (p : Process τ ε α) (s : τ) : Except ε α × δ :=
  match p s with
  | (_, .ok (a, t)) => (.ok a, disk t)
  | (passed, .error e) => (.error e, disk (passed.getLastD s))

/-- What the process commits when it starts at rest. -/
def committed (p : Process τ ε Unit) : Part δ ε := fun d => (p (rest d)).2.map fun r => disk r.2

/-- From this state on, the process changes the disk at most once, and not when it fails; in the end it is at rest,
    on a disk with the property `R`. -/
structure Atomic (R : δ → Prop) (p : Process τ ε α) (s : τ) : Prop where
  undone : ∀ e, (p s).2 = .error e → ∀ u ∈ (p s).1, disk u = disk s
  rests : ∀ a t, (p s).2 = .ok (a, t) → t = rest (disk t) ∧ R (disk t)
  last : ∀ a t, (p s).2 = .ok (a, t) → (p s).1.getLast? = some t
  once : ∀ a t, (p s).2 = .ok (a, t) → ∀ u ∈ (p s).1, disk u = disk s ∨ disk u = disk t

variable {disk rest}

theorem getLastD_mem (l : List τ) (s : τ) : l.getLastD s ∈ s :: l := by
  rw [List.getLastD_eq_getLast?]
  cases h : l.getLast? with
  | none => exact List.mem_cons_self ..
  | some t => exact List.mem_cons_of_mem _ (List.mem_of_getLast? h)

theorem conforms_call {I P : τ → Prop} {E : Prop} {step : τ → α × τ} {Q : α → τ → Prop}
    (h : ∀ s, P s → I (step s).2 ∧ Q (step s).1 (step s).2) :
    Conforms I P (call step : Process τ ε α) Q E where
  passes s hP s' hmem := by
    rw [List.mem_singleton.mp hmem]
    exact (h s hP).1
  ends s hP a s' hok := by
    cases hok
    exact (h s hP).2
  fails s _ e herror := by cases herror

variable (disk rest) in
/-- The two ways a part ends. -/
theorem committed_cases (p : Process τ ε Unit) (d : δ) :
    (∃ t, (p (rest d)).2 = .ok ((), t) ∧ committed disk rest p d = .ok (disk t)) ∨
      ∃ e, (p (rest d)).2 = .error e ∧ committed disk rest p d = .error e := by
  unfold committed
  cases h : (p (rest d)).2 with
  | ok r => exact .inl ⟨r.2, rfl, rfl⟩
  | error e => exact .inr ⟨e, rfl, rfl⟩

theorem bind_of_ok {p : Process τ ε α} {f : α → Process τ ε β} {s t : τ} {a : α} (h : (p s).2 = .ok (a, t)) :
    (p >>= f) s = ((p s).1 ++ (f a t).1, (f a t).2) := by
  show andThen p f s = _
  unfold andThen
  match hrun : p s with
  | (passed, .error e) =>
    rw [hrun] at h
    cases h
  | (passed, .ok r) =>
    rw [hrun] at h
    cases h
    rfl

theorem bind_of_error {p : Process τ ε α} {f : α → Process τ ε β} {s : τ} {e : ε} (h : (p s).2 = .error e) :
    (p >>= f) s = ((p s).1, .error e) := by
  show andThen p f s = _
  unfold andThen
  match hrun : p s with
  | (passed, .error e') =>
    rw [hrun] at h
    cases h
    rfl
  | (passed, .ok r) =>
    rw [hrun] at h
    cases h

theorem bind_of_run {p : Process τ ε α} {f : α → Process τ ε β} {s t : τ} {passed : List τ} {a : α}
    (h : p s = (passed, .ok (a, t))) : (p >>= f) s = (passed ++ (f a t).1, (f a t).2) := by
  rw [bind_of_ok (by rw [h]), h]

theorem bind_of_failed {p : Process τ ε α} {f : α → Process τ ε β} {s : τ} {passed : List τ} {e : ε}
    (h : p s = (passed, .error e)) : (p >>= f) s = (passed, .error e) := by
  rw [bind_of_error (by rw [h]), h]

theorem outcome_of_ok {p : Process τ ε α} {s t : τ} {a : α} (h : (p s).2 = .ok (a, t)) :
    outcome disk p s = (.ok a, disk t) := by
  unfold outcome
  match hrun : p s with
  | (passed, .error e) =>
    rw [hrun] at h
    cases h
  | (passed, .ok r) =>
    rw [hrun] at h
    cases h
    rfl

theorem outcome_of_error {p : Process τ ε α} {s : τ} {e : ε} (h : (p s).2 = .error e) :
    outcome disk p s = (.error e, disk ((p s).1.getLastD s)) := by
  unfold outcome
  match hrun : p s with
  | (passed, .error e') =>
    rw [hrun] at h
    cases h
    rfl
  | (passed, .ok r) =>
    rw [hrun] at h
    cases h

theorem getLastD_append {l m : List τ} {s t : τ} (h : l.getLast? = some t) : (l ++ m).getLastD s = m.getLastD t := by
  rw [List.getLastD_eq_getLast?, List.getLastD_eq_getLast?, List.getLast?_append, h]
  cases m.getLast? <;> rfl

variable (disk) in
/-- After a process whose last store is the one it ends in, the outcome is that of what follows. -/
theorem outcome_bind_of_last {p : Process τ ε α} {f : α → Process τ ε β} {s t : τ} {a : α} (h : (p s).2 = .ok (a, t))
    (hlast : (p s).1.getLast? = some t) : outcome disk (p >>= f) s = outcome disk (f a) t := by
  have hrun := bind_of_ok (f := f) h
  cases hends : (f a t).2 with
  | ok r => rw [outcome_of_ok (by rw [hrun]; exact hends), outcome_of_ok hends]
  | error e =>
    rw [outcome_of_error (by rw [hrun]; exact hends), outcome_of_error hends, hrun]
    show (_, disk (((p s).1 ++ (f a t).1).getLastD s)) = _
    rw [getLastD_append hlast]

/-- Stores before that leave the disk alone do not matter. -/
theorem outcome_of_quiet {p q : Process τ ε α} {s t : τ} {passed : List τ}
    (hrun : p s = (passed ++ (q t).1, (q t).2)) (hquiet : ∀ u ∈ passed, disk u = disk s) (hdisk : disk t = disk s) :
    outcome disk p s = outcome disk q t := by
  cases hends : (q t).2 with
  | ok r => rw [outcome_of_ok (by rw [hrun]; exact hends), outcome_of_ok hends]
  | error e =>
    rw [outcome_of_error (by rw [hrun]; exact hends), outcome_of_error hends, hrun]
    show (_, disk ((passed ++ (q t).1).getLastD s)) = _
    cases hlast : (q t).1.getLast? with
    | some u =>
      rw [List.getLastD_eq_getLast?, List.getLastD_eq_getLast?, List.getLast?_append, hlast]
      rfl
    | none =>
      rw [List.getLast?_eq_none_iff.mp hlast, List.append_nil]
      rcases List.mem_cons.mp (getLastD_mem passed s) with hnone | hpassed
      · rw [hnone]
        exact congrArg _ hdisk.symm
      · rw [hquiet _ hpassed]
        exact congrArg _ hdisk.symm

/-! ### When a process is atomic -/

section Rules

variable {R : δ → Prop} {s : τ}

/-- A process is atomic when it is so after a first part that leaves the disk alone. -/
theorem atomic_bind {P : τ → Prop} {E : Prop} {p : Process τ ε α} {f : α → Process τ ε β} {Q : α → τ → Prop}
    {d : δ} (hp : Conforms (fun u => disk u = d) P p Q E) (hs : disk s = d) (hP : P s)
    (hf : ∀ a t, Q a t → disk t = d ∧ Atomic disk rest R (f a) t) : Atomic disk rest R (p >>= f) s := by
  subst hs
  cases hends : (p s).2 with
  | error e =>
    have hrun := bind_of_error (f := f) hends
    refine ⟨fun _ _ u hmem => ?_, fun a t hok => ?_, fun a t hok => ?_, fun a t hok => ?_⟩
    · rw [hrun] at hmem
      exact hp.passes s hP u hmem
    all_goals
      rw [hrun] at hok
      cases hok
  | ok r =>
    have hrun := bind_of_ok (f := f) hends
    obtain ⟨hdisk, hatomic⟩ := hf r.1 r.2 (hp.ends s hP r.1 r.2 hends)
    refine ⟨fun e herror u hmem => ?_, fun a t hok => ?_, fun a t hok => ?_, fun a t hok u hmem => ?_⟩
    · rw [hrun] at herror hmem
      rcases List.mem_append.mp hmem with hfirst | hsecond
      · exact hp.passes s hP u hfirst
      · exact (hatomic.undone e herror u hsecond).trans hdisk
    · rw [hrun] at hok
      exact hatomic.rests a t hok
    · rw [hrun] at hok ⊢
      show ((p s).1 ++ (f r.1 r.2).1).getLast? = some t
      rw [List.getLast?_append, hatomic.last a t hok]
      rfl
    · rw [hrun] at hok hmem
      rcases List.mem_append.mp hmem with hfirst | hsecond
      · exact .inl (hp.passes s hP u hfirst)
      · exact (hatomic.once a t hok u hsecond).imp_left fun hsame => hsame.trans hdisk

/-- What is undone is not on the disk. -/
theorem atomic_rescue {p : Process τ ε α} {undo : τ → τ} (h : Atomic disk rest R p s)
    (hundo : ∀ u, disk (undo u) = disk u) : Atomic disk rest R (rescue p undo) s := by
  cases hends : (p s).2 with
  | error e =>
    have hrun : rescue p undo s = ((p s).1 ++ [undo ((p s).1.getLastD s)], .error e) := by
      unfold rescue
      match hp : p s with
      | (passed, .error e') =>
        rw [hp] at hends
        cases hends
        rfl
      | (passed, .ok r) =>
        rw [hp] at hends
        cases hends
    refine ⟨fun _ _ u hmem => ?_, fun a t hok => ?_, fun a t hok => ?_, fun a t hok => ?_⟩
    · rw [hrun] at hmem
      rcases List.mem_append.mp hmem with hfirst | hsecond
      · exact h.undone e hends u hfirst
      · rw [List.mem_singleton.mp hsecond, hundo]
        rcases List.mem_cons.mp (getLastD_mem (p s).1 s) with hnone | hpassed
        · rw [hnone]
        · exact h.undone e hends _ hpassed
    all_goals
      rw [hrun] at hok
      cases hok
  | ok r =>
    have hrun : rescue p undo s = p s := by
      unfold rescue
      match hp : p s with
      | (passed, .error e) =>
        rw [hp] at hends
        cases hends
      | (passed, .ok r') => rfl
    refine ⟨?_, ?_, ?_, ?_⟩
    · rw [hrun]
      exact h.undone
    · rw [hrun]
      exact h.rests
    · rw [hrun]
      exact h.last
    · rw [hrun]
      exact h.once

end Rules

theorem Atomic.committed {R : δ → Prop} {p : Process τ ε Unit} {d d' : δ} (h : Atomic disk rest R p (rest d))
    (hok : committed disk rest p d = .ok d') : R d' := by
  rcases committed_cases disk rest p d with ⟨t, hends, hcommitted⟩ | ⟨e, -, hcommitted⟩
  · rw [hcommitted] at hok
    cases hok
    exact (h.rests () t hends).2
  · rw [hcommitted] at hok
    cases hok

/-! ### Parts in order -/

/-- **One part, then the others**: the others start at rest on what it has committed. -/
theorem outcome_bind {R : δ → Prop} {p : Process τ ε Unit} {f : Unit → Process τ ε α} {d : δ}
    (hrest : disk (rest d) = d) (h : Atomic disk rest R p (rest d)) :
    outcome disk (p >>= f) (rest d) =
      match committed disk rest p d with
      | .ok d' => outcome disk (f ()) (rest d')
      | .error e => (.error e, d) := by
  rcases committed_cases disk rest p d with ⟨t, hok, hcommitted⟩ | ⟨e, herror, hcommitted⟩
  · rw [hcommitted, outcome_bind_of_last disk hok (h.last () t hok)]
    show _ = outcome disk (f ()) (rest (disk t))
    rw [← (h.rests () t hok).1]
  · rw [hcommitted, outcome_of_error (by rw [bind_of_error herror]), bind_of_error herror]
    rcases List.mem_cons.mp (getLastD_mem (p (rest d)).1 (rest d)) with hnone | hpassed
    · rw [hnone, hrest]
    · rw [h.undone e herror _ hpassed, hrest]

/-- Where one part and the others can be stopped. -/
theorem stops_bind {R : δ → Prop} {p : Process τ ε Unit} {f : Unit → Process τ ε α} {d : δ}
    (hrest : disk (rest d) = d) (h : Atomic disk rest R p (rest d)) {s : τ}
    (hmem : s ∈ (p >>= f).stores (rest d)) :
    disk s = d ∨ ∃ d', committed disk rest p d = .ok d' ∧ ∃ s' ∈ (f ()).stores (rest d'), disk s' = disk s := by
  rcases List.mem_cons.mp hmem with rfl | hmem
  · exact .inl hrest
  rcases committed_cases disk rest p d with ⟨t, hok, hcommitted⟩ | ⟨e, herror, -⟩
  · rw [bind_of_ok hok] at hmem
    have hatRest := (h.rests () t hok).1
    rcases List.mem_append.mp hmem with hfirst | hsecond
    · rcases h.once () t hok s hfirst with hsame | hsame
      · exact .inl (hsame.trans hrest)
      · exact .inr ⟨disk t, hcommitted, t, hatRest ▸ List.mem_cons_self .., hsame.symm⟩
    · exact .inr ⟨disk t, hcommitted, s, hatRest ▸ List.mem_cons_of_mem _ hsecond, rfl⟩
  · rw [bind_of_error herror] at hmem
    exact .inl ((h.undone e herror s hmem).trans hrest)

variable (disk rest) in
/-- Every part is atomic, whatever is on the disk. -/
def AllAtomic (parts : List (Process τ ε Unit)) : Prop :=
  ∀ part ∈ parts, ∀ d, Atomic disk rest (fun _ => True) part (rest d)

/-- **The run**: the parts in order end as `runParts` does. -/
theorem outcome_inOrder (hrest : ∀ d, disk (rest d) = d) (a : α) {parts : List (Process τ ε Unit)}
    (h : AllAtomic disk rest parts) : ∀ d,
    outcome disk (inOrder parts a) (rest d) =
      ((runParts (parts.map (committed disk rest)) d).1.map fun _ => a,
        (runParts (parts.map (committed disk rest)) d).2) := by
  induction parts with
  | nil => exact fun d => (outcome_of_ok rfl).trans (congrArg _ (hrest d))
  | cons part pending ih =>
    intro d
    have hstep := outcome_bind (f := fun _ => inOrder pending a) (hrest d) (h part (List.mem_cons_self ..) d)
    rw [List.map_cons, runParts]
    refine hstep.trans ?_
    match committed disk rest part d with
    | .ok d' => exact ih (fun other hother => h other (List.mem_cons_of_mem _ hother)) d'
    | .error e => rfl

/-- The parts in order are stopped where some first of them are committed. -/
theorem stops_inOrder (hrest : ∀ d, disk (rest d) = d) (a : α) {parts : List (Process τ ε Unit)}
    (h : AllAtomic disk rest parts) : ∀ {d : δ} {s : τ}, s ∈ (inOrder parts a).stores (rest d) →
    ∃ done pending, parts = done ++ pending ∧ Committed (done.map (committed disk rest)) d (disk s) := by
  induction parts with
  | nil =>
    intro d s hmem
    rw [List.mem_singleton.mp hmem, hrest]
    exact ⟨[], [], rfl, .nil d⟩
  | cons part pending ih =>
    intro d s hmem
    rcases stops_bind (f := fun _ => inOrder pending a) (hrest d) (h part (List.mem_cons_self ..) d) hmem with
      hsame | ⟨d', hok, s', hmem', hsame⟩
    · exact ⟨[], part :: pending, rfl, hsame ▸ .nil d⟩
    · obtain ⟨done, others, hparts, hdone⟩ := ih (fun other hother => h other (List.mem_cons_of_mem _ hother)) hmem'
      exact ⟨part :: done, others, by rw [hparts, List.cons_append], hsame ▸ .cons hok hdone⟩

end BreezeDesk.Resumable
