/-
  Programs that keep what they have done when they fail.

  An `Effect σ ε α` works on a state and ends with a value, fails with an `ε`, or is stopped where it is.
  Nothing is rolled back.  A failure ends the program, unless the caller looks at it (`attempt`); being
  stopped ends it in any case.

  `Ensures P p Q E S` is the rule for reasoning about them: from `P`, the program ends with `Q`, or fails in `E`,
  or is stopped in `S`.  `ensures_bind` composes it along a program, `ensures_attempt` turns the failures of a
  part into a case of the whole.  `Keeps I` is the special case of an invariant.

  Nothing here mentions a particular program.
-/
import Mathlib.Logic.Basic

namespace BreezeDesk.Effect

inductive Outcome (ε α : Type) where
  | done (value : α)
  | failed (error : ε)
  | stopped

end Effect

def Effect (σ ε α : Type) := σ → Effect.Outcome ε α × σ

namespace Effect

variable {σ ε α β : Type}

def andThen (p : Effect σ ε α) (f : α → Effect σ ε β) : Effect σ ε β := fun s =>
  match p s with
  | (.done a, s') => f a s'
  | (.failed e, s') => (.failed e, s')
  | (.stopped, s') => (.stopped, s')

instance : Monad (Effect σ ε) where
  pure a := fun s => (.done a, s)
  bind := andThen

/-- A look at the state. -/
def view (f : σ → α) : Effect σ ε α := fun s => (.done (f s), s)

def update (f : σ → σ) : Effect σ ε Unit := fun s => (.done (), f s)

def fail (e : ε) : Effect σ ε α := fun s => (.failed e, s)

def stop : Effect σ ε α := fun s => (.stopped, s)

/-- Fail unless the condition holds. -/
def require (c : Prop) [Decidable c] (e : ε) : Effect σ ε Unit := if c then pure () else fail e

/-- Fail unless there is a value. -/
def requireSome (value : Option α) (e : ε) : Effect σ ε α :=
  match value with
  | some a => pure a
  | none => fail e

/-- A part that is left out unless the condition holds. -/
def onlyIf (c : Prop) [Decidable c] (p : Effect σ ε Unit) : Effect σ ε Unit := if c then p else pure ()

/-- Pass a result on. -/
def liftResult (result : Except ε α) : Effect σ ε α :=
  match result with
  | .ok a => pure a
  | .error e => fail e

/-- Run a part of a program and look at how it ended. -/
def attempt (p : Effect σ ε α) : Effect σ ε (Except ε α) := fun s =>
  match p s with
  | (.done a, s') => (.done (.ok a), s')
  | (.failed e, s') => (.done (.error e), s')
  | (.stopped, s') => (.stopped, s')

/-! ## Reasoning about effects -/

structure Ensures (P : σ → Prop) (p : Effect σ ε α) (Q : α → σ → Prop) (E S : σ → Prop) : Prop where
  done : ∀ s, P s → ∀ a s', p s = (.done a, s') → Q a s'
  failed : ∀ s, P s → ∀ e s', p s = (.failed e, s') → E s'
  stopped : ∀ s, P s → ∀ s', p s = (.stopped, s') → S s'

/-- However the program ends, the invariant holds. -/
def Keeps (I : σ → Prop) (p : Effect σ ε α) : Prop := Ensures I p (fun _ => I) I I

variable {P I : σ → Prop} {E S : σ → Prop}

theorem Ensures.imp {P' : σ → Prop} {p : Effect σ ε α} {Q Q' : α → σ → Prop} {E' S' : σ → Prop}
    (h : Ensures P p Q E S) (hP : ∀ s, P' s → P s) (hQ : ∀ a s, Q a s → Q' a s) (hE : ∀ s, E s → E' s)
    (hS : ∀ s, S s → S' s) : Ensures P' p Q' E' S' where
  done s hs a s' hrun := hQ a s' (h.done s (hP s hs) a s' hrun)
  failed s hs e s' hrun := hE s' (h.failed s (hP s hs) e s' hrun)
  stopped s hs s' hrun := hS s' (h.stopped s (hP s hs) s' hrun)

/-- More is known when the program begins. -/
theorem Ensures.pre {P' : σ → Prop} {p : Effect σ ε α} {Q : α → σ → Prop} (h : Ensures P p Q E S)
    (hP : ∀ s, P' s → P s) : Ensures P' p Q E S :=
  h.imp hP (fun _ _ h => h) (fun _ h => h) fun _ h => h

theorem Ensures.and {P' : σ → Prop} {p : Effect σ ε α} {Q Q' : α → σ → Prop} {E' S' : σ → Prop}
    (h : Ensures P p Q E S) (h' : Ensures P' p Q' E' S') :
    Ensures (fun s => P s ∧ P' s) p (fun a s => Q a s ∧ Q' a s) (fun s => E s ∧ E' s) (fun s => S s ∧ S' s) where
  done s hs a s' hrun := ⟨h.done s hs.1 a s' hrun, h'.done s hs.2 a s' hrun⟩
  failed s hs e s' hrun := ⟨h.failed s hs.1 e s' hrun, h'.failed s hs.2 e s' hrun⟩
  stopped s hs s' hrun := ⟨h.stopped s hs.1 s' hrun, h'.stopped s hs.2 s' hrun⟩

/-- What every state tells in which the program begins. -/
theorem ensures_known {φ : Prop} {p : Effect σ ε α} {Q : α → σ → Prop} (hφ : ∀ s, P s → φ)
    (h : φ → Ensures P p Q E S) : Ensures P p Q E S where
  done s hs := (h (hφ s hs)).done s hs
  failed s hs := (h (hφ s hs)).failed s hs
  stopped s hs := (h (hφ s hs)).stopped s hs

theorem ensures_exists {ι : Sort*} {P : ι → σ → Prop} {p : Effect σ ε α} {Q : α → σ → Prop}
    (h : ∀ i, Ensures (P i) p Q E S) : Ensures (fun s => ∃ i, P i s) p Q E S where
  done s hs := hs.elim fun i hi => (h i).done s hi
  failed s hs := hs.elim fun i hi => (h i).failed s hi
  stopped s hs := hs.elim fun i hi => (h i).stopped s hi

/-- What is known whatever the state. -/
theorem ensures_given {φ : Prop} {p : Effect σ ε α} {Q : α → σ → Prop} (h : φ → Ensures P p Q E S) :
    Ensures (fun s => P s ∧ φ) p Q E S where
  done s hs := (h hs.2).done s hs.1
  failed s hs := (h hs.2).failed s hs.1
  stopped s hs := (h hs.2).stopped s hs.1

theorem ensures_pure {Q : α → σ → Prop} {a : α} (h : ∀ s, P s → Q a s) :
    Ensures P (pure a : Effect σ ε α) Q E S where
  done s hs b s' hrun := by
    cases hrun
    exact h s hs
  failed s _ e s' hrun := by cases hrun
  stopped s _ s' hrun := by cases hrun

theorem ensures_view {Q : α → σ → Prop} {f : σ → α} (h : ∀ s, P s → Q (f s) s) :
    Ensures P (view f : Effect σ ε α) Q E S where
  done s hs b s' hrun := by
    cases hrun
    exact h s hs
  failed s _ e s' hrun := by cases hrun
  stopped s _ s' hrun := by cases hrun

theorem ensures_update {Q : Unit → σ → Prop} {f : σ → σ} (h : ∀ s, P s → Q () (f s)) :
    Ensures P (update f : Effect σ ε Unit) Q E S where
  done s hs b s' hrun := by
    cases hrun
    exact h s hs
  failed s _ e s' hrun := by cases hrun
  stopped s _ s' hrun := by cases hrun

theorem ensures_fail {Q : α → σ → Prop} {e : ε} (h : ∀ s, P s → E s) :
    Ensures P (fail e : Effect σ ε α) Q E S where
  done s _ b s' hrun := by cases hrun
  failed s hs e' s' hrun := by
    cases hrun
    exact h s hs
  stopped s _ s' hrun := by cases hrun

theorem ensures_stop {Q : α → σ → Prop} (h : ∀ s, P s → S s) :
    Ensures P (stop : Effect σ ε α) Q E S where
  done s _ b s' hrun := by cases hrun
  failed s _ e s' hrun := by cases hrun
  stopped s hs s' hrun := by
    cases hrun
    exact h s hs

theorem ensures_bind {p : Effect σ ε α} {f : α → Effect σ ε β} {Q : α → σ → Prop} {R : β → σ → Prop}
    (hp : Ensures P p Q E S) (hf : ∀ a, Ensures (Q a) (f a) R E S) : Ensures P (p >>= f) R E S := by
  have hbind : ∀ s, (p >>= f) s = andThen p f s := fun _ => rfl
  refine ⟨fun s hs b s' hrun => ?_, fun s hs e s' hrun => ?_, fun s hs s' hrun => ?_⟩ <;>
    rw [hbind, andThen] at hrun <;> rcases hps : p s with ⟨outcome, mid⟩ <;> rw [hps] at hrun <;> cases outcome
  · exact (hf _).done mid (hp.done s hs _ _ hps) b s' hrun
  · cases hrun
  · cases hrun
  · exact (hf _).failed mid (hp.done s hs _ _ hps) e s' hrun
  · cases hrun
    exact hp.failed s hs _ _ hps
  · cases hrun
  · exact (hf _).stopped mid (hp.done s hs _ _ hps) s' hrun
  · cases hrun
  · cases hrun
    exact hp.stopped s hs _ hps

/-- A part whose failures the program looks at. -/
theorem ensures_attempt {p : Effect σ ε α} {Q : Except ε α → σ → Prop} {Q' : α → σ → Prop} {E' : σ → Prop}
    (hp : Ensures P p Q' E' S) (hok : ∀ a s, Q' a s → Q (.ok a) s) (herror : ∀ e s, E' s → Q (.error e) s) :
    Ensures P (attempt p) Q E S := by
  refine ⟨fun s hs b s' hrun => ?_, fun s hs e s' hrun => ?_, fun s hs s' hrun => ?_⟩ <;>
    rw [attempt] at hrun <;> rcases hps : p s with ⟨outcome, mid⟩ <;> rw [hps] at hrun <;>
    cases outcome <;> cases hrun
  · exact hok _ _ (hp.done s hs _ _ hps)
  · exact herror _ _ (hp.failed s hs _ _ hps)
  · exact hp.stopped s hs _ hps

theorem ensures_require {Q : Unit → σ → Prop} {c : Prop} [Decidable c] {e : ε} (hc : ∀ s, P s → c → Q () s)
    (hnot : ∀ s, P s → ¬ c → E s) : Ensures P (require c e : Effect σ ε Unit) Q E S := by
  unfold require
  split
  · rename_i h
    exact ensures_pure fun s hs => hc s hs h
  · rename_i h
    exact ensures_fail fun s hs => hnot s hs h

theorem ensures_requireSome {Q : α → σ → Prop} {value : Option α} {e : ε}
    (hsome : ∀ a, value = some a → ∀ s, P s → Q a s) (hnone : ∀ s, P s → E s) :
    Ensures P (requireSome value e : Effect σ ε α) Q E S := by
  cases value with
  | none => exact ensures_fail hnone
  | some a => exact ensures_pure (hsome a rfl)

theorem ensures_liftResult {Q : α → σ → Prop} {result : Except ε α}
    (hok : ∀ a, result = .ok a → ∀ s, P s → Q a s) (herror : ∀ s, P s → E s) :
    Ensures P (liftResult result : Effect σ ε α) Q E S := by
  cases result with
  | error e => exact ensures_fail herror
  | ok a => exact ensures_pure (hok a rfl)

/-- A program begins with a look at the state. -/
theorem ensures_start {p : σ → Effect σ ε α} {Q : α → σ → Prop}
    (h : ∀ a, P a → Ensures (fun s => s = a) (p a) Q E S) : Ensures P (view id >>= p) Q E S where
  done s hs b s' hrun := (h s hs).done s rfl b s' hrun
  failed s hs e s' hrun := (h s hs).failed s rfl e s' hrun
  stopped s hs s' hrun := (h s hs).stopped s rfl s' hrun

/-- The state in which the program begins gets a name. -/
theorem ensures_from {p : Effect σ ε α} {Q : α → σ → Prop} (h : ∀ a, P a → Ensures (fun s => s = a) p Q E S) :
    Ensures P p Q E S where
  done s hs := (h s hs).done s rfl
  failed s hs := (h s hs).failed s rfl
  stopped s hs := (h s hs).stopped s rfl

/-- Of the state looked at, no more is needed. -/
theorem ensures_here {p : Effect σ ε α} {Q : α → σ → Prop} {a : σ} (ha : P a) (h : Ensures P p Q E S) :
    Ensures (fun s => s = a) p Q E S :=
  h.pre fun s hs => by rw [hs]; exact ha

theorem ensures_ite {c : Prop} [Decidable c] {p q : Effect σ ε α} {Q : α → σ → Prop}
    (hp : c → Ensures P p Q E S) (hq : ¬ c → Ensures P q Q E S) :
    Ensures P (if c then p else q) Q E S := by
  split
  · exact hp ‹_›
  · exact hq ‹_›

theorem ensures_onlyIf {c : Prop} [Decidable c] {p : Effect σ ε Unit} {Q : Unit → σ → Prop}
    (hp : c → Ensures P p Q E S) (hnot : ∀ s, P s → Q () s) : Ensures P (onlyIf c p) Q E S :=
  ensures_ite hp fun _ => ensures_pure hnot

/-! ## Invariants -/

theorem keeps_pure (a : α) : Keeps I (pure a : Effect σ ε α) := ensures_pure fun _ h => h

/-- What a look tells of the state, as long as the invariant does. -/
theorem ensures_look {f : σ → α} {φ : α → Prop} (h : ∀ s, I s → φ (f s)) :
    Ensures I (view f : Effect σ ε α) (fun a s => I s ∧ φ a) I I := ensures_view fun s hs => ⟨hs, h s hs⟩

theorem keeps_view (f : σ → α) : Keeps I (view f : Effect σ ε α) := ensures_view fun _ h => h

theorem keeps_update {f : σ → σ} (h : ∀ s, I s → I (f s)) : Keeps I (update f : Effect σ ε Unit) :=
  ensures_update h

theorem keeps_fail (e : ε) : Keeps I (fail e : Effect σ ε α) := ensures_fail fun _ h => h

theorem keeps_stop : Keeps I (stop : Effect σ ε α) := ensures_stop fun _ h => h

theorem keeps_bind {p : Effect σ ε α} {f : α → Effect σ ε β} (hp : Keeps I p) (hf : ∀ a, Keeps I (f a)) :
    Keeps I (p >>= f) := ensures_bind hp hf

theorem keeps_attempt {p : Effect σ ε α} (hp : Keeps I p) : Keeps I (attempt p) :=
  ensures_attempt hp (fun _ _ h => h) (fun _ _ h => h)

theorem keeps_require (c : Prop) [Decidable c] (e : ε) : Keeps I (require c e : Effect σ ε Unit) :=
  ensures_require (fun _ h _ => h) (fun _ h _ => h)

theorem keeps_requireSome (value : Option α) (e : ε) : Keeps I (requireSome value e : Effect σ ε α) :=
  ensures_requireSome (fun _ _ _ h => h) (fun _ h => h)

theorem keeps_liftResult (result : Except ε α) : Keeps I (liftResult result : Effect σ ε α) :=
  ensures_liftResult (fun _ _ _ h => h) (fun _ h => h)

theorem keeps_ite {c : Prop} [Decidable c] {p q : Effect σ ε α} (hp : Keeps I p) (hq : Keeps I q) :
    Keeps I (if c then p else q) := ensures_ite (fun _ => hp) (fun _ => hq)

/-- What is known beyond the invariant when the program ends. -/
theorem Keeps.ensures {p : Effect σ ε α} {Q : α → σ → Prop} (h : Keeps I p)
    (hdone : ∀ s, I s → ∀ a s', p s = (.done a, s') → Q a s') : Ensures I p (fun a s => I s ∧ Q a s) I I where
  done s hs a s' hrun := ⟨h.done s hs a s' hrun, hdone s hs a s' hrun⟩
  failed := h.failed
  stopped := h.stopped

/-- The state in which a program leaves off. -/
theorem Ensures.state {p : Effect σ ε α} (h : Ensures P p (fun _ => I) I I) {s : σ} (hs : P s) : I (p s).2 := by
  rcases hps : p s with ⟨outcome, s'⟩
  cases outcome with
  | done a => exact h.done s hs a s' hps
  | failed e => exact h.failed s hs e s' hps
  | stopped => exact h.stopped s hs s' hps

theorem Keeps.state {p : Effect σ ε α} (h : Keeps I p) {s : σ} (hs : I s) : I (p s).2 := Ensures.state h hs

end BreezeDesk.Effect
