/-
  Processes that write a store step by step, and may be stopped between two writes.

  A `Process σ ε α` yields the stores it has passed through, one for each write, and its result.  What
  it leaves when it is stopped is one of these, or the store it began with (`stores`).

  `Conforms I P p Q E` is the rule for reasoning about them: from `P`, the process passes through stores
  that meet `I`, and ends with `Q` or fails with `E`.  `conforms_bind` composes it along a program.

  Nothing here mentions a particular program.
-/
import Mathlib.Data.List.Basic

namespace BreezeDesk

def Process (σ ε α : Type) := σ → List σ × Except ε (α × σ)

namespace Process

variable {σ ε α β : Type}

def andThen (p : Process σ ε α) (f : α → Process σ ε β) : Process σ ε β := fun s =>
  match p s with
  | (passed, .ok (a, s')) => (passed ++ (f a s').1, (f a s').2)
  | (passed, .error e) => (passed, .error e)

instance : Monad (Process σ ε) where
  pure a := fun s => ([], .ok (a, s))
  bind := andThen

def read : Process σ ε σ := fun s => ([], .ok (s, s))

def fail (e : ε) : Process σ ε α := fun _ => ([], .error e)

/-- One write; when it fails the process fails, and the store is as before. -/
def write (effect : σ → Except ε σ) : Process σ ε Unit := fun s =>
  match effect s with
  | .ok s' => ([s'], .ok ((), s'))
  | .error e => ([], .error e)

/-- The result of a computation that touches no store. -/
def lift (result : Except ε α) : Process σ ε α :=
  match result with
  | .ok a => pure a
  | .error e => fail e

/-- Where the process can be stopped. -/
def stores (p : Process σ ε α) (s : σ) : List σ := s :: (p s).1

/-- The result, and the store it ends in. -/
def result (p : Process σ ε α) (s : σ) : Except ε (α × σ) := (p s).2

/-! ## Reasoning about processes -/

structure Conforms (I P : σ → Prop) (p : Process σ ε α) (Q : α → σ → Prop) (E : Prop) : Prop where
  passes : ∀ s, P s → ∀ s' ∈ (p s).1, I s'
  ends : ∀ s, P s → ∀ a s', (p s).2 = .ok (a, s') → Q a s'
  fails : ∀ s, P s → ∀ e, (p s).2 = .error e → E

variable {I P : σ → Prop} {E : Prop}

theorem conforms_pure {Q : α → σ → Prop} {a : α} (h : ∀ s, P s → Q a s) :
    Conforms I P (pure a : Process σ ε α) Q E where
  passes s _ s' hmem := by cases hmem
  ends s hP b s' hok := by
    cases hok
    exact h s hP
  fails s _ e herror := by cases herror

theorem conforms_fail {Q : α → σ → Prop} {e : ε} (h : ∀ s, P s → E) :
    Conforms I P (fail e : Process σ ε α) Q E where
  passes s _ s' hmem := by cases hmem
  ends s _ b s' hok := by cases hok
  fails s hP _ _ := h s hP

theorem conforms_read {Q : σ → σ → Prop} (h : ∀ s, P s → Q s s) :
    Conforms I P (read : Process σ ε σ) Q E where
  passes s _ s' hmem := by cases hmem
  ends s hP b s' hok := by
    cases hok
    exact h s hP
  fails s _ e herror := by cases herror

theorem conforms_write {effect : σ → Except ε σ} {Q : Unit → σ → Prop}
    (hok : ∀ s s', P s → effect s = .ok s' → I s' ∧ Q () s')
    (herror : ∀ s e, P s → effect s = .error e → E) : Conforms I P (write effect) Q E where
  passes s hP s' hmem := by
    unfold write at hmem
    cases heffect : effect s with
    | error e =>
      rw [heffect] at hmem
      cases hmem
    | ok after =>
      rw [heffect] at hmem
      rw [List.mem_singleton.mp hmem]
      exact (hok s after hP heffect).1
  ends s hP a s' h := by
    unfold write at h
    cases heffect : effect s with
    | error e =>
      rw [heffect] at h
      cases h
    | ok after =>
      rw [heffect] at h
      cases h
      exact (hok s _ hP heffect).2
  fails s hP e h := by
    unfold write at h
    cases heffect : effect s with
    | error e' => exact herror s e' hP heffect
    | ok after =>
      rw [heffect] at h
      cases h

theorem conforms_lift {result : Except ε α} {Q : α → σ → Prop}
    (hok : ∀ s a, P s → result = .ok a → Q a s) (herror : ∀ s e, P s → result = .error e → E) :
    Conforms I P (lift result) Q E := by
  cases result with
  | ok a => exact conforms_pure fun s hP => hok s a hP rfl
  | error e => exact conforms_fail fun s hP => herror s e hP rfl

/-- **Composition**: the first part establishes what the second one needs. -/
theorem conforms_bind {p : Process σ ε α} {f : α → Process σ ε β} {R : α → σ → Prop}
    {Q : β → σ → Prop} (hp : Conforms I P p R E) (hf : ∀ a, Conforms I (R a) (f a) Q E) :
    Conforms I P (p >>= f) Q E := by
  have hbind : ∀ s, (p >>= f) s = andThen p f s := fun _ => rfl
  constructor
  · intro s hP s' hmem
    rw [hbind] at hmem
    unfold andThen at hmem
    have hpasses := hp.passes s hP
    have hends := hp.ends s hP
    match hrun : p s with
    | (passed, .error e) =>
      rw [hrun] at hmem hpasses
      exact hpasses s' hmem
    | (passed, .ok (a, mid)) =>
      rw [hrun] at hmem hpasses hends
      rcases List.mem_append.mp hmem with hfirst | hsecond
      · exact hpasses s' hfirst
      · exact (hf a).passes mid (hends a mid rfl) s' hsecond
  · intro s hP b s' hok
    rw [hbind] at hok
    unfold andThen at hok
    have hends := hp.ends s hP
    match hrun : p s with
    | (passed, .error e) =>
      rw [hrun] at hok
      cases hok
    | (passed, .ok (a, mid)) =>
      rw [hrun] at hok hends
      exact (hf a).ends mid (hends a mid rfl) b s' hok
  · intro s hP e herror
    rw [hbind] at herror
    unfold andThen at herror
    have hends := hp.ends s hP
    have hfails := hp.fails s hP
    match hrun : p s with
    | (passed, .error e') =>
      rw [hrun] at hfails
      exact hfails e' rfl
    | (passed, .ok (a, mid)) =>
      rw [hrun] at herror hends
      exact (hf a).fails mid (hends a mid rfl) e herror

theorem conforms_ite {c : Prop} [Decidable c] {p q : Process σ ε α} {Q : α → σ → Prop}
    (hp : c → Conforms I P p Q E) (hq : ¬ c → Conforms I P q Q E) :
    Conforms I P (if c then p else q) Q E := by
  by_cases h : c
  · rw [if_pos h]
    exact hp h
  · rw [if_neg h]
    exact hq h

/-- What is not known yet is fixed. -/
theorem conforms_exists {ι : Type*} {P : ι → σ → Prop} {p : Process σ ε α} {Q : α → σ → Prop}
    (h : ∀ i, Conforms I (P i) p Q E) : Conforms I (fun s => ∃ i, P i s) p Q E where
  passes s := fun ⟨i, hP⟩ => (h i).passes s hP
  ends s := fun ⟨i, hP⟩ => (h i).ends s hP
  fails s := fun ⟨i, hP⟩ => (h i).fails s hP

/-- What holds whatever the store is a premise. -/
theorem conforms_of {c : Prop} {P : σ → Prop} {p : Process σ ε α} {Q : α → σ → Prop}
    (h : c → Conforms I P p Q E) : Conforms I (fun s => c ∧ P s) p Q E where
  passes s := fun ⟨hc, hP⟩ => (h hc).passes s hP
  ends s := fun ⟨hc, hP⟩ => (h hc).ends s hP
  fails s := fun ⟨hc, hP⟩ => (h hc).fails s hP

/-- Weaker conclusions from stronger premises. -/
theorem Conforms.weaken {P' : σ → Prop} {p : Process σ ε α} {Q Q' : α → σ → Prop} {E' : Prop}
    (h : Conforms I P p Q E) (hpre : ∀ s, P' s → P s) (hpost : ∀ a s, Q a s → Q' a s) (hfail : E → E') :
    Conforms I P' p Q' E' where
  passes s hP := h.passes s (hpre s hP)
  ends s hP a s' hok := hpost a s' (h.ends s (hpre s hP) a s' hok)
  fails s hP e herror := hfail (h.fails s (hpre s hP) e herror)

/-- The process may be stopped in stores that meet the invariant only. -/
theorem Conforms.mem_stores {p : Process σ ε α} {Q : α → σ → Prop} (h : Conforms I P p Q E) {s s' : σ}
    (hP : P s) (hI : I s) (hmem : s' ∈ stores p s) : I s' := by
  rcases List.mem_cons.mp hmem with rfl | hmem
  · exact hI
  · exact h.passes s hP s' hmem

/-- A process whose failure is excluded succeeds. -/
theorem Conforms.succeeds {p : Process σ ε α} {Q : α → σ → Prop} (h : Conforms I P p Q E) {s : σ}
    (hP : P s) (hE : ¬ E) : ∃ a s', p.result s = .ok (a, s') ∧ Q a s' := by
  unfold result
  cases hrun : (p s).2 with
  | error e => exact absurd (h.fails s hP e hrun) hE
  | ok r => exact ⟨r.1, r.2, rfl, h.ends s hP r.1 r.2 hrun⟩

end Process

end BreezeDesk
