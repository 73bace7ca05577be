/-
  Programs over a store that run as transactions.

  A `Program σ ε α` reads and writes a store `σ` and may fail with an `ε`.  `atomically` runs it as a
  transaction: a failure leaves the store exactly as it was.

  * `statement_eq_ok`, `bind_eq_ok`, `require_eq_ok` and their like turn a successful run of a program into the facts
    that every statement of it established, so that a transaction is inverted once and its callers
    never look inside;
  * `Keeps` is the invariant rule: what every statement of a program keeps, the program keeps
    (`keeps_bind`), and so does the transaction (`Keeps.atomically`);
  * `Raises` is its counterpart for the errors of a program, `bind_eq_error` its inversion;
  * `atomically_cases` splits a transaction into its commit and its rollback.

  Nothing here mentions a particular program.
-/
import Mathlib.Logic.Basic

namespace BreezeDesk.Transaction

abbrev Program (σ ε : Type) (α : Type) := StateT σ (Except ε) α

variable {σ ε α β : Type}

/-- Run a program as a transaction. -/
def atomically (p : Program σ ε α) (s : σ) : Except ε α × σ :=
  match p s with
  | .ok (a, s') => (.ok a, s')
  | .error e => (.error e, s)

/-- Fail unless the condition holds. -/
def require (c : Prop) [Decidable c] (e : ε) : Program σ ε PUnit :=
  if c then pure ⟨⟩ else throw e

/-- Fail unless there is a value. -/
def requireSome (value : Option α) (e : ε) : Program σ ε α :=
  match value with
  | some a => pure a
  | none => throw e

/-- Pass a result on. -/
def liftResult (result : Except ε α) : Program σ ε α :=
  match result with
  | .ok a => pure a
  | .error e => throw e

/-- A statement: it fails with `e` where it is not allowed, else it has an effect and a result. -/
def statement (allowed : σ → Prop) [DecidablePred allowed] (e : ε) (effect : σ → σ)
    (result : σ → α) : Program σ ε α :=
  fun s => if allowed s then .ok (result s, effect s) else .error e

/-- A statement that is always allowed. -/
def command (effect : σ → σ) (result : σ → α) : Program σ ε α :=
  fun s => .ok (result s, effect s)

/-! ## Inverting a successful run -/

theorem command_eq_ok {effect : σ → σ} {result : σ → α} {s s' : σ} {a : α} :
    (command effect result : Program σ ε α) s = .ok (a, s') ↔ a = result s ∧ s' = effect s := by
  unfold command
  constructor
  · intro hok
    cases hok
    exact ⟨rfl, rfl⟩
  · rintro ⟨rfl, rfl⟩
    rfl

theorem statement_eq_ok {allowed : σ → Prop} [DecidablePred allowed] {e : ε} {effect : σ → σ}
    {result : σ → α} {s s' : σ} {a : α} :
    statement allowed e effect result s = .ok (a, s') ↔ allowed s ∧ a = result s ∧ s' = effect s := by
  unfold statement
  by_cases h : allowed s
  · rw [if_pos h]
    constructor
    · intro hok
      cases hok
      exact ⟨h, rfl, rfl⟩
    · rintro ⟨-, rfl, rfl⟩
      rfl
  · rw [if_neg h]
    constructor
    · intro hok
      cases hok
    · rintro ⟨hallowed, -⟩
      exact absurd hallowed h

theorem bind_eq_ok {p : Program σ ε α} {f : α → Program σ ε β} {s s'' : σ} {b : β} :
    (p >>= f) s = .ok (b, s'') ↔ ∃ a s', p s = .ok (a, s') ∧ f a s' = .ok (b, s'') := by
  have hbind : (p >>= f) s = (p s >>= fun r => f r.1 r.2) := rfl
  rw [hbind]
  cases h : p s with
  | error e =>
    constructor
    · intro h
      cases h
    · rintro ⟨_, _, h, _⟩
      cases h
  | ok r =>
    constructor
    · intro hf
      exact ⟨r.1, r.2, rfl, hf⟩
    · rintro ⟨a', s1, hp, hf⟩
      cases hp
      exact hf

theorem pure_eq_ok {a b : α} {s s' : σ} :
    (pure a : Program σ ε α) s = .ok (b, s') ↔ b = a ∧ s' = s := by
  constructor
  · intro h
    cases h
    exact ⟨rfl, rfl⟩
  · rintro ⟨rfl, rfl⟩
    rfl

theorem get_eq_ok {s s' t : σ} :
    (get : Program σ ε σ) s = .ok (t, s') ↔ t = s ∧ s' = s := by
  constructor
  · intro h
    cases h
    exact ⟨rfl, rfl⟩
  · rintro ⟨rfl, rfl⟩
    rfl

theorem throw_ne_ok {e : ε} {s s' : σ} {a : α} : (throw e : Program σ ε α) s ≠ .ok (a, s') := by
  intro h
  cases h

theorem require_eq_ok {c : Prop} [Decidable c] {e : ε} {s s' : σ} {u : PUnit} :
    (require c e : Program σ ε PUnit) s = .ok (u, s') ↔ c ∧ s' = s := by
  unfold require
  by_cases hc : c
  · rw [if_pos hc, pure_eq_ok]
    exact ⟨fun h => ⟨hc, h.2⟩, fun h => ⟨rfl, h.2⟩⟩
  · rw [if_neg hc]
    exact ⟨fun h => absurd h throw_ne_ok, fun h => absurd h.1 hc⟩

theorem requireSome_eq_ok {value : Option α} {e : ε} {s s' : σ} {a : α} :
    (requireSome value e : Program σ ε α) s = .ok (a, s') ↔ value = some a ∧ s' = s := by
  cases value with
  | none => exact ⟨fun h => absurd h throw_ne_ok, fun h => by cases h.1⟩
  | some b =>
    show (pure b : Program σ ε α) s = _ ↔ _
    rw [pure_eq_ok, Option.some.injEq]
    exact ⟨fun h => ⟨h.1.symm, h.2⟩, fun h => ⟨h.1.symm, h.2⟩⟩

theorem liftResult_eq_ok {result : Except ε α} {s s' : σ} {a : α} :
    (liftResult result : Program σ ε α) s = .ok (a, s') ↔ result = .ok a ∧ s' = s := by
  cases result with
  | error e => exact ⟨fun h => absurd h throw_ne_ok, fun h => by cases h.1⟩
  | ok b =>
    show (pure b : Program σ ε α) s = _ ↔ _
    rw [pure_eq_ok, Except.ok.injEq]
    exact ⟨fun h => ⟨h.1.symm, h.2⟩, fun h => ⟨h.1.symm, h.2⟩⟩

/-! ## What a program keeps -/

/-- Every successful run of the program keeps the invariant. -/
def Keeps (I : σ → Prop) (p : Program σ ε α) : Prop :=
  ∀ s a s', I s → p s = .ok (a, s') → I s'

section Keeps

variable {I : σ → Prop}

theorem keeps_bind {p : Program σ ε α} {f : α → Program σ ε β} (hp : Keeps I p)
    (hf : ∀ a, Keeps I (f a)) : Keeps I (p >>= f) := by
  intro s b s'' hI hok
  obtain ⟨a, s', hpok, hfok⟩ := bind_eq_ok.mp hok
  exact hf a s' b s'' (hp s a s' hI hpok) hfok

theorem keeps_pure (a : α) : Keeps I (pure a : Program σ ε α) := by
  intro s b s' hI hok
  obtain ⟨-, rfl⟩ := pure_eq_ok.mp hok
  exact hI

theorem keeps_require (c : Prop) [Decidable c] (e : ε) : Keeps I (require c e) := by
  intro s u s' hI hok
  obtain ⟨-, rfl⟩ := require_eq_ok.mp hok
  exact hI

theorem keeps_requireSome (value : Option α) (e : ε) : Keeps I (requireSome value e) := by
  intro s a s' hI hok
  obtain ⟨-, rfl⟩ := requireSome_eq_ok.mp hok
  exact hI

theorem keeps_liftResult (result : Except ε α) : Keeps I (liftResult result) := by
  intro s a s' hI hok
  obtain ⟨-, rfl⟩ := liftResult_eq_ok.mp hok
  exact hI

/-- A query changes nothing. -/
theorem keeps_query (result : σ → α) : Keeps I (command (fun s => s) result : Program σ ε α) := by
  intro s a s' hI hok
  obtain ⟨-, rfl⟩ := command_eq_ok.mp hok
  exact hI

theorem keeps_command {effect : σ → σ} {result : σ → α} (h : ∀ s, I s → I (effect s)) :
    Keeps I (command effect result : Program σ ε α) := by
  intro s a s' hI hok
  obtain ⟨-, rfl⟩ := command_eq_ok.mp hok
  exact h s hI

theorem keeps_statement {allowed : σ → Prop} [DecidablePred allowed] {e : ε} {effect : σ → σ}
    {result : σ → α} (h : ∀ s, I s → allowed s → I (effect s)) :
    Keeps I (statement allowed e effect result) := by
  intro s a s' hI hok
  obtain ⟨hallowed, -, rfl⟩ := statement_eq_ok.mp hok
  exact h s hI hallowed

theorem keeps_ite {c : Prop} [Decidable c] {p q : Program σ ε α} (hp : Keeps I p) (hq : Keeps I q) :
    Keeps I (if c then p else q) := by
  split
  · exact hp
  · exact hq

end Keeps

/-! ## What a program raises -/

/-- A failed run failed in its first part, or in what came after that. -/
theorem bind_eq_error {p : Program σ ε α} {f : α → Program σ ε β} {s : σ} {e : ε} :
    (p >>= f) s = .error e ↔ p s = .error e ∨ ∃ a s', p s = .ok (a, s') ∧ f a s' = .error e := by
  show (p s >>= fun r => f r.1 r.2) = .error e ↔ _
  cases h : p s with
  | error e' =>
    constructor
    · intro hfail
      cases hfail
      exact Or.inl rfl
    · rintro (hfail | ⟨_, _, hok, _⟩)
      · cases hfail
        rfl
      · cases hok
  | ok r =>
    constructor
    · intro hfail
      exact Or.inr ⟨r.1, r.2, rfl, hfail⟩
    · rintro (hfail | ⟨_, _, hok, hfail⟩)
      · cases hfail
      · cases hok
        exact hfail

/-- Every error of the program is of a kind. -/
def Raises (E : ε → Prop) (p : Program σ ε α) : Prop := ∀ s e, p s = .error e → E e

section Raises

variable {E : ε → Prop}

theorem raises_bind {p : Program σ ε α} {f : α → Program σ ε β} (hp : Raises E p)
    (hf : ∀ a, Raises E (f a)) : Raises E (p >>= f) := by
  intro s e hfail
  rcases bind_eq_error.mp hfail with hfirst | ⟨a, s', -, hrest⟩
  · exact hp s e hfirst
  · exact hf a s' e hrest

theorem raises_pure (a : α) : Raises E (pure a : Program σ ε α) := by
  intro s e hfail
  cases hfail

theorem raises_command (effect : σ → σ) (result : σ → α) :
    Raises E (command effect result : Program σ ε α) := by
  intro s e hfail
  cases hfail

theorem raises_require {c : Prop} [Decidable c] {e : ε} (he : E e) :
    Raises E (require c e : Program σ ε PUnit) := by
  intro s e' hfail
  unfold require at hfail
  split at hfail
  · cases hfail
  · cases hfail
    exact he

theorem raises_requireSome {value : Option α} {e : ε} (he : E e) :
    Raises E (requireSome value e : Program σ ε α) := by
  intro s e' hfail
  cases value with
  | some a => cases hfail
  | none =>
    cases hfail
    exact he

theorem raises_liftResult {result : Except ε α} (h : ∀ e, result = .error e → E e) :
    Raises E (liftResult result : Program σ ε α) := by
  intro s e hfail
  cases result with
  | ok a => cases hfail
  | error e' =>
    cases hfail
    exact h _ rfl

theorem raises_statement {allowed : σ → Prop} [DecidablePred allowed] {e : ε} {effect : σ → σ}
    {result : σ → α} (he : E e) : Raises E (statement allowed e effect result) := by
  intro s e' hfail
  unfold statement at hfail
  split at hfail
  · cases hfail
  · cases hfail
    exact he

theorem raises_ite {c : Prop} [Decidable c] {p q : Program σ ε α} (hp : Raises E p) (hq : Raises E q) :
    Raises E (if c then p else q) := by
  split
  · exact hp
  · exact hq

end Raises

/-! ## Transactions -/

theorem atomically_of_ok {p : Program σ ε α} {s s' : σ} {a : α} (h : p s = .ok (a, s')) :
    atomically p s = (.ok a, s') := by
  unfold atomically
  rw [h]

theorem atomically_of_error {p : Program σ ε α} {s : σ} {e : ε} (h : p s = .error e) :
    atomically p s = (.error e, s) := by
  unfold atomically
  rw [h]

/-- **Commit or rollback.** -/
theorem atomically_cases (p : Program σ ε α) (s : σ) :
    (∃ a s', p s = .ok (a, s') ∧ atomically p s = (.ok a, s')) ∨
      ∃ e, p s = .error e ∧ atomically p s = (.error e, s) := by
  cases h : p s with
  | ok r => exact Or.inl ⟨r.1, r.2, rfl, atomically_of_ok h⟩
  | error e => exact Or.inr ⟨e, rfl, atomically_of_error h⟩

/-- A transaction that reports success has committed. -/
theorem atomically_ok {p : Program σ ε α} {s : σ} {a : α} (h : (atomically p s).1 = .ok a) :
    p s = .ok (a, (atomically p s).2) := by
  rcases atomically_cases p s with ⟨b, s', hp, ha⟩ | ⟨e, hp, ha⟩
  · rw [ha] at h ⊢
    cases h
    exact hp
  · rw [ha] at h
    cases h

/-- A transaction that reports a failure has changed nothing. -/
theorem atomically_error {p : Program σ ε α} {s : σ} {e : ε} (h : (atomically p s).1 = .error e) :
    (atomically p s).2 = s := by
  rcases atomically_cases p s with ⟨b, s', hp, ha⟩ | ⟨e', hp, ha⟩
  · rw [ha] at h
    cases h
  · rw [ha]

/-- A transaction that reports a failure has failed in its program. -/
theorem atomically_failed {p : Program σ ε α} {s : σ} {e : ε} (h : (atomically p s).1 = .error e) :
    p s = .error e := by
  rcases atomically_cases p s with ⟨b, s', hp, ha⟩ | ⟨e', hp, ha⟩
  · rw [ha] at h
    cases h
  · rw [ha] at h
    cases h
    exact hp

/-- What a program keeps, its transaction keeps. -/
theorem Keeps.atomically {p : Program σ ε α} {I : σ → Prop} (hp : Keeps I p) {s : σ} (hI : I s) :
    I (atomically p s).2 := by
  rcases atomically_cases p s with ⟨b, s', hok, ha⟩ | ⟨e, -, ha⟩
  · rw [ha]
    exact hp s b s' hI hok
  · rw [ha]
    exact hI

end BreezeDesk.Transaction
