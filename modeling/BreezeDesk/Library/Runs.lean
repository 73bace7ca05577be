/-
  Runs of a labelled system, with a condition on the steps.

  `step : σ → κ → σ` takes a label in a state.  `run` folds a list of labels; `Guarded` says that every
  step of a run met a condition on its label and the state before it; `states` are the states a run
  passes through.

  * `run_invariant`   — an invariant of the guarded steps holds at the end of a guarded run;
  * `states_invariant` — and in every state on the way;
  * `states_iff_guarded` — what a step keeps exactly when it meets the condition holds in all states of
    exactly the guarded runs;
  * `states_isChain`  — a relation between the states before and after a guarded step holds between
    neighbours.

  Nothing here mentions a particular program.
-/
import Mathlib.Data.List.Chain

namespace BreezeDesk.Runs

variable {σ κ : Type*}

def run (step : σ → κ → σ) (s : σ) (labels : List κ) : σ :=
  labels.foldl step s

/-- The states of a run, the first one included. -/
def states (step : σ → κ → σ) : σ → List κ → List σ
  | s, [] => [s]
  | s, label :: rest => s :: states step (step s label) rest

/-- Every step of the run meets the condition. -/
def Guarded (step : σ → κ → σ) (ok : σ → κ → Prop) : σ → List κ → Prop
  | _, [] => True
  | s, label :: rest => ok s label ∧ Guarded step ok (step s label) rest

instance guardedDecidable (step : σ → κ → σ) (ok : σ → κ → Prop) [∀ s label, Decidable (ok s label)] :
    ∀ s labels, Decidable (Guarded step ok s labels)
  | _, [] => isTrue trivial
  | s, label :: rest =>
    have := guardedDecidable step ok (step s label) rest
    inferInstanceAs (Decidable (ok s label ∧ Guarded step ok (step s label) rest))

variable {step : σ → κ → σ} {ok : σ → κ → Prop} {I : σ → Prop}

/-- What one guarded step keeps. -/
def StepKeeps (step : σ → κ → σ) (ok : σ → κ → Prop) (I : σ → Prop) : Prop :=
  ∀ s label, I s → ok s label → I (step s label)

theorem run_cons (s : σ) (label : κ) (rest : List κ) :
    run step s (label :: rest) = run step (step s label) rest := rfl

theorem run_append (s : σ) (first second : List κ) :
    run step s (first ++ second) = run step (run step s first) second :=
  List.foldl_append

/-- Labels that are allowed in every state make a guarded run. -/
theorem guarded_of_forall {labels : List κ} (h : ∀ label ∈ labels, ∀ s, ok s label) :
    ∀ s, Guarded step ok s labels := by
  induction labels with
  | nil => exact fun s => trivial
  | cons label rest ih =>
    intro s
    exact ⟨h label (List.mem_cons_self ..) s,
      ih (fun other hmem => h other (List.mem_cons_of_mem _ hmem)) (step s label)⟩

theorem guarded_true (s : σ) (labels : List κ) : Guarded step (fun _ _ => True) s labels :=
  guarded_of_forall (fun _ _ _ => trivial) s

theorem guarded_append {first second : List κ} : ∀ {s : σ}, Guarded step ok s (first ++ second) ↔
    Guarded step ok s first ∧ Guarded step ok (run step s first) second := by
  induction first with
  | nil => exact fun {s} => ⟨fun h => ⟨trivial, h⟩, fun h => h.2⟩
  | cons label rest ih =>
    intro s
    exact (and_congr_right fun _ => ih).trans and_assoc.symm

theorem Guarded.imp {ok' : σ → κ → Prop} (h : ∀ s label, ok s label → ok' s label) {labels : List κ} :
    ∀ {s : σ}, Guarded step ok s labels → Guarded step ok' s labels := by
  induction labels with
  | nil => exact fun _ => trivial
  | cons label rest ih => exact fun hok => ⟨h _ label hok.1, ih hok.2⟩

/-- What holds in all states of a run holds before every step of it. -/
theorem Guarded.of_states {A : σ → Prop} {labels : List κ} : ∀ {s : σ}, Guarded step ok s labels →
    (∀ t ∈ states step s labels, A t) → Guarded step (fun s label => A s ∧ ok s label) s labels := by
  induction labels with
  | nil => exact fun _ _ => trivial
  | cons label rest ih =>
    intro s hok hall
    exact ⟨⟨hall s (List.mem_cons_self ..), hok.1⟩,
      ih hok.2 fun t ht => hall t (List.mem_cons_of_mem _ ht)⟩

/-- A run passes through the state it ends in. -/
theorem run_mem_states (s : σ) (labels : List κ) : run step s labels ∈ states step s labels := by
  induction labels generalizing s with
  | nil => exact List.mem_singleton_self s
  | cons label rest ih => exact List.mem_cons_of_mem _ (ih (step s label))

/-- **The invariant rule**, by induction on the labels. -/
theorem run_invariant (hstep : StepKeeps step ok I) {s : σ} {labels : List κ} (hI : I s)
    (hok : Guarded step ok s labels) : I (run step s labels) := by
  induction labels generalizing s with
  | nil => exact hI
  | cons label rest ih =>
    obtain ⟨hfirst, hrest⟩ := hok
    exact ih (hstep s label hI hfirst) hrest

/-- The invariant holds in every state the run passes through. -/
theorem states_invariant (hstep : StepKeeps step ok I) {s : σ} {labels : List κ} (hI : I s)
    (hok : Guarded step ok s labels) : ∀ t ∈ states step s labels, I t := by
  induction labels generalizing s with
  | nil =>
    intro t ht
    rw [List.mem_singleton.mp ht]
    exact hI
  | cons label rest ih =>
    obtain ⟨hfirst, hrest⟩ := hok
    intro t ht
    rcases List.mem_cons.mp ht with rfl | ht
    · exact hI
    · exact ih (hstep s label hI hfirst) hrest t ht

/-- Where the guarded steps are exactly the ones that keep `A`, the guarded runs are exactly the ones that
    never leave it. -/
theorem states_iff_guarded {A : σ → Prop} (hstep : ∀ s label, I s → I (step s label))
    (hA : ∀ s label, I s → A s → (A (step s label) ↔ ok s label)) {s : σ} {labels : List κ} (hI : I s)
    (hstart : A s) : (∀ t ∈ states step s labels, A t) ↔ Guarded step ok s labels := by
  induction labels generalizing s with
  | nil =>
    refine ⟨fun _ => trivial, fun _ t ht => ?_⟩
    rw [List.mem_singleton.mp ht]
    exact hstart
  | cons label rest ih =>
    constructor
    · intro hall
      have hnext : A (step s label) := by
        refine hall _ (List.mem_cons_of_mem _ ?_)
        cases rest with
        | nil => exact List.mem_singleton_self _
        | cons next others => exact List.mem_cons_self ..
      exact ⟨(hA s label hI hstart).mp hnext,
        (ih (hstep s label hI) hnext).mp fun t ht => hall t (List.mem_cons_of_mem _ ht)⟩
    · rintro ⟨hfirst, hrest⟩ t ht
      rcases List.mem_cons.mp ht with rfl | ht
      · exact hstart
      · have hnext := (hA s label hI hstart).mpr hfirst
        exact (ih (hstep s label hI) hnext).mpr hrest t ht

theorem head?_states (s : σ) (labels : List κ) : (states step s labels).head? = some s := by
  cases labels <;> rfl

/-- What one guarded step does relates neighbours. -/
theorem states_isChain {R : σ → σ → Prop} (hstep : StepKeeps step ok I)
    (hR : ∀ s label, I s → ok s label → R s (step s label)) {s : σ} {labels : List κ} (hI : I s)
    (hok : Guarded step ok s labels) : (states step s labels).IsChain R := by
  induction labels generalizing s with
  | nil => exact .singleton s
  | cons label rest ih =>
    obtain ⟨hfirst, hrest⟩ := hok
    have htail := ih (hstep s label hI hfirst) hrest
    show List.IsChain R (s :: states step (step s label) rest)
    cases rest with
    | nil => exact .cons_cons (hR s label hI hfirst) htail
    | cons next others => exact .cons_cons (hR s label hI hfirst) htail

end BreezeDesk.Runs
