/-
  Patched sequences: a text some of whose stretches have been replaced.

  A patched sequence is a list of pieces, each one a kept element (`inl c`) or a replaced stretch
  (`inr e`).  Reading every stretch as one thing or another (`f e`) expands the pieces to a plain
  sequence; with `f` the old contents the expansion is the text before, with `f` the new contents it
  is the text after.  Positions of the stretches in an expansion are its `marks`.

  * `exists_split` — a window that meets no replaced stretch consists of kept elements, so it can be
    replaced in turn;
  * `marks_replace` — how the positions move when it is: those before stay, those behind shift;
  * `apply_marks` — replaying the stretches from the right, at their old positions, turns the text
    before into the text after;
  * `apply_chosen` — replaying only some of them, still at their old positions, turns just these into the
    new contents.

  Nothing here mentions a particular program.
-/
import Mathlib.Data.List.Basic
import Mathlib.Tactic.Set

namespace BreezeDesk.Patch

variable {α ε : Type*}

/-! ## Expansions and positions -/

/-- The plain sequence in which every replaced stretch `e` reads as `f e`. -/
def expand (f : ε → List α) : List (α ⊕ ε) → List α
  | [] => []
  | .inl c :: rest => c :: expand f rest
  | .inr e :: rest => f e ++ expand f rest

/-- The replaced stretches with their positions in the expansion, counted from `n`. -/
def marks (f : ε → List α) : Nat → List (α ⊕ ε) → List (Nat × ε)
  | _, [] => []
  | n, .inl _ :: rest => marks f (n + 1) rest
  | n, .inr e :: rest => (n, e) :: marks f (n + (f e).length) rest

/-- Pieces that are all kept. -/
def kept (text : List α) : List (α ⊕ ε) := text.map .inl

@[simp] theorem expand_append (f : ε → List α) (P Q : List (α ⊕ ε)) :
    expand f (P ++ Q) = expand f P ++ expand f Q := by
  induction P with
  | nil => rfl
  | cons p P ih =>
    cases p with
    | inl c => simp only [List.cons_append, expand, ih]
    | inr e => simp only [List.cons_append, expand, ih, List.append_assoc]

@[simp] theorem expand_kept (f : ε → List α) (text : List α) : expand f (kept text) = text := by
  induction text with
  | nil => rfl
  | cons c text ih =>
    show c :: expand f (kept text) = c :: text
    rw [ih]

theorem not_mem_kept (text : List α) (e : ε) : .inr e ∉ kept text := by
  intro h
  obtain ⟨c, -, hc⟩ := List.mem_map.mp h
  cases hc

theorem marks_append (f : ε → List α) (n : Nat) (P Q : List (α ⊕ ε)) :
    marks f n (P ++ Q) = marks f n P ++ marks f (n + (expand f P).length) Q := by
  induction P generalizing n with
  | nil => rfl
  | cons p P ih =>
    cases p with
    | inl c =>
      simp only [List.cons_append, marks, expand, List.length_cons, ih]
      congr 2
      omega
    | inr e =>
      simp only [List.cons_append, marks, expand, List.length_append, ih]
      congr 3
      omega

@[simp] theorem marks_kept (f : ε → List α) (n : Nat) (text : List α) :
    marks f n (kept text) = [] := by
  induction text generalizing n with
  | nil => rfl
  | cons c text ih => exact ih (n + 1)

theorem marks_shift (f : ε → List α) (n d : Nat) (P : List (α ⊕ ε)) :
    marks f (n + d) P = (marks f n P).map fun m => (m.1 + d, m.2) := by
  induction P generalizing n with
  | nil => rfl
  | cons p P ih =>
    cases p with
    | inl c =>
      have h : n + d + 1 = n + 1 + d := by omega
      simp only [marks, h, ih]
    | inr e =>
      have h : n + d + (f e).length = n + (f e).length + d := by omega
      simp only [marks, List.map_cons, h, ih]

theorem mem_of_mem_marks {f : ε → List α} {P : List (α ⊕ ε)} {m : Nat × ε} :
    ∀ {n : Nat}, m ∈ marks f n P → .inr m.2 ∈ P := by
  induction P with
  | nil => intro n hm; cases hm
  | cons p P ih =>
    intro n hm
    cases p with
    | inl c => exact List.mem_cons_of_mem _ (ih hm)
    | inr e =>
      rcases List.mem_cons.mp hm with rfl | hm
      · exact List.mem_cons_self ..
      · exact List.mem_cons_of_mem _ (ih hm)

/-- Marks lie inside the expansion. -/
theorem marks_bounds (f : ε → List α) {n : Nat} {P : List (α ⊕ ε)} :
    ∀ m ∈ marks f n P, n ≤ m.1 ∧ m.1 + (f m.2).length ≤ n + (expand f P).length := by
  induction P generalizing n with
  | nil => intro m hm; cases hm
  | cons p P ih =>
    intro m hm
    cases p with
    | inl c =>
      have := ih m hm
      simp only [expand, List.length_cons]
      omega
    | inr e =>
      simp only [expand, List.length_append]
      rcases List.mem_cons.mp hm with rfl | hm
      · dsimp only
        omega
      · have := ih m hm
        omega

/-- Replaced stretches stand one behind the other. -/
theorem marks_sorted (f : ε → List α) {n : Nat} {P : List (α ⊕ ε)} :
    (marks f n P).Pairwise fun a b => a.1 + (f a.2).length ≤ b.1 := by
  induction P generalizing n with
  | nil => exact List.Pairwise.nil
  | cons p P ih =>
    cases p with
    | inl c => exact ih
    | inr e => exact List.pairwise_cons.mpr ⟨fun m hm => (marks_bounds f m hm).1, ih⟩

/-- Replaced stretches that are not empty stand at increasing positions. -/
theorem marks_pairwise (f : ε → List α) {n : Nat} {P : List (α ⊕ ε)}
    (hne : ∀ e, .inr e ∈ P → f e ≠ []) :
    (marks f n P).Pairwise fun a b => a.1 + (f a.2).length ≤ b.1 ∧ a.1 < b.1 := by
  refine (marks_sorted f).imp_of_mem fun {a b} ha _ hab => ⟨hab, ?_⟩
  have hpos := List.length_pos_of_ne_nil (hne a.2 (mem_of_mem_marks ha))
  omega

/-- However the stretches are read, there is a mark for each. -/
theorem length_marks (f g : ε → List α) (n m : Nat) (P : List (α ⊕ ε)) :
    (marks f n P).length = (marks g m P).length := by
  induction P generalizing n m with
  | nil => rfl
  | cons p P ih =>
    cases p with
    | inl c => exact ih (n + 1) (m + 1)
    | inr e => exact congrArg (· + 1) (ih _ _)

/-! ## Replacing a window of kept elements -/

/-- Two half-open windows that do not meet. -/
def Apart (p k q l : Nat) : Prop := q + l ≤ p ∨ p + k ≤ q

/-- **A window that meets no replaced stretch is kept text**, with pieces before and behind it. -/
theorem exists_split (f : ε → List α) {P : List (α ⊕ ε)} (hne : ∀ e, .inr e ∈ P → f e ≠ []) :
    ∀ {n p k : Nat}, 0 < k → n ≤ p → p + k ≤ n + (expand f P).length →
      (∀ m ∈ marks f n P, Apart p k m.1 (f m.2).length) →
      ∃ before text behind, P = before ++ kept text ++ behind ∧
        n + (expand f before).length = p ∧ text.length = k := by
  induction P with
  | nil =>
    intro n p k hk hle hend _
    simp only [expand, List.length_nil] at hend
    omega
  | cons q P ih =>
    intro n p k hk hle hend happart
    have hrest : ∀ e, .inr e ∈ P → f e ≠ [] := fun e he => hne e (List.mem_cons_of_mem _ he)
    cases q with
    | inl c =>
      simp only [expand, List.length_cons] at hend
      rcases Nat.lt_or_eq_of_le hle with hlt | rfl
      · -- the window begins further right
        obtain ⟨before, text, behind, hP, hlen, htext⟩ :=
          ih hrest hk (n := n + 1) (by omega) (by omega) happart
        refine ⟨.inl c :: before, text, behind, by rw [hP]; rfl, ?_, htext⟩
        simp only [expand, List.length_cons]
        omega
      · -- the window begins here, with `c`
        rcases Nat.lt_or_eq_of_le (Nat.succ_le_of_lt hk) with hmore | hone
        · obtain ⟨before, text, behind, hP, hlen, htext⟩ :=
            ih hrest (n := n + 1) (p := n + 1) (k := k - 1) (by omega) (Nat.le_refl _) (by omega)
              (fun m hm => by
                have hm' := happart m hm
                have hb := (marks_bounds f m hm).1
                unfold Apart at *
                omega)
          -- nothing stands between `c` and the rest of the window
          have hnil : before = [] := by
            cases before with
            | nil => rfl
            | cons b before =>
              exfalso
              cases b with
              | inl d => simp only [expand, List.length_cons] at hlen; omega
              | inr e =>
                have hpos := List.length_pos_of_ne_nil (hrest e (by rw [hP]; simp))
                simp only [expand, List.length_append] at hlen
                omega
          subst hnil
          refine ⟨[], c :: text, behind, by rw [hP]; rfl, by simp [expand], ?_⟩
          simp only [List.length_cons]
          omega
        · exact ⟨[], [c], P, rfl, by simp [expand], by simp only [List.length_singleton]; omega⟩
    | inr e =>
      have hpos := List.length_pos_of_ne_nil (hne e (List.mem_cons_self ..))
      simp only [expand, List.length_append] at hend
      -- the stretch at `n` lies before the window
      have hfirst : Apart p k n (f e).length := happart (n, e) (List.mem_cons_self ..)
      have hbefore : n + (f e).length ≤ p := by
        unfold Apart at hfirst
        omega
      obtain ⟨before, text, behind, hP, hlen, htext⟩ :=
        ih hrest hk (n := n + (f e).length) hbefore (by omega)
          (fun m hm => happart m (List.mem_cons_of_mem _ hm))
      refine ⟨.inr e :: before, text, behind, by rw [hP]; rfl, ?_, htext⟩
      simp only [expand, List.length_append]
      omega

/-- **Positions after a replacement**: marks before the window stay, the new stretch stands at the
    window, and the marks behind move by the difference of the lengths. -/
theorem marks_replace (f : ε → List α) (before : List (α ⊕ ε)) (e : ε)
    (behind : List (α ⊕ ε)) :
    marks f 0 (before ++ .inr e :: behind) =
      marks f 0 before ++ ((expand f before).length, e) ::
        (marks f 0 behind).map fun m => (m.1 + ((expand f before).length + (f e).length), m.2) := by
  rw [marks_append]
  simp only [Nat.zero_add, marks]
  congr 2
  have h := marks_shift f 0 ((expand f before).length + (f e).length) behind
  rw [Nat.zero_add] at h
  exact h

/-- Positions around a window of kept text. -/
theorem marks_window (f : ε → List α) (before : List (α ⊕ ε)) (text : List α)
    (behind : List (α ⊕ ε)) :
    marks f 0 (before ++ kept text ++ behind) =
      marks f 0 before ++
        (marks f 0 behind).map fun m => (m.1 + ((expand f before).length + text.length), m.2) := by
  rw [marks_append, marks_append, marks_kept, List.append_nil]
  congr 1
  have h := marks_shift f 0 ((expand f before).length + text.length) behind
  rw [Nat.zero_add] at h
  simpa using h

/-! ## Replaying the stretches -/

/-- Replace the `(old e).length` elements at a position by the new contents. -/
def replaceAt (old new : ε → List α) (m : Nat × ε) (text : List α) : List α :=
  text.take m.1 ++ new m.2 ++ text.drop (m.1 + (old m.2).length)

/-- **Replay.**  From the right, at their positions in the text before. -/
theorem apply_marks (old new : ε → List α) (P : List (α ⊕ ε)) :
    ∀ done : List α, (marks old done.length P).foldr (replaceAt old new) (done ++ expand old P) =
      done ++ expand new P := by
  induction P with
  | nil => intro done; rfl
  | cons p P ih =>
    intro done
    cases p with
    | inl c =>
      have h := ih (done ++ [c])
      simpa only [marks, expand, List.length_append, List.length_singleton, List.append_assoc,
        List.singleton_append] using h
    | inr e =>
      have h := ih (done ++ old e)
      simp only [List.length_append, List.append_assoc] at h
      simp only [marks, expand, List.foldr_cons, h]
      -- the stretch itself stands right behind what is already done
      have htake : (done ++ (old e ++ expand new P)).take done.length = done := by simp
      have hdrop : (done ++ (old e ++ expand new P)).drop (done.length + (old e).length) =
          expand new P := by
        rw [← List.append_assoc, ← List.length_append, List.drop_left]
      simp only [replaceAt, htake, hdrop, List.append_assoc]

/-! ## Replaying a choice of the stretches -/

/-- The sequence in which the stretches that are picked, by their number from `i` on, read as the new contents and
    the others as the old ones. -/
def chosen (old new : ε → List α) (pick : Nat → Bool) : Nat → List (α ⊕ ε) → List α
  | _, [] => []
  | i, .inl c :: rest => c :: chosen old new pick i rest
  | i, .inr e :: rest => (if pick i = true then new e else old e) ++ chosen old new pick (i + 1) rest

def replaceChosen (old new : ε → List α) (pick : Nat → Bool) (m : (Nat × ε) × Nat) (text : List α) : List α :=
  if pick m.2 = true then replaceAt old new m.1 text else text

/-- **Replay of a choice.**  What is not picked keeps its length, so the positions to its left are right. -/
theorem apply_chosen (old new : ε → List α) (pick : Nat → Bool) (P : List (α ⊕ ε)) :
    ∀ (i : Nat) (done : List α),
      ((marks old done.length P).zipIdx i).foldr (replaceChosen old new pick) (done ++ expand old P) =
        done ++ chosen old new pick i P := by
  induction P with
  | nil => intro i done; rfl
  | cons p P ih =>
    intro i done
    cases p with
    | inl c =>
      have h := ih i (done ++ [c])
      simpa only [marks, expand, chosen, List.length_append, List.length_singleton, List.append_assoc,
        List.singleton_append] using h
    | inr e =>
      have h := ih (i + 1) (done ++ old e)
      simp only [List.length_append, List.append_assoc] at h
      simp only [marks, expand, chosen, List.zipIdx_cons, List.foldr_cons, h]
      unfold replaceChosen
      dsimp only
      split
      · have htake : (done ++ (old e ++ chosen old new pick (i + 1) P)).take done.length = done := List.take_left
        have hdrop : (done ++ (old e ++ chosen old new pick (i + 1) P)).drop (done.length + (old e).length) =
            chosen old new pick (i + 1) P := by
          rw [← List.append_assoc, ← List.length_append, List.drop_left]
        simp only [replaceAt, htake, hdrop, List.append_assoc]
      · rfl

end BreezeDesk.Patch
