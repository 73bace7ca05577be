/-
  Half-open ranges of a linear order.

  A list of things with a lower end `lo` and an upper end `hi` is `Ordered` when every thing ends before
  all later ones begin, and none is empty.

  * `ordered_iff_chain` — it is enough to look at neighbours;
  * `Ordered.replace`, `Ordered.insert` — ranges are replaced within their extent, or fit in between;
  * `ordered_iff_apart` — for a list sorted by lower ends, order is the same as being pairwise apart,
    which does not depend on the order of the list (`pairwise_apart_perm`).

  Nothing here mentions a particular program.
-/
import Mathlib

namespace BreezeDesk.Ranges

variable {α κ : Type*} [LinearOrder κ] {lo hi : α → κ}

/-- Non-empty ranges, each one ending before all later ones begin. -/
structure Ordered (lo hi : α → κ) (list : List α) : Prop where
  pairwise : list.Pairwise fun a b => hi a ≤ lo b
  positive : ∀ a ∈ list, lo a < hi a

/-- Two ranges without a common point. -/
def Apart (lo hi : α → κ) (a b : α) : Prop := hi a ≤ lo b ∨ hi b ≤ lo a

instance (a b : α) : Decidable (Apart lo hi a b) := inferInstanceAs (Decidable (_ ∨ _))

theorem Apart.symm {a b : α} (h : Apart lo hi a b) : Apart lo hi b a := Or.symm h

theorem Ordered.nil : Ordered lo hi ([] : List α) :=
  ⟨List.Pairwise.nil, fun a ha => by cases ha⟩

theorem ordered_cons {a : α} {list : List α} :
    Ordered lo hi (a :: list) ↔ (∀ b ∈ list, hi a ≤ lo b) ∧ lo a < hi a ∧ Ordered lo hi list := by
  constructor
  · rintro ⟨hpair, hpos⟩
    obtain ⟨hfirst, hrest⟩ := List.pairwise_cons.mp hpair
    exact ⟨hfirst, hpos a (List.mem_cons_self ..), hrest,
      fun b hb => hpos b (List.mem_cons_of_mem _ hb)⟩
  · rintro ⟨hfirst, hpos, hrest⟩
    refine ⟨List.pairwise_cons.mpr ⟨hfirst, hrest.pairwise⟩, fun b hb => ?_⟩
    rcases List.mem_cons.mp hb with rfl | hb
    · exact hpos
    · exact hrest.positive b hb

theorem Ordered.tail {a : α} {list : List α} (h : Ordered lo hi (a :: list)) : Ordered lo hi list :=
  (ordered_cons.mp h).2.2

theorem ordered_append {first second : List α} :
    Ordered lo hi (first ++ second) ↔
      Ordered lo hi first ∧ Ordered lo hi second ∧ ∀ a ∈ first, ∀ b ∈ second, hi a ≤ lo b := by
  constructor
  · rintro ⟨hpair, hpos⟩
    obtain ⟨h1, h2, h12⟩ := List.pairwise_append.mp hpair
    exact ⟨⟨h1, fun a ha => hpos a (List.mem_append_left _ ha)⟩,
      ⟨h2, fun b hb => hpos b (List.mem_append_right _ hb)⟩, h12⟩
  · rintro ⟨h1, h2, h12⟩
    refine ⟨List.pairwise_append.mpr ⟨h1.pairwise, h2.pairwise, h12⟩, fun a ha => ?_⟩
    rcases List.mem_append.mp ha with ha | ha
    · exact h1.positive a ha
    · exact h2.positive a ha

theorem Ordered.sublist {list sub : List α} (h : Ordered lo hi list) (hsub : sub.Sublist list) :
    Ordered lo hi sub :=
  ⟨h.pairwise.sublist hsub, fun a ha => h.positive a (hsub.subset ha)⟩

theorem ordered_ends {list : List α} :
    Ordered lo hi list ↔ Ordered Prod.fst Prod.snd (list.map fun a => (lo a, hi a)) := by
  constructor
  · rintro ⟨hpair, hpos⟩
    refine ⟨List.pairwise_map.mpr hpair, fun ends hends => ?_⟩
    obtain ⟨a, ha, rfl⟩ := List.mem_map.mp hends
    exact hpos a ha
  · rintro ⟨hpair, hpos⟩
    exact ⟨List.pairwise_map.mp hpair, fun a ha => hpos (lo a, hi a) (List.mem_map_of_mem ha)⟩

/-- Order depends on the ends alone. -/
theorem ordered_congr {first second : List α}
    (h : first.map (fun a => (lo a, hi a)) = second.map fun a => (lo a, hi a)) :
    Ordered lo hi first ↔ Ordered lo hi second := by
  rw [ordered_ends, h, ← ordered_ends]

/-- The last range ends last. -/
theorem Ordered.le_of_getLast? {list : List α} (h : Ordered lo hi list) {bound : κ}
    (hlast : ∀ a ∈ list.getLast?, hi a ≤ bound) : ∀ a ∈ list, hi a ≤ bound := by
  rcases List.eq_nil_or_concat list with rfl | ⟨front, last, hconcat⟩
  · exact fun a ha => (by cases ha)
  · obtain rfl := hconcat.trans List.concat_eq_append
    have hbound : hi last ≤ bound := hlast last (by rw [List.getLast?_concat]; rfl)
    obtain ⟨-, -, hbefore⟩ := ordered_append.mp h
    intro a ha
    rcases List.mem_append.mp ha with hfront | hend
    · have hle := hbefore a hfront last (List.mem_singleton_self last)
      exact hle.trans ((h.positive last (List.mem_append_right _ (List.mem_singleton_self last))).le.trans hbound)
    · rw [List.mem_singleton.mp hend]
      exact hbound

/-- The first range begins first. -/
theorem Ordered.le_of_head? {list : List α} (h : Ordered lo hi list) {bound : κ}
    (hfirst : ∀ a ∈ list.head?, bound ≤ lo a) : ∀ a ∈ list, bound ≤ lo a := by
  cases list with
  | nil => exact fun a ha => (by cases ha)
  | cons first rest =>
    have hbound : bound ≤ lo first := hfirst first rfl
    obtain ⟨hrest, hpos, -⟩ := ordered_cons.mp h
    intro a ha
    rcases List.mem_cons.mp ha with rfl | ha
    · exact hbound
    · exact hbound.trans (hpos.le.trans (hrest a ha))

/-- Ranges may be replaced by others within their extent. -/
theorem Ordered.replace {before middle after others : List α} (h : Ordered lo hi (before ++ middle ++ after))
    (hothers : Ordered lo hi others) (hlo : ∀ b ∈ others, ∃ a ∈ middle, lo a ≤ lo b)
    (hhi : ∀ b ∈ others, ∃ a ∈ middle, hi b ≤ hi a) : Ordered lo hi (before ++ others ++ after) := by
  obtain ⟨hfront, hafter, hbehind⟩ := ordered_append.mp h
  obtain ⟨hbefore, -, hjoin⟩ := ordered_append.mp hfront
  refine ordered_append.mpr ⟨ordered_append.mpr ⟨hbefore, hothers, fun a ha b hb => ?_⟩, hafter, fun a ha b hb => ?_⟩
  · obtain ⟨m, hm, hle⟩ := hlo b hb
    exact (hjoin a ha m hm).trans hle
  · rcases List.mem_append.mp ha with hold | hnew
    · exact hbehind a (List.mem_append_left _ hold) b hb
    · obtain ⟨m, hm, hle⟩ := hhi a hnew
      exact hle.trans (hbehind m (List.mem_append_right _ hm) b hb)

/-- A range fits in between. -/
theorem Ordered.insert {before after : List α} (h : Ordered lo hi (before ++ after)) {a : α}
    (hpos : lo a < hi a) (hlast : ∀ b ∈ before.getLast?, hi b ≤ lo a) (hfirst : ∀ b ∈ after.head?, hi a ≤ lo b) :
    Ordered lo hi (before ++ a :: after) := by
  obtain ⟨hbefore, hafter, hjoin⟩ := ordered_append.mp h
  refine ordered_append.mpr ⟨hbefore, ordered_cons.mpr ⟨hafter.le_of_head? hfirst, hpos, hafter⟩, fun b hb c hc => ?_⟩
  rcases List.mem_cons.mp hc with rfl | hc
  · exact hbefore.le_of_getLast? hlast b hb
  · exact hjoin b hb c hc

/-! ## Neighbours -/

/-- The check of a loop that remembers the end of the range before: `none` at the start. -/
def Chain (lo hi : α → κ) : Option κ → List α → Prop
  | _, [] => True
  | previous, a :: rest => (∀ p ∈ previous, p ≤ lo a) ∧ lo a < hi a ∧ Chain lo hi (some (hi a)) rest

theorem chain_iff_ordered {list : List α} :
    ∀ {previous : Option κ}, Chain lo hi previous list ↔
      Ordered lo hi list ∧ ∀ p ∈ previous, ∀ a ∈ list, p ≤ lo a := by
  induction list with
  | nil =>
    intro previous
    exact ⟨fun _ => ⟨Ordered.nil, fun _ _ a ha => by cases ha⟩, fun _ => trivial⟩
  | cons a rest ih =>
    intro previous
    show (_ ∧ _ ∧ Chain lo hi (some (hi a)) rest) ↔ _
    rw [ih, ordered_cons]
    constructor
    · rintro ⟨hprev, hpos, hrest, hfirst⟩
      have hfirst' := hfirst (hi a) rfl
      refine ⟨⟨hfirst', hpos, hrest⟩, fun p hp b hb => ?_⟩
      rcases List.mem_cons.mp hb with rfl | hb
      · exact hprev p hp
      · -- `b` begins after `a` ends, and `a` begins after `p`
        exact (hprev p hp).trans (hpos.le.trans (hfirst' b hb))
    · rintro ⟨⟨hfirst, hpos, hrest⟩, hprev⟩
      refine ⟨fun p hp => hprev p hp a (List.mem_cons_self ..), hpos, hrest, ?_⟩
      intro p hp b hb
      cases hp
      exact hfirst b hb

/-! ## Sorted lists -/

theorem pairwise_apart_perm {first second : List α} (h : first.Perm second) :
    first.Pairwise (Apart lo hi) ↔ second.Pairwise (Apart lo hi) :=
  h.pairwise_iff fun hab => hab.symm

/-- **Order of a sorted list** of non-empty ranges is being pairwise apart. -/
theorem ordered_iff_apart {list : List α} (hpos : ∀ a ∈ list, lo a < hi a)
    (hsorted : list.Pairwise fun a b => lo a ≤ lo b) :
    Ordered lo hi list ↔ list.Pairwise (Apart lo hi) := by
  constructor
  · intro h
    exact h.pairwise.imp fun hab => Or.inl hab
  · intro h
    refine ⟨?_, hpos⟩
    refine List.Pairwise.imp_of_mem ?_ (h.and hsorted)
    rintro a b _ hb ⟨hab | hba, hle⟩
    · exact hab
    · -- `b` would end before `a` begins, and begin after it
      exact absurd (hle.trans_lt ((hpos b hb).trans_le hba)) (lt_irrefl _)

/-- The same ranges, sorted, are ordered or not whatever the order of equal ones. -/
theorem ordered_perm {first second : List α} (hperm : first.Perm second)
    (hfirst : first.Pairwise fun a b => lo a ≤ lo b) (hsecond : second.Pairwise fun a b => lo a ≤ lo b) :
    Ordered lo hi first ↔ Ordered lo hi second := by
  constructor
  · intro h
    have hpos : ∀ a ∈ second, lo a < hi a := fun a ha => h.positive a (hperm.mem_iff.mpr ha)
    rw [ordered_iff_apart hpos hsecond, ← pairwise_apart_perm hperm]
    exact (ordered_iff_apart h.positive hfirst).mp h
  · intro h
    have hpos : ∀ a ∈ first, lo a < hi a := fun a ha => h.positive a (hperm.mem_iff.mp ha)
    rw [ordered_iff_apart hpos hfirst, pairwise_apart_perm hperm]
    exact (ordered_iff_apart h.positive hsecond).mp h

/-- There is one way to order ranges. -/
theorem Ordered.eq_of_perm {first second : List α} (h : Ordered lo hi first) (h' : Ordered lo hi second)
    (hperm : first.Perm second) : first = second := by
  refine hperm.eq_of_pairwise (fun a b ha hb hab hba => ?_) h.pairwise h'.pairwise
  have hlt := (h.positive a ha).trans_le (hab.trans (h'.positive b hb).le)
  exact absurd hba (not_le_of_gt hlt)

end BreezeDesk.Ranges
