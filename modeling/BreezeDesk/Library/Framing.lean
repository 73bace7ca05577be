/-
  Messages in a stream that arrives in pieces.

  `next` reads the front of a buffer: a message and what is left behind it, nothing yet, or an error.
  What it says of a buffer it says of every longer one, but for "nothing yet"; these laws are fields of
  `Framing`.  `drain` reads until nothing is left to read or an error is met.

  * `drain_append` — more bytes behind a buffer are read after it, unless an error came first;
  * `feed_flatten` — so a stream gives the same messages and the same error in whatever pieces it
    arrives (`feed` keeps the unread rest between the pieces, and stops at an error).

  Nothing here mentions a particular program.
-/
import Mathlib.Data.List.Basic

namespace BreezeDesk

inductive Outcome (α β ε : Type*) where
  | item (a : α) (rest : List β)
  | more
  | error (e : ε) (rest : List β)

structure Framing (α β ε : Type*) where
  next : List β → Outcome α β ε
  shrinks : ∀ {bytes rest : List β} {a : α}, next bytes = .item a rest → rest.length < bytes.length
  item_append : ∀ {bytes rest : List β} {a : α} (extra : List β), next bytes = .item a rest →
    next (bytes ++ extra) = .item a (rest ++ extra)
  error_append : ∀ {bytes rest : List β} {e : ε} (extra : List β), next bytes = .error e rest →
    next (bytes ++ extra) = .error e (rest ++ extra)

namespace Framing

variable {α β ε : Type*} (framing : Framing α β ε)

/-- What has been read, the error that ended it, and what is left. -/
structure Drained (α β ε : Type*) where
  items : List α
  error : Option ε
  rest : List β

def drainFrom : Nat → List β → Drained α β ε
  | 0, bytes => ⟨[], none, bytes⟩
  | fuel + 1, bytes =>
    match framing.next bytes with
    | .item a rest =>
      let drained := drainFrom fuel rest
      { drained with items := a :: drained.items }
    | .more => ⟨[], none, bytes⟩
    | .error e rest => ⟨[], some e, rest⟩

/-- Every message takes at least one byte. -/
def drain (bytes : List β) : Drained α β ε := framing.drainFrom (bytes.length + 1) bytes

variable {framing} {bytes rest : List β} {a : α} {e : ε}

/-- Any two amounts of fuel above the length do the same. -/
theorem drainFrom_congr :
    ∀ {fuel fuel' : Nat} {bytes : List β}, bytes.length < fuel → bytes.length < fuel' →
      framing.drainFrom fuel bytes = framing.drainFrom fuel' bytes := by
  intro fuel
  induction fuel with
  | zero => intro fuel' bytes h _; omega
  | succ fuel ih =>
    intro fuel' bytes h h'
    obtain ⟨n, rfl⟩ : ∃ n, fuel' = n + 1 := ⟨fuel' - 1, by omega⟩
    unfold drainFrom
    cases hnext : framing.next bytes with
    | item a rest =>
      have hshrinks := framing.shrinks hnext
      have hrest : framing.drainFrom fuel rest = framing.drainFrom n rest := ih (by omega) (by omega)
      dsimp only
      rw [hrest]
    | more => rfl
    | error e rest => rfl

theorem drain_item (h : framing.next bytes = .item a rest) :
    framing.drain bytes = { framing.drain rest with items := a :: (framing.drain rest).items } := by
  have hshrinks := framing.shrinks h
  have hfuel : framing.drainFrom bytes.length rest = framing.drain rest :=
    drainFrom_congr hshrinks (Nat.lt_succ_self _)
  unfold drain
  rw [drainFrom, h]
  dsimp only
  rw [hfuel]
  rfl

theorem drain_more (h : framing.next bytes = .more) : framing.drain bytes = ⟨[], none, bytes⟩ := by
  unfold drain
  rw [drainFrom, h]

theorem drain_error (h : framing.next bytes = .error e rest) : framing.drain bytes = ⟨[], some e, rest⟩ := by
  unfold drain
  rw [drainFrom, h]

/-- What is left without an error is no message yet. -/
theorem drain_rest (herror : (framing.drain bytes).error = none) :
    framing.next (framing.drain bytes).rest = .more := by
  induction hn : bytes.length using Nat.strongRecOn generalizing bytes with
  | _ n ih =>
    cases hnext : framing.next bytes with
    | item a rest =>
      have hshrinks := framing.shrinks hnext
      rw [drain_item hnext] at herror ⊢
      exact ih rest.length (hn ▸ hshrinks) herror rfl
    | more =>
      rw [drain_more hnext]
      exact hnext
    | error e rest =>
      rw [drain_error hnext] at herror
      cases herror

/-- One drain after another. -/
def Drained.andThen (first : Drained α β ε) (second : List β → Drained α β ε) (extra : List β) :
    Drained α β ε :=
  match first.error with
  | none =>
    let drained := second (first.rest ++ extra)
    { drained with items := first.items ++ drained.items }
  | some e => ⟨first.items, some e, first.rest ++ extra⟩

/-- **More bytes** are read after the ones before, by induction on the messages that are there. -/
theorem drain_append (bytes extra : List β) :
    framing.drain (bytes ++ extra) = (framing.drain bytes).andThen framing.drain extra := by
  induction hn : bytes.length using Nat.strongRecOn generalizing bytes with
  | _ n ih =>
    cases hnext : framing.next bytes with
    | item a rest =>
      have hshrinks := framing.shrinks hnext
      have hrest := ih rest.length (hn ▸ hshrinks) rest rfl
      rw [drain_item (framing.item_append extra hnext), drain_item hnext, hrest]
      unfold Drained.andThen
      cases (framing.drain rest).error <;> rfl
    | more =>
      rw [drain_more hnext]
      rfl
    | error e rest =>
      rw [drain_error (framing.error_append extra hnext), drain_error hnext]
      rfl

/-! ## A stream in pieces -/

variable (framing)

/-- The unread rest is kept from one piece to the next; after an error the pieces are passed over. -/
def feed : List β → List (List β) → Drained α β ε
  | buffer, [] => ⟨[], none, buffer⟩
  | buffer, piece :: pieces =>
    let drained := framing.drain (buffer ++ piece)
    match drained.error with
    | none =>
      let others := feed drained.rest pieces
      { others with items := drained.items ++ others.items }
    | some e => ⟨drained.items, some e, drained.rest⟩

variable {framing}

/-- **The pieces do not matter**: the same messages, the same error, and without one the same rest. -/
theorem feed_flatten (pieces : List (List β)) :
    ∀ {buffer : List β}, framing.next buffer = .more →
      (framing.feed buffer pieces).items = (framing.drain (buffer ++ pieces.flatten)).items ∧
        (framing.feed buffer pieces).error = (framing.drain (buffer ++ pieces.flatten)).error ∧
        ((framing.feed buffer pieces).error = none →
          (framing.feed buffer pieces).rest = (framing.drain (buffer ++ pieces.flatten)).rest) := by
  induction pieces with
  | nil =>
    intro buffer hbuffer
    rw [List.flatten_nil, List.append_nil, drain_more hbuffer]
    exact ⟨rfl, rfl, fun _ => rfl⟩
  | cons piece pieces ih =>
    intro buffer hbuffer
    rw [List.flatten_cons, ← List.append_assoc, drain_append]
    unfold feed Drained.andThen
    dsimp only
    cases herror : (framing.drain (buffer ++ piece)).error with
    | none =>
      obtain ⟨hitems, herrors, hrest⟩ := ih (drain_rest herror)
      exact ⟨congrArg ((framing.drain (buffer ++ piece)).items ++ ·) hitems, herrors, hrest⟩
    | some e => exact ⟨rfl, rfl, fun h => (by cases h)⟩

end Framing

end BreezeDesk
