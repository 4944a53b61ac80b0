import Mathlib.Data.List.Basic
import Mathlib.Logic.Function.Iterate

/-!
# Streaming decoders

A decoder is called again and again with what is left of its input and room for some output.
It may once do nothing and ask to be called again, but not twice in a row.

§1 decoders · §2 one call after the other · §3 calling comes to an end.
-/

namespace Foundation

variable {δ ε β : Type*}

/-! ## §1  Decoders -/

inductive Status (ε : Type*) where
  | more
  | finished
  | failed (e : ε)
deriving DecidableEq, Repr

structure Answer (δ ε β : Type*) where
  status : Status ε
  consumed : ℕ
  output : List β
  next : δ
deriving DecidableEq, Repr

/-- To be called again, and nothing done. -/
def Answer.Idle (r : Answer δ ε β) : Prop :=
  r.status = .more ∧ r.consumed = 0 ∧ r.output = []

structure StreamDecoder (δ ε β : Type*) where
  call : δ → List β → ℕ → Answer δ ε β
  consumed_le : ∀ d input room, (call d input room).consumed ≤ input.length
  output_le : ∀ d input room, (call d input room).output.length ≤ room
  not_idle_twice : ∀ d input room input' room', (call d input room).Idle →
    ¬ (call (call d input room).next input' room').Idle

/-! ## §2  One call after the other -/

/-- Between two calls: the decoder, the input left, and all output so far. -/
structure Stage (δ β : Type*) where
  state : δ
  rest : List β
  output : List β
deriving DecidableEq, Repr

namespace StreamDecoder

variable (dec : StreamDecoder δ ε β) (room : ℕ)

def answer (p : Stage δ β) : Answer δ ε β := dec.call p.state p.rest room

def advance (p : Stage δ β) : Stage δ β where
  state := (dec.answer room p).next
  rest := p.rest.drop (dec.answer room p).consumed
  output := p.output ++ (dec.answer room p).output

/-- After `n` calls. -/
def stage (p : Stage δ β) (n : ℕ) : Stage δ β := (dec.advance room)^[n] p

@[simp] theorem stage_zero (p : Stage δ β) : dec.stage room p 0 = p := rfl

theorem stage_succ (p : Stage δ β) (n : ℕ) :
    dec.stage room p (n + 1) = dec.advance room (dec.stage room p n) :=
  Function.iterate_succ_apply' _ _ _

theorem stage_succ' (p : Stage δ β) (n : ℕ) :
    dec.stage room p (n + 1) = dec.stage room (dec.advance room p) n :=
  Function.iterate_succ_apply _ _ _

/-- The output of `n` calls. -/
def outputs (p : Stage δ β) (n : ℕ) : List β :=
  (List.range n).flatMap fun i => (dec.answer room (dec.stage room p i)).output

theorem stage_output (p : Stage δ β) (n : ℕ) :
    (dec.stage room p n).output = p.output ++ dec.outputs room p n := by
  induction n with
  | zero => simp [outputs]
  | succ n ih => simp [stage_succ, advance, ih, outputs, List.range_succ]

/-! ## §3  Calling comes to an end -/

/-- What a call takes from the input, and what it gives out. -/
theorem advance_length (p : Stage δ β) :
    (dec.advance room p).rest.length + (dec.answer room p).consumed = p.rest.length ∧
      (dec.advance room p).output.length = p.output.length + (dec.answer room p).output.length := by
  have hle : (dec.answer room p).consumed ≤ p.rest.length := dec.consumed_le _ _ _
  refine ⟨?_, by simp [advance]⟩
  simp only [advance, List.length_drop]
  omega

/-- Of two calls with more to come, one makes progress. -/
theorem advance_advance_length (p : Stage δ β) (hfirst : (dec.answer room p).status = .more)
    (hsecond : (dec.answer room (dec.advance room p)).status = .more) :
    1 + (dec.advance room (dec.advance room p)).rest.length + p.output.length ≤
      p.rest.length + (dec.advance room (dec.advance room p)).output.length := by
  obtain ⟨hrest, hout⟩ := dec.advance_length room p
  obtain ⟨hrest', hout'⟩ := dec.advance_length room (dec.advance room p)
  by_contra hnone
  have hidle : (dec.answer room p).Idle :=
    ⟨hfirst, by omega, List.length_eq_zero_iff.1 (by omega)⟩
  exact dec.not_idle_twice _ _ _ _ _ hidle
    ⟨hsecond, show (dec.answer room (dec.advance room p)).consumed = 0 by omega,
      show (dec.answer room (dec.advance room p)).output = [] from
        List.length_eq_zero_iff.1 (by omega)⟩

theorem stage_length (k : ℕ) : ∀ p : Stage δ β,
    (∀ i < 2 * k, (dec.answer room (dec.stage room p i)).status = .more) →
    k + (dec.stage room p (2 * k)).rest.length + p.output.length ≤
      p.rest.length + (dec.stage room p (2 * k)).output.length := by
  induction k with
  | zero => simp
  | succ k ih =>
    intro p hmore
    have htwo := dec.advance_advance_length room p (hmore 0 (by omega)) (hmore 1 (by omega))
    have hlater := ih (dec.advance room (dec.advance room p)) fun i hi => by
      have h := hmore (i + 2) (by omega)
      rwa [stage_succ', stage_succ'] at h
    rw [show 2 * (k + 1) = 2 * k + 1 + 1 by omega, stage_succ', stage_succ']
    omega

/-- With a limit on the output, only so many calls leave more to come. -/
theorem exists_stop (p : Stage δ β) (limit : ℕ) :
    ∃ n, ¬ ((dec.answer room (dec.stage room p n)).status = .more ∧
      (dec.stage room p (n + 1)).output.length ≤ limit) := by
  by_contra hall
  simp only [not_exists, not_not] at hall
  have hlong := dec.stage_length room (p.rest.length + limit + 1) p fun i _ => (hall i).1
  have hshort := (hall (2 * (p.rest.length + limit) + 1)).2
  rw [show 2 * (p.rest.length + limit + 1) = 2 * (p.rest.length + limit) + 1 + 1 by omega] at hlong
  omega

end StreamDecoder

end Foundation
