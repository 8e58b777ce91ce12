/-!
# Transitions

A transition changes a state, reports events and ends with a value or an error.  An error does not
undo what happened before it: the state reached and the events reported so far are part of the
outcome.  Each event has a level, and a reader of the journal chooses how much detail to see.
-/

set_option autoImplicit false

namespace Mini8086

/-! ## Levels -/

inductive Level where
  | warn
  | info
  | debug
  | trace
  deriving DecidableEq

namespace Level

def name : Level → String
  | .warn => "WARN"
  | .info => "INFO"
  | .debug => "DEBUG"
  | .trace => "TRACE"

def verbosity : Level → Nat
  | .warn => 0
  | .info => 1
  | .debug => 2
  | .trace => 3

def shownAt (level : Level) (asked : Nat) : Bool :=
  level.verbosity ≤ asked

end Level

/-! ## Outcomes -/

/-- How a transition ended, with the state it reached and the events it reported, in order. -/
structure Outcome (σ ε ω α : Type) where
  result : Except ε α
  state : σ
  events : List ω

/-- A change of a state `σ` that yields an `α` or an error `ε` and reports events `ω`. -/
def Transition (σ ε ω α : Type) : Type :=
  σ → Outcome σ ε ω α

namespace Transition

variable {σ τ ε δ ω ψ α β : Type}

@[inline]
def done (value : α) : Transition σ ε ω α := fun state =>
  ⟨.ok value, state, []⟩

@[inline]
def andThen (first : Transition σ ε ω α) (next : α → Transition σ ε ω β) : Transition σ ε ω β :=
  fun state =>
    match first state with
    | ⟨.ok value, middle, earlier⟩ =>
      match next value middle with
      | ⟨result, last, later⟩ => ⟨result, last, earlier ++ later⟩
    | ⟨.error error, middle, earlier⟩ => ⟨.error error, middle, earlier⟩

instance : Monad (Transition σ ε ω) where
  pure := done
  bind := andThen

@[inline]
def fail (error : ε) : Transition σ ε ω α := fun state =>
  ⟨.error error, state, []⟩

@[inline]
def inspect (view : σ → α) : Transition σ ε ω α := fun state =>
  ⟨.ok (view state), state, []⟩

@[inline]
def update (change : σ → σ) : Transition σ ε ω Unit := fun state =>
  ⟨.ok (), change state, []⟩

@[inline]
def report (event : ω) : Transition σ ε ω Unit := fun state =>
  ⟨.ok (), state, [event]⟩

@[inline]
def ofExcept (result : Except ε α) : Transition σ ε ω α := fun state =>
  ⟨result, state, []⟩

/-! ## Laws -/

theorem pure_apply (value : α) (state : σ) :
    (pure value : Transition σ ε ω α) state = ⟨.ok value, state, []⟩ := rfl

theorem bind_apply (first : Transition σ ε ω α) (next : α → Transition σ ε ω β) (state : σ) :
    (first >>= next) state =
      match first state with
      | ⟨.ok value, middle, earlier⟩ =>
        match next value middle with
        | ⟨result, last, later⟩ => ⟨result, last, earlier ++ later⟩
      | ⟨.error error, middle, earlier⟩ => ⟨.error error, middle, earlier⟩ := rfl

theorem bind_of_ok {first : Transition σ ε ω α} {state middle : σ} {value : α} {earlier : List ω}
    (next : α → Transition σ ε ω β) (succeeded : first state = ⟨.ok value, middle, earlier⟩) :
    (first >>= next) state =
      ⟨(next value middle).result, (next value middle).state,
        earlier ++ (next value middle).events⟩ := by
  rw [bind_apply, succeeded]

theorem bind_of_error {first : Transition σ ε ω α} {state middle : σ} {error : ε} {earlier : List ω}
    (next : α → Transition σ ε ω β) (failed : first state = ⟨.error error, middle, earlier⟩) :
    (first >>= next) state = ⟨.error error, middle, earlier⟩ := by
  rw [bind_apply, failed]

/-- A sequence succeeds exactly where both parts do. -/
theorem bind_eq_ok_iff {first : Transition σ ε ω α} {next : α → Transition σ ε ω β} {state last : σ}
    {value : β} {events : List ω} :
    (first >>= next) state = ⟨.ok value, last, events⟩ ↔
      ∃ between middle earlier later, first state = ⟨.ok between, middle, earlier⟩ ∧
        next between middle = ⟨.ok value, last, later⟩ ∧ events = earlier ++ later := by
  constructor
  · intro run
    match found : first state with
    | ⟨.error error, middle, earlier⟩ =>
      rw [bind_of_error next found] at run
      cases run
    | ⟨.ok between, middle, earlier⟩ =>
      match rest : next between middle with
      | ⟨result, reached, later⟩ =>
        rw [bind_apply, found] at run
        simp only [rest] at run
        cases run
        exact ⟨between, middle, earlier, later, rfl, rest, rfl⟩
  · rintro ⟨between, middle, earlier, later, start, finish, rfl⟩
    rw [bind_of_ok next start, finish]

@[simp]
theorem fail_apply (error : ε) (state : σ) :
    (fail error : Transition σ ε ω α) state = ⟨.error error, state, []⟩ := rfl

@[simp]
theorem inspect_apply (view : σ → α) (state : σ) :
    (inspect view : Transition σ ε ω α) state = ⟨.ok (view state), state, []⟩ := rfl

@[simp]
theorem update_apply (change : σ → σ) (state : σ) :
    (update change : Transition σ ε ω Unit) state = ⟨.ok (), change state, []⟩ := rfl

@[simp]
theorem report_apply (event : ω) (state : σ) :
    (report event : Transition σ ε ω Unit) state = ⟨.ok (), state, [event]⟩ := rfl

@[simp]
theorem ofExcept_apply (result : Except ε α) (state : σ) :
    (ofExcept result : Transition σ ε ω α) state = ⟨result, state, []⟩ := rfl

end Transition

end Mini8086
