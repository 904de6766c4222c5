import Mathlib.Data.Nat.Notation

/-! Clocked machines: one transition for each clock edge, driven by a stream of inputs. -/

namespace Clocked

variable {Input State : Type*}

/-- The state after `cycles` edges, the edge of cycle `t` sampling `inputs t`. -/
def run (step : Input → State → State) (inputs : ℕ → Input) (start : State) : ℕ → State
  | 0 => start
  | cycles + 1 => step (inputs cycles) (run step inputs start cycles)

/-- A property of the cycle number and the state that every edge preserves holds in every cycle. -/
theorem run_invariant {step : Input → State → State} {inputs : ℕ → Input} {start : State}
    (holds : ℕ → State → Prop) (initially : holds 0 start)
    (preserved : ∀ cycle state, holds cycle state → holds (cycle + 1) (step (inputs cycle) state))
    (cycles : ℕ) : holds cycles (run step inputs start cycles) := by
  -- Each edge is one use of the preservation hypothesis.
  induction cycles with
  | zero => exact initially
  | succ cycles ih => exact preserved cycles _ ih

/-- A property that one edge establishes, and every edge preserves, holds behind that edge. -/
theorem run_established {step : Input → State → State} {inputs : ℕ → Input} {start : State}
    (holds : State → Prop) {edge cycles : ℕ}
    (established : ∀ state, holds (step (inputs edge) state))
    (preserved : ∀ input state, holds state → holds (step input state)) (later : edge < cycles) :
    holds (run step inputs start cycles) := by
  -- By induction on the cycles, the last of which is that of the edge or comes behind it.
  induction cycles with
  | zero => omega
  | succ cycles ih =>
    rcases Nat.lt_succ_iff_lt_or_eq.mp later with before | rfl
    · exact preserved _ _ (ih before)
    · exact established _

/-- Two runs on the same inputs stay related when every edge keeps the relation. -/
theorem run_related {step : Input → State → State} {inputs : ℕ → Input} {start start' : State}
    (related : State → State → Prop) (initially : related start start')
    (preserved : ∀ input state state', related state state' →
      related (step input state) (step input state'))
    (cycles : ℕ) : related (run step inputs start cycles) (run step inputs start' cycles) := by
  induction cycles with
  | zero => exact initially
  | succ cycles ih => exact preserved _ _ _ ih

end Clocked
