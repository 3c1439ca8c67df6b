import SlotVm.Fault

/-!
# Actions

An action reads and changes a state and ends with a result or a fault.  It
leaves a state in both cases: what an instruction did before its fault stays
done.
-/

namespace SlotVm

/-- A computation on a state that may stop at a fault. -/
abbrev Action (σ α : Type) := EStateM Fault σ α

namespace Action

variable {σ τ α : Type}

/-- A result that does not depend on the state. -/
def lift (r : Except Fault α) : Action σ α := fun s =>
  match r with
  | .ok a => .ok a s
  | .error e => .error e s

/-- A result that is read off the state. -/
def read (f : σ → Except Fault α) : Action σ α := fun s =>
  lift (f s) s

/-- An action on a part of the state.  The part is taken out while the
action runs on it, with `hole` in its place. -/
def onPart (part : σ → τ) (put : τ → σ → σ) (hole : τ) (a : Action τ α) :
    Action σ α := fun s =>
  let t := part s
  let s := put hole s
  match a t with
  | .ok x t => .ok x (put t s)
  | .error e t => .error e (put t s)

end Action

end SlotVm
