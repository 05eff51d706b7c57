import SegregatedFit.Fault

/-!
# Operations that may stop with a fault

An operation changes a state and gives an answer, or stops with a fault. A fault keeps the state as it was when the
operation stopped, so that it can be said what had been done by then. The equations below run an operation on a state
step by step; each holds by definition.
-/

namespace SegregatedFit

/-- An operation on a state of type `σ` with an answer of type `α`. -/
abbrev Operation (σ α : Type) := EStateM Fault σ α

namespace Operation

variable {ε σ α β : Type}

/-- A computation that has no state stops with the state as it is. -/
instance : MonadLift (Except Fault) (EStateM Fault σ) where
  monadLift
    | .ok a => pure a
    | .error f => throw f

theorem bind_apply (x : EStateM ε σ α) (f : α → EStateM ε σ β) (s : σ) :
    (x >>= f) s = match x s with
      | .ok a t => f a t
      | .error e t => .error e t := rfl

theorem pure_apply (a : α) (s : σ) : (pure a : EStateM ε σ α) s = .ok a s := rfl

theorem throw_apply (e : ε) (s : σ) : (throw e : EStateM ε σ α) s = .error e s := rfl

theorem get_apply (s : σ) : (get : EStateM ε σ σ) s = .ok s s := rfl

theorem modify_apply (f : σ → σ) (s : σ) : (modify f : EStateM ε σ PUnit) s = .ok ⟨⟩ (f s) := rfl

theorem modifyGet_apply (f : σ → α × σ) (s : σ) : (modifyGet f : EStateM ε σ α) s = .ok (f s).1 (f s).2 := rfl

theorem lift_ok (a : α) : (liftM (Except.ok a : Except Fault α) : EStateM Fault σ α) = pure a := rfl

end Operation

end SegregatedFit
