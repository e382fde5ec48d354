import PluginClosure.Identity
import PluginClosure.Event

/-!
# Attempts

An attempt may create objects, note events, and fail. What has been noted before a failure stays
noted. Parts of an attempt that cannot note events, or cannot create objects, have smaller types,
and are lifted.

## Main definitions

* `PluginClosure.Log`, `PluginClosure.Attempt`.
* `PluginClosure.Attempt.note`: notes an event.
* `PluginClosure.Attempt.onFailure`: notes an event if an attempt fails.
-/

namespace PluginClosure

/-- The events noted so far, in the sequence in which they occurred. -/
abbrev Log := List Event

/-- Computations that may create objects, note events, and fail with an error from `ε`. -/
abbrev Attempt (ε : Type) := ExceptT ε (StateT Log Fresh)

namespace Attempt

variable {ε α : Type}

/-- Notes an event. -/
def note (e : Event) : Attempt ε Unit :=
  ExceptT.lift (modify (· ++ [e]))

/-- Makes an attempt and, if it fails, notes the event that belongs to the error. -/
def onFailure (event : ε → Event) (x : Attempt ε α) : Attempt ε α :=
  tryCatch x fun e => do
    note (event e)
    throw e

/-- Reads the error of an attempt as an error of a larger type. -/
def mapError {δ : Type} (f : ε → δ) (x : Attempt ε α) : Attempt δ α := x.adapt f

instance : MonadLift (ExceptT ε Fresh) (Attempt ε) where
  monadLift x := ExceptT.mk (liftM x.run)

instance : MonadLift (Except FieldError) (Attempt RecordError) where
  monadLift x := ExceptT.mk (pure (x.mapError .field))

end Attempt

end PluginClosure
