import EffectScript.Machine

/-!
# Effect handlers

An attempt registers one handler per clause. Performing an effect takes the
newest handler for it out of force, together with the rest of its group and
everything newer, and runs it in a frame that remembers them. The handler either
*resumes* the frame that performed the effect, which brings them back into
force, or it *abandons* that frame by returning: then the attempt is complete.
-/

namespace EffectScript

/-- What performing an effect does to the handlers: the one that answers, those
that go out of force with it, and those that stay, each with the newest one
first. -/
structure Dispatch where
  handler : Handler
  stash : List Handler
  staying : List Handler

namespace Dispatch

/-- Finds the newest handler for an effect. -/
def find? (effect : String) : List Handler → Option Dispatch
  | [] => none
  | handler :: older =>
      if handler.effect = effect then
        some
          { handler := handler
            stash := handler :: older.takeWhile handler.sameGroup
            staying := older.dropWhile handler.sameGroup }
      else
        (find? effect older).map fun dispatch =>
          { dispatch with stash := handler :: dispatch.stash }

/-- Every handler either goes out of force or stays, and their order is kept. -/
theorem stash_append_staying {effect : String}
    {handlers : List Handler} {dispatch : Dispatch}
    (found : find? effect handlers = some dispatch) :
    dispatch.stash ++ dispatch.staying = handlers := by
  induction handlers generalizing dispatch with
  | nil => simp [find?] at found
  | cons handler older inner =>
      simp only [find?] at found
      split at found
      · cases found
        simp [List.takeWhile_append_dropWhile]
      · obtain ⟨rest, restFound, rfl⟩ := Option.map_eq_some_iff.1 found
        simp [inner restFound]

end Dispatch

namespace Machine

/-- Registers the closure on top of the operand stack as a handler; its attempt
ends `distance` bytes after the next instruction. -/
def setHandler (machine : Machine) (effect : String) (distance : Nat) :
    Except Failure Machine := do
  let (value, popped) ← machine.pop
  let frame ← popped.top
  match value with
  | .closure closure =>
      let handler : Handler :=
        { effect := effect
          closure := closure
          frame := popped.topIndex
          depth := frame.stack.length
          target := frame.ip + distance }
      return { popped with handlers := handler :: popped.handlers }
  | other =>
      .error (.exception (Exception.handlerNotFunction effect other.typeName))

/-- Goes back into the frame that performed the effect which the newest running
handler answers. -/
def resume (machine : Machine) : Except Exception Machine :=
  match machine.frames.findSome? (·.link) with
  | some link =>
      .ok { machine with
        frames := oldest (link.resumeInto + 1) machine.frames
        handlers := link.stash ++ oldest link.groupStart machine.handlers }
  | none => .error Exception.resumeOutsideHandler

/-- Completes the attempt whose handler returned a value without resuming. -/
def abandon (machine : Machine) (link : EffectLink) (value : Value) :
    Except Failure Machine := do
  let unwound := { machine with
    frames := oldest (link.handlerFrame + 1) machine.frames
    handlers := oldest link.groupStart machine.handlers }
  let frame ← unwound.top
  let completed := { frame with stack := oldest link.depth frame.stack, ip :=
    link.target }
  (unwound.setTop completed).push value

end Machine

end EffectScript
