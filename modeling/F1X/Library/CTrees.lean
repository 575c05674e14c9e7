import F1X.Library.CGrammar

/-!
# The value of a parsed expression

Over any C machine.  The text has one variable of its own, a flag: assigning a
true value to it raises the flag and evaluation goes on.
-/

namespace F1X.Library

namespace CTree

variable {V : Type*}

def eval (machine : CMachine V) (flag : String) (read : String → V) : CTree → Result V
  | .operand text => some (read text, false)
  | .number text => some (machine.literal "int" text, false)
  | .name text => if text = "true" then some (machine.flag true, false) else none
  | .unary op arg =>
      (arg.eval machine flag read).andThen fun value => .quiet (machine.unary op value)
  | .binary op left right =>
      (left.eval machine flag read).andThen fun value =>
        match machine.decided op value with
        | some result => some (result, false)
        | none => (right.eval machine flag read).andThen fun other =>
            .quiet (machine.binary op value other)
  | .conditional condition first second =>
      (condition.eval machine flag read).andThen fun value =>
        if machine.truth value then first.eval machine flag read
        else second.eval machine flag read
  | .assign variable_ value rest =>
      if variable_ = flag then
        (value.eval machine flag read).andThen fun assigned =>
          Result.andThen (some (assigned, machine.truth assigned)) fun _ =>
            rest.eval machine flag read
      else none

end CTree

end F1X.Library
