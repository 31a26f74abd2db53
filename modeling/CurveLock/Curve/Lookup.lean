import CurveLock.Failure

/-!
# Finding a curve

A caller names a curve by its registered number or by one of its names, in any mixture of upper and
lower case and with blanks around it (`Curve.find`). A truth value is no number here.
-/

namespace CurveLock

namespace Curve

/-- The curve that a value names. -/
def find (id : Datum) : Except Failure Curve :=
  let found := match id with
    | .int n => ofNumber? n
    | .text s => ofName? (Text.keyword s)
    | _ => none
  match id, found with
  | .bool b, _ => .error (.refuse (.booleanCurve b))
  | _, some c => .ok c
  | _, none => .error (.refuse (.unknownCurve id))

end Curve

end CurveLock
