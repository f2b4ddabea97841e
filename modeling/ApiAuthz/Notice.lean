/-
Notices: errors put together by hand, of any message and any details. The mapping
itself reports texts and named details only; a notice takes whatever values it is
given, and details that are empty in any way count as none.
-/
import ApiAuthz.Fault

namespace ApiAuthz

/-- A fault as it is put together from any message and details. -/
structure Notice where
  kind : ErrorKind
  message : Value
  details : Value

namespace Notice

/-- Details that count as false are as good as none. -/
def of (kind : ErrorKind) (message details : Value) : Notice :=
  ⟨kind, message, if details.truthy then details else .map []⟩

/-- The message, with the details in brackets if there are any. A message that
stands alone has to be text. -/
def text (n : Notice) : Attempt String :=
  if n.details.truthy then .ok (n.message.display ++ " (details: " ++ n.details.display ++ ")")
  else
    match n.message.text? with
    | some s => .ok s
    | none => Fault.wrongKind

/-- The notice by its parts. -/
def literal (n : Notice) : String :=
  n.kind.name ++ "(message=" ++ n.message.literal ++ ", details=" ++ n.details.literal ++ ")"

end Notice

end ApiAuthz
