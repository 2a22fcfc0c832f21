import Mathlib.Data.String.Basic
import Mathlib.Tactic

/-!
# What the ports speak of

The identities and the errors that every port of the use cases has.
-/

namespace Aseman

abbrev Uuid := Fin (2 ^ 128)

instance Uuid.neZero : NeZero (2 ^ 128) := inferInstance

instance Uuid.lawfulBEq : LawfulBEq Uuid := inferInstance

inductive PortError where
  | notFound
  | conflict
  | denied (message : String)
  | unavailable (message : String)
  | deadline
  | unsupported (message : String)
  | refused (message : String)
  | failed (message : String)
  deriving DecidableEq

/-- How a port call failed. -/
structure Fault where
  error : PortError
  /-- The call took effect before its error was reported. -/
  applied : Bool
  deriving DecidableEq

/-- The class of an identity. -/
inductive SubjectKind where
  | user
  | creature
  | node
  | service
  | workload
  | modulePublisher
  deriving DecidableEq

/-- A typed identity: a class and an opaque UUID. -/
structure Subject where
  kind : SubjectKind
  id : Uuid
  deriving DecidableEq

end Aseman
