/-!
# Error categories

Every declared error belongs to one of ten fixed categories.  A category has a wire name, an order
(that of declaration) and the status that a server reports for it.
-/

namespace WireContract.Wire

/-- The fixed category of an error. -/
inductive ErrorCode where
  | permissionDenied
  | invalidArgument
  | notFound
  | conflict
  | requestEntityTooLarge
  | failedPrecondition
  | internal
  | timeout
  | customClient
  | customServer
deriving DecidableEq, Repr, Inhabited

namespace ErrorCode

/-- All categories, in order. -/
def all : List ErrorCode := [
  permissionDenied, invalidArgument, notFound, conflict, requestEntityTooLarge,
  failedPrecondition, internal, timeout, customClient, customServer]

/-- The wire name. -/
def name : ErrorCode → String
  | permissionDenied => "PERMISSION_DENIED"
  | invalidArgument => "INVALID_ARGUMENT"
  | notFound => "NOT_FOUND"
  | conflict => "CONFLICT"
  | requestEntityTooLarge => "REQUEST_ENTITY_TOO_LARGE"
  | failedPrecondition => "FAILED_PRECONDITION"
  | internal => "INTERNAL"
  | timeout => "TIMEOUT"
  | customClient => "CUSTOM_CLIENT"
  | customServer => "CUSTOM_SERVER"

/-- The name of the category as a Rust variant. -/
def variantName : ErrorCode → String
  | permissionDenied => "PermissionDenied"
  | invalidArgument => "InvalidArgument"
  | notFound => "NotFound"
  | conflict => "Conflict"
  | requestEntityTooLarge => "RequestEntityTooLarge"
  | failedPrecondition => "FailedPrecondition"
  | internal => "Internal"
  | timeout => "Timeout"
  | customClient => "CustomClient"
  | customServer => "CustomServer"

/-- The status that a server reports. -/
def status : ErrorCode → Nat
  | permissionDenied => 403
  | invalidArgument | customClient => 400
  | notFound => 404
  | conflict => 409
  | requestEntityTooLarge => 413
  | failedPrecondition | internal | timeout | customServer => 500

/-- The category with a wire name. -/
def ofName? (s : String) : Option ErrorCode :=
  all.find? (·.name == s)

/-- The message for a text that names no category. -/
def unknownMessage (s : String) : String :=
  "unknown error code '" ++ s ++ "'"

end ErrorCode

end WireContract.Wire
