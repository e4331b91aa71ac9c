import ArticTrader.VmService

/-!
The calls to the REST endpoints of the VM provider that a wake makes, each by what
is answered to it. `get_status`, `stop` and `snapshot` are in `VmService`.
-/

namespace ArticTrader.MorphProvider

open ArticTrader.PythonText
open ArticTrader.VmRegistry
open ArticTrader.VmService

/-- The answer to one request. There is no body where the JSON is malformed or is
not of the form that is read. -/
inductive Http (β : Type) where
  | transport_error
  | response (status_code : ℕ) (body : Option β)
  deriving DecidableEq, Repr

structure Instance where
  id : Option Text
  instance_id : Option Text
  deriving DecidableEq, Repr

/-- A key that is missing reads as none, and `some none` is `null`. -/
structure Exit where
  exit_code : Option (Option ℤ)
  deriving DecidableEq, Repr

structure HttpService where
  name : Option Text
  url : Option Text
  deriving DecidableEq, Repr

structure Networking where
  http_services : List HttpService
  deriving DecidableEq, Repr

def expect {β α : Type} (reply : Http β) (read : β → Answer α) : Answer α :=
  match reply with
  | .transport_error => .raised
  | .response status_code body =>
      if 400 ≤ status_code then .provider_error
      else
        match body with
        | none => .raised
        | some value => read value

/-- Only the id of the handle is used. -/
def start (r : Http Instance) : Answer (Option Text) :=
  expect r fun body => .ok (if truthy body.id then body.id else body.instance_id)

/-- A refusal is only logged. -/
def configure_wake_on_http : Http Unit → Answer Unit
  | .transport_error => .raised
  | .response _ _ => .ok ()

def exec (r : Http Exit) : Answer Unit :=
  expect r fun body =>
    if body.exit_code.getD (some 0) ≠ some 0 then .provider_error else .ok ()

/-- The last call of `launch_user_server`. -/
def expose_http_service (r : Http Networking) : Answer Text :=
  expect r fun body =>
    let url := (body.http_services.find? fun s => s.name = some "user-server".toList).bind
      HttpService.url
    if truthy url then .ok (url.getD []) else .provider_error

def health : Http Unit → Bool
  | .transport_error => false
  | .response status_code _ => status_code = 200

/-- What `launch_user_server` runs on the VM, in this order. -/
inductive Script where
  | migrate
  | network
  | run
  | health
  deriving DecidableEq, Repr

end ArticTrader.MorphProvider
