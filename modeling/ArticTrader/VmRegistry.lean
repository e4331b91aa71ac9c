import ArticTrader.PythonText

namespace ArticTrader.VmRegistry

open ArticTrader.PythonText

inductive VMStatus where
  | stopped
  | waking
  | running
  | draining
  | error
  deriving DecidableEq, Repr

structure VMState where
  user_id : Text
  provider_vm_id : Option Text
  endpoint : Option Text
  status : VMStatus
  last_active_at : Option Nat
  deriving DecidableEq, Repr

inductive WakeResult where
  | RUNNING
  | PENDING
  | FAILED
  deriving DecidableEq, Repr

end ArticTrader.VmRegistry
