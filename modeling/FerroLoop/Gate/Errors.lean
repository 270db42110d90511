/-!
What FerroGate refuses a call with (`crates/gate/src/lib.rs`): the errors that the vault, the warrants, the broker
and the proxy build.
-/

namespace FerroLoop.Gate

inductive GateError where
  | io (op cause : String)
  | vaultCorrupt (cause : String)
  | vaultTampered (secret : String)
  | crypto (reason : String)
  | invalidSecret (name reason : String)
  | noSuchSecret (name : String)
  | policyDenied (secret reason : String)
  | usageMismatch (secret : String)
  | dispatchAuthority (reason : String)
  | invalidPlaceholder (reason : String)
  | invalidUrl (url reason : String)
  | ssrfBlocked (host reason : String)
  | warrantInput (reason : String)
  | warrantRejected (reason : String)
  /-- The call panics. -/
  | panicked
  deriving DecidableEq

end FerroLoop.Gate
