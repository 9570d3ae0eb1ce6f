import MediaTransport.Config.Transport

/-!
# Transport errors

Why a sender or a receiver refuses what it is asked.
-/

namespace MediaTransport

/-- Why sending, receiving or setting up failed. -/
inductive TransportError where
  | closed
  | alreadyStarted
  | bufferTooSmall (available needed : Nat)
  /-- Receiving failed before, and has stopped for good. -/
  | receiveFailed
  /-- No packet has been delivered yet. -/
  | noPacket
  | config (error : ConfigError)
  | sendFailed (failed targets : Nat)
  deriving DecidableEq, Repr

/-- The text of an error. -/
def TransportError.message : TransportError → String
  | closed => "Transport is closed"
  | alreadyStarted => "Receiver already started"
  | bufferTooSmall available needed =>
    "Input buffer " ++ Nat.repr available ++ " not big enough for " ++ Nat.repr needed
  | receiveFailed => "Receiver stopped after an I/O error"
  | noPacket => "No packet available"
  | config error => error.message
  | sendFailed failed targets =>
    "Failed to send to " ++ Nat.repr failed ++ " of " ++ Nat.repr targets ++ " targets"

end MediaTransport
