/-!
# Configuring a session

A session may be given a packet buffer, a packet size, and limits on what the registry holds; each has a default. The
packet size bounds both packets and replies, and is what the client is told (`Config.packetSize`).
-/

namespace RemoteDebug

/-- What a session is configured with. -/
structure Config where
  bufferLength : Option Nat := none
  requestedSize : Option Nat := none
  maxInferiors : Nat := 64
  maxThreads : Nat := 256
  maxPatches : Nat := 32
  deriving DecidableEq, Repr

/-- Why a configuration is none. -/
inductive ConfigError
  | zeroCapacity
  | sizeMismatch
  | missingBuffer
  deriving DecidableEq, Repr

/-- The wording of the failure. -/
def ConfigError.message : ConfigError → String
  | .zeroCapacity => "`max_inferiors`, `max_threads` and `max_sw_breakpoints` must be non-zero."
  | .sizeMismatch => "`packet_buffer_size` is larger than `packet_buffer`'s size."
  | .missingBuffer => "The packet buffer must not be empty."

namespace Config

/-- The packet size if nothing says otherwise. -/
def defaultSize : Nat := 2048

/-- The packet size: the one asked for, the whole buffer given, or the default. -/
def packetSize (c : Config) : Except ConfigError Nat :=
  if c.maxInferiors = 0 ∨ c.maxThreads = 0 ∨ c.maxPatches = 0 then .error .zeroCapacity
  else if c.requestedSize.any fun size => c.bufferLength.any (· < size) then .error .sizeMismatch
  else
    let size := (c.requestedSize <|> c.bufferLength).getD defaultSize
    if size = 0 then .error .missingBuffer else .ok size

end Config
end RemoteDebug
