import Mathlib.Logic.Basic

set_option autoImplicit false

/-! # Ports, addresses and messages

The data of `protocol/mod.rs` and the two `JsonMessage` types that a client and the server exchange
in frames. Encoding a message as JSON and decoding it again is lossless, so a message is its value.

A port is a number together with a protocol: TCP 80 and UDP 80 are two ports. The numbers in
`NewChannel` and `AcceptConfig` come from the server, and the client sends back what it was sent;
nothing else in the messages tells which request a reply belongs to.
-/

namespace Rslinker

inductive BasicProtocol
  | tcp
  | udp
  deriving DecidableEq, Repr

structure Port where
  port : UInt16
  protocol : BasicProtocol
  deriving DecidableEq, Repr

inductive IpAddr
  | v4 (bits : BitVec 32)
  | v6 (bits : BitVec 128)
  deriving DecidableEq, Repr

structure SocketAddr where
  ip : IpAddr
  port : UInt16
  deriving DecidableEq, Repr

/-- An address as it is configured, with what it was resolved to. -/
inductive CacheAddr
  | socketAddr (addr : SocketAddr)
  | domain (name : String) (addr : SocketAddr)
  deriving DecidableEq, Repr

/-- The reply to `PushConfig`: all requested ports are granted, or the listed ones. -/
inductive Accepted
  | all
  | part (ports : List Port)
  deriving DecidableEq, Repr

namespace Server

/-- The messages of the server (`server::JsonMessage`). -/
inductive JsonMessage
  | acceptClient (id : Nat)
  | newChannel (port : Port) (number : Nat)
  | acceptConfig (accepted : Accepted)
  | heartbeat
  deriving DecidableEq, Repr

end Server

namespace Client

/-- The messages of a client (`client::JsonMessage`). -/
inductive JsonMessage
  | newClient
  | acceptChannel (from_ : Nat) (port : Port) (number : Nat)
  | pushConfig (ports : List Port) (heartbeatInterval : Option UInt64)
  | heartbeat
  deriving DecidableEq, Repr

end Client

end Rslinker
