import Rslinker.Protocol.Message
import Mathlib.Data.List.AList

set_option autoImplicit false

/-! # The client's configuration and `push_config`

The links of a client map every `Port` it serves to the local target that is relayed to it. A
`HashMap` is its list of entries in the order of its iterator, with distinct keys.

A session is a handshake, `new_client` and then `push_config`, and a loop. The messages and their
order are the subject of `System/World.lean`; here is what one call of `push_config` does to the
client.
-/

namespace Rslinker

inductive TransferProtocol
  | rawTcp (addr : CacheAddr)
  | rawUdp (addr : CacheAddr)
  | http (autoOverride : Bool) (override_ : List (String × String)) (addr : CacheAddr)
  deriving DecidableEq, Repr

abbrev Links := AList fun _ : Port => TransferProtocol

/-- `HashMap::retain` with a condition on the key. -/
def Links.retain (links : Links) (keep : Port → Bool) : Links :=
  ⟨links.entries.filter fun e => keep e.1, links.nodupKeys.sublist List.filter_sublist⟩

structure ClientConfig where
  links : Links
  acceptConflict : Bool
  heartbeatInterval : Option UInt64
  retryTimes : UInt32

structure Client where
  id : Option Nat
  config : ClientConfig

section Retain

variable {links : Links} {keep : Port → Bool} {p : Port} {t : TransferProtocol}

theorem Links.mem_keys_iff :
    p ∈ links.keys ↔ ∃ t, (⟨p, t⟩ : (_ : Port) × TransferProtocol) ∈ links.entries := by
  simp [AList.keys, List.keys]

@[simp] theorem Links.mem_keys_retain : p ∈ (links.retain keep).keys ↔ p ∈ links.keys ∧ keep p := by
  rw [Links.mem_keys_iff, Links.mem_keys_iff]
  simp [Links.retain]

/-- The entries `retain` keeps are unchanged. -/
theorem Links.lookup_retain :
    (links.retain keep).lookup p = some t ↔ links.lookup p = some t ∧ keep p := by
  rw [← Option.mem_def, ← Option.mem_def, AList.mem_lookup_iff, AList.mem_lookup_iff]
  simp [Links.retain]

end Retain

namespace Client

/-! ## `push_config`

The client sends the keys of its links and reads one reply. With `accept_conflict` a partial reply
narrows the links to the ports it names, and is an error when it names none although some were
asked for; without it every partial reply is an error. When the call fails the links are as they
were. -/

inductive PushError
  /-- The write of the configuration, the read of the reply, or its decoding. -/
  | transport
  /-- "No config was accepted" -/
  | noConfigAccepted
  /-- "Push config failed: {:?}" -/
  | pushConfigFailed (msg : Server.JsonMessage)
  deriving DecidableEq, Repr

/-- How a call of `push_config` ends; it panics when `self.id.unwrap()` does. -/
inductive PushOutcome
  | ok
  | err (e : PushError)
  | panicked
  deriving DecidableEq, Repr

/-- The message `push_config` sends. -/
def pushedConfig (c : Client) : JsonMessage :=
  .pushConfig c.config.links.keys c.config.heartbeatInterval

/-- What the read and the decoding of a reply give; `none` when one of them fails. -/
def receivedReply : Option Server.JsonMessage → Except PushError Server.JsonMessage
  | some msg => .ok msg
  | none => .error .transport

/-- `push_config` from the reply of the server on. -/
def pushConfig (c : Client) (reply : Except PushError Server.JsonMessage) : PushOutcome × Client :=
  match reply with
  | .error e => (.err e, c)
  | .ok msg =>
      match c.id with
      | none => (.panicked, c)
      | some _ =>
          match msg with
          | .acceptConfig .all => (.ok, c)
          | .acceptConfig (.part ports) =>
              if c.config.acceptConflict then
                if ports.isEmpty && !c.config.links.keys.isEmpty then (.err .noConfigAccepted, c)
                else (.ok, { c with config.links := c.config.links.retain fun k => k ∈ ports })
              else (.err (.pushConfigFailed msg), c)
          | _ => (.err (.pushConfigFailed msg), c)

/-- **What `push_config` does when it succeeds.** -/
theorem pushConfig_ok {c : Client} {reply : Except PushError Server.JsonMessage}
    (h : (c.pushConfig reply).1 = .ok) :
    (reply = .ok (.acceptConfig .all) ∧ (c.pushConfig reply).2 = c) ∨
      ∃ ports, reply = .ok (.acceptConfig (.part ports)) ∧
        (c.pushConfig reply).2
          = { c with config.links := c.config.links.retain fun k => k ∈ ports } := by
  unfold pushConfig at h ⊢
  split at h
  · cases h
  · split at h
    · cases h
    · split at h
      · exact Or.inl ⟨rfl, rfl⟩
      · split at h
        · split at h
          · cases h
          · rename_i ports hconflict hempty
            exact Or.inr ⟨ports, rfl, by simp [hconflict, hempty]⟩
        · cases h
      · cases h

/-- Any other `push_config` leaves the client as it was. -/
theorem pushConfig_not_ok {c : Client} {reply : Except PushError Server.JsonMessage}
    (h : (c.pushConfig reply).1 ≠ .ok) : (c.pushConfig reply).2 = c := by
  unfold pushConfig at h ⊢
  split at h
  · rfl
  · split at h
    · rfl
    · split at h
      · exact absurd rfl h
      · split at h
        · split at h
          · rename_i hconflict hempty
            simp [hconflict, hempty]
          · exact absurd rfl h
        · rename_i hconflict
          simp [hconflict]
      · rfl

/-- `self.id.unwrap()` is safe in a client with an id. -/
theorem pushConfig_ne_panicked {c : Client} {i : Nat} (hid : c.id = some i)
    (reply : Except PushError Server.JsonMessage) : (c.pushConfig reply).1 ≠ .panicked := by
  unfold pushConfig
  split
  · simp
  · simp only [hid]
    split
    · simp
    · split
      · split <;> simp
      · simp
    · simp

/-- Every `push_config` keeps the id, and the links it keeps are unchanged. -/
theorem pushConfig_client (c : Client) (reply : Except PushError Server.JsonMessage) :
    (c.pushConfig reply).2.id = c.id ∧
      ∀ p t, (c.pushConfig reply).2.config.links.lookup p = some t →
        c.config.links.lookup p = some t := by
  by_cases hok : (c.pushConfig reply).1 = .ok
  · rcases pushConfig_ok hok with ⟨-, hc⟩ | ⟨ports, -, hc⟩
    · rw [hc]
      exact ⟨rfl, fun _ _ ht => ht⟩
    · rw [hc]
      exact ⟨rfl, fun p t ht => (Links.lookup_retain.mp ht).1⟩
  · rw [pushConfig_not_ok hok]
    exact ⟨rfl, fun _ _ ht => ht⟩

end Client

end Rslinker
