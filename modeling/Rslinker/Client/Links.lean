import Rslinker.Client.Session

set_option autoImplicit false

/-! # The links of a configuration

`run_client_with_config` builds the links of a client from the `link` tables of its configuration.
Links with an address that cannot be resolved or with an unknown protocol are skipped; a malformed
`http` link stops the client.

The links go into a `HashMap` with the remote port as the key, so of two links for one port the
later one counts. The protocol of the port is decided by that of the link: `tcp`, `ssh`, `tls` and
`http` stand for streams, `udp`, `quic` and `kcp` for datagrams. This is what makes the
announcements of the server fit the local targets.
-/

namespace Rslinker

namespace Config

/-- A TOML value. A table is its list of entries. -/
inductive Value
  | string (s : String)
  | integer (n : Int)
  | float (bits : UInt64)
  | boolean (b : Bool)
  | datetime (text : String)
  | array (values : List Value)
  | table (entries : List (String × Value))

def Value.get (entries : List (String × Value)) (key : String) : Option Value :=
  (entries.find? fun e => e.1 = key).map Prod.snd

def Value.asBool : Value → Option Bool
  | .boolean b => some b
  | _ => none

def Value.asStr : Value → Option String
  | .string s => some s
  | _ => none

def Value.asTable : Value → Option (List (String × Value))
  | .table entries => some entries
  | _ => none

structure Link where
  localAddr : String
  localPort : UInt16
  remotePort : UInt16
  protocol : String
  extra : List (String × Value)

end Config

open Config

/-- `HashMap::insert` on a map with `Ascii` keys: an equal key keeps its spelling. -/
def insertOverride (map : List (String × String)) (key value : String) : List (String × String) :=
  match map with
  | [] => [(key, value)]
  | (k, v) :: rest =>
      if k.toLower = key.toLower then (k, value) :: rest
      else (k, v) :: insertOverride rest key value

/-- The loop over the entries of `override`. -/
def readOverride (map : List (String × String)) :
    List (String × Value) → Except String (List (String × String))
  | [] => .ok map
  | (key, value) :: rest =>
      match value.asStr with
      | some value => readOverride (insertOverride map key value) rest
      | none => .error "http override value must be str"

/-- The transfer of an `http` link. -/
def httpTransfer (addr : CacheAddr) (extra : List (String × Value)) :
    Except String TransferProtocol :=
  match ((Value.get extra "auto_override").getD (.boolean true)).asBool with
  | none => .error "auto_override must be bool value"
  | some autoOverride =>
      match ((Value.get extra "override").getD (.table [])).asTable with
      | none => .error "override must be a table that contains key(string) and value(string)"
      | some entries => (readOverride [] entries).map fun map => .http autoOverride map addr

/-- The transfer of a link and the protocol of its port; `none` for a link that is skipped. -/
def transferOf (resolve : String → Option CacheAddr) (j : Link) :
    Except String (Option (TransferProtocol × BasicProtocol)) :=
  match resolve (j.localAddr ++ ":" ++ toString j.localPort.toNat) with
  | none => .ok none
  | some addr =>
      if j.protocol = "tcp" ∨ j.protocol = "ssh" ∨ j.protocol = "tls" then
        .ok (some (.rawTcp addr, .tcp))
      else if j.protocol = "http" then
        (httpTransfer addr j.extra).map fun transfer => some (transfer, .tcp)
      else if j.protocol = "udp" ∨ j.protocol = "quic" ∨ j.protocol = "kcp" then
        .ok (some (.rawUdp addr, .udp))
      else .ok none

/-- The loop of `run_client_with_config`. -/
def buildLinks (resolve : String → Option CacheAddr) (links : Links) :
    List Link → Except String Links
  | [] => .ok links
  | j :: rest =>
      match transferOf resolve j with
      | .error e => .error e
      | .ok none => buildLinks resolve links rest
      | .ok (some (transfer, basic)) =>
          buildLinks resolve (links.insert ⟨j.remotePort, basic⟩ transfer) rest

/-- The local target of a transfer takes a stream (`TcpStream`), not datagrams (`UdpSocket`). -/
def TransferProtocol.isStream : TransferProtocol → Bool
  | .rawTcp _ | .http _ _ _ => true
  | .rawUdp _ => false

/-- A stream target serves a TCP port, a datagram target a UDP port. -/
def Links.KindsAgree (links : Links) : Prop :=
  ∀ p t, links.lookup p = some t → (t.isStream ↔ p.protocol = .tcp)

theorem httpTransfer_isStream {addr : CacheAddr} {extra : List (String × Value)}
    {t : TransferProtocol} (h : httpTransfer addr extra = .ok t) : t.isStream := by
  unfold httpTransfer at h
  split at h
  · cases h
  · split at h
    · cases h
    · rename_i entries _
      rcases hread : readOverride [] entries with e | map
      · rw [hread] at h
        cases h
      · rw [hread] at h
        cases h
        rfl

theorem transferOf_kind {resolve : String → Option CacheAddr} {j : Link} {t : TransferProtocol}
    {basic : BasicProtocol} (h : transferOf resolve j = .ok (some (t, basic))) :
    t.isStream ↔ basic = .tcp := by
  unfold transferOf at h
  split at h
  · cases h
  · rename_i addr _
    split at h
    · cases h
      simp [TransferProtocol.isStream]
    · split at h
      · rcases hhttp : httpTransfer addr j.extra with e | transfer
        · rw [hhttp] at h
          cases h
        · rw [hhttp] at h
          cases h
          simp [httpTransfer_isStream hhttp]
      · split at h
        · cases h
          simp [TransferProtocol.isStream]
        · cases h

/-- **The links of every configuration** map TCP ports to streams and UDP ports to datagrams. -/
theorem buildLinks_kindsAgree {resolve : String → Option CacheAddr} {config : List Link}
    {links built : Links} (hlinks : links.KindsAgree)
    (h : buildLinks resolve links config = .ok built) : built.KindsAgree := by
  induction config generalizing links with
  | nil =>
      cases h
      exact hlinks
  | cons j rest ih =>
      simp only [buildLinks] at h
      split at h
      · cases h
      · exact ih hlinks h
      · rename_i transfer basic htransfer
        refine ih ?_ h
        intro p t hp
        by_cases hkey : p = ⟨j.remotePort, basic⟩
        · subst hkey
          rw [AList.lookup_insert] at hp
          cases hp
          exact transferOf_kind htransfer
        · rw [AList.lookup_insert_ne hkey] at hp
          exact hlinks p t hp

end Rslinker
