import Rslinker.Protocol.Message
import Mathlib.Data.Finset.Basic
import Mathlib.Data.Multiset.Dedup

set_option autoImplicit false

/-! # What a controller does with the shared ports

The functions of `Controller` that read or write `using_ports`, the set of ports in use on the
server: the loop of `accept_config`, the reply it chooses, `start_monitors`, and the `retain` of
`cleanup`.

They are pure functions here, of the set and of the requested ports. The awaits around them, at
which other controllers may run or something may fail, are steps of the systems in `Ports.lean` and
the modules behind it.
-/

namespace Rslinker.Controller

/-! ## `accept_config`

The loop sorts the requested ports into those it has newly put into the set and those that are
there already. A port that is requested twice is granted the first time and refused the second, by
the controller itself. The reply is `All` when nothing is refused, and the list of the granted ones
otherwise. -/

/-- The variables of the loop of `accept_config`: the set behind the write lock, and the two lists
the requested ports are sorted into. -/
structure Reservation where
  usingPorts : Finset Port
  success : List Port
  failed : List Port
  deriving DecidableEq

/-- The body of the loop. -/
def reservePort (r : Reservation) (i : Port) : Reservation :=
  if i ∈ r.usingPorts then { r with failed := r.failed ++ [i] }
  else { r with usingPorts := insert i r.usingPorts, success := r.success ++ [i] }

/-- The loop of `accept_config` over the requested ports. -/
def reserve (usingPorts : Finset Port) (ports : List Port) : Reservation :=
  ports.foldl reservePort ⟨usingPorts, [], []⟩

/-- The reply `accept_config` sends. -/
def Reservation.accepted (r : Reservation) : Accepted :=
  if r.failed.isEmpty then .all else .part r.success

/-- What the loop has done after the ports `ports`, starting from the set `used`. -/
structure Reserved (used : Finset Port) (ports : List Port) (r : Reservation) : Prop where
  usingPorts : r.usingPorts = used ∪ r.success.toFinset
  nodup : r.success.Nodup
  fresh : ∀ p ∈ r.success, p ∉ used
  sorted : (r.success ++ r.failed).Perm ports
  refused : ∀ p ∈ r.failed, p ∈ r.usingPorts

theorem Reserved.reservePort {used : Finset Port} {ports : List Port} {r : Reservation}
    (h : Reserved used ports r) (i : Port) : Reserved used (ports ++ [i]) (reservePort r i) := by
  obtain ⟨huse, hnodup, hfresh, hsorted, hrefused⟩ := h
  by_cases hi : i ∈ r.usingPorts
  · have heq : Controller.reservePort r i = { r with failed := r.failed ++ [i] } := if_pos hi
    rw [heq]
    refine ⟨huse, hnodup, hfresh, ?_, ?_⟩
    · rw [← List.append_assoc]
      exact hsorted.append_right [i]
    · intro p hp
      rcases List.mem_append.mp hp with hp | hp
      · exact hrefused p hp
      · rwa [List.mem_singleton.mp hp]
  · have heq : Controller.reservePort r i
        = { r with usingPorts := insert i r.usingPorts, success := r.success ++ [i] } := if_neg hi
    rw [heq]
    have hnew : i ∉ used ∧ i ∉ r.success := by
      simpa [huse] using hi
    refine ⟨?_, ?_, ?_, ?_, ?_⟩
    · ext p
      simp only [huse, Finset.mem_insert, Finset.mem_union, List.mem_toFinset, List.mem_append,
        List.mem_singleton]
      tauto
    · exact List.nodup_append.mpr ⟨hnodup, List.nodup_singleton i, by
        rintro a ha b hb rfl
        exact hnew.2 (List.mem_singleton.mp hb ▸ ha)⟩
    · intro p hp
      rcases List.mem_append.mp hp with hp | hp
      · exact hfresh p hp
      · rw [List.mem_singleton.mp hp]
        exact hnew.1
    · have hperm : ((r.success ++ [i]) ++ r.failed).Perm ((r.success ++ r.failed) ++ [i]) := by
        rw [List.append_assoc, List.append_assoc]
        exact List.perm_append_comm.append_left _
      exact hperm.trans (hsorted.append_right [i])
    · exact fun p hp => Finset.mem_insert_of_mem (hrefused p hp)

/-- **What the loop of `accept_config` does**, for every set of ports in use and every request. -/
theorem reserve_reserved (used : Finset Port) (ports : List Port) :
    Reserved used ports (reserve used ports) := by
  have hrun : ∀ (rest done : List Port) (r : Reservation), Reserved used done r →
      Reserved used (done ++ rest) (rest.foldl Controller.reservePort r) := by
    intro rest
    induction rest with
    | nil =>
        intro done r h
        simpa using h
    | cons i rest ih =>
        intro done r h
        have := ih (done ++ [i]) _ (h.reservePort i)
        rwa [List.append_assoc, List.singleton_append] at this
  exact hrun ports [] ⟨used, [], []⟩ ⟨by simp, by simp, by simp, by simp, by simp⟩

section Reserve

variable {used : Finset Port} {ports : List Port} {p : Port}

theorem mem_reserve_success : p ∈ (reserve used ports).success ↔ p ∈ ports ∧ p ∉ used := by
  obtain ⟨huse, -, hfresh, hsorted, hrefused⟩ := reserve_reserved used ports
  constructor
  · exact fun hp => ⟨hsorted.subset (List.mem_append_left _ hp), hfresh p hp⟩
  · rintro ⟨hp, hnot⟩
    rcases List.mem_append.mp (hsorted.symm.subset hp) with hp | hp
    · exact hp
    · have hin := hrefused p hp
      rw [huse] at hin
      simpa [hnot] using hin

/-- The ports this reservation has newly put into the set are those it reports as granted. -/
theorem reserve_usingPorts_sdiff :
    (reserve used ports).usingPorts \ used = (reserve used ports).success.toFinset := by
  obtain ⟨huse, -, hfresh, -, -⟩ := reserve_reserved used ports
  rw [huse, Finset.union_sdiff_left]
  ext p
  simp only [Finset.mem_sdiff, List.mem_toFinset]
  exact ⟨fun h => h.1, fun h => ⟨h, hfresh p h⟩⟩

/-- When nothing is refused, everything that was requested is granted. -/
theorem reserve_success_of_failed_nil (h : (reserve used ports).failed = []) :
    (reserve used ports).success.toFinset = ports.toFinset := by
  have hsorted := (reserve_reserved used ports).sorted
  rw [h, List.append_nil] at hsorted
  exact List.toFinset_eq_of_perm _ _ hsorted

end Reserve

/-! ## `start_monitors`

One monitor for each port of the controller, of the kind that the port names. The ports are a set,
so no port gets two; the address is the one the server listens on, with the number of the port. -/

/-- A monitor task, with the port of the address it listens on and the id of its employee. -/
inductive Monitor
  | tcp (addr : UInt16) (employee : Port)
  | udp (addr : UInt16) (employee : Port)
  deriving DecidableEq, Repr

/-- The body of the loop of `start_monitors`. -/
def monitorOf (i : Port) : Monitor :=
  match i.protocol with
  | .tcp => .tcp i.port i
  | .udp => .udp i.port i

/-- `start_monitors`. A `HashSet` is iterated in no particular order. -/
def startMonitors (ports : Finset Port) : Multiset Monitor := ports.val.map monitorOf

theorem monitorOf_injective : Function.Injective monitorOf := by
  -- the employee of a monitor is the port it was started for
  have hemployee : ∀ i : Port, monitorOf i = .tcp i.port i ∨ monitorOf i = .udp i.port i := by
    intro i
    unfold monitorOf
    split
    · exact Or.inl rfl
    · exact Or.inr rfl
  intro i j h
  rcases hemployee i with hi | hi <;> rcases hemployee j with hj | hj
  · rw [hi, hj] at h
    exact (Monitor.tcp.inj h).2
  · rw [hi, hj] at h
    cases h
  · rw [hi, hj] at h
    cases h
  · rw [hi, hj] at h
    exact (Monitor.udp.inj h).2

/-- **One monitor for each port**, of the kind the port names, and no other. -/
theorem count_startMonitors (ports : Finset Port) (m : Monitor) :
    (startMonitors ports).count m = if ∃ p ∈ ports, m = monitorOf p then 1 else 0 := by
  have hnodup : (startMonitors ports).Nodup := ports.nodup.map monitorOf_injective
  rw [Multiset.count_eq_of_nodup hnodup]
  have hmem : m ∈ startMonitors ports ↔ ∃ p ∈ ports, m = monitorOf p := by
    simp [startMonitors, eq_comm]
  simp only [hmem]

theorem count_startMonitors_tcp (ports : Finset Port) (addr : UInt16) (i : Port) :
    (startMonitors ports).count (.tcp addr i) =
      if i ∈ ports ∧ i.protocol = .tcp ∧ addr = i.port then 1 else 0 := by
  rw [count_startMonitors]
  refine if_congr ⟨?_, ?_⟩ rfl rfl
  · rintro ⟨j, hj, hmonitor⟩
    unfold monitorOf at hmonitor
    split at hmonitor
    · obtain ⟨rfl, rfl⟩ := Monitor.tcp.inj hmonitor
      exact ⟨hj, by assumption, rfl⟩
    · cases hmonitor
  · rintro ⟨hi, hprotocol, rfl⟩
    exact ⟨i, hi, by simp [monitorOf, hprotocol]⟩

theorem count_startMonitors_udp (ports : Finset Port) (addr : UInt16) (i : Port) :
    (startMonitors ports).count (.udp addr i) =
      if i ∈ ports ∧ i.protocol = .udp ∧ addr = i.port then 1 else 0 := by
  rw [count_startMonitors]
  refine if_congr ⟨?_, ?_⟩ rfl rfl
  · rintro ⟨j, hj, hmonitor⟩
    unfold monitorOf at hmonitor
    split at hmonitor
    · cases hmonitor
    · obtain ⟨rfl, rfl⟩ := Monitor.udp.inj hmonitor
      exact ⟨hj, by assumption, rfl⟩
  · rintro ⟨hi, hprotocol, rfl⟩
    exact ⟨i, hi, by simp [monitorOf, hprotocol]⟩

/-! ## `cleanup`

The ports of the controller are taken out of the set, whoever has put them there. That they are
still its own is a theorem about the system (`ports_exclusive`), not a check of the code. -/

/-- The `retain` of `cleanup`. -/
def release (usingPorts ports : Finset Port) : Finset Port := usingPorts.filter (fun p => p ∉ ports)

@[simp] theorem mem_release {usingPorts ports : Finset Port} {p : Port} :
    p ∈ release usingPorts ports ↔ p ∈ usingPorts ∧ p ∉ ports := Finset.mem_filter

end Rslinker.Controller
