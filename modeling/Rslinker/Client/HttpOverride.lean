import Rslinker.Client.HttpForward

set_option autoImplicit false

/-! # Which headers are overridden

Every line of a header that the loop writes has been looked up in the table of overrides. The loop
ends with the headers of the first request of a connection; a later request is relayed as it is
(`overridden_before_relay`).

The lookup ignores the case of ASCII letters, since the keys of the table are `Ascii<String>`, and
the value it gives is written in the place of the one the peer has sent. The name is written as the
peer has spelled it. What comes with the last read of the loop, behind the headers, has been parsed
with them and is not relayed any more.
-/

namespace Rslinker

namespace HttpChannel

variable {t : HttpSetup}

/-- A line of a header has the value that the table gives for it. -/
theorem value_of_mem_putsWith {sent : Bool} {p : RequestParser t.llhttp} {name value : Bytes}
    (h : .header name value ∈ putsWith t sent p) :
    ∃ original, value = (t.overrideHeaders.get name).getD original := by
  simp only [putsWith, List.mem_append] at h
  rcases h with (h | h) | h
  · unfold putLine at h
    split at h
    · split at h <;> simp at h
    · simp at h
  · unfold putHeaders at h
    split at h
    · simp at h
    · obtain ⟨e, -, he⟩ := List.mem_map.mp h
      cases he
      exact ⟨e.2, rfl⟩
  · unfold putEnd at h
    split at h <;> simp at h

theorem value_of_mem_puts {c : HttpChannel t.llhttp} {events : List HttpEvent} {name value : Bytes}
    (h : .header name value ∈ puts t c events) :
    ∃ original, value = (t.overrideHeaders.get name).getD original := by
  induction events generalizing c with
  | nil => simp [puts] at h
  | cons e es ih =>
      rcases List.mem_append.mp h with h | h
      · unfold putsOf at h
        split at h
        · split at h
          · exact value_of_mem_putsWith h
          · simp at h
        · simp at h
      · split at h
        · exact ih h
        · simp at h

/-- **Overrides before the relay.** In every run of the loop, up to any of its passes and whatever
is read: what has gone to the local service, or is in the buffer for it, consists of the pieces
`puts`, and in each line of a header whose name is, ignoring ASCII case, that of an override the
value is that of the override. What the relay reads behind the loop, requests that begin there
included, is relayed as it is. -/
theorem overridden_before_relay (hdistinct : Distinct t.override_) {events : List HttpEvent}
    {c : HttpChannel t.llhttp}
    (hloop : loop t (new t.llhttp) events = .next c ∨ loop t (new t.llhttp) events = .done c) :
    c.toLocal ++ c.overrideRemoteBuf = (puts t (new t.llhttp) events).flatMap Put.bytes ∧
      (∀ name value, .header name value ∈ puts t (new t.llhttp) events →
        (∀ e ∈ t.override_, asciiEq e.1 name → value = e.2) ∧
        (t.autoOverride → asciiEq [72, 111, 115, 116] name →
          (∀ e ∈ t.override_, ¬ asciiEq e.1 name) → value = t.host)) ∧
      (loop t (new t.llhttp) events = .done c → ∀ acts c', run relay c acts = some c' →
        c'.toLocal ++ c'.overrideRemoteBuf
          = (puts t (new t.llhttp) events).flatMap Put.bytes ++ copied acts) := by
  have hout : c.out = (puts t (new t.llhttp) events).flatMap Put.bytes := by
    have hpost := loop_out t (new t.llhttp) events
    rcases hloop with hloop | hloop
    · rw [hloop] at hpost
      exact hpost
    · exact out_of_done hloop
  refine ⟨hout, ?_, ?_⟩
  · intro name value hmem
    obtain ⟨original, rfl⟩ := value_of_mem_puts hmem
    constructor
    · intro e he hname
      rw [HttpSetup.get_overrideHeaders_of_mem hdistinct he hname]
      rfl
    · intro hauto hname hnone
      rw [HttpSetup.get_overrideHeaders_host hnone hauto hname]
      rfl
  · intro _ acts c' hrun
    rw [← hout]
    exact run_relay_out hrun

/-- The rule at a request with a header `Host: a` where the override is `b`. -/
theorem overridden_before_relay_host :
    ∃ c, loop (oneRead true [98] (getHead [([72, 111, 115, 116], [97])]) [] []) (new _)
        (inOneRead (getHead [([72, 111, 115, 116], [97])]) []) = .done c ∧
      c.toLocal ++ c.overrideRemoteBuf = (getHead [([72, 111, 115, 116], [98])]).bytes := by
  obtain ⟨c, hdone⟩ : ∃ c, loop (oneRead true [98] (getHead [([72, 111, 115, 116], [97])]) [] [])
      (new _) (inOneRead (getHead [([72, 111, 115, 116], [97])]) []) = .done c := ⟨_, rfl⟩
  have hdistinct : Distinct
      (oneRead true [98] (getHead [([72, 111, 115, 116], [97])]) [] []).override_ := .nil
  exact ⟨c, hdone, (overridden_before_relay hdistinct (Or.inr hdone)).1.trans rfl⟩

/-- The lines of a text, which end with `\r\n`. -/
def splitLines : Bytes → Bytes → List Bytes
  | line, [] => [line]
  | line, [b] => [line ++ [b]]
  | line, a :: b :: rest =>
      if a = 13 ∧ b = 10 then line :: splitLines [] rest else splitLines (line ++ [a]) (b :: rest)

/-- Two requests on a connection, each with the header `Host: a` and nothing else. The second one is
relayed, and the local service gets its header as it was. -/
theorem not_overridden_second_request :
    ¬ ∀ (t : HttpSetup) (requests : List Head) (events : List HttpEvent) (acts : List RelayEvent)
      (c c' : HttpChannel t.llhttp), t.llhttp.Documented → Distinct t.override_ →
      (∀ e ∈ events, e.Works) →
      (∀ r ∈ requests, ∃ value, r = getHead [([72, 111, 115, 116], value)]) →
      (reads events).flatten ++ copied acts = requests.flatMap Head.bytes →
      loop t (new t.llhttp) events = .done c → run relay c acts = some c' →
      ∀ line ∈ splitLines [] c'.toLocal, ∀ name value v, line = name ++ [58, 32] ++ value →
        t.overrideHeaders.get name = some v → value = v := by
  intro hall
  set first := getHead [([72, 111, 115, 116], [97])] with hfirst
  obtain ⟨c, hdone, c', hrun, hlines⟩ : ∃ c,
      loop (oneRead true [98] first [] []) (new _) (inOneRead first []) = .done c ∧
      ∃ c', run relay c [.flushLocal (.ok 64), .toLocal first.bytes] = some c' ∧
        [72, 111, 115, 116, 58, 32, 97] ∈ splitLines [] c'.toLocal :=
    ⟨_, rfl, _, rfl, by decide⟩
  have hrequests : ∀ r ∈ [first, first], ∃ value, r = getHead [([72, 111, 115, 116], value)] := by
    intro r hr
    refine ⟨[97], ?_⟩
    simpa using hr
  have hvalue := hall (oneRead true [98] first [] []) [first, first] (inOneRead first [])
    [.flushLocal (.ok 64), .toLocal first.bytes] c c'
    (scripted_head_documented (ascii_getHead (by simp [Utf8.isAscii])) [] (by simp) (by simp))
    List.Pairwise.nil (inOneRead_works _ _) hrequests rfl hdone hrun _ hlines
    [72, 111, 115, 116] [97] [98] rfl rfl
  exact absurd hvalue (by decide)

end HttpChannel

end Rslinker
