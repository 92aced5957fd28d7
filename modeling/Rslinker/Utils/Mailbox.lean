import Rslinker.Basic.Transition
import Rslinker.Utils.Chat
import Mathlib.Data.Set.Card

set_option autoImplicit false

/-! # What leaders and employees see of a history

A history is a list of operations on one leader and its employees, in any order: ids may be hired
again and employees dropped at any time. `fired` gives the sender it removes to its caller, who
drops it. What every operation returns is determined by the operations before it, without looking
at the channels.

The plan is the usual one for a concrete data structure. `Recorded` says which functions of the
history (`yielded`, `received`, `made`, `placed`, `IsCurrent`) the parts of the state are;
`Recorded.concat` keeps it over one more operation, by the case of the operation; and
`mailbox_contract` reads the results of every operation off the functions of the history.
-/

namespace Rslinker.Chat

variable {S R I H : Type*}

inductive Op (S R I H : Type*)
  /-- `hire` makes the employee `h`. -/
  | hire (id : I) (h : H)
  | fired (id : I)
  | sendTo (id : I) (data : S)
  | broadcast (data : S)
  | report (h : H) (msg : R)
  | receive
  /-- `wait` of the employee `h` returns. -/
  | wait (h : H)
  | dropEmployee (h : H)
  deriving DecidableEq

namespace Op

/-- The operation ends the employment under the id. -/
def closes [DecidableEq I] (id : I) : Op S R I H → Bool
  | .hire id' _ | .fired id' => decide (id' = id)
  | _ => false

/-- The message that the operation has for the current employee of the id. -/
def message [DecidableEq I] (id : I) : Op S R I H → Option S
  | .sendTo id' data => if id' = id then some data else none
  | .broadcast data => some data
  | _ => none

theorem message_of_closes [DecidableEq I] {id : I} {op : Op S R I H} (h : op.closes id = true) :
    op.message id = none := by
  cases op with
  | hire | fired => rfl
  | _ => cases h

end Op

/-- What `wait` comes to when these messages are left. -/
def Wait.next (rest : List S) (closed : Bool) : Wait S :=
  match rest with
  | data :: _ => .message data
  | [] => if closed then .closed else .pending

namespace Leader

variable [DecidableEq I] [DecidableEq H]

/-- The employee exists and has not been dropped. -/
def hears (l : Leader S R I H) (h : H) : Bool := (l.employees h).any fun e => !e.dropped

/-- One operation; `none` when it panics or does not return, and for an employee that is not there. -/
def step (l : Leader S R I H) : Op S R I H → Option (Leader S R I H)
  | .hire id h => if (l.employees h).isNone then some (l.hire id h) else none
  | .fired id => l.fired id
  | .sendTo id data => some (l.sendTo id data).2
  | .broadcast data => some (l.broadcast data).1
  | .report h msg =>
      if l.hears h then some (l.report h msg) else none
  | .receive => l.receive.map Prod.snd
  | .wait h =>
      if l.hears h then
        match l.wait h with
        | .message _ => some (l.waited h)
        | .closed => some l
        | .pending => none
      else none
  | .dropEmployee h =>
      if l.hears h then some (l.dropEmployee h) else none

/-- The message that the operation takes from the inbox of `h`. -/
def yieldOf (h : H) (l : Leader S R I H) : Op S R I H → List S
  | .wait h' =>
      if h' = h then
        match l.wait h with
        | .message data => [data]
        | _ => []
      else []
  | _ => []

/-- The report that the operation receives. -/
def receiptOf (l : Leader S R I H) : Op S R I H → List (I × R)
  | .receive => (l.receive.map Prod.fst).toList
  | _ => []

/-! ## Sending

`send_to` and `broadcast` are the same send, to one employee or to all of them. The loop of
`broadcast` counts the sends that succeed and ignores the others. Its senders lead to different
employees, so the order of the loop does not matter, and each of them gets the message once. -/

section Sending

variable {l : Leader S R I H} {h h' : H} {e : Employee S I} {id : I} {data : S}

def put (data : S) (e : Employee S I) : Employee S I :=
  if e.dropped then e else { e with inbox := e.inbox ++ [data] }

omit [DecidableEq I] [DecidableEq H] in
theorem hears_iff : l.hears h = true ↔ ∃ e, l.employees h = some e ∧ e.dropped = false := by
  simp [hears, Option.any_eq_true]

omit [DecidableEq I] [DecidableEq H] in
/-- A send to an employee that is not there changes nothing. -/
theorem map_put_of_not_hears (hnot : l.hears h = false) :
    (l.employees h).map (put data) = l.employees h := by
  rcases he : l.employees h with _ | e
  · rfl
  · have hdropped : e.dropped = true := by simpa [hears, he] using hnot
    simp [put, hdropped]

omit [DecidableEq I] in
theorem push_eq : l.push h data
    = if l.hears h then
        some { l with employees := Function.update l.employees h ((l.employees h).map (put data)) }
      else none := by
  unfold push hears
  rcases he : l.employees h with _ | e
  · rfl
  · rcases hd : e.dropped with _ | _
    · simp [put, hd]
    · simp [hd]

def reach (data : S) (acc : Leader S R I H × Nat) (e : (_ : I) × H) : Leader S R I H × Nat :=
  match acc.1.push e.2 data with
  | some l' => (l', acc.2 + 1)
  | none => acc

omit [DecidableEq I] in
theorem reach_eq {n : Nat} {e : (_ : I) × H} : reach data (l, n) e
    = if l.hears e.2 then
        ({ l with employees :=
            Function.update l.employees e.2 ((l.employees e.2).map (put data)) }, n + 1)
      else (l, n) := by
  unfold reach
  rw [push_eq]
  cases l.hears e.2 <;> simp

structure Reached (data : S) (entries : List ((_ : I) × H)) (l : Leader S R I H) (n : Nat)
    (r : Leader S R I H × Nat) : Prop where
  senders : r.1.senders = l.senders
  reports : r.1.reports = l.reports
  employees : ∀ h, r.1.employees h
    = if h ∈ entries.map (fun e => e.2) then (l.employees h).map (put data) else l.employees h
  count : r.2 = n + entries.countP fun e => l.hears e.2

omit [DecidableEq I] in
theorem foldl_reach (data : S) (entries : List ((_ : I) × H)) :
    ∀ (l : Leader S R I H) (n : Nat), (entries.map fun e => e.2).Nodup →
      Reached data entries l n (entries.foldl (reach data) (l, n)) := by
  induction entries with
  | nil => exact fun l n _ => ⟨rfl, rfl, fun _ => rfl, rfl⟩
  | cons e rest ih =>
      intro l n hnodup
      obtain ⟨hnew, hrest⟩ := List.nodup_cons.mp hnodup
      have hothers : ∀ h, h ≠ e.2 →
          (h ∈ (e :: rest).map (fun e => e.2) ↔ h ∈ rest.map fun e => e.2) :=
        fun h hne => List.mem_cons.trans (or_iff_right hne)
      have hself : e.2 ∈ (e :: rest).map (fun e => e.2) := List.mem_cons_self
      rw [List.foldl_cons, reach_eq]
      cases hhears : l.hears e.2 with
      | false =>
          obtain ⟨hsenders, hreports, hemployees, hcount⟩ := ih l n hrest
          refine ⟨hsenders, hreports, fun h => ?_, ?_⟩
          · have hsame := hemployees h
            by_cases heq : h = e.2
            · subst heq
              rw [if_neg hnew] at hsame
              rw [if_pos hself, map_put_of_not_hears hhears]
              exact hsame
            · exact hsame.trans (if_congr (hothers h heq).symm rfl rfl)
          · simpa [hhears] using hcount
      | true =>
          set l' : Leader S R I H := { l with
            employees := Function.update l.employees e.2 ((l.employees e.2).map (put data)) } with hl'
          obtain ⟨hsenders, hreports, hemployees, hcount⟩ := ih l' (n + 1) hrest
          refine ⟨hsenders, hreports, fun h => ?_, ?_⟩
          · have hsame := hemployees h
            by_cases heq : h = e.2
            · subst heq
              rw [if_neg hnew] at hsame
              rw [if_pos hself]
              simpa [hl'] using hsame
            · have hkeep : l'.employees h = l.employees h := Function.update_of_ne heq _ _
              rw [hkeep] at hsame
              exact hsame.trans (if_congr (hothers h heq).symm rfl rfl)
          · -- the employees of the other entries hear as before
            have hsame : rest.countP (fun e => l'.hears e.2) = rest.countP fun e => l.hears e.2 := by
              apply List.countP_congr
              intro e' he'
              have hne : e'.2 ≠ e.2 := fun heq => hnew (List.mem_map.mpr ⟨e', he', heq⟩)
              simp [hears, hl', hne]
            have htotal : (rest.foldl (reach data) (l', n + 1)).2
                = n + 1 + rest.countP fun e => l.hears e.2 := by rw [hcount, hsame]
            show (rest.foldl (reach data) (l', n + 1)).2 = _
            rw [htotal, List.countP_cons_of_pos (p := fun e : (_ : I) × H => l.hears e.2) hhears]
            omega

/-- Every sender of the leader leads to an employee of its id. -/
def Sound (l : Leader S R I H) : Prop :=
  ∀ id h, l.senders.lookup id = some h → ∃ e, l.employees h = some e ∧ e.id = id

omit [DecidableEq H] in
theorem mem_handles_iff : h ∈ l.senders.entries.map (fun e => e.2) ↔
    ∃ id, l.senders.lookup id = some h := by
  simp only [List.mem_map, ← Option.mem_def, AList.mem_lookup_iff]
  constructor
  · rintro ⟨⟨id, h'⟩, hmem, rfl⟩
    exact ⟨id, hmem⟩
  · rintro ⟨id, hmem⟩
    exact ⟨⟨id, h⟩, hmem, rfl⟩

omit [DecidableEq H] in
/-- The senders lead to different employees. -/
theorem Sound.nodup (hs : l.Sound) : (l.senders.entries.map fun e => e.2).Nodup := by
  apply List.Nodup.map_on
  · rintro ⟨id, h⟩ hmem ⟨id', h'⟩ hmem' heq
    obtain rfl : h = h' := heq
    obtain ⟨e, he, rfl⟩ := hs id h (AList.mem_lookup_iff.mpr hmem)
    obtain ⟨e', he', rfl⟩ := hs id' h (AList.mem_lookup_iff.mpr hmem')
    obtain rfl : e = e' := Option.some.inj (he.symm.trans he')
    rfl
  · exact l.senders.nodupKeys.nodup

theorem broadcast_reached (hs : l.Sound) (data : S) :
    Reached data l.senders.entries l 0 (l.broadcast data) :=
  foldl_reach data l.senders.entries l 0 hs.nodup

/-- What `send_to` does. -/
theorem sendTo_eq : l.sendTo id data
    = match l.senders.lookup id with
      | some h =>
          if l.hears h then
            (.ok (), { l with
              employees := Function.update l.employees h ((l.employees h).map (put data)) })
          else (.error data, l)
      | none => (.error data, l) := by
  unfold sendTo
  cases l.senders.lookup id with
  | none => rfl
  | some h =>
      simp only [push_eq]
      cases l.hears h <;> rfl

theorem sendTo_senders : (l.sendTo id data).2.senders = l.senders := by
  rw [sendTo_eq]
  split
  · split
    · rfl
    · rfl
  · rfl

/-- A message is sent, or it comes back. -/
theorem sendTo_ok_or_error :
    (l.sendTo id data).1 = .ok () ∨ l.sendTo id data = (.error data, l) := by
  rw [sendTo_eq]
  split
  · split
    · exact .inl rfl
    · exact .inr rfl
  · exact .inr rfl

theorem sendTo_reports : (l.sendTo id data).2.reports = l.reports := by
  rw [sendTo_eq]
  split
  · split
    · rfl
    · rfl
  · rfl

theorem sendTo_employees : (l.sendTo id data).2.employees h
    = if l.senders.lookup id = some h then (l.employees h).map (put data) else l.employees h := by
  rw [sendTo_eq]
  split
  · case h_1 h' hlookup =>
      rw [hlookup]
      by_cases heq : h' = h
      · subst heq
        rw [if_pos rfl]
        split
        · simp
        · case isFalse hnot => rw [map_put_of_not_hears (by simpa using hnot)]
      · rw [if_neg fun hsome => heq (Option.some.inj hsome)]
        split
        · exact Function.update_of_ne (fun h => heq h.symm) _ _
        · rfl
  · case h_2 hlookup => rw [hlookup, if_neg (by simp)]

end Sending

/-! ## What a step does to an employee

An operation concerns at most a few employees, and a broadcast all. From the side of one employee
there are four kinds of operations: it gets a message, it takes one, it is dropped, or nothing
happens to it. -/

section Steps

variable {l l' : Leader S R I H} {op : Op S R I H} {h h' : H} {e : Employee S I} {id : I}

inductive Does (l : Leader S R I H) : Op S R I H → Leader S R I H → Prop
  | hire (id : I) (h : H) (hnew : l.employees h = none) : Does l (.hire id h) (l.hire id h)
  | fired (id : I) : Does l (.fired id) { l with senders := l.senders.erase id }
  | sendTo (id : I) (data : S) : Does l (.sendTo id data) (l.sendTo id data).2
  | broadcast (data : S) : Does l (.broadcast data) (l.broadcast data).1
  | report (h : H) (msg : R) (hlive : l.hears h = true) : Does l (.report h msg) (l.report h msg)
  | receive (r : I × R) (rest : List (I × R)) (hreports : l.reports = r :: rest) :
      Does l .receive { l with reports := rest }
  | message (h : H) (data : S) (hlive : l.hears h = true) (hwait : l.wait h = .message data) :
      Does l (.wait h) (l.waited h)
  | closed (h : H) (hlive : l.hears h = true) (hwait : l.wait h = .closed) : Does l (.wait h) l
  | dropEmployee (h : H) (hlive : l.hears h = true) : Does l (.dropEmployee h) (l.dropEmployee h)

theorem step_does (hstep : l.step op = some l') : Does l op l' := by
  cases op with
  | hire id h =>
      obtain ⟨hnew, hstep⟩ := Option.ite_none_right_eq_some.mp hstep
      cases hstep
      exact .hire id h (Option.isNone_iff_eq_none.mp hnew)
  | fired id =>
      obtain ⟨-, hstep⟩ := Option.ite_none_right_eq_some.mp hstep
      cases hstep
      exact .fired id
  | sendTo id data =>
      cases hstep
      exact .sendTo id data
  | broadcast data =>
      cases hstep
      exact .broadcast data
  | report h msg =>
      obtain ⟨hlive, hstep⟩ := Option.ite_none_right_eq_some.mp hstep
      cases hstep
      exact .report h msg hlive
  | receive =>
      obtain ⟨⟨r, l''⟩, hreceive, rfl⟩ := Option.map_eq_some_iff.mp hstep
      unfold Leader.receive at hreceive
      split at hreceive
      · cases hreceive
      · case h_2 rest hreports =>
          cases hreceive
          exact .receive r rest hreports
  | wait h =>
      obtain ⟨hlive, hstep⟩ := Option.ite_none_right_eq_some.mp hstep
      split at hstep
      · case h_1 data hwait =>
          cases hstep
          exact .message h data hlive hwait
      · case h_2 hwait =>
          cases hstep
          exact .closed h hlive hwait
      · cases hstep
  | dropEmployee h =>
      obtain ⟨hlive, hstep⟩ := Option.ite_none_right_eq_some.mp hstep
      cases hstep
      exact .dropEmployee h hlive

/-- The senders change only by `hire` and `fired`. -/
theorem step_lookup (hs : l.Sound) (hstep : l.step op = some l') :
    l'.senders.lookup id = some h ↔
      (l.senders.lookup id = some h ∧ op.closes id = false) ∨ op = .hire id h := by
  have hsame : l'.senders = l.senders → op.closes id = false → op ≠ .hire id h →
      (l'.senders.lookup id = some h ↔
        (l.senders.lookup id = some h ∧ op.closes id = false) ∨ op = .hire id h) := by
    intro hsenders hopen hne
    rw [hsenders, hopen]
    simp [hne]
  cases step_does hstep with
  | hire id' h' =>
      by_cases hid : id' = id
      · subst hid
        simp [hire, Op.closes, eq_comm]
      · have hne : id ≠ id' := fun heq => hid heq.symm
        simp [hire, Op.closes, AList.lookup_insert_ne hne, hid]
  | fired id' =>
      by_cases hid : id' = id
      · subst hid
        simp [Op.closes]
      · have hne : id ≠ id' := fun heq => hid heq.symm
        simp [Op.closes, AList.lookup_erase_ne hne, hid]
  | sendTo id' data => exact hsame sendTo_senders rfl (by simp)
  | broadcast data => exact hsame (broadcast_reached hs data).senders rfl (by simp)
  | report h' msg => exact hsame (report_senders l h' msg) rfl (by simp)
  | receive => exact hsame rfl rfl (by simp)
  | message h' => exact hsame (waited_senders l h') rfl (by simp)
  | closed => exact hsame rfl rfl (by simp)
  | dropEmployee h' => exact hsame (dropEmployee_senders l h') rfl (by simp)

theorem wait_message {data : S} (he : l.employees h = some e) (hwait : l.wait h = .message data) :
    e.inbox = data :: e.inbox.tail := by
  simp only [wait, he] at hwait
  rcases hinbox : e.inbox with _ | ⟨first, rest⟩
  · simp only [hinbox] at hwait
    split at hwait <;> cases hwait
  · simp only [hinbox] at hwait
    cases hwait
    rfl

structure Stepped (l l' : Leader S R I H) (op : Op S R I H) (h : H) (e e' : Employee S I) :
    Prop where
  there : l'.employees h = some e'
  id : e'.id = e.id
  dropped : e'.dropped = true ↔ e.dropped = true ∨ op = .dropEmployee h
  inbox : e'.dropped = false → yieldOf h l op ++ e'.inbox
    = e.inbox ++ if l.senders.lookup e.id = some h then (op.message e.id).toList else []

/-- Nothing is sent to the employee. -/
theorem stepped_same (hthere : l'.employees h = some e) (hdrop : op ≠ .dropEmployee h)
    (hyield : yieldOf h l op = [])
    (hmessage : l.senders.lookup e.id = some h → op.message e.id = none) :
    Stepped l l' op h e e where
  there := hthere
  id := rfl
  dropped := by simp [hdrop]
  inbox _ := by
    rw [hyield]
    split
    · case isTrue hlookup => simp [hmessage hlookup]
    · simp

/-- A message is sent to the employee. -/
theorem stepped_put {data : S} (hthere : l'.employees h = some (put data e))
    (hdrop : op ≠ .dropEmployee h) (hyield : yieldOf h l op = [])
    (hlookup : l.senders.lookup e.id = some h) (hmessage : op.message e.id = some data) :
    Stepped l l' op h e (put data e) where
  there := hthere
  id := by
    unfold put
    split <;> rfl
  dropped := by
    unfold put
    cases hd : e.dropped <;> simp [hd, hdrop]
  inbox hlive := by
    rw [hyield, if_pos hlookup, hmessage]
    unfold put at hlive ⊢
    cases hd : e.dropped with
    | false => simp
    | true => simp [hd] at hlive

theorem step_employee (hs : l.Sound) (hstep : l.step op = some l') (he : l.employees h = some e) :
    ∃ e', Stepped l l' op h e e' := by
  -- an operation that sends to `h` finds its sender under its own id, since the leader is sound
  have hid : ∀ id, l.senders.lookup id = some h → e.id = id := by
    intro id hlookup
    obtain ⟨e', he', hid⟩ := hs id h hlookup
    obtain rfl : e = e' := Option.some.inj (he.symm.trans he')
    exact hid
  cases step_does hstep with
  | hire id' h' hnew =>
      have hne : h ≠ h' := by
        rintro rfl
        cases he.symm.trans hnew
      refine ⟨e, stepped_same ?_ (by simp) rfl fun _ => rfl⟩
      rw [hire_employees_of_ne l id' hne, he]
  | fired id' => exact ⟨e, stepped_same he (by simp) rfl fun _ => rfl⟩
  | sendTo id' data =>
      have hemployees : (l.sendTo id' data).2.employees h
          = if l.senders.lookup id' = some h then (l.employees h).map (put data)
            else l.employees h := sendTo_employees
      by_cases hlookup : l.senders.lookup id' = some h
      · obtain rfl := hid id' hlookup
        rw [if_pos hlookup, he] at hemployees
        exact ⟨_, stepped_put hemployees (by simp) rfl hlookup (if_pos rfl)⟩
      · rw [if_neg hlookup, he] at hemployees
        refine ⟨e, stepped_same hemployees (by simp) rfl fun hcurrent => if_neg ?_⟩
        rintro rfl
        exact hlookup hcurrent
  | broadcast data =>
      have hemployees := (broadcast_reached hs data).employees h
      by_cases hmem : h ∈ l.senders.entries.map fun e => e.2
      · obtain ⟨id, hlookup⟩ := mem_handles_iff.mp hmem
        obtain rfl := hid id hlookup
        rw [if_pos hmem, he] at hemployees
        exact ⟨_, stepped_put hemployees (by simp) rfl hlookup rfl⟩
      · rw [if_neg hmem, he] at hemployees
        refine ⟨e, stepped_same hemployees (by simp) rfl fun hcurrent => ?_⟩
        exact absurd (mem_handles_iff.mpr ⟨e.id, hcurrent⟩) hmem
  | report h' msg =>
      exact ⟨e, stepped_same (by rw [report_employees, he]) (by simp) rfl fun _ => rfl⟩
  | receive => exact ⟨e, stepped_same he (by simp) rfl fun _ => rfl⟩
  | message h' data hlive hwait =>
      by_cases hsame : h' = h
      · subst hsame
        refine ⟨_, waited_employees_self he, rfl, by simp, fun _ => ?_⟩
        have hyield : yieldOf h' l (.wait h' : Op S R I H) = [data] := by simp [yieldOf, hwait]
        rw [hyield]
        simpa [Op.message] using (wait_message he hwait).symm
      · have hne : h ≠ h' := fun heq => hsame heq.symm
        refine ⟨e, stepped_same ?_ (by simp) (if_neg hsame) fun _ => rfl⟩
        rw [waited_employees_of_ne l hne, he]
  | closed h' hlive hwait =>
      refine ⟨e, stepped_same he (by simp) ?_ fun _ => rfl⟩
      by_cases hsame : h' = h
      · subst hsame
        simp [yieldOf, hwait]
      · exact if_neg hsame
  | dropEmployee h' =>
      by_cases hsame : h' = h
      · subst hsame
        refine ⟨{ e with dropped := true }, ?_, rfl, by simp, by simp⟩
        simp [dropEmployee, he]
      · have hne : h ≠ h' := fun heq => hsame heq.symm
        refine ⟨e, stepped_same ?_ (by simpa using hsame) rfl fun _ => rfl⟩
        rw [dropEmployee_employees_of_ne l hne, he]

/-- An employee that does not exist yet. -/
theorem step_newEmployee (hs : l.Sound) (hstep : l.step op = some l') (hnone : l.employees h = none) :
    (l'.employees h = none ∨ ∃ id, op = .hire id h ∧ l'.employees h = some ⟨id, [], false⟩) ∧
      yieldOf h l op = [] ∧ op ≠ .dropEmployee h := by
  have hother : ∀ h', l.hears h' = true → h' ≠ h := by
    rintro h' hlive rfl
    obtain ⟨e, he, -⟩ := hears_iff.mp hlive
    cases he.symm.trans hnone
  cases step_does hstep with
  | hire id' h' =>
      refine ⟨?_, rfl, by simp⟩
      by_cases hsame : h' = h
      · subst hsame
        exact Or.inr ⟨id', rfl, hire_employees_self l id' h'⟩
      · left
        rw [hire_employees_of_ne l id' fun heq => hsame heq.symm, hnone]
  | fired id' => exact ⟨Or.inl hnone, rfl, by simp⟩
  | sendTo id' data =>
      refine ⟨Or.inl ?_, rfl, by simp⟩
      rw [sendTo_employees, hnone]
      simp
  | broadcast data =>
      refine ⟨Or.inl ?_, rfl, by simp⟩
      rw [(broadcast_reached hs data).employees h, hnone]
      simp
  | report h' msg => exact ⟨Or.inl (by rw [report_employees, hnone]), rfl, by simp⟩
  | receive => exact ⟨Or.inl hnone, rfl, by simp⟩
  | message h' data hlive =>
      refine ⟨Or.inl ?_, if_neg (hother h' hlive), by simp⟩
      rw [waited_employees_of_ne l (hother h' hlive).symm, hnone]
  | closed h' hlive => exact ⟨Or.inl hnone, if_neg (hother h' hlive), by simp⟩
  | dropEmployee h' hlive =>
      refine ⟨Or.inl ?_, rfl, by simpa using hother h' hlive⟩
      rw [dropEmployee_employees_of_ne l (hother h' hlive).symm, hnone]

/-- The report that the operation makes. -/
def reportOf (l : Leader S R I H) : Op S R I H → List (I × R)
  | .report h msg => ((l.employees h).map fun e => (e.id, msg)).toList
  | _ => []

/-- Reports are received in the order in which they are made. -/
theorem step_reports (hs : l.Sound) (hstep : l.step op = some l') :
    receiptOf l op ++ l'.reports = l.reports ++ reportOf l op := by
  cases step_does hstep with
  | hire | fired | closed => simp [receiptOf, reportOf]
  | sendTo id' data => simp [receiptOf, reportOf, sendTo_reports]
  | broadcast data => simp [receiptOf, reportOf, (broadcast_reached hs data).reports]
  | report h' msg hlive =>
      obtain ⟨e, he, -⟩ := hears_iff.mp hlive
      simp [receiptOf, reportOf, report_reports he, he]
  | receive r rest hreports => simp [receiptOf, reportOf, receive, hreports]
  | message h' => simp [receiptOf, reportOf]
  | dropEmployee h' => simp [receiptOf, reportOf]

end Steps

/-! ## Histories

The messages for an id between a `hire` and the next `hire` or `fired` of it are for one employee,
and it takes them in this order. So what an employee will see is a function of the operations
behind its `hire` (`Tenure`), and later employees of the same id do not come into it. -/

/-- The messages that `wait` of `h` has returned. -/
def yielded (h : H) (ops : List (Op S R I H)) : List S := outputs step (yieldOf h) new ops

def received (ops : List (Op S R I H)) : List (I × R) := outputs step receiptOf new ops

/-- The reports that have been made. -/
def made (ops : List (Op S R I H)) : List (H × R) :=
  ops.filterMap fun
    | .report h msg => some (h, msg)
    | _ => none

/-- The messages for the id until it is hired again or fired. -/
def placed (id : I) (post : List (Op S R I H)) : List S :=
  (post.takeWhile fun op => !op.closes id).filterMap (Op.message id)

/-- `h` has been hired under the id, and nobody else since, and has not been fired. -/
def IsCurrent (ops : List (Op S R I H)) (id : I) (h : H) : Prop :=
  ∃ pre post, ops = pre ++ .hire id h :: post ∧ ∀ op ∈ post, op.closes id = false

section Histories

variable {l l' : Leader S R I H} {op : Op S R I H} {ops post : List (Op S R I H)} {h : H} {id : I}

omit [DecidableEq H] in
theorem placed_concat : placed id (post ++ [op])
    = placed id post ++
        if ∀ op ∈ post, op.closes id = false then (op.message id).toList else [] := by
  induction post with
  | nil =>
      unfold placed
      rw [List.nil_append, List.takeWhile_cons]
      cases hop : op.closes id with
      | true => simp [Op.message_of_closes hop]
      | false => cases hmessage : op.message id <;> simp [hmessage]
  | cons first post ih =>
      unfold placed at ih ⊢
      rw [List.cons_append, List.takeWhile_cons, List.takeWhile_cons]
      cases hfirst : first.closes id with
      | true => simp [hfirst]
      | false => cases hmessage : first.message id <;> simp [hfirst, ih, hmessage]

/-- What the operations say of an employee that they have hired. -/
structure Tenure (ops : List (Op S R I H)) (l : Leader S R I H) (id : I) (h : H)
    (post : List (Op S R I H)) (e : Employee S I) : Prop where
  there : l.employees h = some e
  underId : e.id = id
  dropped : e.dropped = true ↔ .dropEmployee h ∈ ops
  inbox : e.dropped = false → placed id post = yielded h ops ++ e.inbox
  current : l.senders.lookup id = some h ↔ ∀ op ∈ post, op.closes id = false

/-- What the operations `ops` say of the leader they lead to. -/
structure Recorded (ops : List (Op S R I H)) (l : Leader S R I H) : Prop where
  reached : run step new ops = some l
  sound : l.Sound
  unhired : ∀ h, l.employees h = none → yielded h ops = [] ∧ .dropEmployee h ∉ ops
  hired : ∀ h e, l.employees h = some e → .hire e.id h ∈ ops
  tenure : ∀ pre id h post, ops = pre ++ .hire id h :: post → ∃ e, Tenure ops l id h post e
  reports : List.Forall₂ (fun m r => .hire r.1 m.1 ∈ ops ∧ r.2 = m.2) (made ops)
    (received ops ++ l.reports)

theorem recorded_new : Recorded ([] : List (Op S R I H)) new where
  reached := rfl
  sound := by simp [Sound, new]
  unhired := by simp [yielded, outputs]
  hired := by simp [new]
  tenure := by simp
  reports := by simp [made, received, outputs, new]

/-- A new employee. -/
theorem Recorded.newTenure (hl : Recorded ops l) (hstep : l.step (.hire id h) = some l') :
    Tenure (ops ++ [.hire id h]) l' id h [] ⟨id, [], false⟩ := by
  have hlookup : l'.senders.lookup id = some h := (step_lookup hl.sound hstep).mpr (Or.inr rfl)
  obtain ⟨hnone, hnew⟩ := Option.ite_none_right_eq_some.mp hstep
  obtain rfl := Option.some.inj hnew
  obtain ⟨hyielded, hdrop⟩ := hl.unhired h (Option.isNone_iff_eq_none.mp hnone)
  refine ⟨hire_employees_self l id h, rfl, by simp [hdrop], fun _ => ?_, by simpa using hlookup⟩
  have hconcat : yielded h (ops ++ [.hire id h]) = [] := by
    unfold yielded at hyielded ⊢
    rw [outputs_concat hl.reached, hyielded]
    rfl
  rw [hconcat]
  rfl

/-- One more operation after an employee was hired. -/
theorem Tenure.concat {e : Employee S I} (ht : Tenure ops l id h post e) (hs : l.Sound)
    (hrun : run step new ops = some l) (hstep : l.step op = some l') :
    ∃ e', Tenure (ops ++ [op]) l' id h (post ++ [op]) e' := by
  obtain ⟨e', hstepped⟩ := step_employee hs hstep ht.there
  have hid : e'.id = id := hstepped.id.trans ht.underId
  refine ⟨e', hstepped.there, hid, ?_, fun hlive => ?_, ?_⟩
  · rw [hstepped.dropped, ht.dropped, List.mem_append, List.mem_singleton, eq_comm]
  · -- who has been dropped stays dropped
    have hlive' : e.dropped = false := by
      by_contra hdropped
      have := hstepped.dropped.mpr (Or.inl (by simpa using hdropped))
      rw [hlive] at this
      cases this
    have hinbox := hstepped.inbox hlive
    rw [ht.underId] at hinbox
    have hyielded : yielded h (ops ++ [op]) = yielded h ops ++ yieldOf h l op := outputs_concat hrun
    rw [placed_concat, ht.inbox hlive', hyielded, List.append_assoc, List.append_assoc, hinbox]
    simp only [ht.current]
  · -- an employee is hired once
    have hnothired : op ≠ .hire id h := by
      rintro rfl
      have hnone := (Option.ite_none_right_eq_some.mp hstep).1
      rw [ht.there] at hnone
      cases hnone
    rw [step_lookup hs hstep, ht.current]
    simp only [hnothired, or_false, List.mem_append, List.mem_singleton]
    constructor
    · rintro ⟨hpost, hop⟩ op' (hmem | rfl)
      · exact hpost op' hmem
      · exact hop
    · intro h
      exact ⟨fun op' hmem => h op' (Or.inl hmem), h op (Or.inr rfl)⟩

theorem step_sound (hs : l.Sound) (hstep : l.step op = some l') : l'.Sound := by
  intro id h hlookup
  rcases (step_lookup hs hstep).mp hlookup with ⟨hold, -⟩ | rfl
  · obtain ⟨e, he, hid⟩ := hs id h hold
    obtain ⟨e', hstepped⟩ := step_employee hs hstep he
    exact ⟨e', hstepped.there, hstepped.id.trans hid⟩
  · obtain ⟨-, hnew⟩ := Option.ite_none_right_eq_some.mp hstep
    obtain rfl := Option.some.inj hnew
    exact ⟨_, hire_employees_self l id h, rfl⟩

/-- **One more operation.** -/
theorem Recorded.concat (hl : Recorded ops l) (hstep : l.step op = some l') :
    Recorded (ops ++ [op]) l' where
  reached := run_concat hl.reached hstep
  sound := step_sound hl.sound hstep
  unhired h hnone := by
    have hbefore : l.employees h = none := by
      by_contra hne
      obtain ⟨e, he⟩ := Option.ne_none_iff_exists'.mp hne
      obtain ⟨e', hstepped⟩ := step_employee hl.sound hstep he
      cases hnone.symm.trans hstepped.there
    obtain ⟨-, hyield, hdrop⟩ := step_newEmployee hl.sound hstep hbefore
    obtain ⟨hyielded, hnotin⟩ := hl.unhired h hbefore
    have hconcat : yielded h (ops ++ [op]) = yielded h ops ++ yieldOf h l op :=
      outputs_concat hl.reached
    rw [hconcat, hyielded, hyield]
    exact ⟨rfl, by simp [hnotin, hdrop.symm]⟩
  hired h e he := by
    rcases hbefore : l.employees h with _ | e₀
    · rcases (step_newEmployee hl.sound hstep hbefore).1 with hnone | ⟨id, rfl, hnew⟩
      · cases hnone.symm.trans he
      · obtain rfl := Option.some.inj (hnew.symm.trans he)
        simp
    · obtain ⟨e', hstepped⟩ := step_employee hl.sound hstep hbefore
      obtain rfl := Option.some.inj (hstepped.there.symm.trans he)
      rw [hstepped.id]
      exact List.mem_append_left _ (hl.hired h e₀ hbefore)
  tenure pre id h post hops := by
    -- the new operation is the hiring itself, or the last one behind it
    rcases List.eq_nil_or_concat post with rfl | ⟨post, last, rfl⟩
    · obtain ⟨rfl, hlast⟩ := List.append_inj' hops rfl
      obtain rfl := List.singleton_inj.mp hlast
      exact ⟨_, hl.newTenure hstep⟩
    · rw [List.concat_eq_append, ← List.cons_append, ← List.append_assoc] at hops
      obtain ⟨hbefore, hlast⟩ := List.append_inj' hops rfl
      obtain rfl := List.singleton_inj.mp hlast
      obtain ⟨e, ht⟩ := hl.tenure pre id h post hbefore
      rw [List.concat_eq_append]
      exact ht.concat hl.sound hl.reached hstep
  reports := by
    have hreceived : received (ops ++ [op]) = received ops ++ receiptOf l op :=
      outputs_concat hl.reached
    -- what was made and received before, and then what this operation adds on both sides
    have hold : List.Forall₂ (fun m r => .hire r.1 m.1 ∈ ops ++ [op] ∧ r.2 = m.2) (made ops)
        (received ops ++ l.reports) :=
      hl.reports.imp fun _ _ h => ⟨List.mem_append_left _ h.1, h.2⟩
    rw [hreceived, List.append_assoc, step_reports hl.sound hstep, ← List.append_assoc]
    have hmade : made (ops ++ [op]) = made ops ++ made [op] := List.filterMap_append
    rw [hmade]
    refine List.rel_append hold ?_
    cases op with
    | report h msg =>
        obtain ⟨hlive, -⟩ := Option.ite_none_right_eq_some.mp hstep
        obtain ⟨e, he, -⟩ := hears_iff.mp hlive
        have hreport : reportOf l (.report h msg) = [(e.id, msg)] := by simp [reportOf, he]
        rw [hreport]
        exact .cons ⟨List.mem_append_left _ (hl.hired h e he), rfl⟩ .nil
    | _ => exact .nil

theorem recorded_of_run (hrun : run step new ops = some l) : Recorded ops l := by
  have h := run_invariant_history (P := fun l done => Recorded done l)
    (fun _ _ _ _ hl hstep => hl.concat hstep) recorded_new hrun
  simpa using h

/-! ## The contract

For every operation the contract says what it returns, in terms of the history alone. In particular
a message that was sent with `Ok` is either taken, or still there when the employee is dropped: it
is never lost, duplicated or given to another employee of the id. -/

structure Contract (ops : List (Op S R I H)) (l : Leader S R I H) : Prop where
  /-- `wait` returns the messages placed for the employee from its own hiring until its id is hired
  again or fired, in order, and then `None`. -/
  waits : ∀ pre id h post, ops = pre ++ .hire id h :: post → .dropEmployee h ∉ ops →
    ∃ rest, placed id post = yielded h ops ++ rest ∧
      l.wait h = .next rest (post.any (Op.closes id))
  /-- `send_to` returns the data and changes nothing if and only if the id has no current employee or
  this one was dropped. -/
  sends : ∀ id data, l.sendTo id data = (.error data, l) ↔
    (¬ ∃ h, IsCurrent ops id h) ∨ ∃ h, IsCurrent ops id h ∧ .dropEmployee h ∈ ops
  /-- In every other case it succeeds. -/
  succeeds : ∀ id data, (l.sendTo id data).1 = .ok () ↔
    ∃ h, IsCurrent ops id h ∧ .dropEmployee h ∉ ops
  /-- `broadcast` returns the number of current employees that have not been dropped. -/
  broadcasts : ∀ data, (l.broadcast data).2
    = Set.ncard {h | (∃ id, IsCurrent ops id h) ∧ .dropEmployee h ∉ ops}
  /-- `receive` returns the reports in the order in which they were made, each with the id under
  which its employee was hired. -/
  receives : ∃ rest,
    List.Forall₂ (fun m r => .hire r.1 m.1 ∈ ops ∧ r.2 = m.2) (made ops) (received ops ++ rest) ∧
      l.receive.map Prod.fst = rest.head?

theorem Recorded.isCurrent_iff (hl : Recorded ops l) :
    IsCurrent ops id h ↔ l.senders.lookup id = some h := by
  constructor
  · rintro ⟨pre, post, hops, hpost⟩
    obtain ⟨e, ht⟩ := hl.tenure pre id h post hops
    exact ht.current.mpr hpost
  · intro hlookup
    obtain ⟨e, he, rfl⟩ := hl.sound id h hlookup
    obtain ⟨pre, post, hops⟩ := List.append_of_mem (hl.hired h e he)
    obtain ⟨e', ht⟩ := hl.tenure pre e.id h post hops
    exact ⟨pre, post, hops, ht.current.mp hlookup⟩

/-- An employee hears until it is dropped. -/
theorem Recorded.hears_iff_of_current (hl : Recorded ops l) (hlookup : l.senders.lookup id = some h) :
    l.hears h = true ↔ .dropEmployee h ∉ ops := by
  obtain ⟨pre, post, hops, -⟩ := hl.isCurrent_iff.mpr hlookup
  obtain ⟨e, ht⟩ := hl.tenure pre id h post hops
  rw [← ht.dropped]
  simp [hears, ht.there]

theorem Recorded.wait_eq (hl : Recorded ops l) {pre : List (Op S R I H)}
    (hops : ops = pre ++ .hire id h :: post) (hdrop : .dropEmployee h ∉ ops) :
    ∃ rest, placed id post = yielded h ops ++ rest ∧
      l.wait h = .next rest (post.any (Op.closes id)) := by
  obtain ⟨e, ht⟩ := hl.tenure pre id h post hops
  have hlive : e.dropped = false := by
    by_contra hdropped
    exact hdrop (ht.dropped.mp (by simpa using hdropped))
  refine ⟨e.inbox, ht.inbox hlive, ?_⟩
  simp only [wait, ht.there]
  cases hinbox : e.inbox with
  | cons data rest => rfl
  | nil =>
      have hcurrent : l.senders.lookup e.id = some h ↔ ∀ op ∈ post, op.closes id = false := by
        rw [ht.underId]
        exact ht.current
      -- nothing is left, so it depends on whether the leader still has the sender
      simp only [Wait.next]
      by_cases hopen : ∀ op ∈ post, op.closes id = false
      · rw [if_pos (hcurrent.mpr hopen), if_neg (by simpa using hopen)]
      · rw [if_neg fun hlookup => hopen (hcurrent.mp hlookup), if_pos (by simpa using hopen)]

theorem Recorded.sendTo_ok_iff (hl : Recorded ops l) (data : S) :
    (l.sendTo id data).1 = .ok () ↔ ∃ h, IsCurrent ops id h ∧ .dropEmployee h ∉ ops := by
  simp only [hl.isCurrent_iff]
  rw [sendTo_eq]
  cases hlookup : l.senders.lookup id with
  | none => simp
  | some h =>
      have hhears := hl.hears_iff_of_current hlookup
      cases hh : l.hears h with
      | true => simp [hh, hhears.mp hh]
      | false =>
          have hmem : .dropEmployee h ∈ ops := by
            by_contra hnot
            rw [hhears.mpr hnot] at hh
            cases hh
          simp [hh, hmem]

theorem Recorded.sendTo_iff (hl : Recorded ops l) (data : S) :
    l.sendTo id data = (.error data, l) ↔
      (¬ ∃ h, IsCurrent ops id h) ∨ ∃ h, IsCurrent ops id h ∧ .dropEmployee h ∈ ops := by
  have hok : (l.sendTo id data).1 = .ok () ↔ ∃ h, IsCurrent ops id h ∧ .dropEmployee h ∉ ops :=
    hl.sendTo_ok_iff data
  constructor
  · intro herr
    have hnot : ¬ ∃ h, IsCurrent ops id h ∧ .dropEmployee h ∉ ops := by
      rw [← hok, herr]
      intro h
      cases h
    by_cases hcur : ∃ h, IsCurrent ops id h
    · obtain ⟨h, hh⟩ := hcur
      exact .inr ⟨h, hh, by_contra fun hdrop => hnot ⟨h, hh, hdrop⟩⟩
    · exact .inl hcur
  · intro hcond
    refine sendTo_ok_or_error.resolve_left fun h => ?_
    obtain ⟨h, hcur, hdrop⟩ := hok.mp h
    obtain hnone | ⟨h', hcur', hdrop'⟩ := hcond
    · exact hnone ⟨h, hcur⟩
    · rw [hl.isCurrent_iff] at hcur hcur'
      obtain rfl := Option.some.inj (hcur.symm.trans hcur')
      exact hdrop hdrop'

theorem Recorded.broadcast_count (hl : Recorded ops l) (data : S) :
    (l.broadcast data).2
      = Set.ncard {h | (∃ id, IsCurrent ops id h) ∧ .dropEmployee h ∉ ops} := by
  set hearing : List H := (l.senders.entries.filter fun e => l.hears e.2).map fun e => e.2
  have hnodup : hearing.Nodup :=
    List.Nodup.sublist (List.Sublist.map _ List.filter_sublist) hl.sound.nodup
  have hset : {h | (∃ id, IsCurrent ops id h) ∧ .dropEmployee h ∉ ops} = ↑hearing.toFinset := by
    ext h
    simp only [hl.isCurrent_iff, Set.mem_ofPred_eq, List.coe_toFinset]
    constructor
    · rintro ⟨⟨id, hlookup⟩, hdrop⟩
      have hmem : (⟨id, h⟩ : (_ : I) × H) ∈ l.senders.entries := AList.mem_lookup_iff.mp hlookup
      have hhears : l.hears h = true := (hl.hears_iff_of_current hlookup).mpr hdrop
      exact List.mem_map.mpr ⟨_, List.mem_filter.mpr ⟨hmem, hhears⟩, rfl⟩
    · intro hmem
      obtain ⟨⟨id, h'⟩, hentry, rfl⟩ := List.mem_map.mp hmem
      obtain ⟨hentry, hhears⟩ := List.mem_filter.mp hentry
      have hlookup : l.senders.lookup id = some h' := AList.mem_lookup_iff.mpr hentry
      exact ⟨⟨id, hlookup⟩, (hl.hears_iff_of_current hlookup).mp hhears⟩
  rw [hset, Set.ncard_coe_finset, List.toFinset_card_of_nodup hnodup, List.length_map,
    ← List.countP_eq_length_filter, (broadcast_reached hl.sound data).count, Nat.zero_add]

/-- **The mailbox contract.** After every history of operations, what each operation returns is what
the history says. -/
theorem mailbox_contract (hrun : run step new ops = some l) : Contract ops l := by
  have hl := recorded_of_run hrun
  refine ⟨fun pre id h post hops hdrop => hl.wait_eq hops hdrop,
    fun id data => hl.sendTo_iff data, fun id data => hl.sendTo_ok_iff data, hl.broadcast_count,
    l.reports, hl.reports, ?_⟩
  unfold receive
  split
  · case h_1 hnone => rw [hnone]; rfl
  · case h_2 r rest hreports => rw [hreports]; rfl

end Histories

/-- The id 1 is hired again while its first employee still has a message. -/
def rehired : List (Op Nat Nat Nat Nat) :=
  [.hire 1 10, .sendTo 1 5, .hire 1 11, .sendTo 1 6, .report 10 3, .wait 10, .receive]

/-- The contract for this history. -/
theorem mailbox_contract_rehired : ∃ l, run step new rehired = some l ∧ Contract rehired l ∧
    l.wait 10 = .closed ∧ l.wait 11 = .message 6 := by
  obtain ⟨l, hrun, hfirst, hsecond⟩ : ∃ l, run step new rehired = some l ∧
      l.wait 10 = .closed ∧ l.wait 11 = .message 6 := ⟨_, rfl, by decide, by decide⟩
  exact ⟨l, hrun, mailbox_contract hrun, hfirst, hsecond⟩

end Leader

end Rslinker.Chat
