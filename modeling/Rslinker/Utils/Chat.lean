import Mathlib.Data.List.AList

set_option autoImplicit false

/-! # Leaders and their employees

`utils/chat` connects one leader with many employees. The leader has a sender for each employee that
it has hired under an id and not fired; the employees share one channel back to it, in which every
report is tagged with the id of its employee.

An employee is named by a handle of its own, since an id can be hired again.
-/

namespace Rslinker.Chat

structure Employee (S I : Type*) where
  id : I
  /-- What has been sent to it and it has not yet received. -/
  inbox : List S
  dropped : Bool
  deriving DecidableEq, Repr

structure Leader (S R I H : Type*) where
  senders : AList (fun _ : I => H)
  employees : H → Option (Employee S I)
  reports : List (I × R)

inductive Wait (S : Type*)
  | message (data : S)
  | closed
  | pending
  deriving DecidableEq, Repr

namespace Leader

variable {S R I H : Type*}

def new : Leader S R I H := ⟨∅, fun _ => none, []⟩

/-! ## Reports

Reports go the other way, through one channel for all employees, which lives as long as the leader.
A report that is made before its employee is fired is received afterwards; nothing is taken back.
-/

section Reports

/-- `Employee::report`, while the leader exists. -/
def report (l : Leader S R I H) (h : H) (msg : R) : Leader S R I H :=
  match l.employees h with
  | some e => { l with reports := l.reports ++ [(e.id, msg)] }
  | none => l

/-- `Leader::receive`; `none` while there is nothing to receive. -/
def receive (l : Leader S R I H) : Option ((I × R) × Leader S R I H) :=
  match l.reports with
  | [] => none
  | r :: rest => some (r, { l with reports := rest })

variable (l : Leader S R I H) (h : H) (msg : R)

@[simp] theorem report_senders : (l.report h msg).senders = l.senders := by
  unfold report
  split
  · rfl
  · rfl

@[simp] theorem report_employees : (l.report h msg).employees = l.employees := by
  unfold report
  split
  · rfl
  · rfl

/-- A report carries the id of its employee. -/
theorem report_reports {l : Leader S R I H} {h : H} {e : Employee S I} (he : l.employees h = some e)
    (msg : R) : (l.report h msg).reports = l.reports ++ [(e.id, msg)] := by
  simp [report, he]

theorem receive_eq_some {l l' : Leader S R I H} {r : I × R} (h : l.receive = some (r, l')) :
    l.reports = r :: l'.reports ∧ l'.senders = l.senders ∧ l'.employees = l.employees := by
  unfold receive at h
  split at h
  · cases h
  · rename_i hreports
    cases h
    exact ⟨hreports, rfl, rfl⟩

end Reports

/-! ## The channels of the employees

An employee has its inbox, and its sender is with the leader. A sender whose employee has been
dropped stays with the leader until it is fired or replaced, and a send on it fails. -/

section Channels

variable [DecidableEq H]

/-- `send` on the sender of an employee; `none` when the employee has been dropped. -/
def push (l : Leader S R I H) (h : H) (data : S) : Option (Leader S R I H) :=
  match l.employees h with
  | some e =>
      if e.dropped then none
      else
        let e' : Employee S I := { e with inbox := e.inbox ++ [data] }
        some { l with employees := Function.update l.employees h (some e') }
  | none => none

/-- `Leader::broadcast`, with the number of employees it has reached. -/
def broadcast (l : Leader S R I H) (data : S) : Leader S R I H × Nat :=
  l.senders.entries.foldl (fun acc e =>
    match acc.1.push e.2 data with
    | some l' => (l', acc.2 + 1)
    | none => acc) (l, 0)

/-- The employee `h` is dropped. -/
def dropEmployee (l : Leader S R I H) (h : H) : Leader S R I H :=
  match l.employees h with
  | some e => { l with employees := Function.update l.employees h (some { e with dropped := true }) }
  | none => l

/-- The message that `wait` returns is taken from the inbox. -/
def waited (l : Leader S R I H) (h : H) : Leader S R I H :=
  match l.employees h with
  | some e =>
      { l with employees := Function.update l.employees h (some { e with inbox := e.inbox.tail }) }
  | none => l

variable (l : Leader S R I H) (h : H)

@[simp] theorem dropEmployee_senders : (l.dropEmployee h).senders = l.senders := by
  unfold dropEmployee
  split
  · rfl
  · rfl

@[simp] theorem dropEmployee_reports : (l.dropEmployee h).reports = l.reports := by
  unfold dropEmployee
  split
  · rfl
  · rfl

theorem dropEmployee_employees_of_ne {h h' : H} (hne : h' ≠ h) :
    (l.dropEmployee h).employees h' = l.employees h' := by
  unfold dropEmployee
  split
  · exact Function.update_of_ne hne _ _
  · rfl

@[simp] theorem waited_senders : (l.waited h).senders = l.senders := by
  unfold waited
  split
  · rfl
  · rfl

@[simp] theorem waited_reports : (l.waited h).reports = l.reports := by
  unfold waited
  split
  · rfl
  · rfl

theorem waited_employees_self {l : Leader S R I H} {h : H} {e : Employee S I}
    (he : l.employees h = some e) :
    (l.waited h).employees h = some { e with inbox := e.inbox.tail } := by
  simp [waited, he]

theorem waited_employees_of_ne {h h' : H} (hne : h' ≠ h) :
    (l.waited h).employees h' = l.employees h' := by
  unfold waited
  split
  · exact Function.update_of_ne hne _ _
  · rfl

end Channels

/-! ## Employees keep their ids

A handle is never used again, and its employee keeps the id that it was hired under. An id may
belong to several employees, of which the leader knows the last. -/

/-- The employee `h` has been hired under `id`. -/
def EmployedAs (l : Leader S R I H) (h : H) (id : I) : Prop := ∃ e, l.employees h = some e ∧ e.id = id

section Employed

variable [DecidableEq H] {l l' : Leader S R I H} {h h' : H} {id : I}

omit [DecidableEq H] in
theorem EmployedAs.of_eq (hl : l.EmployedAs h id) (heq : l'.employees = l.employees) :
    l'.EmployedAs h id := by
  obtain ⟨e, he, hid⟩ := hl
  exact ⟨e, heq ▸ he, hid⟩

/-- An update of an employee that leaves its id. -/
theorem EmployedAs.update {e e' : Employee S I} (hl : l.EmployedAs h id)
    (he : l.employees h' = some e) (heq : l'.employees = Function.update l.employees h' (some e'))
    (hid : e'.id = e.id) : l'.EmployedAs h id := by
  obtain ⟨e₀, he₀, hid₀⟩ := hl
  by_cases hh : h = h'
  · subst hh
    cases he.symm.trans he₀
    exact ⟨e', by rw [heq, Function.update_self], hid.trans hid₀⟩
  · exact ⟨e₀, by rw [heq, Function.update_of_ne hh, he₀], hid₀⟩

theorem EmployedAs.dropEmployee (hl : l.EmployedAs h id) (h' : H) :
    (l.dropEmployee h').EmployedAs h id := by
  unfold Leader.dropEmployee
  split
  · rename_i e he
    exact hl.update he rfl rfl
  · exact hl

/-- A send changes the inbox of one employee. -/
theorem push_eq_some {data : S} (hpush : l.push h data = some l') :
    l'.senders = l.senders ∧ l'.reports = l.reports ∧
      ∀ h' id, l.EmployedAs h' id → l'.EmployedAs h' id := by
  unfold push at hpush
  split at hpush
  · rename_i e he
    obtain ⟨-, hpush⟩ := Option.ite_none_left_eq_some.mp hpush
    cases hpush
    exact ⟨rfl, rfl, fun h' id hl => hl.update he rfl rfl⟩
  · cases hpush

/-- A broadcast changes inboxes only. -/
theorem broadcast_keeps (l : Leader S R I H) (data : S) :
    (l.broadcast data).1.senders = l.senders ∧ (l.broadcast data).1.reports = l.reports ∧
      ∀ h id, l.EmployedAs h id → (l.broadcast data).1.EmployedAs h id := by
  refine List.foldlRecOn (motive := fun acc : Leader S R I H × Nat => acc.1.senders = l.senders ∧
    acc.1.reports = l.reports ∧ ∀ h id, l.EmployedAs h id → acc.1.EmployedAs h id)
    l.senders.entries _ ⟨rfl, rfl, fun _ _ hl => hl⟩ ?_
  rintro acc ⟨hsenders, hreports, hemployees⟩ e -
  rcases hpush : acc.1.push e.2 data with _ | l'
  · exact ⟨hsenders, hreports, hemployees⟩
  · obtain ⟨hsenders', hreports', hemployees'⟩ := push_eq_some hpush
    exact ⟨hsenders'.trans hsenders, hreports'.trans hreports,
      fun h id hl => hemployees' h id (hemployees h id hl)⟩

end Employed

/-! ## The senders of the leader

`hire` replaces the sender under its id, and with it closes the inbox of the employee that was
hired under this id before. `fired` unwraps the removal and so panics when the id is not there. -/

section Senders

variable [DecidableEq I] [DecidableEq H]

/-- `Leader::hire`, of the employee `h`. -/
def hire (l : Leader S R I H) (id : I) (h : H) : Leader S R I H :=
  { l with senders := l.senders.insert id h,
           employees := Function.update l.employees h (some ⟨id, [], false⟩) }

/-- `Leader::fired`; `none` when its unwrap fails. -/
def fired (l : Leader S R I H) (id : I) : Option (Leader S R I H) :=
  if id ∈ l.senders then some { l with senders := l.senders.erase id } else none

/-- `Leader::send_to`; an error returns the data. -/
def sendTo (l : Leader S R I H) (id : I) (data : S) : Except S Unit × Leader S R I H :=
  match l.senders.lookup id with
  | some h =>
      match l.push h data with
      | some l' => (.ok (), l')
      | none => (.error data, l)
  | none => (.error data, l)

/-- `Employee::wait` of the employee `h`, while the leader exists. -/
def wait (l : Leader S R I H) (h : H) : Wait S :=
  match l.employees h with
  | some e =>
      match e.inbox with
      | data :: _ => .message data
      | [] => if l.senders.lookup e.id = some h then .pending else .closed
  | none => .closed

variable (l : Leader S R I H) (id id' : I) (h : H)

@[simp] theorem hire_reports : (l.hire id h).reports = l.reports := rfl

theorem mem_hire_senders : id' ∈ (l.hire id h).senders ↔ id' = id ∨ id' ∈ l.senders :=
  AList.mem_insert l.senders

theorem hire_employees_self : (l.hire id h).employees h = some ⟨id, [], false⟩ :=
  Function.update_self h _ _

theorem hire_employees_of_ne {h h' : H} (hne : h' ≠ h) :
    (l.hire id h).employees h' = l.employees h' :=
  Function.update_of_ne hne _ _

theorem hire_employedAs : (l.hire id h).EmployedAs h id := ⟨_, hire_employees_self l id h, rfl⟩

omit id' in
theorem EmployedAs.hire {l : Leader S R I H} {h h' : H} {id' : I} (hl : l.EmployedAs h' id')
    (hne : h' ≠ h) : (l.hire id h).EmployedAs h' id' := by
  obtain ⟨e, he, hid⟩ := hl
  exact ⟨e, (hire_employees_of_ne l id hne).trans he, hid⟩

/-- An employee with an empty inbox waits as long as the leader keeps its sender. -/
theorem wait_pending {l : Leader S R I H} {h : H} {e : Employee S I} (he : l.employees h = some e)
    (hinbox : e.inbox = []) (hsender : l.senders.lookup e.id = some h) : l.wait h = .pending := by
  simp [wait, he, hinbox, hsender]

omit [DecidableEq H] in
theorem fired_eq_some {l l' : Leader S R I H} {id : I} (h : l.fired id = some l') :
    l'.senders = l.senders.erase id ∧ l'.employees = l.employees ∧ l'.reports = l.reports := by
  obtain ⟨-, h⟩ := Option.ite_none_right_eq_some.mp h
  cases h
  exact ⟨rfl, rfl, rfl⟩

end Senders

end Leader

end Rslinker.Chat
