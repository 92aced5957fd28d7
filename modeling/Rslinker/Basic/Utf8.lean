import Rslinker.Basic.LittleEndian

set_option autoImplicit false

/-! # Valid UTF-8

Which byte strings are valid UTF-8, as a machine that reads byte by byte: a leading byte fixes how
many continuation bytes follow and, for the shortest and the largest encodings, the range of the
first of them. A valid string can be cut next to an ASCII byte (`valid_cut`), and nowhere inside a
character.

This is the check that `String::from_utf8` makes. Overlong encodings, surrogates and everything
above U+10FFFF are not valid, which is what the restricted second bytes are for: E0, ED, F0 and F4
each exclude a part of the continuation bytes. The states are the ones of the decoder and not the
numbers of bytes that are missing, so that one step is one comparison.
-/

namespace Rslinker.Utf8

/-- What the machine expects next: the start of a character, a number of continuation bytes, or the
second byte after one of the leading bytes that restrict it. -/
inductive State
  | start
  | one
  | two
  | three
  | e0
  | ed
  | f0
  | f4
  deriving DecidableEq, Repr

def isAscii (b : UInt8) : Bool := b < 0x80

def between (lo hi b : UInt8) : Bool := lo ≤ b && b ≤ hi

/-- After a leading byte. -/
def lead (b : UInt8) : Option State :=
  if isAscii b then some .start
  else if between 0xC2 0xDF b then some .one
  else if b = 0xE0 then some .e0
  else if b = 0xED then some .ed
  else if between 0xE1 0xEF b then some .two
  else if b = 0xF0 then some .f0
  else if between 0xF1 0xF3 b then some .three
  else if b = 0xF4 then some .f4
  else none

def step (s : State) (b : UInt8) : Option State :=
  match s with
  | .start => lead b
  | .one => if between 0x80 0xBF b then some .start else none
  | .two => if between 0x80 0xBF b then some .one else none
  | .three => if between 0x80 0xBF b then some .two else none
  | .e0 => if between 0xA0 0xBF b then some .one else none
  | .ed => if between 0x80 0x9F b then some .one else none
  | .f0 => if between 0x90 0xBF b then some .two else none
  | .f4 => if between 0x80 0x8F b then some .two else none

def scan (s : State) : Bytes → Option State
  | [] => some s
  | b :: bytes => (step s b).bind fun t => scan t bytes

def valid (bytes : Bytes) : Bool := scan .start bytes = some .start

/-- The cut between `a` and `b` is at an end of the string or next to an ASCII byte. -/
def CleanCut (a b : Bytes) : Prop :=
  a = [] ∨ b = [] ∨ (∃ x ∈ a.getLast?, isAscii x) ∨ ∃ x ∈ b.head?, isAscii x

theorem scan_append (s : State) (a b : Bytes) :
    scan s (a ++ b) = (scan s a).bind fun t => scan t b := by
  induction a generalizing s with
  | nil => rfl
  | cons x a ih =>
      rcases hx : step s x with _ | t
      · simp [scan, hx]
      · simp [scan, hx, ih]

/-- An ASCII byte is a character of its own. -/
theorem step_ascii {s t : State} {b : UInt8} (hb : isAscii b) (h : step s b = some t) :
    s = .start ∧ t = .start := by
  -- no range of a continuation byte has an ASCII byte in it
  have hlow : ∀ lo hi : UInt8, 0x80 ≤ lo → between lo hi b = false := by
    intro lo hi hlo
    simp only [isAscii, decide_eq_true_eq] at hb
    have hlt : ¬ lo ≤ b := UInt8.not_le.mpr (UInt8.lt_of_lt_of_le hb hlo)
    simp [between, hlt]
  cases s with
  | start =>
      simp only [step, lead, hb, if_true, Option.some.injEq] at h
      exact ⟨rfl, h.symm⟩
  | _ => simp [step, hlow _ _ (show (0x80 : UInt8) ≤ 0x80 by decide),
      hlow _ _ (show (0x80 : UInt8) ≤ 0xA0 by decide),
      hlow _ _ (show (0x80 : UInt8) ≤ 0x90 by decide)] at h

theorem valid_of_ascii {bytes : Bytes} (h : ∀ b ∈ bytes, isAscii b) : valid bytes := by
  have hscan : scan .start bytes = some .start := by
    induction bytes with
    | nil => rfl
    | cons x bytes ih =>
        have hx : step .start x = some .start := by
          simp [step, lead, h x (by simp)]
        simp [scan, hx, ih fun b hb => h b (by simp [hb])]
  simp [valid, hscan]

/-- At a clean cut the machine is between two characters. -/
theorem scan_start_of_cleanCut {a b : Bytes} {t u : State} (hcut : CleanCut a b)
    (ha : scan .start a = some t) (hb : scan t b = some u) (hu : u = .start) : t = .start := by
  rcases hcut with rfl | rfl | ⟨x, hx, hascii⟩ | ⟨x, hx, hascii⟩
  · cases ha
    rfl
  · cases hb
    exact hu
  · -- the last byte of `a` has been read as a character
    obtain ⟨front, rfl⟩ := List.getLast?_eq_some_iff.mp hx
    rw [scan_append] at ha
    obtain ⟨s, -, hs⟩ := Option.bind_eq_some_iff.mp ha
    obtain ⟨r, hr, ht⟩ := Option.bind_eq_some_iff.mp hs
    cases ht
    exact (step_ascii hascii hr).2
  · -- the first byte of `b` can be read
    obtain ⟨tail, rfl⟩ := List.head?_eq_some_iff.mp hx
    obtain ⟨r, hr, -⟩ := Option.bind_eq_some_iff.mp hb
    exact (step_ascii hascii hr).1

/-- **A valid string may be cut next to an ASCII byte.** -/
theorem valid_cut {a b : Bytes} (h : valid (a ++ b)) (hcut : CleanCut a b) : valid a ∧ valid b := by
  simp only [valid, decide_eq_true_eq] at h ⊢
  rw [scan_append] at h
  obtain ⟨t, ha, hb⟩ := Option.bind_eq_some_iff.mp h
  obtain rfl := scan_start_of_cleanCut hcut ha hb rfl
  exact ⟨ha, hb⟩

end Rslinker.Utf8
