import Rslinker.Basic.ScannerWords
import Rslinker.Llhttp.Machine

set_option autoImplicit false

/-! # Numbers in the input

`content_length` is filled digit by digit, from the decimal digits of a `Content-Length` or the
hexadecimal ones of a chunk size. The checks before the product and before the sum find exactly the
numbers that do not fit in 64 bits.
-/

namespace Rslinker.Internal

open Scan

/-! ## Digits

The number that a list of digits stands for, from the left: with one more digit it is the old
number times the base, plus the digit. -/

def hexDigit (b : UInt8) : Option Nat :=
  if 48 ≤ b ∧ b ≤ 57 then some (b.toNat - 48)
  else if 65 ≤ b ∧ b ≤ 70 then some (b.toNat - 55)
  else if 97 ≤ b ∧ b ≤ 102 then some (b.toNat - 87)
  else none

def decimalDigit (b : UInt8) : Option Nat := (hexDigit b).filter fun m => m < 10

/-- What `n` becomes with more digits behind it. -/
def extend (base n : Nat) (ds : List Nat) : Nat := ds.foldl (fun n m => n * base + m) n

/-- The number that is written with these bytes. -/
def numeral (base : Nat) (digit : UInt8 → Option Nat) (x : Bytes) : Nat :=
  extend base 0 (x.filterMap digit)

@[simp] theorem extend_nil (base n : Nat) : extend base n [] = n := rfl

@[simp] theorem extend_cons (base n m : Nat) (ds : List Nat) :
    extend base n (m :: ds) = extend base (n * base + m) ds := rfl

theorem le_extend {base : Nat} (hbase : 0 < base) (n : Nat) (ds : List Nat) :
    n ≤ extend base n ds := by
  induction ds generalizing n with
  | nil => exact Nat.le_refl n
  | cons m ds ih =>
      calc n ≤ n * base := Nat.le_mul_of_pos_right n hbase
        _ ≤ n * base + m := Nat.le_add_right _ m
        _ ≤ extend base (n * base + m) ds := ih _

/-! ## One digit

The two checks are made in the order of the source. The product is stored before the sum is
checked, so on an overflow of the sum the data have changed; it is an error all the same. -/

theorem mulAdd_fits {base m : Nat} {d : Internal} (hbase : 0 < base)
    (h : d.contentLength * base + m < 2 ^ 64) :
    d.mulAdd base m = ({ d with contentLength := d.contentLength * base + m }, 0) := by
  have hproduct : ¬ uint64Max / base < d.contentLength := by
    rw [Nat.not_lt, Nat.le_div_iff_mul_le hbase, uint64Max]
    omega
  have hsum : ¬ uint64Max - m < d.contentLength * base := by
    rw [uint64Max]
    omega
  rw [mulAdd, if_neg hproduct, if_neg hsum]

theorem mulAdd_overflows {base m : Nat} {d : Internal} (hm : m < 2 ^ 64)
    (h : 2 ^ 64 ≤ d.contentLength * base + m) : (d.mulAdd base m).2 = 1 := by
  unfold mulAdd
  split
  · rfl
  · have hsum : uint64Max - m < d.contentLength * base := by
      rw [uint64Max]
      omega
    rw [if_pos hsum]

/-! ## All digits

The first digit enters the loop at another node than the later ones. `Counts` has what both numbers
need: two nodes, the digits they know, and what `mul_add` does behind them. -/

/-- The digits that lead to `enter`, and from there back to `loop`. -/
structure Counts (base : Nat) (digit : UInt8 → Option Nat) (loop overflow : Label)
    (enter : Nat → Label) : Prop where
  base_pos : 0 < base
  invokes : ∀ m, node (enter m) = .invoke (mulAdd base m) [(1, overflow)] loop
  takes : ∀ b m, digit b = some m → machine.glide 1 loop b = some (enter m)
  small : ∀ b m, digit b = some m → m < 2 ^ 64

namespace Counts

variable {base : Nat} {digit : UInt8 → Option Nat} {loop overflow : Label} {enter : Nat → Label}

/-- A digit is added. -/
theorem enter_steps (h : Counts base digit loop overflow enter) {d : Internal} {m : Nat}
    (hfits : d.contentLength * base + m < 2 ^ 64) (span : Option Span) (y : Bytes) :
    Steps machine ⟨enter m, 0, span, d⟩ y []
      ⟨loop, 0, span, { d with contentLength := d.contentLength * base + m }⟩ y := by
  have hinvoke := Machine.invoke_steps (m := machine) (h.invokes m) span d y
  rw [mulAdd_fits h.base_pos hfits] at hinvoke
  exact hinvoke

/-- A digit is too much. -/
theorem overflow_steps (h : Counts base digit loop overflow enter) {d : Internal} {m : Nat}
    (hm : m < 2 ^ 64) (hover : 2 ^ 64 ≤ d.contentLength * base + m) (span : Option Span) (y : Bytes) :
    Steps machine ⟨enter m, 0, span, d⟩ y [] ⟨overflow, 0, span, (d.mulAdd base m).1⟩ y := by
  have hinvoke := Machine.invoke_steps (m := machine) (h.invokes m) span d y
  rw [mulAdd_overflows hm hover] at hinvoke
  exact hinvoke

/-- **Digits are read** when the number fits in 64 bits. -/
theorem steps (h : Counts base digit loop overflow enter) {x : Bytes}
    (hx : ∀ b ∈ x, (digit b).isSome) {d : Internal}
    (hfits : extend base d.contentLength (x.filterMap digit) < 2 ^ 64) (span : Option Span)
    (y : Bytes) :
    Steps machine ⟨loop, 0, span, d⟩ (x ++ y) (eatenAll span x)
      ⟨loop, 0, span,
        { d with contentLength := extend base d.contentLength (x.filterMap digit) }⟩ y := by
  induction x generalizing d with
  | nil => exact .refl _ y
  | cons b x ih =>
      obtain ⟨m, hm⟩ := Option.isSome_iff_exists.mp (hx b List.mem_cons_self)
      rw [List.filterMap_cons_some hm, extend_cons] at hfits ⊢
      have hnext : d.contentLength * base + m < 2 ^ 64 :=
        Nat.lt_of_le_of_lt (le_extend h.base_pos _ _) hfits
      have hrest := ih (fun b' hb' => hx b' (List.mem_cons_of_mem b hb'))
        (d := { d with contentLength := d.contentLength * base + m }) hfits
      exact (Machine.glide_steps (h.takes b m hm) span d (x ++ y)).trans
        ((h.enter_steps hnext span (x ++ y)).trans hrest)

/-- **A number that does not fit** is found while its digits are read. -/
theorem overflows (h : Counts base digit loop overflow enter) {x : Bytes}
    (hx : ∀ b ∈ x, (digit b).isSome) {d : Internal} (hstart : d.contentLength < 2 ^ 64)
    (hover : 2 ^ 64 ≤ extend base d.contentLength (x.filterMap digit)) (span : Option Span)
    (y : Bytes) :
    ∃ es d' v, Steps machine ⟨loop, 0, span, d⟩ (x ++ y) es ⟨overflow, 0, span, d'⟩ v := by
  induction x generalizing d with
  | nil => exact absurd hstart (Nat.not_lt.mpr hover)
  | cons b x ih =>
      obtain ⟨m, hm⟩ := Option.isSome_iff_exists.mp (hx b List.mem_cons_self)
      rw [List.filterMap_cons_some hm, extend_cons] at hover
      have hglide := Machine.glide_steps (h.takes b m hm) span d (x ++ y)
      rcases Nat.lt_or_ge (d.contentLength * base + m) (2 ^ 64) with hnext | hnext
      · obtain ⟨es, d', v, hsteps⟩ := ih (fun b' hb' => hx b' (List.mem_cons_of_mem b hb'))
          (d := { d with contentLength := d.contentLength * base + m }) hnext hover
        exact ⟨_, d', v, hglide.trans ((h.enter_steps hnext span (x ++ y)).trans hsteps)⟩
      · exact ⟨_, _, _, hglide.trans (h.overflow_steps (h.small b m hm) hnext span (x ++ y))⟩

end Counts

end Rslinker.Internal
