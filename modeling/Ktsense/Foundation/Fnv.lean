import Mathlib

/-!
# FNV-1a

The hash of 64 bits, and its sixteen hexadecimal digits.  A byte is mixed in by a step that
loses nothing: of two texts that differ in one byte the hashes differ.
-/

namespace Ktsense.Foundation

/-! ## Folds whose steps lose nothing -/

section Folds

variable {S B : Type*} {step : S → B → S}

theorem foldl_injective (hstep : ∀ item, Function.Injective fun state => step state item)
    (items : List B) : Function.Injective fun state => items.foldl step state := by
  induction items with
  | nil => exact Function.injective_id
  | cons item rest ih => exact ih.comp (hstep item)

/-- One item changed is never made good by those behind it. -/
theorem foldl_ne_of_one (hstep : ∀ item, Function.Injective fun state => step state item)
    (hitem : ∀ state, Function.Injective (step state)) (before behind : List B) {left right : B}
    (hne : left ≠ right) (start : S) :
    (before ++ left :: behind).foldl step start ≠
      (before ++ right :: behind).foldl step start := by
  rw [List.foldl_append, List.foldl_append, List.foldl_cons, List.foldl_cons]
  exact fun heq => hne (hitem _ (foldl_injective hstep behind heq))

end Folds

/-! ## The hash -/

def fnvOffset : UInt64 := 0xcbf29ce484222325

def fnvPrime : UInt64 := 0x00000100000001b3

def fnvStep (hash : UInt64) (byte : UInt8) : UInt64 := (hash ^^^ byte.toUInt64) * fnvPrime

def fnv (bytes : List UInt8) : UInt64 := bytes.foldl fnvStep fnvOffset

/-- The prime is odd. -/
def fnvInverse : UInt64 := 0xce965057aff6957b

theorem mul_fnvPrime_injective : Function.Injective (· * fnvPrime) := by
  have hinverse : fnvPrime * fnvInverse = 1 := by decide
  intro left right heq
  have htimes := congrArg (· * fnvInverse) heq
  simp only [UInt64.mul_assoc, hinverse, UInt64.mul_one] at htimes
  exact htimes

theorem fnvStep_injective (byte : UInt8) : Function.Injective fun hash => fnvStep hash byte := by
  intro left right heq
  have hmixed := congrArg (· ^^^ byte.toUInt64) (mul_fnvPrime_injective heq)
  simpa only [UInt64.xor_assoc, UInt64.xor_self, UInt64.xor_zero] using hmixed

theorem fnvStep_injective_byte (hash : UInt64) : Function.Injective (fnvStep hash) := by
  intro left right heq
  have hmixed := congrArg (hash ^^^ ·) (mul_fnvPrime_injective heq)
  simp only [← UInt64.xor_assoc, UInt64.xor_self, UInt64.zero_xor] at hmixed
  exact UInt8.toUInt64_inj.mp hmixed

theorem fnv_ne_of_one_byte (before behind : List UInt8) {left right : UInt8}
    (hne : left ≠ right) : fnv (before ++ left :: behind) ≠ fnv (before ++ right :: behind) :=
  foldl_ne_of_one fnvStep_injective fnvStep_injective_byte before behind hne fnvOffset

/-! ## Hexadecimal digits -/

def hexDigit (value : ℕ) : UInt8 :=
  if value < 10 then UInt8.ofNat (0x30 + value) else UInt8.ofNat (0x57 + value)

/-- The last digits of a number, as many as asked for. -/
def hexDigits : ℕ → ℕ → List UInt8
  | 0, _ => []
  | width + 1, value => hexDigits width (value / 16) ++ [hexDigit (value % 16)]

/-- The digits and the letters from a to f. -/
def isHexDigit (byte : UInt8) : Bool :=
  (0x30 ≤ byte && byte ≤ 0x39) || (0x61 ≤ byte && byte ≤ 0x66)

theorem length_hexDigits (width value : ℕ) : (hexDigits width value).length = width := by
  induction width generalizing value with
  | zero => rfl
  | succ width ih => rw [hexDigits, List.length_append, ih, List.length_singleton]

theorem isHexDigit_hexDigit : ∀ value < 16, isHexDigit (hexDigit value) = true := by
  decide

theorem hexDigit_injOn : ∀ left < 16, ∀ right < 16, hexDigit left = hexDigit right →
    left = right := by
  decide

theorem isHexDigit_of_mem {width value : ℕ} {byte : UInt8}
    (hmem : byte ∈ hexDigits width value) : isHexDigit byte = true := by
  induction width generalizing value with
  | zero => cases hmem
  | succ width ih =>
      rcases List.mem_append.mp hmem with hmem | hmem
      · exact ih hmem
      · rw [List.mem_singleton.mp hmem]
        exact isHexDigit_hexDigit _ (Nat.mod_lt _ (by decide))

/-- A number of no more digits is told by them. -/
theorem hexDigits_inj {width left right : ℕ} (hleft : left < 16 ^ width)
    (hright : right < 16 ^ width) (heq : hexDigits width left = hexDigits width right) :
    left = right := by
  induction width generalizing left right with
  | zero =>
      rw [Nat.pow_zero, Nat.lt_one_iff] at hleft hright
      rw [hleft, hright]
  | succ width ih =>
      rw [hexDigits, hexDigits] at heq
      obtain ⟨hfront, hlast⟩ := List.append_inj' heq rfl
      rw [Nat.pow_succ] at hleft hright
      have hdiv : left / 16 = right / 16 :=
        ih (Nat.div_lt_of_lt_mul (by omega)) (Nat.div_lt_of_lt_mul (by omega)) hfront
      have hmod : left % 16 = right % 16 :=
        hexDigit_injOn _ (Nat.mod_lt _ (by decide)) _ (Nat.mod_lt _ (by decide))
          (List.singleton_injective hlast)
      rw [← Nat.div_add_mod left 16, ← Nat.div_add_mod right 16, hdiv, hmod]

/-- `{hash:016x}`. -/
def hexText (hash : UInt64) : List UInt8 := hexDigits 16 hash.toNat

theorem hexText_injective : Function.Injective hexText := by
  intro left right heq
  exact UInt64.toNat_inj.mp (hexDigits_inj left.toNat_lt right.toNat_lt heq)

end Ktsense.Foundation
