import Mathlib.Algebra.Order.Ring.Nat
import Mathlib.Data.List.Basic

/-!
# Lib.Bytes

Integers of a fixed number of bytes in a buffer, in either byte order. The
buffer is what is left of the bytes from a pointer on; a read that goes past
its end has no result.
-/

namespace Bytes

/-! ## Digits to the base 256 -/

/-- The value of bytes, the lowest first. -/
def value : List UInt8 → Nat
  | [] => 0
  | b :: bytes => b.toNat + 256 * value bytes

/-- The lowest `n` bytes of a number. -/
def digits : Nat → Nat → List UInt8
  | 0, _ => []
  | n + 1, k => UInt8.ofNat k :: digits n (k / 256)

@[simp] theorem length_digits (n k : Nat) : (digits n k).length = n := by
  induction n generalizing k with
  | zero => rfl
  | succ n ih => rw [digits, List.length_cons, ih]

theorem value_digits {n : Nat} : ∀ {k : Nat}, k < 256 ^ n → value (digits n k) = k := by
  induction n with
  | zero =>
    intro k hk
    rw [Nat.pow_zero] at hk
    rw [digits, value]
    omega
  | succ n ih =>
    intro k hk
    have hhigh : k / 256 < 256 ^ n := by
      rw [Nat.pow_succ] at hk
      exact Nat.div_lt_of_lt_mul (by omega)
    have hlow : (UInt8.ofNat k).toNat = k % 256 := by simp
    rw [digits, value, ih hhigh, hlow]
    omega

/-! ## Byte orders -/

/-- The order of the bytes of an integer. -/
inductive Order where
  | little
  | big
  deriving DecidableEq, Repr

/-- The integer of some bytes. -/
def Order.decode : Order → List UInt8 → Nat
  | .little, bytes => value bytes
  | .big, bytes => value bytes.reverse

/-- An integer in some bytes. -/
def Order.encode : Order → Nat → Nat → List UInt8
  | .little, n, k => digits n k
  | .big, n, k => (digits n k).reverse

@[simp] theorem Order.length_encode (o : Order) (n k : Nat) : (o.encode n k).length = n := by
  cases o with
  | little => exact length_digits n k
  | big => exact List.length_reverse.trans (length_digits n k)

theorem Order.decode_encode (o : Order) {n k : Nat} (hk : k < 256 ^ n) :
    o.decode (o.encode n k) = k := by
  cases o with
  | little => exact value_digits hk
  | big =>
    rw [Order.decode, Order.encode, List.reverse_reverse]
    exact value_digits hk

/-! ## Reading -/

/-- The unsigned integer in the `n` bytes from `offset` on. -/
def readUInt (o : Order) (buffer : List UInt8) (offset n : Nat) : Option Nat :=
  if offset + n ≤ buffer.length then some (o.decode ((buffer.drop offset).take n)) else none

/-- The signed integer in the four bytes from `offset` on. -/
def readInt32 (o : Order) (buffer : List UInt8) (offset : Nat) : Option Int :=
  (readUInt o buffer offset 4).map fun k : Nat => Int.bmod k 4294967296

/-- The bytes of a signed integer. -/
def int32Bytes (o : Order) (i : Int) : List UInt8 := o.encode 4 (i % 4294967296).toNat

@[simp] theorem length_int32Bytes (o : Order) (i : Int) : (int32Bytes o i).length = 4 :=
  o.length_encode _ _

/-- A field behind the fields that precede it. -/
theorem readUInt_field (o : Order) (before rest : List UInt8) {n k : Nat} (hk : k < 256 ^ n) :
    readUInt o (before ++ (o.encode n k ++ rest)) before.length n = some k := by
  have hroom : before.length + n ≤ (before ++ (o.encode n k ++ rest)).length := by
    rw [List.length_append, List.length_append, o.length_encode]
    omega
  have htake : (o.encode n k ++ rest).take n = o.encode n k := by
    rw [List.take_append_of_le_length (o.length_encode n k).ge]
    exact List.take_of_length_le (o.length_encode n k).le
  rw [readUInt, if_pos hroom, List.drop_left, htake, o.decode_encode hk]

theorem readInt32_field (o : Order) (before rest : List UInt8) {i : Int}
    (hlow : -2147483648 ≤ i) (hhigh : i < 2147483648) :
    readInt32 o (before ++ (int32Bytes o i ++ rest)) before.length = some i := by
  have hnat : ((i % 4294967296).toNat : Int) = i % 4294967296 := Int.toNat_of_nonneg (by omega)
  have hlt : (i % 4294967296).toNat < 256 ^ 4 := by omega
  have hmod : Int.bmod (i % 4294967296) 4294967296 = i := by
    rw [Int.bmod_def]
    omega
  rw [readInt32, int32Bytes, readUInt_field o before rest hlt, Option.map_some, hnat, hmod]

end Bytes
