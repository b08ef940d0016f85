import Mathlib.Tactic.Ring

/-!
# Fixed-width integers as bytes, in either byte order

The `to_ne_bytes` and `from_ne_bytes` of a fixed-width integer, on naturals: a natural becomes
`w` bytes, its bits above `8 * w` dropped, and `w` bytes become a natural below `256 ^ w`. The
machine's native order is one of the two orders; code that writes and reads on one machine uses
the same order both times, which is all the round trips below ask.

Little-endian is the base case; a big-endian list is a little-endian one reversed.
-/

/-- A byte order. -/
inductive Endian where
  | little
  | big
deriving DecidableEq, Repr

namespace Endian

/-- The natural with the given little-endian bytes. -/
def ofBytesLE : List UInt8 → Nat
  | [] => 0
  | b :: bs => b.toNat + 256 * ofBytesLE bs

/-- The `w` little-endian bytes of `n`. -/
def toBytesLE : Nat → Nat → List UInt8
  | 0, _ => []
  | w + 1, n => UInt8.ofNat (n % 256) :: toBytesLE w (n / 256)

/-- The natural that a list of bytes holds in the order `o`. -/
def decode : Endian → List UInt8 → Nat
  | .little, l => ofBytesLE l
  | .big, l => ofBytesLE l.reverse

/-- The `w` bytes of `n` in the order `o`. -/
def encode : Endian → Nat → Nat → List UInt8
  | .little, w, n => toBytesLE w n
  | .big, w, n => (toBytesLE w n).reverse

/-- `u16::from_ne_bytes`. -/
def u16FromBytes (o : Endian) (l : List UInt8) : UInt16 := UInt16.ofNat (o.decode l)

/-- `u16::to_ne_bytes`. -/
def u16ToBytes (o : Endian) (x : UInt16) : List UInt8 := o.encode 2 x.toNat

/-- `u64::from_ne_bytes`. -/
def u64FromBytes (o : Endian) (l : List UInt8) : UInt64 := UInt64.ofNat (o.decode l)

/-- `u64::to_ne_bytes`. -/
def u64ToBytes (o : Endian) (x : UInt64) : List UInt8 := o.encode 8 x.toNat

/-! ## Little-endian -/

theorem length_toBytesLE (w n : Nat) : (toBytesLE w n).length = w := by
  induction w generalizing n with
  | zero => rfl
  | succ w ih => simp only [toBytesLE, List.length_cons, ih]

theorem ofBytesLE_toBytesLE (w n : Nat) : ofBytesLE (toBytesLE w n) = n % 256 ^ w := by
  induction w generalizing n with
  | zero => simp only [toBytesLE, ofBytesLE, pow_zero, Nat.mod_one]
  | succ w ih =>
    have hbyte : (UInt8.ofNat (n % 256)).toNat = n % 256 := by
      rw [UInt8.toNat_ofNat', Nat.mod_eq_of_lt (Nat.mod_lt n (by norm_num))]
    rw [toBytesLE, ofBytesLE, ih, hbyte, pow_succ', Nat.mod_mul]

theorem ofBytesLE_lt (l : List UInt8) : ofBytesLE l < 256 ^ l.length := by
  induction l with
  | nil => simp only [ofBytesLE, List.length_nil, pow_zero, Nat.lt_one_iff]
  | cons b bs ih =>
    rw [ofBytesLE, List.length_cons, pow_succ]
    have hb : b.toNat < 256 := b.toNat_lt
    omega

theorem toBytesLE_ofBytesLE (l : List UInt8) : toBytesLE l.length (ofBytesLE l) = l := by
  induction l with
  | nil => rfl
  | cons b bs ih =>
    have hb : b.toNat < 256 := b.toNat_lt
    rw [List.length_cons, toBytesLE, ofBytesLE]
    congr 1
    · rw [Nat.add_mul_mod_self_left, Nat.mod_eq_of_lt hb, UInt8.ofNat_toNat]
    · rw [Nat.add_mul_div_left _ _ (by norm_num), Nat.div_eq_of_lt hb, Nat.zero_add, ih]

/-! ## Either order -/

variable (o : Endian)

@[simp]
theorem length_encode (w n : Nat) : (o.encode w n).length = w := by
  cases o <;> simp [encode, length_toBytesLE]

theorem decode_encode (w n : Nat) : o.decode (o.encode w n) = n % 256 ^ w := by
  cases o <;> simp [decode, encode, ofBytesLE_toBytesLE]

theorem decode_encode_of_lt {w n : Nat} (h : n < 256 ^ w) : o.decode (o.encode w n) = n := by
  rw [decode_encode, Nat.mod_eq_of_lt h]

theorem decode_lt (l : List UInt8) : o.decode l < 256 ^ l.length := by
  cases o with
  | little => exact ofBytesLE_lt l
  | big => simpa [decode] using ofBytesLE_lt l.reverse

theorem encode_decode (l : List UInt8) : o.encode l.length (o.decode l) = l := by
  cases o with
  | little => exact toBytesLE_ofBytesLE l
  | big =>
    have h := toBytesLE_ofBytesLE l.reverse
    rw [List.length_reverse] at h
    simp only [encode, decode, h, List.reverse_reverse]

/-! ## Machine words -/

@[simp]
theorem length_u16ToBytes (x : UInt16) : (o.u16ToBytes x).length = 2 :=
  o.length_encode 2 _

@[simp]
theorem length_u64ToBytes (x : UInt64) : (o.u64ToBytes x).length = 8 :=
  o.length_encode 8 _

@[simp]
theorem u16FromBytes_u16ToBytes (x : UInt16) : o.u16FromBytes (o.u16ToBytes x) = x := by
  have hx : x.toNat < 256 ^ 2 := x.toNat_lt
  rw [u16FromBytes, u16ToBytes, o.decode_encode_of_lt hx, UInt16.ofNat_toNat]

@[simp]
theorem u64FromBytes_u64ToBytes (x : UInt64) : o.u64FromBytes (o.u64ToBytes x) = x := by
  have hx : x.toNat < 256 ^ 8 := x.toNat_lt
  rw [u64FromBytes, u64ToBytes, o.decode_encode_of_lt hx, UInt64.ofNat_toNat]

theorem u16ToBytes_u16FromBytes {l : List UInt8} (hl : l.length = 2) :
    o.u16ToBytes (o.u16FromBytes l) = l := by
  have hlt : o.decode l < 2 ^ 16 := by simpa [hl] using o.decode_lt l
  rw [u16ToBytes, u16FromBytes, UInt16.toNat_ofNat_of_lt' hlt, ← hl, o.encode_decode]

theorem u64ToBytes_u64FromBytes {l : List UInt8} (hl : l.length = 8) :
    o.u64ToBytes (o.u64FromBytes l) = l := by
  have hlt : o.decode l < 2 ^ 64 := by simpa [hl] using o.decode_lt l
  rw [u64ToBytes, u64FromBytes, UInt64.toNat_ofNat_of_lt' hlt, ← hl, o.encode_decode]

end Endian
