import Mathlib

/-! Byte strings and the little-endian integer fields of the TCG log formats. Every fixed-width
field the readers take with `binary.Read(r, binary.LittleEndian, &x)` is `w` bytes, least
significant first; `ofLE` is what `binary.LittleEndian.Uint*` reads and `toLE` what
`binary.LittleEndian.PutUint*` writes, and the round trips below are what lets a record be read
back from its encoding. -/

namespace TcgLog

/-- A Go `[]byte`. -/
abbrev Bytes := List UInt8

/-- The `w` little-endian bytes of `n`; bits above `8 * w` are dropped. -/
def toLE : Nat → Nat → Bytes
  | 0, _ => []
  | w + 1, n => UInt8.ofNat n :: toLE w (n / 256)

/-- The natural number spelled by little-endian bytes. -/
def ofLE : Bytes → Nat
  | [] => 0
  | b :: bs => b.toNat + 256 * ofLE bs

@[simp] theorem length_toLE (w n : Nat) : (toLE w n).length = w := by
  induction w generalizing n with
  | zero => rfl
  | succ w ih => simp [toLE, ih]

theorem ofLE_toLE (w n : Nat) : ofLE (toLE w n) = n % 256 ^ w := by
  induction w generalizing n with
  | zero => simp [toLE, ofLE, Nat.mod_one]
  | succ w ih =>
      have hb : (UInt8.ofNat n).toNat = n % 256 := rfl
      rw [toLE, ofLE, hb, ih, Nat.pow_succ', Nat.mod_mul]

theorem ofLE_lt (bs : Bytes) : ofLE bs < 256 ^ bs.length := by
  induction bs with
  | nil => simp [ofLE]
  | cons b bs ih =>
      have hb : b.toNat < 256 := b.toNat_lt_size
      rw [ofLE, List.length_cons, Nat.pow_succ']
      omega

/-! ## Fixed-width fields -/

/-- `binary.LittleEndian.PutUint16`. -/
def le16 (x : UInt16) : Bytes := toLE 2 x.toNat

/-- `binary.LittleEndian.PutUint32`. -/
def le32 (x : UInt32) : Bytes := toLE 4 x.toNat

/-- `binary.LittleEndian.Uint16`. -/
def decodeUint16 (bs : Bytes) : UInt16 := UInt16.ofNat (ofLE bs)

/-- `binary.LittleEndian.Uint32`. -/
def decodeUint32 (bs : Bytes) : UInt32 := UInt32.ofNat (ofLE bs)

/-- A single byte read as `uint8`. -/
def decodeUint8 (bs : Bytes) : UInt8 := UInt8.ofNat (ofLE bs)

@[simp] theorem length_le16 (x : UInt16) : (le16 x).length = 2 := length_toLE 2 _

@[simp] theorem length_le32 (x : UInt32) : (le32 x).length = 4 := length_toLE 4 _

@[simp] theorem decodeUint16_le16 (x : UInt16) : decodeUint16 (le16 x) = x := by
  apply UInt16.toNat.inj
  show (ofLE (toLE 2 x.toNat)) % 2 ^ 16 = x.toNat
  rw [ofLE_toLE]
  have : x.toNat < 2 ^ 16 := x.toNat_lt_size
  omega

@[simp] theorem decodeUint32_le32 (x : UInt32) : decodeUint32 (le32 x) = x := by
  apply UInt32.toNat.inj
  show (ofLE (toLE 4 x.toNat)) % 2 ^ 32 = x.toNat
  rw [ofLE_toLE]
  have : x.toNat < 2 ^ 32 := x.toNat_lt_size
  omega

@[simp] theorem decodeUint8_singleton (b : UInt8) : decodeUint8 [b] = b := by
  apply UInt8.toNat.inj
  show (b.toNat + 256 * 0) % 2 ^ 8 = b.toNat
  have : b.toNat < 2 ^ 8 := b.toNat_lt_size
  omega

theorem toLE_ofLE (bs : Bytes) : toLE bs.length (ofLE bs) = bs := by
  induction bs with
  | nil => rfl
  | cons b bs ih =>
      have hb : b.toNat < 256 := b.toNat_lt_size
      have hlow : UInt8.ofNat (b.toNat + 256 * ofLE bs) = b :=
        UInt8.toNat.inj (show (b.toNat + 256 * ofLE bs) % 2 ^ 8 = b.toNat by omega)
      have hhigh : (b.toNat + 256 * ofLE bs) / 256 = ofLE bs := by omega
      rw [List.length_cons, toLE, ofLE, hlow, hhigh, ih]

/-- Every four bytes are the encoding of the `uint32` they spell. -/
theorem le32_decodeUint32 {bs : Bytes} (h : bs.length = 4) : le32 (decodeUint32 bs) = bs := by
  have hlt : ofLE bs < 2 ^ 32 := by simpa [h] using ofLE_lt bs
  rw [le32, decodeUint32, UInt32.toNat_ofNat_of_lt hlt, ← h, toLE_ofLE]

theorem uint32_ofNat_toNat (x : UInt32) : UInt32.ofNat x.toNat = x :=
  UInt32.toNat.inj (UInt32.toNat_ofNat_of_lt x.toNat_lt)

/-- Every two bytes are the encoding of the `uint16` they spell. -/
theorem le16_decodeUint16 {bs : Bytes} (h : bs.length = 2) : le16 (decodeUint16 bs) = bs := by
  have hlt : ofLE bs < 2 ^ 16 := by simpa [h] using ofLE_lt bs
  rw [le16, decodeUint16, UInt16.toNat_ofNat_of_lt hlt, ← h, toLE_ofLE]

end TcgLog
