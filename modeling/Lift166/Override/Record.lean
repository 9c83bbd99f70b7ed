import Lift166.Override.Store

/-!
# Saved overrides

A saved table is a sequence of records of 36 bytes, one per entry, in ascending order of address. A record holds
the address in eight bytes, the kinds and the running count in one byte each, two bytes of padding, and then the
page, the segment and the four data page pointers in four bytes each, all little-endian.

Reading accepts any sequence of whole records. Fields wider than their meaning are cut to it, and the last record
of an address counts.
-/

namespace Lift166

/-- The low `count` bytes of a number, least significant first. -/
def littleEndian (n : Nat) : Nat → List UInt8
  | 0 => []
  | count + 1 => UInt8.ofNat (n % 256) :: littleEndian (n / 256) count

/-- The number whose bytes are given, least significant first. -/
def ofLittleEndian : List UInt8 → Nat
  | [] => 0
  | b :: rest => b.toNat + 256 * ofLittleEndian rest

theorem one_shiftLeft_bytes_succ (count : Nat) : 1 <<< (8 * (count + 1)) = 256 * 1 <<< (8 * count) := by
  rw [Nat.one_shiftLeft, Nat.one_shiftLeft, Nat.mul_succ, Nat.pow_add, Nat.mul_comm]

theorem littleEndian_length (n count : Nat) : (littleEndian n count).length = count := by
  induction count generalizing n with
  | zero => rfl
  | succ count ih => rw [littleEndian, List.length_cons, ih]

theorem ofLittleEndian_littleEndian {n count : Nat} (h : n < 1 <<< (8 * count)) :
    ofLittleEndian (littleEndian n count) = n := by
  induction count generalizing n with
  | zero =>
    have hzero : n = 0 := Nat.lt_one_iff.1 h
    rw [hzero]
    rfl
  | succ count ih =>
    rw [one_shiftLeft_bytes_succ] at h
    have hrest : n / 256 < 1 <<< (8 * count) := Nat.div_lt_of_lt_mul h
    have hbyte : (UInt8.ofNat (n % 256)).toNat = n % 256 :=
      UInt8.toNat_ofNat_of_lt' (Nat.mod_lt n (by decide))
    rw [littleEndian, ofLittleEndian, ih hrest, hbyte]
    omega

theorem ofLittleEndian_lt (bytes : List UInt8) : ofLittleEndian bytes < 1 <<< (8 * bytes.length) := by
  induction bytes with
  | nil => decide
  | cons byte rest ih =>
    have hbyte := byte.toNat_lt
    rw [ofLittleEndian, List.length_cons, one_shiftLeft_bytes_succ]
    omega

/-- The record of an entry whose address is a natural number below `2 ^ 64`. -/
def Override.record (addr : Nat) (entry : Override) : List UInt8 :=
  littleEndian addr 8 ++ littleEndian entry.kinds.toByte 1 ++ littleEndian entry.remaining.val 1 ++ [0, 0]
    ++ littleEndian entry.page.val 4 ++ littleEndian entry.segment.val 4
    ++ entry.dpp.toList.flatMap fun page => littleEndian page.val 4

/-- The records of a list of bindings, unless an address does not fit. -/
def recordsOf : List (Int × Override) → Except StoreError (List UInt8)
  | [] => .ok []
  | (addr, entry) :: rest =>
    if 0 ≤ addr ∧ addr < 0x10000000000000000 then (recordsOf rest).map (entry.record addr.toNat ++ ·)
    else .error (.addressRange addr)

/-- A field of a record. -/
def recordField (bytes : List UInt8) (offset size : Nat) : Nat :=
  ofLittleEndian ((bytes.drop offset).take size)

/-- A field of a record that holds a page. -/
def recordPage (bytes : List UInt8) (offset : Nat) : Page :=
  .ofInt (recordField bytes offset 4)

/-- The address and the entry of a record. -/
def readRecord (bytes : List UInt8) : Int × Override :=
  (recordField bytes 0 8,
    { kinds := .ofByte (byteOf (recordField bytes 8 1))
      remaining := byteOf (recordField bytes 9 1)
      page := recordPage bytes 12
      segment := .ofInt (recordField bytes 16 4)
      dpp := ⟨recordPage bytes 20, recordPage bytes 24, recordPage bytes 28, recordPage bytes 32⟩ })

/-- The first `count` records. -/
def readRecords : Nat → List UInt8 → List (Int × Override)
  | 0, _ => []
  | count + 1, bytes => readRecord (bytes.take recordSize) :: readRecords count (bytes.drop recordSize)

namespace Store

/-- The saved form of the table. -/
def serialize (s : Store) : Except StoreError (List UInt8) :=
  recordsOf s.table.toList

/-- Replaces the table by a saved one. The store comes with the answer, be it a refusal. -/
def tryDeserialize (s : Store) (bytes : List UInt8) : Except StoreError Unit × Store :=
  if bytes.length % recordSize = 0 then
    (.ok (), { s with table := .ofList (readRecords (bytes.length / recordSize) bytes) })
  else (.error (.malformed bytes.length), s)

/-- The store with a saved table, unless that is refused. -/
def deserialize (s : Store) (bytes : List UInt8) : Except StoreError Store :=
  let (answer, after) := s.tryDeserialize bytes
  answer.map fun _ => after

theorem deserialize_eq (s : Store) (bytes : List UInt8) :
    s.deserialize bytes =
      if bytes.length % recordSize = 0 then
        .ok { s with table := .ofList (readRecords (bytes.length / recordSize) bytes) }
      else .error (.malformed bytes.length) := by
  unfold deserialize tryDeserialize
  by_cases h : bytes.length % recordSize = 0
  · rw [if_pos h, if_pos h]
    rfl
  · rw [if_neg h, if_neg h]
    rfl

end Store

end Lift166
