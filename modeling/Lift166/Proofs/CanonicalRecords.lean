import Lift166.Proofs.SavedTable

/-!
# Which bytes a table is saved as

Any whole number of records can be read. Records of one address replace each other, fields wider than their meaning are
cut, and padding is passed over, so many byte strings stand for the same table. Saving writes one of them. That one has
its records by ascending address, padding of zeros and fields that fit, and a byte string with these properties is what
its table is saved as.
-/

namespace Lift166

/-! ## Bytes of a field -/

theorem littleEndian_ofLittleEndian (bytes : List UInt8) :
    littleEndian (ofLittleEndian bytes) bytes.length = bytes := by
  induction bytes with
  | nil => rfl
  | cons byte rest ih =>
    have hbyte := byte.toNat_lt
    have hlow : (byte.toNat + 256 * ofLittleEndian rest) % 256 = byte.toNat := by omega
    have hhigh : (byte.toNat + 256 * ofLittleEndian rest) / 256 = ofLittleEndian rest := by omega
    rw [ofLittleEndian, List.length_cons, littleEndian, hlow, hhigh, ih, UInt8.ofNat_toNat]

theorem recordField_lt {bytes : List UInt8} {offset size : Nat} (h : offset + size ≤ bytes.length) :
    recordField bytes offset size < 1 <<< (8 * size) := by
  have hlength : ((bytes.drop offset).take size).length = size := by
    rw [List.length_take, List.length_drop]
    omega
  have hlt := ofLittleEndian_lt ((bytes.drop offset).take size)
  rwa [hlength] at hlt

/-- Bytes are those of the field they begin with, and then the rest. -/
theorem drop_eq_field {bytes : List UInt8} {offset size : Nat} (h : offset + size ≤ bytes.length) :
    bytes.drop offset = littleEndian (recordField bytes offset size) size ++ bytes.drop (offset + size) := by
  have hlength : ((bytes.drop offset).take size).length = size := by
    rw [List.length_take, List.length_drop]
    omega
  have hfield := littleEndian_ofLittleEndian ((bytes.drop offset).take size)
  rw [hlength] at hfield
  rw [recordField, hfield, ← List.drop_drop, List.take_append_drop]

theorem drop_eq_byte {bytes : List UInt8} {offset : Nat} {byte : UInt8} (h : bytes[offset]? = some byte) :
    bytes.drop offset = byte :: bytes.drop (offset + 1) := by
  obtain ⟨hlt, rfl⟩ := List.getElem?_eq_some_iff.1 h
  exact List.drop_eq_getElem_cons hlt

/-! ## One record -/

/-- The entry has the kinds and the count of a record as they are, and the low bits of its other fields. -/
structure Override.ReadFrom (entry : Override) (record : List UInt8) : Prop where
  kinds : entry.kinds.toByte = recordField record 8 1
  remaining : entry.remaining.val = recordField record 9 1
  page : entry.page.val = recordField record 12 4 % 1024
  segment : entry.segment.val = recordField record 16 4 % 256
  pointers : ∀ slot < 4, (entry.dpp.select slot).val = recordField record (20 + 4 * slot) 4 % 1024

/-- Nothing is lost when the record is read: padding is zero, and fields fit what they mean. -/
structure CanonicalRecord (record : List UInt8) : Prop where
  padding : record[10]? = some 0 ∧ record[11]? = some 0
  page : recordField record 12 4 < 1024
  segment : recordField record 16 4 < 256
  pointers : ∀ slot < 4, recordField record (20 + 4 * slot) 4 < 1024

theorem KindSet.bitValue_bit (weight n : Nat) : bitValue weight (n % 2 == 1) = weight * (n % 2) := by
  rcases Nat.mod_two_eq_zero_or_one n with h | h
  · simp [bitValue, h]
  · simp [bitValue, h]

theorem KindSet.toByte_ofByte (byte : Fin 256) : (KindSet.ofByte byte).toByte = byte.val := by
  simp only [ofByte, toByte, bitValue_bit]
  omega

theorem recordPage_val (record : List UInt8) (offset : Nat) :
    (recordPage record offset).val = recordField record offset 4 % 1024 :=
  lowBits_natCast 10 _

theorem readRecord_readFrom {record : List UInt8} (h : record.length = recordSize) :
    (readRecord record).2.ReadFrom record := by
  have hsize : record.length = 36 := h
  have hbyte : ∀ offset < 36, (byteOf (recordField record offset 1)).val = recordField record offset 1 := by
    intro offset hoffset
    have hlt : recordField record offset 1 < 256 := recordField_lt (by omega)
    exact Nat.mod_eq_of_lt hlt
  constructor
  · exact (KindSet.toByte_ofByte _).trans (hbyte 8 (by decide))
  · exact hbyte 9 (by decide)
  · exact recordPage_val record 12
  · exact lowBits_natCast 8 _
  · intro slot hslot
    obtain rfl | rfl | rfl | rfl : slot = 0 ∨ slot = 1 ∨ slot = 2 ∨ slot = 3 := by omega
    all_goals exact recordPage_val record _

theorem Override.record_canonical {addr : Nat} (haddr : addr < 1 <<< (8 * 8)) (entry : Override) :
    CanonicalRecord (entry.record addr) := by
  obtain ⟨-, -, -, h12, h16, h20, h24, h28, h32⟩ := entry.record_fields haddr
  refine ⟨⟨rfl, rfl⟩, ?_, ?_, ?_⟩
  · exact h12 ▸ entry.page.isLt
  · exact h16 ▸ entry.segment.isLt
  · intro slot hslot
    obtain rfl | rfl | rfl | rfl : slot = 0 ∨ slot = 1 ∨ slot = 2 ∨ slot = 3 := by omega
    · exact h20 ▸ entry.dpp.dpp0.isLt
    · exact h24 ▸ entry.dpp.dpp1.isLt
    · exact h28 ▸ entry.dpp.dpp2.isLt
    · exact h32 ▸ entry.dpp.dpp3.isLt

/-- A record from which nothing is lost is written again as it was. -/
theorem CanonicalRecord.record_readRecord {record : List UInt8} (h : CanonicalRecord record)
    (hlength : record.length = recordSize) :
    (readRecord record).2.record (readRecord record).1.toNat = record := by
  have hsize : record.length = 36 := hlength
  obtain ⟨hkinds, hremaining, hpage, hsegment, hpointers⟩ := readRecord_readFrom hlength
  have hpointer : ∀ slot < 4, ((readRecord record).2.dpp.select slot).val = recordField record (20 + 4 * slot) 4 := by
    intro slot hslot
    rw [hpointers slot hslot, Nat.mod_eq_of_lt (h.pointers slot hslot)]
  have h0 : (readRecord record).2.dpp.dpp0.val = recordField record 20 4 := hpointer 0 (by decide)
  have h1 : (readRecord record).2.dpp.dpp1.val = recordField record 24 4 := hpointer 1 (by decide)
  have h2 : (readRecord record).2.dpp.dpp2.val = recordField record 28 4 := hpointer 2 (by decide)
  have h3 : (readRecord record).2.dpp.dpp3.val = recordField record 32 4 := hpointer 3 (by decide)
  rw [Nat.mod_eq_of_lt h.page] at hpage
  rw [Nat.mod_eq_of_lt h.segment] at hsegment
  -- the record is split field after field, from its first byte to its last
  have f0 : record.drop 0 = littleEndian (recordField record 0 8) 8 ++ record.drop 8 := drop_eq_field (by omega)
  have f8 : record.drop 8 = littleEndian (recordField record 8 1) 1 ++ record.drop 9 := drop_eq_field (by omega)
  have f9 : record.drop 9 = littleEndian (recordField record 9 1) 1 ++ record.drop 10 := drop_eq_field (by omega)
  have f10 : record.drop 10 = [0, 0] ++ record.drop 12 := by
    rw [drop_eq_byte h.padding.1, drop_eq_byte h.padding.2]
    rfl
  have f12 : record.drop 12 = littleEndian (recordField record 12 4) 4 ++ record.drop 16 := drop_eq_field (by omega)
  have f16 : record.drop 16 = littleEndian (recordField record 16 4) 4 ++ record.drop 20 := drop_eq_field (by omega)
  have f20 : record.drop 20 = littleEndian (recordField record 20 4) 4 ++ record.drop 24 := drop_eq_field (by omega)
  have f24 : record.drop 24 = littleEndian (recordField record 24 4) 4 ++ record.drop 28 := drop_eq_field (by omega)
  have f28 : record.drop 28 = littleEndian (recordField record 28 4) 4 ++ record.drop 32 := drop_eq_field (by omega)
  have f32 : record.drop 32 = littleEndian (recordField record 32 4) 4 ++ record.drop 36 := drop_eq_field (by omega)
  have hend : record.drop 36 = [] := List.drop_of_length_le (by omega)
  have haddr : (readRecord record).1.toNat = recordField record 0 8 := Int.toNat_natCast _
  show _ = record.drop 0
  rw [f0, f8, f9, f10, f12, f16, f20, f24, f28, f32, hend]
  simp only [Override.record, haddr, hkinds, hremaining, hpage, hsegment, h0, h1, h2, h3, DppVector.toList,
    List.flatMap_cons, List.flatMap_nil, List.append_assoc]

/-! ## All records -/

/-- The bytes of one record among others. -/
def recordAt (bytes : List UInt8) (k : Nat) : List UInt8 :=
  (bytes.drop (recordSize * k)).take recordSize

/-- The address of one record among others. -/
def recordAddress (bytes : List UInt8) (k : Nat) : Int :=
  recordField (recordAt bytes k) 0 8

/-- Addresses ascend, and no record loses anything when it is read. -/
structure CanonicalRecords (bytes : List UInt8) : Prop where
  ascending : ∀ j k, j < k → k < bytes.length / 36 → recordAddress bytes j < recordAddress bytes k
  records : ∀ k < bytes.length / 36, CanonicalRecord (recordAt bytes k)

theorem recordAt_length {bytes : List UInt8} {k : Nat} (h : k < bytes.length / 36) :
    (recordAt bytes k).length = recordSize := by
  rw [recordAt, List.length_take, List.length_drop, recordSize]
  omega

theorem recordAt_succ (bytes : List UInt8) (k : Nat) : recordAt bytes (k + 1) = recordAt (bytes.drop recordSize) k := by
  rw [recordAt, recordAt, List.drop_drop, Nat.mul_succ, Nat.add_comm]

theorem recordAt_recordBytes (bindings : List (Int × Override)) {k : Nat} (h : k < bindings.length) :
    recordAt (recordBytes bindings) k = bindings[k].2.record bindings[k].1.toNat := by
  induction bindings generalizing k with
  | nil => exact absurd h (Nat.not_lt_zero k)
  | cons first rest ih =>
    have hlength := Override.record_length first.1.toNat first.2
    have hbytes : recordBytes (first :: rest) = first.2.record first.1.toNat ++ recordBytes rest := rfl
    cases k with
    | zero =>
      rw [hbytes]
      exact List.take_left' hlength
    | succ k =>
      rw [recordAt_succ, hbytes, List.drop_left' hlength]
      exact ih (Nat.lt_of_succ_lt_succ h)

/-- Reading reads each record by itself. -/
theorem readRecords_eq_map (count : Nat) (bytes : List UInt8) :
    readRecords count bytes = (List.range count).map fun k => readRecord (recordAt bytes k) := by
  induction count generalizing bytes with
  | zero => rfl
  | succ count ih =>
    rw [readRecords, ih, List.range_succ_eq_map, List.map_cons, List.map_map]
    congr 1
    refine List.map_congr_left fun k _ => ?_
    rw [Function.comp, Nat.succ_eq_add_one, recordAt_succ]

/-- Records from which nothing is lost are written again as they were. -/
theorem recordBytes_readRecords {count : Nat} {bytes : List UInt8} (hlength : bytes.length = recordSize * count)
    (h : ∀ k < count, CanonicalRecord (recordAt bytes k)) : recordBytes (readRecords count bytes) = bytes := by
  induction count generalizing bytes with
  | zero =>
    have hnil : bytes = [] := List.length_eq_zero_iff.1 hlength
    rw [hnil]
    rfl
  | succ count ih =>
    rw [Nat.mul_succ] at hlength
    have hfirst : (bytes.take recordSize).length = recordSize := by
      rw [List.length_take]
      omega
    have hrest : (bytes.drop recordSize).length = recordSize * count := by
      rw [List.length_drop]
      omega
    have hhead : CanonicalRecord (bytes.take recordSize) := h 0 (Nat.zero_lt_succ count)
    have htail : ∀ k < count, CanonicalRecord (recordAt (bytes.drop recordSize) k) := by
      intro k hk
      rw [← recordAt_succ]
      exact h (k + 1) (Nat.succ_lt_succ hk)
    calc recordBytes (readRecords (count + 1) bytes)
        = (readRecord (bytes.take recordSize)).2.record (readRecord (bytes.take recordSize)).1.toNat
            ++ recordBytes (readRecords count (bytes.drop recordSize)) := rfl
      _ = bytes.take recordSize ++ bytes.drop recordSize := by rw [hhead.record_readRecord hfirst, ih hrest htail]
      _ = bytes := List.take_append_drop recordSize bytes

/-! ## The map of the records -/

namespace AddressMap

variable {α : Type}

theorem get?_foldl_of_not_bound {bindings : List (Int × α)} {addr : Int} (h : ∀ b ∈ bindings, addr ≠ b.1)
    (m : AddressMap α) : (bindings.foldl (fun m b => m.insert b.1 b.2) m).get? addr = m.get? addr := by
  induction bindings generalizing m with
  | nil => rfl
  | cons first rest ih =>
    rw [List.forall_mem_cons] at h
    rw [List.foldl_cons, ih h.2, get?_insert_of_ne _ _ h.1]

/-- The last binding of an address counts. -/
theorem get?_ofList_of_last {bindings : List (Int × α)} {k : Nat} (hk : k < bindings.length)
    (hlast : ∀ b ∈ bindings.drop (k + 1), bindings[k].1 ≠ b.1) :
    (ofList bindings).get? bindings[k].1 = some bindings[k].2 := by
  have hsplit : bindings = bindings.take k ++ bindings[k] :: bindings.drop (k + 1) := by
    rw [← List.drop_eq_getElem_cons hk, List.take_append_drop]
  have hfold := congrArg (List.foldl (fun m b => m.insert b.1 b.2) (empty : AddressMap α)) hsplit
  rw [List.foldl_append, List.foldl_cons] at hfold
  rw [ofList, hfold, get?_foldl_of_not_bound hlast, get?_insert_self]

theorem mem_foldl_insert {bindings : List (Int × α)} {m : AddressMap α} {b : Int × α}
    (h : b ∈ (bindings.foldl (fun m b => m.insert b.1 b.2) m).toList) : b ∈ bindings ∨ b ∈ m.toList := by
  induction bindings generalizing m with
  | nil => exact .inr h
  | cons first rest ih =>
    rcases ih h with hrest | hinsert
    · exact .inl (List.mem_cons_of_mem first hrest)
    · rcases mem_insertBinding hinsert with rfl | hmem
      · exact .inl List.mem_cons_self
      · exact .inr hmem

theorem mem_of_mem_ofList {bindings : List (Int × α)} {b : Int × α} (h : b ∈ (ofList bindings).toList) :
    b ∈ bindings := by
  rcases mem_foldl_insert h with hmem | hempty
  · exact hmem
  · exact absurd hempty List.not_mem_nil

/-- Ascending bindings are the bindings of their map. -/
theorem toList_ofList {bindings : List (Int × α)} (h : bindings.Pairwise fun a b => a.1 < b.1) :
    (ofList bindings).toList = bindings :=
  congrArg toList (ofList_toList ⟨bindings, h⟩)

end AddressMap

/-! ## Reading and writing -/

variable {bytes : List UInt8}

/-- What a record among others is read as. -/
theorem readRecords_getElem {k : Nat} (h : k < (readRecords (bytes.length / 36) bytes).length) :
    (readRecords (bytes.length / 36) bytes)[k] = readRecord (recordAt bytes k) := by
  simp only [readRecords_eq_map, List.getElem_map, List.getElem_range]

theorem readRecords_length (count : Nat) (bytes : List UInt8) : (readRecords count bytes).length = count := by
  rw [readRecords_eq_map, List.length_map, List.length_range]

theorem addressFits_of_mem_readRecords {b : Int × Override} (h : b ∈ readRecords (bytes.length / 36) bytes) :
    AddressFits b.1 := by
  rw [readRecords_eq_map] at h
  obtain ⟨k, hk, rfl⟩ := List.mem_map.1 h
  have hlength : (recordAt bytes k).length = 36 := recordAt_length (List.mem_range.1 hk)
  have hlt : recordField (recordAt bytes k) 0 8 < 1 <<< (8 * 8) := recordField_lt (by omega)
  constructor
  · exact Int.natCast_nonneg _
  · show (recordField (recordAt bytes k) 0 8 : Int) < _
    omega

theorem readRecords_ascending_iff :
    (readRecords (bytes.length / 36) bytes).Pairwise (fun a b => a.1 < b.1) ↔
      ∀ j k, j < k → k < bytes.length / 36 → recordAddress bytes j < recordAddress bytes k := by
  rw [List.pairwise_iff_getElem]
  constructor
  · intro h j k hjk hk
    have hlength := readRecords_length (bytes.length / 36) bytes
    have hlt := h j k (by omega) (by omega) hjk
    rwa [readRecords_getElem, readRecords_getElem] at hlt
  · intro h j k hj hk hjk
    rw [readRecords_length] at hk
    rw [readRecords_getElem, readRecords_getElem]
    exact h j k hjk hk

/-- What is written for ascending bindings is canonical. -/
theorem canonicalRecords_recordBytes {bindings : List (Int × Override)}
    (hascending : bindings.Pairwise fun a b => a.1 < b.1) (hfits : ∀ b ∈ bindings, AddressFits b.1) :
    CanonicalRecords (recordBytes bindings) := by
  have hlength : (recordBytes bindings).length = 36 * bindings.length := recordBytes_length bindings
  have hcount : (recordBytes bindings).length / 36 = bindings.length := by omega
  constructor
  · rw [← readRecords_ascending_iff, hcount, readRecords_recordBytes hfits]
    exact hascending
  · intro k hk
    rw [hcount] at hk
    obtain ⟨hnonneg, hlt⟩ := hfits bindings[k] (List.getElem_mem hk)
    rw [recordAt_recordBytes bindings hk]
    exact Override.record_canonical (by omega) _

/-- The table of any records can be saved: their addresses were read from eight bytes. -/
theorem addressFits_of_mem_ofList {b : Int × Override}
    (h : b ∈ (AddressMap.ofList (readRecords (bytes.length / 36) bytes)).toList) : AddressFits b.1 :=
  addressFits_of_mem_readRecords (AddressMap.mem_of_mem_ofList h)

/-- Records are written again as they were just when they are canonical. -/
theorem recordBytes_ofList_eq_iff (h : bytes.length % 36 = 0) :
    recordBytes (AddressMap.ofList (readRecords (bytes.length / 36) bytes)).toList = bytes ↔
      CanonicalRecords bytes := by
  constructor
  · intro hbytes
    rw [← hbytes]
    exact canonicalRecords_recordBytes (AddressMap.ascending _) fun _ => addressFits_of_mem_ofList
  · rintro ⟨hascending, hrecords⟩
    have hwhole : bytes.length = 36 * (bytes.length / 36) := by omega
    rw [AddressMap.toList_ofList (readRecords_ascending_iff.2 hascending)]
    exact recordBytes_readRecords hwhole hrecords

/-- The entry of an address is that of its last record. -/
theorem get?_ofList_readRecords {k : Nat} (hk : k < bytes.length / 36)
    (hlast : ∀ later < bytes.length / 36, k < later → recordAddress bytes later ≠ recordAddress bytes k) :
    ∃ entry, (AddressMap.ofList (readRecords (bytes.length / 36) bytes)).get? (recordAddress bytes k) = some entry ∧
      entry.ReadFrom (recordAt bytes k) := by
  have hlength := readRecords_length (bytes.length / 36) bytes
  have hbound : k < (readRecords (bytes.length / 36) bytes).length := hlength.symm ▸ hk
  refine ⟨(readRecord (recordAt bytes k)).2, ?_, readRecord_readFrom (recordAt_length hk)⟩
  have hget := AddressMap.get?_ofList_of_last hbound ?_
  · rwa [readRecords_getElem] at hget
  · intro b hb
    obtain ⟨j, hj, rfl⟩ := List.mem_iff_getElem.1 hb
    rw [List.length_drop, hlength] at hj
    rw [List.getElem_drop, readRecords_getElem, readRecords_getElem]
    exact (hlast (k + 1 + j) (by omega) (by omega)).symm

theorem get?_ofList_readRecords_eq_none {addr : Int} (h : ∀ k < bytes.length / 36, recordAddress bytes k ≠ addr) :
    (AddressMap.ofList (readRecords (bytes.length / 36) bytes)).get? addr = none := by
  refine AddressMap.get?_foldl_of_not_bound ?_ AddressMap.empty
  intro b hb
  rw [readRecords_eq_map] at hb
  obtain ⟨k, hk, rfl⟩ := List.mem_map.1 hb
  exact (h k (List.mem_range.1 hk)).symm

/-- Bytes are read just when they are whole records. The table then has, for every address of a record, the entry of
the last such record, cut to what its fields mean, and no other address. It can be saved, what is saved is read as the
same table, and that is the bytes themselves just when their addresses ascend, padding is zero and every field fits. -/
theorem Store.records_read_and_saved (s : Store) (bytes : List UInt8) :
    (bytes.length % 36 ≠ 0 → s.deserialize bytes = .error (.malformed bytes.length)) ∧
    (bytes.length % 36 = 0 → ∃ t, s.deserialize bytes = .ok t ∧ t.defaultDpp = s.defaultDpp ∧
      (∀ k < bytes.length / 36,
        (∀ later < bytes.length / 36, k < later → recordAddress bytes later ≠ recordAddress bytes k) →
        ∃ entry, t.table.get? (recordAddress bytes k) = some entry ∧ entry.ReadFrom (recordAt bytes k)) ∧
      (∀ addr, (∀ k < bytes.length / 36, recordAddress bytes k ≠ addr) → t.table.get? addr = none) ∧
      ∃ saved, t.serialize = .ok saved ∧ (∀ u : Store, u.deserialize saved = .ok { u with table := t.table }) ∧
        (saved = bytes ↔ CanonicalRecords bytes)) := by
  constructor
  · intro hlength
    rw [s.deserialize_eq]
    exact if_neg hlength
  · intro hlength
    have hread := (s.deserialize_eq bytes).trans (if_pos hlength)
    refine ⟨_, hread, rfl, ?_, ?_, ?_⟩
    · intro k hk hlast
      exact get?_ofList_readRecords hk hlast
    · intro addr hnone
      exact get?_ofList_readRecords_eq_none hnone
    · have hfits := fun b => @addressFits_of_mem_ofList bytes b
      have hsaved := (@Store.serialize_eq_ok_iff { s with table := _ } _).2 ⟨hfits, rfl⟩
      exact ⟨_, hsaved, Store.deserialize_serialize hsaved, recordBytes_ofList_eq_iff hlength⟩

/-- One record, with a page field that is wider than a page number. -/
def widePage : List UInt8 :=
  littleEndian 0x1000 8 ++ [0x04, 0x02, 0, 0] ++ littleEndian 0x403 4 ++ littleEndian 0 20

/-- The same record after another one of its address. -/
def widePageLast : List UInt8 :=
  littleEndian 0x1000 8 ++ [0x04, 0x05, 0, 0] ++ littleEndian 7 4 ++ littleEndian 0 20 ++ widePage

/-- The page is cut to its low bits, so the record is saved with another page field. Of two records for one address the
last one counts, and so the two are not saved as they were either. -/
theorem records_read_and_saved_wide_page :
    (widePage.length % 36 = 0 ∧ ∃ t entry saved, (Store.empty .zero).deserialize widePage = .ok t ∧
      t.table.get? 0x1000 = some entry ∧ entry.page.val = 3 ∧ t.serialize = .ok saved ∧ saved ≠ widePage) ∧
    widePageLast.length / 36 = 2 ∧ recordAddress widePageLast 0 = 0x1000 ∧ recordAddress widePageLast 1 = 0x1000 ∧
      ∃ t entry saved, (Store.empty .zero).deserialize widePageLast = .ok t ∧ t.table.get? 0x1000 = some entry ∧
        entry.page.val = 3 ∧ entry.remaining.val = 2 ∧ t.table.get? 0x1002 = none ∧ t.serialize = .ok saved ∧
        saved ≠ widePageLast := by
  constructor
  · obtain ⟨t, hread, -, hentry, -, saved, hsaved, -, hsame⟩ :=
      (Store.records_read_and_saved (Store.empty .zero) widePage).2 rfl
    obtain ⟨entry, hget, hfrom⟩ := hentry 0 (by decide) (by decide)
    refine ⟨rfl, t, entry, saved, hread, hget, hfrom.page, hsaved, ?_⟩
    intro h
    have hfits : 0x403 < 1024 := ((hsame.1 h).records 0 (by decide)).page
    exact absurd hfits (by decide)
  · obtain ⟨t, hread, -, hentry, habsent, saved, hsaved, -, hsame⟩ :=
      (Store.records_read_and_saved (Store.empty .zero) widePageLast).2 rfl
    obtain ⟨entry, hget, hfrom⟩ := hentry 1 (by decide) (by decide)
    refine ⟨rfl, rfl, rfl, t, entry, saved, hread, hget, hfrom.page, hfrom.remaining, habsent 0x1002 (by decide),
      hsaved, ?_⟩
    intro h
    have hascends : recordAddress widePageLast 0 < recordAddress widePageLast 1 :=
      (hsame.1 h).ascending 0 1 (by decide) (by decide)
    exact absurd hascends (by decide)

end Lift166
