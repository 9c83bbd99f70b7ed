import Lift166.Command
import Lift166.Proofs.Decoded

/-!
# Saving and restoring the table

A saved table is read back as it was. Every field of an entry fits the bytes that a record gives it, since its type
bounds it, so the only thing that can keep a table from being saved is an address beyond eight bytes. Reading then
goes through the records in the order in which they were written; the addresses ascend, so no record replaces an
earlier one, and the map that is built holds the entries of the saved table and nothing else.
-/

namespace Lift166

/-! ## One record -/

theorem recordField_head {n count : Nat} (h : n < 1 <<< (8 * count)) (rest : List UInt8) :
    recordField (littleEndian n count ++ rest) 0 count = n := by
  rw [recordField, List.drop_zero, List.take_left' (littleEndian_length n count), ofLittleEndian_littleEndian h]

theorem recordField_tail {front : List UInt8} {offset : Nat} (h : front.length ≤ offset) (rest : List UInt8)
    (size : Nat) : recordField (front ++ rest) offset size = recordField rest (offset - front.length) size := by
  rw [recordField, List.drop_append, List.drop_of_length_le h, List.nil_append, recordField]

theorem recordField_next {count offset : Nat} (h : count ≤ offset) (n : Nat) (rest : List UInt8) (size : Nat) :
    recordField (littleEndian n count ++ rest) offset size = recordField rest (offset - count) size := by
  have hlength := littleEndian_length n count
  rw [recordField_tail (by omega), hlength]

theorem byteOf_val (b : Fin 256) : byteOf b.val = b :=
  Fin.ofNat_val_eq_self b

/-- The persistent byte keeps every kind, and the bits without a meaning. -/
theorem KindSet.ofByte_toByte (k : KindSet) : KindSet.ofByte (byteOf k.toByte) = k := by
  obtain ⟨register, segment, page, atomic, customDpp, reserved⟩ := k
  revert register segment page atomic customDpp reserved
  decide

theorem Override.record_length (addr : Nat) (entry : Override) : (entry.record addr).length = recordSize := by
  simp [record, DppVector.toList, littleEndian_length, recordSize]

/-- The fields of a record, in the order in which they stand. -/
theorem Override.record_fields {addr : Nat} (haddr : addr < 1 <<< (8 * 8)) (entry : Override) :
    recordField (entry.record addr) 0 8 = addr ∧ recordField (entry.record addr) 8 1 = entry.kinds.toByte ∧
      recordField (entry.record addr) 9 1 = entry.remaining.val ∧
      recordField (entry.record addr) 12 4 = entry.page.val ∧ recordField (entry.record addr) 16 4 = entry.segment.val ∧
      recordField (entry.record addr) 20 4 = entry.dpp.dpp0.val ∧
      recordField (entry.record addr) 24 4 = entry.dpp.dpp1.val ∧
      recordField (entry.record addr) 28 4 = entry.dpp.dpp2.val ∧
      recordField (entry.record addr) 32 4 = entry.dpp.dpp3.val := by
  have hkinds : entry.kinds.toByte < 1 <<< (8 * 1) := entry.kinds.toByte_lt
  have hremaining : entry.remaining.val < 1 <<< (8 * 1) := entry.remaining.isLt
  have hpage : ∀ p : Page, p.val < 1 <<< (8 * 4) := fun p => Nat.lt_trans p.isLt (by decide)
  have hsegment : entry.segment.val < 1 <<< (8 * 4) := Nat.lt_trans entry.segment.isLt (by decide)
  have hrecord : entry.record addr = littleEndian addr 8 ++ (littleEndian entry.kinds.toByte 1 ++
      (littleEndian entry.remaining.val 1 ++ ([0, 0] ++ (littleEndian entry.page.val 4 ++
      (littleEndian entry.segment.val 4 ++ (littleEndian entry.dpp.dpp0.val 4 ++ (littleEndian entry.dpp.dpp1.val 4 ++
      (littleEndian entry.dpp.dpp2.val 4 ++ (littleEndian entry.dpp.dpp3.val 4 ++ []))))))))) := by
    simp only [Override.record, DppVector.toList, List.flatMap_cons, List.flatMap_nil, List.append_assoc]
  -- each field is reached by passing over the fields before it
  simp (disch := decide) only [hrecord, recordField_next, recordField_tail, Nat.reduceSub, List.length_cons,
    List.length_nil, Nat.reduceAdd, recordField_head haddr, recordField_head hkinds, recordField_head hremaining,
    recordField_head (hpage _), recordField_head hsegment, and_self]

/-- A record gives back the address and the entry it was made from. -/
theorem readRecord_record {addr : Nat} (haddr : addr < 1 <<< (8 * 8)) (entry : Override) :
    readRecord (entry.record addr) = ((addr : Int), entry) := by
  obtain ⟨h0, h8, h9, h12, h16, h20, h24, h28, h32⟩ := entry.record_fields haddr
  simp only [readRecord, recordPage, h0, h8, h9, h12, h16, h20, h24, h28, h32, KindSet.ofByte_toByte, byteOf_val,
    Page.ofInt_val, Segment.ofInt_val]

/-! ## All records -/

/-- The address fits the eight bytes that a record has for it. -/
def AddressFits (addr : Int) : Prop :=
  0 ≤ addr ∧ addr < 0x10000000000000000

theorem readRecord_binding {b : Int × Override} (h : AddressFits b.1) : readRecord (b.2.record b.1.toNat) = b := by
  obtain ⟨hnonneg, hlt⟩ := h
  have haddr : b.1.toNat < 1 <<< (8 * 8) := by omega
  rw [readRecord_record haddr, Int.toNat_of_nonneg hnonneg]

/-- The records of a list of bindings, one after the other. -/
def recordBytes (bindings : List (Int × Override)) : List UInt8 :=
  (bindings.map fun b => b.2.record b.1.toNat).flatten

/-- Records are written just when every address fits. -/
theorem recordsOf_eq_ok_iff {bindings : List (Int × Override)} {bytes : List UInt8} :
    recordsOf bindings = .ok bytes ↔ (∀ b ∈ bindings, AddressFits b.1) ∧ recordBytes bindings = bytes := by
  induction bindings generalizing bytes with
  | nil => simp [recordsOf, recordBytes]
  | cons first rest ih =>
    obtain ⟨addr, entry⟩ := first
    rw [recordsOf, List.forall_mem_cons]
    split
    · next hfits =>
      rw [map_ok_iff]
      constructor
      · rintro ⟨others, hothers, rfl⟩
        obtain ⟨hall, rfl⟩ := ih.1 hothers
        exact ⟨⟨hfits, hall⟩, rfl⟩
      · rintro ⟨⟨-, hall⟩, rfl⟩
        exact ⟨recordBytes rest, ih.2 ⟨hall, rfl⟩, rfl⟩
    · next hbad =>
      constructor
      · intro h
        cases h
      · rintro ⟨⟨hfits, -⟩, -⟩
        exact absurd hfits hbad

theorem recordBytes_length (bindings : List (Int × Override)) :
    (recordBytes bindings).length = recordSize * bindings.length := by
  induction bindings with
  | nil => rfl
  | cons first rest ih =>
    have hfirst := Override.record_length first.1.toNat first.2
    unfold recordBytes at ih ⊢
    rw [List.map_cons, List.flatten_cons, List.length_append, hfirst, ih, List.length_cons, Nat.mul_succ,
      Nat.add_comm]

/-- Reading goes through the records in the order in which they were written. -/
theorem readRecords_recordBytes {bindings : List (Int × Override)} (h : ∀ b ∈ bindings, AddressFits b.1) :
    readRecords bindings.length (recordBytes bindings) = bindings := by
  induction bindings with
  | nil => rfl
  | cons first rest ih =>
    rw [List.forall_mem_cons] at h
    have hlength := Override.record_length first.1.toNat first.2
    have hbytes : recordBytes (first :: rest) = first.2.record first.1.toNat ++ recordBytes rest := rfl
    rw [List.length_cons, readRecords, hbytes, List.take_left' hlength, List.drop_left' hlength,
      readRecord_binding h.1, ih h.2]

/-! ## The map of the records -/

theorem lookupBinding_eq_none {α : Type} {addr : Int} {bindings : List (Int × α)}
    (h : ∀ b ∈ bindings, addr ≠ b.1) : lookupBinding addr bindings = none := by
  induction bindings with
  | nil => rfl
  | cons first rest ih =>
    rw [List.forall_mem_cons] at h
    rw [lookupBinding, if_neg h.1, ih h.2]

namespace AddressMap

variable {α : Type}

/-- Binding ascending addresses one after the other replaces none of them. -/
theorem get?_foldl_insert {bindings : List (Int × α)} (h : bindings.Pairwise fun a b => a.1 < b.1)
    (m : AddressMap α) (addr : Int) :
    (bindings.foldl (fun m b => m.insert b.1 b.2) m).get? addr = (lookupBinding addr bindings).or (m.get? addr) := by
  induction bindings generalizing m with
  | nil => rfl
  | cons first rest ih =>
    obtain ⟨hfirst, hrest⟩ := List.pairwise_cons.1 h
    rw [List.foldl_cons, ih hrest, get?_insert, lookupBinding]
    by_cases haddr : addr = first.1
    · have hnone : lookupBinding addr rest = none := by
        apply lookupBinding_eq_none
        intro b hb
        have hlt := hfirst b hb
        omega
      rw [if_pos haddr, if_pos haddr, hnone]
      rfl
    · rw [if_neg haddr, if_neg haddr]

/-- The bindings of a map make the map. -/
theorem ofList_toList (m : AddressMap α) : ofList m.toList = m := by
  apply ext
  intro addr
  rw [ofList, get?_foldl_insert m.ascending, get?_empty, Option.or_none]
  rfl

end AddressMap

namespace Store

/-! ## Saving and restoring -/

/-- Saving succeeds just when every address fits, and then writes the records of the entries. -/
theorem serialize_eq_ok_iff {s : Store} {bytes : List UInt8} :
    s.serialize = .ok bytes ↔ (∀ b ∈ s.table.toList, AddressFits b.1) ∧ recordBytes s.table.toList = bytes :=
  recordsOf_eq_ok_iff

theorem serialize_fails_iff (s : Store) :
    (∃ e, s.serialize = .error e) ↔ ∃ addr ∈ s.table.addresses, ¬ AddressFits addr := by
  by_cases hall : ∀ b ∈ s.table.toList, AddressFits b.1
  · have hok := serialize_eq_ok_iff.2 ⟨hall, rfl⟩
    constructor
    · rintro ⟨e, he⟩
      rw [hok] at he
      cases he
    · rintro ⟨addr, haddr, hfits⟩
      obtain ⟨b, hb, rfl⟩ := List.mem_map.1 haddr
      exact absurd (hall b hb) hfits
  · have hbeyond : ∃ b ∈ s.table.toList, ¬ AddressFits b.1 := by
      simpa only [Classical.not_forall, exists_prop] using hall
    obtain ⟨b, hb, hfits⟩ := hbeyond
    refine ⟨fun _ => ⟨b.1, List.mem_map_of_mem hb, hfits⟩, fun _ => ?_⟩
    cases hs : s.serialize with
    | error e => exact ⟨e, rfl⟩
    | ok bytes => exact absurd (serialize_eq_ok_iff.1 hs).1 hall

/-- A store that reads a saved table holds that table, and its own default pointers. -/
theorem tryDeserialize_serialize {s : Store} {bytes : List UInt8} (h : s.serialize = .ok bytes) (t : Store) :
    t.tryDeserialize bytes = (.ok (), { t with table := s.table }) := by
  obtain ⟨hfits, rfl⟩ := serialize_eq_ok_iff.1 h
  have hlength := recordBytes_length s.table.toList
  have hpos : 0 < recordSize := by decide
  rw [tryDeserialize, hlength, if_pos (Nat.mul_mod_right recordSize _), Nat.mul_div_cancel_left _ hpos,
    readRecords_recordBytes hfits, AddressMap.ofList_toList]

theorem deserialize_serialize {s : Store} {bytes : List UInt8} (h : s.serialize = .ok bytes) (t : Store) :
    t.deserialize bytes = .ok { t with table := s.table } := by
  rw [deserialize, tryDeserialize_serialize h]
  rfl

end Store

/-! ## The table with a view -/

/-- The text that has one character for each byte. -/
def latin1 (bytes : List UInt8) : String :=
  String.ofList (bytes.map fun b => Char.ofNat b.toNat)

/-- What a host may return for bytes that it was given to keep. -/
inductive Metadata.Returned (bytes : List UInt8) : Metadata → Prop
  | bytes : Returned bytes (.bytes bytes)
  | text : Returned bytes (.text (latin1 bytes))

theorem toNat_ofNat_byte (b : UInt8) : (Char.ofNat b.toNat).toNat = b.toNat := by
  have hlt := b.toNat_lt
  have hvalid : b.toNat.isValidChar := Or.inl (by omega)
  rw [Char.ofNat, dif_pos hvalid]
  rfl

/-- Either way the bytes are had back. -/
theorem Metadata.Returned.toBytes {bytes : List UInt8} {kept : Metadata} (h : kept.Returned bytes) :
    kept.toBytes = .ok bytes := by
  cases h with
  | bytes => rfl
  | text =>
    have hsmall : ∀ c ∈ bytes.map fun b => Char.ofNat b.toNat, c.toNat < 256 := by
      intro c hc
      obtain ⟨b, -, rfl⟩ := List.mem_map.1 hc
      rw [toNat_ofNat_byte]
      exact b.toNat_lt
    have hback : (bytes.map fun b => Char.ofNat b.toNat).map (fun c => UInt8.ofNat c.toNat) = bytes := by
      rw [List.map_map]
      refine (List.map_congr_left fun b _ => ?_).trans (List.map_id bytes)
      rw [Function.comp, toNat_ofNat_byte, UInt8.ofNat_toNat]
      rfl
    unfold Metadata.toBytes latin1
    simp only [String.toList_ofList]
    rw [if_pos (by simpa using hsmall), hback]

theorem View.get?_put (v : View) (key : String) (value : Metadata) : (v.put key value).get? key = some value := by
  simp [View.get?, View.put]

/-- A view that keeps a saved table gives it to any store. -/
theorem loadStateMap_serialize {s : Store} {bytes : List UInt8} (h : s.serialize = .ok bytes) {view : View}
    {kept : Metadata} (hkept : view.get? stateKey = some kept) (hreturned : kept.Returned bytes) (t : Store) :
    loadStateMap t view = .ok ⟨true, { t with table := s.table }, view.reanalyze,
      [.recordsRead s.table.size, .mapLoaded s.table.size]⟩ := by
  have hrestore : restore t bytes = ⟨.ok (), { t with table := s.table }, [.recordsRead s.table.size]⟩ := by
    rw [restore, Store.tryDeserialize_serialize h]
  have hload : tryLoadStateMap t view = ⟨.ok (true, view.reanalyze), { t with table := s.table },
      [.recordsRead s.table.size, .mapLoaded s.table.size]⟩ := by
    simp only [tryLoadStateMap, hkept, hreturned.toBytes, hrestore]
    rfl
  rw [loadStateMap, hload]
  rfl

theorem saveStateMap_eq_ok {s : Store} {bytes : List UInt8} (h : s.serialize = .ok bytes) (view : View) :
    saveStateMap s view = .ok (view.put stateKey (.bytes bytes), [.mapSaved s.table.size]) := by
  rw [saveStateMap, h]
  rfl

theorem saveStateMap_fails_iff (s : Store) (view : View) :
    (∃ e, saveStateMap s view = .error e) ↔ ∃ e, s.serialize = .error e := by
  unfold saveStateMap
  cases s.serialize with
  | error e => exact ⟨fun _ => ⟨e, rfl⟩, fun _ => ⟨e, rfl⟩⟩
  | ok bytes =>
    constructor
    · rintro ⟨e, ⟨⟩⟩
    · rintro ⟨e, ⟨⟩⟩

/-- A saved table comes back as it was. Saving fails just when an address does not fit eight bytes. Otherwise it
gives 36 bytes for each entry, by ascending address, and any store that reads them has exactly the table that was
saved and keeps its own default pointers. The same goes for a table that is kept with a view, whether the host
returns the bytes or a text of them. -/
theorem Store.saved_table_comes_back (s : Store) :
    ((∃ e, s.serialize = .error e) ↔ ∃ addr ∈ s.table.addresses, ¬ AddressFits addr) ∧
    (∀ view, (∃ e, saveStateMap s view = .error e) ↔ ∃ addr ∈ s.table.addresses, ¬ AddressFits addr) ∧
    ∀ bytes, s.serialize = .ok bytes →
      (∃ records : List (List UInt8), records.flatten = bytes ∧ (∀ r ∈ records, r.length = 36) ∧
        records.map (fun r => (recordField r 0 8 : Int)) = s.table.addresses ∧
        s.table.addresses.Pairwise (· < ·)) ∧
      (∀ t : Store, t.deserialize bytes = .ok { t with table := s.table }) ∧
      ∀ view, ∃ saved events, saveStateMap s view = .ok (saved, events) ∧
        saved.get? stateKey = some (.bytes bytes) ∧
        ∀ (t : Store) (later : View) (kept : Metadata), later.get? stateKey = some kept → kept.Returned bytes →
          loadStateMap t later = .ok ⟨true, { t with table := s.table }, later.reanalyze,
            [.recordsRead s.table.size, .mapLoaded s.table.size]⟩ := by
  refine ⟨s.serialize_fails_iff, fun view => (saveStateMap_fails_iff s view).trans s.serialize_fails_iff, ?_⟩
  intro bytes hbytes
  obtain ⟨hfits, hrecords⟩ := serialize_eq_ok_iff.1 hbytes
  refine ⟨⟨s.table.toList.map fun b : Int × Override => b.2.record b.1.toNat, hrecords, ?_, ?_, ?_⟩,
    deserialize_serialize hbytes, ?_⟩
  · intro r hr
    obtain ⟨b, -, rfl⟩ := List.mem_map.1 hr
    exact Override.record_length _ _
  · rw [List.map_map]
    refine List.map_congr_left fun b hb => ?_
    exact congrArg Prod.fst (readRecord_binding (hfits b hb))
  · exact List.pairwise_map.2 s.table.ascending
  · intro view
    refine ⟨_, _, saveStateMap_eq_ok hbytes view, view.get?_put _ _, ?_⟩
    intro t later kept hkept hreturned
    exact loadStateMap_serialize hbytes hkept hreturned t

/-- A store with one running page. -/
def onePage : Store :=
  (Store.empty .zero).put 0x1000 (Override.none.overlay (byteOf 2) (.page 3))

/-- The running page is saved, and given back by a host as text to a store with other default pointers. -/
theorem saved_table_comes_back_page :
    ∃ bytes dpp, onePage.serialize = .ok bytes ∧ bytes.length = 36 ∧ DppVector.ofInts [4, 5, 6, 7] = .ok dpp ∧
      ∃ events, loadStateMap (Store.empty dpp) ⟨[(stateKey, .text (latin1 bytes))], 0⟩ =
        .ok ⟨true, ⟨onePage.table, dpp⟩, ⟨[(stateKey, .text (latin1 bytes))], 1⟩, events⟩ := by
  obtain ⟨-, -, hview⟩ := (Store.saved_table_comes_back onePage).2.2 _ rfl
  obtain ⟨saved, events, -, -, hload⟩ := hview .empty
  exact ⟨_, _, rfl, rfl, rfl, _, hload _ _ _ rfl .text⟩

end Lift166
