import Lift166.Number.Bits
import Lift166.Number.Text
import Lift166.Override.AddressMap
import Lift166.Override.Kind

/-!
# The override store

An extension instruction changes how the next few instructions compute their addresses. The store does not keep
the interval: it keeps one entry per instruction address, with the number of instructions that the override still
has to run, and an entry that still runs is carried to the next address when its instruction is lifted.

Entries are also placed by hand. Placing an override adds its kind to whatever the entry holds and replaces the
running count; a custom vector of data page pointers replaces the entry altogether.
-/

namespace Lift166

/-- A page number; a page holds 16 KiB. -/
abbrev Page := Fin 1024

/-- The page of an integer's ten low bits. -/
def Page.ofInt (x : Int) : Page :=
  ⟨lowBits 10 x, lowBits_lt 10 x⟩

theorem Page.ofInt_val (p : Page) : Page.ofInt (p.val : Int) = p :=
  Fin.ext (lowBits_of_lt p.isLt)

theorem Page.ofInt_emod (x : Int) : ((Page.ofInt x).val : Int) = x % 0x400 :=
  natCast_lowBits 10 x

/-- A segment number; a segment holds 64 KiB. -/
abbrev Segment := Fin 256

/-- The segment of an integer's eight low bits. -/
def Segment.ofInt (x : Int) : Segment :=
  ⟨lowBits 8 x, lowBits_lt 8 x⟩

theorem Segment.ofInt_val (n : Segment) : Segment.ofInt (n.val : Int) = n :=
  Fin.ext (lowBits_of_lt n.isLt)

theorem Segment.ofInt_emod (x : Int) : ((Segment.ofInt x).val : Int) = x % 0x100 :=
  natCast_lowBits 8 x

/-- The byte of a number's eight low bits. -/
def byteOf (n : Nat) : Fin 256 :=
  Fin.ofNat 256 n

/-- The four data page pointers. -/
structure DppVector where
  /-- The page for addresses with upper bits 00. -/
  dpp0 : Page
  /-- The page for addresses with upper bits 01. -/
  dpp1 : Page
  /-- The page for addresses with upper bits 10. -/
  dpp2 : Page
  /-- The page for addresses with upper bits 11. -/
  dpp3 : Page
deriving DecidableEq

/-- Why a store operation is refused. -/
inductive StoreError
  /-- A span must fit a byte. -/
  | spanRange (span : Int)
  /-- A vector has four pointers. -/
  | pointerCount (count : Nat)
  /-- A saved table is a sequence of whole records. -/
  | malformed (size : Nat)
  /-- A saved address must fit eight bytes. -/
  | addressRange (addr : Int)
deriving DecidableEq

/-- The size of a saved record in bytes. -/
def recordSize : Nat := 36

/-- The wording of a store error. That an address does not fit is found when its record is packed, and has no wording
here. -/
def StoreError.message : StoreError → String
  | spanRange span => "Override span must be within 0..255, got " ++ decimal span
  | pointerCount count => "Expected four DPP values, got " ++ decimal count
  | malformed size =>
    "State blob of " ++ decimal size ++ " bytes is not a multiple of the " ++ decimal recordSize
      ++ "-byte record size"
  | addressRange _ => ""

namespace DppVector

/-- All pointers zero. -/
def zero : DppVector := ⟨0, 0, 0, 0⟩

/-- The vector of four integers, each cut to a page number. -/
def ofInts : List Int → Except StoreError DppVector
  | [a, b, c, d] => .ok ⟨.ofInt a, .ofInt b, .ofInt c, .ofInt d⟩
  | values => .error (.pointerCount values.length)

/-- The pointers in order. -/
def toList (v : DppVector) : List Page :=
  [v.dpp0, v.dpp1, v.dpp2, v.dpp3]

/-- The pointer that an address's upper two bits select. -/
def select (v : DppVector) (slot : Nat) : Page :=
  match slot with
  | 0 => v.dpp0
  | 1 => v.dpp1
  | 2 => v.dpp2
  | _ => v.dpp3

end DppVector

/-- What is in force at one instruction address. -/
structure Override where
  /-- The kinds in force. -/
  kinds : KindSet
  /-- For how many further instructions the running kinds stay in force. -/
  remaining : Fin 256
  /-- The page, where that kind is in force. -/
  page : Page
  /-- The segment, where that kind is in force. -/
  segment : Segment
  /-- The data page pointers, where that kind is in force. -/
  dpp : DppVector
deriving DecidableEq

/-- An override to be placed at an address. -/
inductive Overlay
  /-- A page, from ten low bits. -/
  | page (value : Int)
  /-- A segment, from eight low bits. -/
  | segment (value : Int)
  /-- The extended register bank. -/
  | registerBank
  /-- An uninterruptible sequence. -/
  | atomic
deriving DecidableEq

namespace Override

/-- Nothing in force. -/
def none : Override := ⟨.none, 0, 0, 0, .zero⟩

/-- Custom data page pointers and nothing else. -/
def customDpp (dpp : DppVector) : Override :=
  { none with kinds := .customDppOnly, dpp }

/-- Adds an override and sets the count of further instructions. -/
def overlay (current : Override) (remaining : Fin 256) : Overlay → Override
  | .page value =>
    { current with kinds := current.kinds.union .pageOnly, remaining, page := .ofInt value }
  | .segment value =>
    { current with kinds := current.kinds.union .segmentOnly, remaining, segment := .ofInt value }
  | .registerBank => { current with kinds := current.kinds.union .registerOnly, remaining }
  | .atomic => { current with kinds := current.kinds.union .atomicOnly, remaining }

/-- Whether something is to be carried to the next instruction. -/
def runsOn (current : Override) : Bool :=
  0 < current.remaining.val && current.kinds.hasSpanned

theorem remaining_pos {current : Override} (h : current.runsOn = true) : 0 < current.remaining.val :=
  of_decide_eq_true (Bool.and_eq_true_iff.1 h).1

theorem hasSpanned_of_runsOn {current : Override} (h : current.runsOn = true) : current.kinds.hasSpanned = true :=
  (Bool.and_eq_true_iff.1 h).2

/-- One instruction fewer. There is none fewer than none. -/
def oneFewer : (count : Fin 256) → 0 < count.val → Fin 256
  | ⟨0, _⟩, h => absurd h (Nat.lt_irrefl 0)
  | ⟨n + 1, h⟩, _ => ⟨n, Nat.lt_of_succ_lt h⟩

theorem oneFewer_val {count : Fin 256} (h : 0 < count.val) : (oneFewer count h).val + 1 = count.val := by
  obtain ⟨n, hn⟩ := count
  cases n with
  | zero => exact absurd h (Nat.lt_irrefl 0)
  | succ n => rfl

/-- What stands at the next instruction once the running kinds of `current` have been carried there. -/
def carriedTo (current next : Override) (runs : current.runsOn = true) : Override :=
  { next with
    kinds := next.kinds.union current.kinds.spanned
    remaining := oneFewer current.remaining (remaining_pos runs)
    page := if current.kinds.page then current.page else next.page
    segment := if current.kinds.segment then current.segment else next.segment }

theorem remaining_carriedTo {current : Override} (next : Override) (runs : current.runsOn = true) :
    (current.carriedTo next runs).remaining.val + 1 = current.remaining.val :=
  oneFewer_val (remaining_pos runs)

end Override

/-- The overrides by address, and the data page pointers where no override says otherwise. -/
structure Store where
  /-- The entries. -/
  table : AddressMap Override
  /-- The data page pointers after reset. -/
  defaultDpp : DppVector
deriving DecidableEq

namespace Store

/-- The store without entries. -/
def empty (defaultDpp : DppVector) : Store :=
  ⟨.empty, defaultDpp⟩

/-- What is in force at an address. -/
def get (s : Store) (addr : Int) : Override :=
  (s.table.get? addr).getD .none

/-- Replaces the entry at an address. -/
def put (s : Store) (addr : Int) (entry : Override) : Store :=
  { s with table := s.table.insert addr entry }

/-- Removes every entry. -/
def clear (s : Store) : Store :=
  { s with table := .empty }

theorem span_lt {span : Int} (h : 0 ≤ span ∧ span < 256) : span.toNat < 256 := by
  omega

/-- Places an override that stays in force for `span` instructions after the one at the address. The store comes with
the answer, be it a refusal. -/
def tryPlace (s : Store) (addr : Int) (overlay : Overlay) (span : Int) : Except StoreError Unit × Store :=
  if h : 0 ≤ span ∧ span < 256 then
    (.ok (), s.put addr ((s.get addr).overlay ⟨span.toNat, span_lt h⟩ overlay))
  else (.error (.spanRange span), s)

/-- The store with an override placed, unless that is refused. -/
def place (s : Store) (addr : Int) (overlay : Overlay) (span : Int) : Except StoreError Store :=
  let (answer, after) := s.tryPlace addr overlay span
  answer.map fun _ => after

/-- Places several overrides in order, up to the first that is refused; what was placed before it stays. -/
def placeAll (s : Store) (addr : Int) (span : Int) : List Overlay → Except StoreError Unit × Store
  | [] => (.ok (), s)
  | overlay :: rest =>
    match s.tryPlace addr overlay span with
    | (.ok (), placed) => placed.placeAll addr span rest
    | (.error e, kept) => (.error e, kept)

/-- Makes a change that needs four data page pointers, given as integers. -/
def tryPointers {α : Type} (s : Store) (values : List Int) (change : DppVector → α × Store) :
    Except StoreError α × Store :=
  match DppVector.ofInts values with
  | .ok dpp => (.ok (change dpp).1, (change dpp).2)
  | .error e => (.error e, s)

/-- Replaces the entry at an address by custom data page pointers. -/
def trySetCustomDpp (s : Store) (addr : Int) (values : List Int) : Except StoreError Unit × Store :=
  s.tryPointers values fun dpp => ((), s.put addr (.customDpp dpp))

/-- The store with custom data page pointers in the place of an entry, unless that is refused. -/
def setCustomDpp (s : Store) (addr : Int) (values : List Int) : Except StoreError Store :=
  let (answer, after) := s.trySetCustomDpp addr values
  answer.map fun _ => after

/-- Whether a range edit passes over an address, because an override that runs on is in force there. -/
def isHeld (s : Store) (addr : Int) : Bool :=
  match s.table.get? addr with
  | some entry => entry.kinds.hasSpanned
  | none => false

/-- Gives custom data page pointers to the addresses that are not held; also says how many those are. -/
def fillDpp (s : Store) (dpp : DppVector) : List Int → Nat × Store
  | [] => (0, s)
  | addr :: rest =>
    if s.isHeld addr then s.fillDpp dpp rest
    else
      let (count, filled) := (s.put addr (.customDpp dpp)).fillDpp dpp rest
      (count + 1, filled)

/-- Gives custom data page pointers to every instruction slot from `first` to `last`; also says to how many. -/
def trySetCustomDppRange (s : Store) (first last : Int) (values : List Int) : Except StoreError Nat × Store :=
  s.tryPointers values fun dpp => s.fillDpp dpp (everySecond (evenFloor first) (last + 1))

/-- The store with custom data page pointers on a range, and the number of slots given them, unless that is refused. -/
def setCustomDppRange (s : Store) (first last : Int) (values : List Int) : Except StoreError (Nat × Store) :=
  let (answer, after) := s.trySetCustomDppRange first last values
  answer.map fun count => (count, after)

/-- Replaces the data page pointers after reset. -/
def trySetDefaultDpp (s : Store) (values : List Int) : Except StoreError Unit × Store :=
  s.tryPointers values fun dpp => ((), { s with defaultDpp := dpp })

/-- The store with other data page pointers after reset, unless that is refused. -/
def setDefaultDpp (s : Store) (values : List Int) : Except StoreError Store :=
  let (answer, after) := s.trySetDefaultDpp values
  answer.map fun _ => after

/-- Carries a running override from an address to the next instruction, `length` bytes on. The entry written
there is returned, if one was. -/
def propagate (s : Store) (addr length : Int) : Option Override × Store :=
  match s.table.get? addr with
  | none => (none, s)
  | some current =>
    if runs : current.runsOn = true then
      let carried := current.carriedTo (s.get (addr + length)) runs
      (some carried, s.put (addr + length) carried)
    else (none, s)

/-- The page in force at an address. -/
def page? (s : Store) (addr : Int) : Option Page :=
  let entry := s.get addr
  if entry.kinds.page then some entry.page else none

/-- The segment in force at an address. -/
def segment? (s : Store) (addr : Int) : Option Segment :=
  let entry := s.get addr
  if entry.kinds.segment then some entry.segment else none

/-- Whether short addresses mean the extended register bank at an address. -/
def hasRegisterBank (s : Store) (addr : Int) : Bool :=
  (s.get addr).kinds.register

/-- Whether an address lies in an uninterruptible sequence. -/
def isAtomic (s : Store) (addr : Int) : Bool :=
  (s.get addr).kinds.atomic

/-- The custom data page pointers at an address. -/
def customDpp? (s : Store) (addr : Int) : Option DppVector :=
  let entry := s.get addr
  if entry.kinds.customDpp then some entry.dpp else none

/-- The data page pointers at an address. -/
def effectiveDpp (s : Store) (addr : Int) : DppVector :=
  (s.customDpp? addr).getD s.defaultDpp

theorem place_eq (s : Store) (addr : Int) (overlay : Overlay) (span : Int) :
    s.place addr overlay span =
      if h : 0 ≤ span ∧ span < 256 then .ok (s.put addr ((s.get addr).overlay ⟨span.toNat, span_lt h⟩ overlay))
      else .error (.spanRange span) := by
  unfold place tryPlace
  by_cases h : 0 ≤ span ∧ span < 256
  · rw [dif_pos h, dif_pos h]
    rfl
  · rw [dif_neg h, dif_neg h]
    rfl

/-- A change that needs pointers is made with the vector, if there is one. -/
theorem map_tryPointers {α β : Type} (s : Store) (values : List Int) (change : DppVector → α × Store)
    (f : α → Store → β) :
    ((s.tryPointers values change).1.map fun a => f a (s.tryPointers values change).2) =
      (DppVector.ofInts values).map fun dpp => f (change dpp).1 (change dpp).2 := by
  unfold tryPointers
  cases DppVector.ofInts values <;> rfl

theorem setCustomDpp_eq (s : Store) (addr : Int) (values : List Int) :
    s.setCustomDpp addr values = (DppVector.ofInts values).map fun dpp => s.put addr (.customDpp dpp) :=
  s.map_tryPointers values _ fun _ after => after

theorem setCustomDppRange_eq (s : Store) (first last : Int) (values : List Int) :
    s.setCustomDppRange first last values =
      (DppVector.ofInts values).map fun dpp => s.fillDpp dpp (everySecond (evenFloor first) (last + 1)) :=
  s.map_tryPointers values _ Prod.mk

theorem setDefaultDpp_eq (s : Store) (values : List Int) :
    s.setDefaultDpp values = (DppVector.ofInts values).map fun dpp => { s with defaultDpp := dpp } :=
  s.map_tryPointers values _ fun _ after => after

@[simp] theorem get_put_self (s : Store) (addr : Int) (entry : Override) : (s.put addr entry).get addr = entry := by
  simp [get, put]

theorem get_put_of_ne (s : Store) {addr other : Int} (entry : Override) (h : other ≠ addr) :
    (s.put addr entry).get other = s.get other := by
  simp [get, put, AddressMap.get?_insert_of_ne _ _ h]

end Store

end Lift166
