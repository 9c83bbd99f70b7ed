import Lift166.Lifting.Access
import Lift166.Proofs.Evaluation

/-!
# Resolving addresses

The address of a direct operand is found when the instruction is lifted, by `Regime.physical`; that of a
register-indirect one is an expression, `indirectAddress`, that the machine computes. Where the data page pointers in
memory are those in force, the expression computes what the direct operand would get for the same sixteen bits. The
exception is an entry with both a page and a segment, of which the two take different ones.
-/

namespace Lift166

open Il

/-- The four words of the data page pointers hold the given pages. -/
def Machine.HoldsPointers (m : Machine) (dpp : DppVector) : Prop :=
  ∀ slot < 4, m.load 2 (0xFE00 + 2 * slot) = (dpp.select slot).val

/-- The regime for register-indirect operands. Here a segment comes before a page. -/
def Store.indirectRegime (s : Store) (addr : Int) : Regime :=
  if (s.get addr).kinds.segment then .segment (s.get addr).segment else s.regime addr

/-- The pages in the four words of the data page pointers. -/
def Machine.pointers (m : Machine) : DppVector :=
  ⟨.ofInt (m.load 2 0xFE00), .ofInt (m.load 2 0xFE02), .ofInt (m.load 2 0xFE04), .ofInt (m.load 2 0xFE06)⟩

/-- The regime for register-indirect operands with the pointers that the machine has. -/
def Store.regimeOn (s : Store) (m : Machine) (addr : Int) : Regime :=
  let entry := s.get addr
  if entry.kinds.segment then .segment entry.segment
  else if entry.kinds.page then .page entry.page
  else .pointers m.pointers

theorem Machine.select_pointers (m : Machine) {slot : Nat} (h : slot < 4) :
    m.pointers.select slot = .ofInt (m.load 2 (0xFE00 + 2 * slot)) := by
  obtain rfl | rfl | rfl | rfl : slot = 0 ∨ slot = 1 ∨ slot = 2 ∨ slot = 3 := by omega
  all_goals rfl

theorem Machine.HoldsPointers.pointers_eq {m : Machine} {dpp : DppVector} (h : m.HoldsPointers dpp) :
    m.pointers = dpp := by
  have hpage : ∀ slot < 4, m.pointers.select slot = dpp.select slot := by
    intro slot hslot
    rw [m.select_pointers hslot, h slot hslot, Page.ofInt_val]
  have h0 : m.pointers.dpp0 = dpp.dpp0 := hpage 0 (by decide)
  have h1 : m.pointers.dpp1 = dpp.dpp1 := hpage 1 (by decide)
  have h2 : m.pointers.dpp2 = dpp.dpp2 := hpage 2 (by decide)
  have h3 : m.pointers.dpp3 = dpp.dpp3 := hpage 3 (by decide)
  cases dpp
  simp only [Machine.pointers] at h0 h1 h2 h3 ⊢
  rw [h0, h1, h2, h3]

theorem Store.regimeOn_eq {s : Store} {m : Machine} {addr : Int} (h : m.HoldsPointers (s.effectiveDpp addr)) :
    s.regimeOn m addr = s.indirectRegime addr := by
  simp only [regimeOn, indirectRegime, regime_eq, h.pointers_eq]
  split <;> rfl

/-! ## The two forms of an address -/

theorem Page.or_offset (page : Page) (offset : Nat) :
    page.val * 0x4000 ||| offset % 0x4000 = page.address offset := by
  have hlt : offset % 0x4000 < 2 ^ 14 := Nat.mod_lt _ (by decide)
  have hjoin := Nat.two_pow_add_eq_or_of_lt hlt page.val
  rw [Nat.mul_comm, ← hjoin, Page.address]
  omega

theorem Segment.or_offset (segment : Segment) (raw : Fin 65536) :
    segment.val * 0x10000 ||| raw.val = segment.val * 0x10000 + raw.val := by
  have hlt : raw.val < 2 ^ 16 := raw.isLt
  have hjoin := Nat.two_pow_add_eq_or_of_lt hlt segment.val
  rw [Nat.mul_comm, ← hjoin]

/-- On the sixteen bits of an operand, the resolver of offsets of any size is the resolver of operands. -/
theorem Regime.physical?_val (r : Regime) (raw : Fin 65536) : r.physical? raw.val = some (r.physical raw : Int) := by
  have hraw := raw.isLt
  have haddress (p : Page) : p.address (lowBits 14 raw.val) = p.address raw.val := by
    have hfield : (1 <<< 14 : Nat) = 0x4000 := rfl
    rw [lowBits_natCast, hfield, Page.address, Page.address, Nat.mod_mod]
  cases r with
  | page p => rw [physical?, physical, haddress]
  | segment s =>
    have hhigh : (raw.val : Int) / 0x10000 = 0 := by omega
    have hbyte : lowBits 8 0 = 0 := rfl
    rw [physical?, physical, withSegment, hhigh, hbyte, Nat.zero_or, Nat.sub_zero, Option.some.injEq]
    omega
  | pointers dpp =>
    have hslot : (0 : Int) ≤ (raw.val : Int) / 0x4000 ∧ (raw.val : Int) / 0x4000 < 4 := by omega
    have hindex : ((raw.val : Int) / 0x4000).toNat = raw.val / 0x4000 := by omega
    rw [physical?, physical, pointerAt?, if_pos hslot, hindex, Option.map_some, haddress]

section Indirect

variable {m : Machine}

theorem eval_pointerBase (m : Machine) (base : Register) (disp : Fin 65536) :
    (pointerBase base disp.val).eval m = some ((m.read 2 (.machine base) + disp.val) % 65536) := by
  have hbase : m.read 2 (.machine base) < 65536 := m.read_lt 2 _
  unfold pointerBase
  split
  · next hzero =>
    have hzero : disp.val = 0 := by omega
    rw [hzero, Nat.add_zero, Nat.mod_eq_of_lt hbase]
    rfl
  · have hsum : (Expr.quiet .add 2 (.register 2 base) (.const 2 disp.val)).eval m =
        some (lowBits (8 * 2) (m.read 2 (.machine base) + disp.val : Nat)) :=
      Expr.eval_quiet rfl (Expr.eval_const disp.isLt) rfl
    rw [hsum, lowBits_natCast]
    rfl

theorem eval_pageOffset {pointer : Expr} {raw : Nat} (h : pointer.eval m = some raw) :
    (pageOffset pointer).eval m = some (raw % 0x4000) := by
  have hmask : raw &&& 0x3FFF = raw % 0x4000 := Nat.and_two_pow_sub_one_eq_mod raw 14
  have hlt : raw % 0x4000 < 0x4000 := Nat.mod_lt _ (by decide)
  refine Expr.eval_quiet_of_lt h (Expr.eval_const (by decide)) ?_ (Nat.lt_trans hlt (by decide))
  rw [← hmask]
  rfl

theorem eval_selectedPage {pointer : Expr} {raw : Fin 65536} (h : pointer.eval m = some raw.val) :
    (selectedPage pointer).eval m = some (m.load 2 (0xFE00 + 2 * (raw.val / 0x4000))) := by
  have hraw := raw.isLt
  have hslot : raw.val / 0x4000 < 4 := by omega
  -- the slot is the upper two bits, and the pointers stand two bytes apart
  have hshift : (Expr.quiet .lsr 2 pointer (.const 1 14)).eval m = some (raw.val / 0x4000) := by
    refine Expr.eval_quiet_of_lt h (Expr.eval_const (by decide)) ?_ (Nat.lt_trans hslot (by decide))
    rw [← Nat.shiftRight_eq_div_pow raw.val 14]
    rfl
  have hoffset : (Expr.quiet .lsl 2 (.quiet .lsr 2 pointer (.const 1 14)) (.const 1 1)).eval m =
      some (raw.val / 0x4000 * 2) := by
    refine Expr.eval_quiet_of_lt hshift (Expr.eval_const (by decide)) ?_ ?_
    · rw [← Nat.shiftLeft_eq (raw.val / 0x4000) 1]
      rfl
    · have hsize : 8 < 1 <<< (8 * 2) := by decide
      omega
  have hword : (Expr.quiet .add 3 (.pointer 3 SpecialRegister.dpp0.address)
      (.quiet .lsl 2 (.quiet .lsr 2 pointer (.const 1 14)) (.const 1 1))).eval m =
      some (0xFE00 + raw.val / 0x4000 * 2) := by
    refine Expr.eval_quiet_of_lt (Expr.eval_pointer (by decide)) hoffset rfl ?_
    have hsize : 0xFE08 < 1 <<< (8 * 3) := by decide
    omega
  rw [selectedPage, Expr.eval, hword, Option.map_some, Nat.mul_comm]

/-- The machine computes the address that the regime with its own pointers gives. -/
theorem eval_indirectAddress_on (s : Store) (addr : Int) {base : Register} {disp : Int} {raw : Fin 65536}
    (hraw : (pointerBase base disp).eval m = some raw.val) :
    (indirectAddress s addr base disp).eval m = some ((s.regimeOn m addr).physical raw) := by
  have hwide : (1 <<< (8 * 3) : Nat) = 0x1000000 := rfl
  have hoffset : raw.val % 0x4000 < 1 <<< (8 * 3) := by omega
  simp only [indirectAddress, Store.regimeOn]
  generalize s.get addr = entry
  by_cases hseg : entry.kinds.segment = true
  · -- a segment is joined to all sixteen bits
    have hsegment : entry.segment.val * 0x10000 < 1 <<< (8 * 3) := by omega
    rw [if_pos hseg, if_pos hseg, Expr.eval_or (Expr.eval_const hsegment) hraw hsegment (by omega), Segment.or_offset]
    rfl
  rw [if_neg hseg, if_neg hseg]
  by_cases hpag : entry.kinds.page = true
  · -- a page to the lower fourteen
    have hpage : entry.page.val * 0x4000 < 1 <<< (8 * 3) := by omega
    rw [if_pos hpag, if_pos hpag, Expr.eval_or (Expr.eval_const hpage) (eval_pageOffset hraw) hpage hoffset,
      Page.or_offset]
    rfl
  · -- and so are the lower ten bits of the pointer that the upper two select
    have hselect := m.select_pointers (show raw.val / 0x4000 < 4 by omega)
    have hselected := eval_selectedPage hraw
    generalize m.load 2 (0xFE00 + 2 * (raw.val / 0x4000)) = word at hselect hselected
    have hpage : (Page.ofInt word).val * 0x4000 < 1 <<< (8 * 3) := by omega
    have hshift : (Expr.quiet .lsl 3 (selectedPage (pointerBase base disp)) (.const 1 14)).eval m =
        some ((Page.ofInt word).val * 0x4000) := by
      have hamount : (Expr.const 1 14).eval m = some 14 := rfl
      have hlow : (Page.ofInt word).val = word % 1024 := lowBits_natCast 10 word
      have hcut : lowBits (8 * 3) (word <<< 14 : Nat) = word % 1024 * 0x4000 := by
        rw [lowBits_natCast, hwide, Nat.shiftLeft_eq]
        omega
      rw [Expr.eval_quiet hselected hamount rfl, hcut, hlow]
    rw [if_neg hpag, if_neg hpag, Expr.eval_or hshift (eval_pageOffset hraw) hpage hoffset, Page.or_offset]
    simp only [Regime.physical, hselect]

/-- Where the pointers are those in force, this is the address that the regime for register-indirect operands gives. -/
theorem eval_indirectAddress (s : Store) (addr : Int) {base : Register} {disp : Int} {raw : Fin 65536}
    (hraw : (pointerBase base disp).eval m = some raw.val) (hdpp : m.HoldsPointers (s.effectiveDpp addr)) :
    (indirectAddress s addr base disp).eval m = some ((s.indirectRegime addr).physical raw) := by
  rw [eval_indirectAddress_on s addr hraw, Store.regimeOn_eq hdpp]

theorem indirectAddress_size (s : Store) (addr : Int) (base : Register) (disp : Int) :
    (indirectAddress s addr base disp).size = 3 := by
  simp only [indirectAddress]
  split
  · rfl
  · split <;> rfl

theorem Store.indirectRegime_eq {s : Store} {addr : Int}
    (h : ¬((s.get addr).kinds.page = true ∧ (s.get addr).kinds.segment = true)) :
    s.indirectRegime addr = s.regime addr := by
  unfold indirectRegime
  split
  · next hsegment =>
    have hpage : ¬(s.get addr).kinds.page = true := fun hpage => h ⟨hpage, hsegment⟩
    simp only [regime]
    rw [if_neg hpage, if_pos hsegment]
  · rfl

/-- **Addresses found by the machine and addresses found when lifting agree.** For any displacement, the expression
for a register-indirect operand gives a 24-bit address, and it is that of the direct operand with the same sixteen
bits, unless both a page and a segment are in force: then the machine goes by the segment and the direct operand by
the page. -/
theorem indirect_agrees_with_direct (s : Store) (addr : Int) (base : Register) (disp : Fin 65536)
    (hdpp : m.HoldsPointers (s.effectiveDpp addr)) :
    ∃ (raw : Fin 65536) (address : Nat), raw.val = (m.read 2 (.machine base) + disp.val) % 65536 ∧
      (indirectAddress s addr base disp.val).eval m = some address ∧ address < 0x1000000 ∧
      (s.regime addr).physical? raw.val = some ((s.regime addr).physical raw : Int) ∧
      (¬((s.get addr).kinds.page = true ∧ (s.get addr).kinds.segment = true) →
        address = (s.regime addr).physical raw) ∧
      ((s.get addr).kinds.page = true → (s.get addr).kinds.segment = true →
        address = (s.get addr).segment.val * 0x10000 + raw.val ∧
        (s.regime addr).physical raw = (s.get addr).page.val * 0x4000 + raw.val % 0x4000) := by
  obtain ⟨raw, hraw⟩ : ∃ raw : Fin 65536, raw.val = (m.read 2 (.machine base) + disp.val) % 65536 :=
    ⟨⟨_, Nat.mod_lt _ (by decide)⟩, rfl⟩
  have hpointer := eval_pointerBase m base disp
  rw [← hraw] at hpointer
  have haddress := eval_indirectAddress s addr hpointer hdpp
  have hsize := Expr.eval_lt haddress
  rw [indirectAddress_size] at hsize
  refine ⟨raw, _, hraw, haddress, hsize, Regime.physical?_val _ _, ?_, ?_⟩
  · intro hone
    rw [Store.indirectRegime_eq hone]
  · intro hpage hsegment
    simp only [Store.indirectRegime, Store.regime]
    rw [if_pos hsegment, if_pos hpage]
    exact ⟨rfl, rfl⟩

end Indirect

/-- A machine whose second data page pointer is page five. -/
def pageFive : Machine :=
  ⟨fun _ => ⟨0x4321, by decide⟩, fun _ => 0, fun _ => 0, fun _ => false, fun a => if a = 0xFE02 then 5 else 0⟩

/-- A store that knows of these pointers. -/
def pageFiveStore : Store :=
  .empty ⟨.ofInt 0, .ofInt 5, .ofInt 0, .ofInt 0⟩

/-- A store that has them for one address only, with overrides on top. -/
def pageFiveUnder (overlays : List Overlay) : Store :=
  (((Store.empty .zero).put 0x1000 (.customDpp pageFiveStore.defaultDpp)).placeAll 0x1000 0 overlays).2

/-- The same operand under the pointers after reset, under custom ones, under a page as well, and under a segment on
top of these. -/
theorem indirect_agrees_with_direct_pageFive :
    (pageFive.HoldsPointers (pageFiveStore.effectiveDpp 0x1000) ∧
      ∃ raw address, raw.val = (0x4321 + 0x10) % 65536 ∧
        (indirectAddress pageFiveStore 0x1000 (.wordAt 3) 0x10).eval pageFive = some address ∧
        address = (pageFiveStore.regime 0x1000).physical raw) ∧
    ((pageFiveUnder []).effectiveDpp 0x1000 = pageFiveStore.defaultDpp ∧
      (indirectAddress (pageFiveUnder []) 0x1000 (.wordAt 3) 0x10).eval pageFive = some 0x14331 ∧
      ((pageFiveUnder []).regime 0x1000).physical ⟨0x4331, by decide⟩ = 0x14331) ∧
    ((indirectAddress (pageFiveUnder [.page 3]) 0x1000 (.wordAt 3) 0x10).eval pageFive = some 0xC331 ∧
      ((pageFiveUnder [.page 3]).regime 0x1000).physical ⟨0x4331, by decide⟩ = 0xC331) ∧
    (indirectAddress (pageFiveUnder [.page 3, .segment 9]) 0x1000 (.wordAt 3) 0x10).eval pageFive = some 0x94331 ∧
      ((pageFiveUnder [.page 3, .segment 9]).regime 0x1000).physical ⟨0x4331, by decide⟩ = 0xC331 := by
  have hdpp : pageFive.HoldsPointers pageFiveStore.defaultDpp := by
    unfold Machine.HoldsPointers
    decide
  refine ⟨?_, ⟨rfl, ?_, rfl⟩, ⟨?_, rfl⟩, ?_, rfl⟩
  · obtain ⟨raw, address, hraw, heval, -, -, hone, -⟩ :=
      indirect_agrees_with_direct pageFiveStore 0x1000 (.wordAt 3) ⟨0x10, by decide⟩ hdpp
    exact ⟨hdpp, raw, address, hraw, heval, hone (by decide)⟩
  · obtain ⟨raw, address, hraw, heval, -, -, hone, -⟩ :=
      indirect_agrees_with_direct (pageFiveUnder []) 0x1000 (.wordAt 3) ⟨0x10, by decide⟩ hdpp
    obtain rfl : raw = ⟨0x4331, by decide⟩ := Fin.ext hraw
    exact heval.trans (congrArg some (hone (by decide)))
  · obtain ⟨raw, address, hraw, heval, -, -, hone, -⟩ :=
      indirect_agrees_with_direct (pageFiveUnder [.page 3]) 0x1000 (.wordAt 3) ⟨0x10, by decide⟩ hdpp
    obtain rfl : raw = ⟨0x4331, by decide⟩ := Fin.ext hraw
    exact heval.trans (congrArg some (hone (by decide)))
  · obtain ⟨raw, address, hraw, heval, -, -, -, hboth⟩ :=
      indirect_agrees_with_direct (pageFiveUnder [.page 3, .segment 9]) 0x1000 (.wordAt 3) ⟨0x10, by decide⟩ hdpp
    obtain rfl : raw = ⟨0x4331, by decide⟩ := Fin.ext hraw
    exact heval.trans (congrArg some (hboth rfl rfl).1)

end Lift166
