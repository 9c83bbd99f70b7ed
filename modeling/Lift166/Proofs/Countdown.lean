import Lift166.Proofs.StraightLine

/-!
# Two overrides on one line

An entry has one count, whatever kinds are in force there. Two overrides placed on one line by hand are therefore
independent only as long as neither reaches the other. Where one that is running reaches the address of the other,
the two are merged and go on with the count of the one that was running, which may be shorter or longer than the
count placed there; at one address, the override placed last sets the count of both. `shared_countdown` says exactly
where each is in force.
-/

namespace Lift166

/-! ## Overrides in force -/

/-- The kind that an override adds. -/
def Overlay.kinds : Overlay → KindSet
  | page _ => .pageOnly
  | segment _ => .segmentOnly
  | registerBank => .registerOnly
  | atomic => .atomicOnly

/-- Whether the kind of an override is in force in an entry. -/
def Overlay.inForce (o : Overlay) (entry : Override) : Bool :=
  match o with
  | page _ => entry.kinds.page
  | segment _ => entry.kinds.segment
  | registerBank => entry.kinds.register
  | atomic => entry.kinds.atomic

/-- The override is in force in an entry with its own value. -/
def Overlay.Holds (o : Overlay) (entry : Override) : Prop :=
  o.inForce entry = true ∧
    match o with
    | page value => entry.page = .ofInt value
    | segment value => entry.segment = .ofInt value
    | registerBank => True
    | atomic => True

/-- Whether the kind of an override is in force at an address. -/
def Store.inForce (s : Store) (o : Overlay) (addr : Int) : Bool :=
  match o with
  | .page _ => (s.page? addr).isSome
  | .segment _ => (s.segment? addr).isSome
  | .registerBank => s.hasRegisterBank addr
  | .atomic => s.isAtomic addr

/-- The override is in force at an address with its own value. -/
def Store.Shows (s : Store) (o : Overlay) (addr : Int) : Prop :=
  match o with
  | .page value => s.page? addr = some (.ofInt value)
  | .segment value => s.segment? addr = some (.ofInt value)
  | .registerBank => s.hasRegisterBank addr = true
  | .atomic => s.isAtomic addr = true

theorem Store.inForce_eq (s : Store) (o : Overlay) (addr : Int) : s.inForce o addr = o.inForce (s.get addr) := by
  cases o with
  | page value =>
    simp only [inForce, page?, Overlay.inForce]
    cases (s.get addr).kinds.page <;> rfl
  | segment value =>
    simp only [inForce, segment?, Overlay.inForce]
    cases (s.get addr).kinds.segment <;> rfl
  | registerBank => rfl
  | atomic => rfl

theorem Store.shows_of_holds {s : Store} {o : Overlay} {addr : Int} (h : o.Holds (s.get addr)) : s.Shows o addr := by
  obtain ⟨hforce, hvalue⟩ := h
  cases o with
  | page value =>
    have hkind : (s.get addr).kinds.page = true := hforce
    simp only [Shows, page?, if_pos hkind]
    exact congrArg some hvalue
  | segment value =>
    have hkind : (s.get addr).kinds.segment = true := hforce
    simp only [Shows, segment?, if_pos hkind]
    exact congrArg some hvalue
  | registerBank => exact hforce
  | atomic => exact hforce

/-! ## Placing and carrying, kind by kind -/

section Kinds

variable {o o' : Overlay} {entry current next : Override}

theorem Overlay.inForce_none (o : Overlay) : o.inForce .none = false := by
  cases o <;> rfl

theorem Overlay.holds_overlay_self (o : Overlay) (entry : Override) (span : Fin 256) :
    o.Holds (entry.overlay span o) := by
  cases o <;> simp [Holds, inForce, Override.overlay, KindSet.union, KindSet.pageOnly, KindSet.segmentOnly,
    KindSet.registerOnly, KindSet.atomicOnly]

/-- Placing an override leaves the other kinds as they are. -/
theorem Overlay.inForce_overlay (hne : o.kinds ≠ o'.kinds) (entry : Override) (span : Fin 256) :
    o.inForce (entry.overlay span o') = o.inForce entry := by
  cases o <;> cases o' <;>
    first
    | exact absurd rfl hne
    | exact Bool.or_false _

/-- So does placing it on a condition. -/
theorem Overlay.inForce_ite_overlay (hne : o.kinds ≠ o'.kinds) (c : Prop) [Decidable c] (entry : Override)
    (span : Fin 256) : o.inForce (if c then entry.overlay span o' else entry) = o.inForce entry := by
  by_cases hc : c
  · rw [if_pos hc, inForce_overlay hne]
  · rw [if_neg hc]

theorem Overlay.Holds.overlay (h : o.Holds entry) (hne : o.kinds ≠ o'.kinds) (span : Fin 256) :
    o.Holds (entry.overlay span o') := by
  refine ⟨(inForce_overlay hne entry span).trans h.1, ?_⟩
  have hvalue := h.2
  cases o <;> cases o' <;> first | exact absurd rfl hne | exact hvalue

theorem Overlay.overlay_remaining (o : Overlay) (entry : Override) (span : Fin 256) :
    (entry.overlay span o).remaining = span := by
  cases o <;> rfl

theorem Overlay.inForce_carriedTo (o : Overlay) (next : Override) (runs : current.runsOn = true) :
    o.inForce (current.carriedTo next runs) = (o.inForce next || o.inForce current) := by
  cases o <;> rfl

theorem Overlay.hasSpanned_of_inForce (h : o.inForce entry = true) : entry.kinds.hasSpanned = true := by
  unfold KindSet.hasSpanned
  cases o <;> simp only [inForce] at h <;> simp [h]

/-- An override that is carried along keeps its value. -/
theorem Overlay.Holds.carriedTo (h : o.Holds current) (next : Override) (runs : current.runsOn = true) :
    o.Holds (current.carriedTo next runs) := by
  obtain ⟨hforce, hvalue⟩ := h
  refine ⟨by rw [inForce_carriedTo, hforce, Bool.or_true], ?_⟩
  cases o with
  | page value => exact (if_pos hforce).trans hvalue
  | segment value => exact (if_pos hforce).trans hvalue
  | registerBank => trivial
  | atomic => trivial

/-- An override keeps its value where one of another kind is carried to it. -/
theorem Overlay.Holds.of_next (h : o.Holds next) (hcurrent : o.inForce current = false)
    (runs : current.runsOn = true) : o.Holds (current.carriedTo next runs) := by
  obtain ⟨hforce, hvalue⟩ := h
  have hnot : ¬ o.inForce current = true := by rw [hcurrent]; decide
  refine ⟨by rw [inForce_carriedTo, hforce, Bool.true_or], ?_⟩
  cases o with
  | page value => exact (if_neg hnot).trans hvalue
  | segment value => exact (if_neg hnot).trans hvalue
  | registerBank => trivial
  | atomic => trivial

/-- Overrides of one kind are in force together. -/
theorem Overlay.inForce_eq_of_kinds (h : o.kinds = o'.kinds) (entry : Override) :
    o.inForce entry = o'.inForce entry := by
  have hmeets : ∀ o : Overlay, o.inForce entry =
      (o.kinds.register && entry.kinds.register || o.kinds.segment && entry.kinds.segment ||
        (o.kinds.page && entry.kinds.page || o.kinds.atomic && entry.kinds.atomic)) := by
    intro o
    cases o <;> simp [inForce, kinds, KindSet.pageOnly, KindSet.segmentOnly, KindSet.registerOnly,
      KindSet.atomicOnly, KindSet.none]
  rw [hmeets o, hmeets o', h]

theorem Override.exists_inForce (h : entry.kinds.hasSpanned = true) : ∃ o : Overlay, o.inForce entry = true := by
  unfold KindSet.hasSpanned at h
  simp only [Bool.or_eq_true] at h
  rcases h with ((h | h) | h) | h
  · exact ⟨.registerBank, h⟩
  · exact ⟨.segment 0, h⟩
  · exact ⟨.page 0, h⟩
  · exact ⟨.atomic, h⟩

end Kinds

/-! ## One countdown -/

/-- In the entry that stands at position `q` before the walk, an override has been placed on `base` if the position
is its own. -/
structure Placed (o : Overlay) (first : Nat) (base : Override) (q : Nat) (entry : Override) : Prop where
  inForce : o.inForce entry = true ↔ o.inForce base = true ∨ q = first
  holds : q = first → o.Holds entry

/-- In the entry that is found at position `q` during the walk, an override is in force from position `first` to
position `last`, with the positions up to `last` as the count; elsewhere `base` decides. -/
structure Countdown (o : Overlay) (first last : Nat) (base : Override) (q : Nat) (entry : Override) : Prop where
  inForce : o.inForce entry = true ↔ o.inForce base = true ∨ (first ≤ q ∧ q ≤ last)
  counts : first ≤ q → q ≤ last → o.Holds entry ∧ entry.remaining.val + q = last

section Countdown

variable {o : Overlay} {first last p q : Nat} {base entry current next : Override}

/-- Where nothing is carried to a position, the countdown can only begin there. -/
theorem Placed.countdown (h : Placed o first base q entry) (hle : first ≤ last)
    (hbegins : first ≤ q → q ≤ last → q = first) (hremaining : q = first → entry.remaining.val + q = last) :
    Countdown o first last base q entry := by
  have hrange : q = first ↔ first ≤ q ∧ q ≤ last := by omega
  refine ⟨?_, fun hfirst hlast => ?_⟩
  · rw [h.inForce, hrange]
  · have hq := hbegins hfirst hlast
    exact ⟨h.holds hq, hremaining hq⟩

/-- Where an entry that runs on is carried to the next position, the countdown goes on, or begins with the count that
is carried along. -/
theorem Countdown.carriedTo (h : Countdown o first last .none p current) (hnext : Placed o first base (p + 1) next)
    (hle : first ≤ last) (hends : first ≤ p → p ≠ last)
    (hremaining : first ≤ p + 1 → p + 1 ≤ last → current.remaining.val + p = last)
    (runs : current.runsOn = true) : Countdown o first last base (p + 1) (current.carriedTo next runs) := by
  have hcurrent : o.inForce current = true ↔ first ≤ p ∧ p ≤ last := by
    rw [h.inForce, o.inForce_none]
    simp only [Bool.false_eq_true, false_or]
  have hrange : p + 1 = first ∨ (first ≤ p ∧ p ≤ last) ↔ first ≤ p + 1 ∧ p + 1 ≤ last := by omega
  refine ⟨?_, fun hfirst hlast => ⟨?_, ?_⟩⟩
  · rw [o.inForce_carriedTo, Bool.or_eq_true, hnext.inForce, hcurrent, or_assoc, hrange]
  · by_cases hbegun : first ≤ p
    · exact (h.counts hbegun (by omega)).1.carriedTo next runs
    · have hnot : o.inForce current = false := by
        rw [← Bool.not_eq_true, hcurrent]
        omega
      exact (hnext.holds (by omega)).of_next hnot runs
  · have hcount := hremaining hfirst hlast
    have hfewer := Override.remaining_carriedTo next runs
    omega

end Countdown

/-! ## Two countdowns -/

/-- The position to which the override placed first runs. -/
def firstEnd (i m j k : Nat) : Nat :=
  if j ≤ i ∧ i ≤ j + k then j + k else i + m

/-- The position to which the override placed second runs. -/
def secondEnd (i m j k : Nat) : Nat :=
  if i < j ∧ j ≤ i + m then i + m else j + k

theorem firstEnd_cases (i m j k : Nat) :
    (j ≤ i ∧ i ≤ j + k ∧ firstEnd i m j k = j + k) ∨ ((i < j ∨ j + k < i) ∧ firstEnd i m j k = i + m) := by
  unfold firstEnd
  split <;> omega

theorem secondEnd_cases (i m j k : Nat) :
    (i < j ∧ j ≤ i + m ∧ secondEnd i m j k = i + m) ∨ ((j ≤ i ∨ i + m < j) ∧ secondEnd i m j k = j + k) := by
  unfold secondEnd
  split <;> omega

/-- The entry at position `q` once `a` has been placed at position `i` and then `b` at position `j`. -/
def placedBoth (a b : Overlay) (i j : Nat) (m k : Fin 256) (base : Override) (q : Nat) : Override :=
  let entry := if q = i then base.overlay m a else base
  if q = j then entry.overlay k b else entry

/-- Both overrides count down in the entry at position `q`, and no other kind has been added to `base`. -/
structure BothCount (a b : Overlay) (i j : Nat) (m k : Fin 256) (base : Override) (q : Nat) (entry : Override) :
    Prop where
  first : Countdown a i (firstEnd i m j k) base q entry
  second : Countdown b j (secondEnd i m j k) base q entry
  only : ∀ o : Overlay, o.inForce entry = true → o.inForce base = true ∨ o.kinds = a.kinds ∨ o.kinds = b.kinds

section Both

variable {a b : Overlay} {i j p q : Nat} {m k : Fin 256} {base entry current : Override}

theorem placed_first (hab : a.kinds ≠ b.kinds) (base : Override) (q : Nat) :
    Placed a i base q (placedBoth a b i j m k base q) := by
  have hholds : q = i → a.Holds (placedBoth a b i j m k base q) := by
    intro hq
    have hself := a.holds_overlay_self base m
    unfold placedBoth
    rw [if_pos hq]
    by_cases hj : q = j
    · simp only [if_pos hj]
      exact hself.overlay hab k
    · simp only [if_neg hj]
      exact hself
  refine ⟨?_, hholds⟩
  by_cases hq : q = i
  · exact ⟨fun _ => .inr hq, fun _ => (hholds hq).1⟩
  · have hforce : a.inForce (placedBoth a b i j m k base q) = a.inForce base := by
      unfold placedBoth
      rw [if_neg hq]
      exact Overlay.inForce_ite_overlay hab _ base k
    rw [hforce]
    exact ⟨.inl, fun h => h.resolve_right hq⟩

theorem placed_second (hab : a.kinds ≠ b.kinds) (base : Override) (q : Nat) :
    Placed b j base q (placedBoth a b i j m k base q) := by
  unfold placedBoth
  by_cases hj : q = j
  · simp only [if_pos hj]
    have hself := b.holds_overlay_self (if q = i then base.overlay m a else base) k
    exact ⟨⟨fun _ => .inr hj, fun _ => hself.1⟩, fun _ => hself⟩
  · simp only [if_neg hj]
    refine ⟨?_, fun h => absurd h hj⟩
    rw [Overlay.inForce_ite_overlay hab.symm]
    exact ⟨.inl, fun h => h.resolve_right hj⟩

theorem placed_only (base : Override) (q : Nat) (o : Overlay)
    (h : o.inForce (placedBoth a b i j m k base q) = true) :
    o.inForce base = true ∨ o.kinds = a.kinds ∨ o.kinds = b.kinds := by
  by_cases ha : o.kinds = a.kinds
  · exact .inr (.inl ha)
  by_cases hb : o.kinds = b.kinds
  · exact .inr (.inr hb)
  refine .inl ?_
  unfold placedBoth at h
  rw [Overlay.inForce_ite_overlay hb, Overlay.inForce_ite_overlay ha] at h
  exact h

theorem placed_remaining (base : Override) (q : Nat) :
    (q = j → (placedBoth a b i j m k base q).remaining = k) ∧
      (q = i → q ≠ j → (placedBoth a b i j m k base q).remaining = m) := by
  unfold placedBoth
  refine ⟨fun hj => ?_, fun hi hj => ?_⟩
  · simp only [if_pos hj]
    exact b.overlay_remaining _ k
  · simp only [if_neg hj, if_pos hi]
    exact a.overlay_remaining _ m

/-- Where nothing is carried to a position, both overrides are as placed there. -/
theorem bothCount_placed (hab : a.kinds ≠ b.kinds) (base : Override)
    (hidle : ¬ ((i < q ∧ q ≤ firstEnd i m j k) ∨ (j < q ∧ q ≤ secondEnd i m j k))) :
    BothCount a b i j m k base q (placedBoth a b i j m k base q) := by
  have hfirst := firstEnd_cases i m j k
  have hsecond := secondEnd_cases i m j k
  have hremaining := placed_remaining (a := a) (b := b) (i := i) (j := j) (m := m) (k := k) base q
  refine ⟨(placed_first hab base q).countdown (by omega) (by omega) fun hi => ?_,
    (placed_second hab base q).countdown (by omega) (by omega) fun hj => ?_, placed_only base q⟩
  · -- the count placed last counts, if both stand here
    by_cases hj : q = j
    · rw [hremaining.1 hj]
      omega
    · rw [hremaining.2 hi hj]
      omega
  · rw [hremaining.1 hj]
    omega

/-- An entry runs on where one of the countdowns has not come to its end. -/
theorem BothCount.runsOn_iff (h : BothCount a b i j m k .none p current) :
    current.runsOn = true ↔ (i ≤ p ∧ p < firstEnd i m j k) ∨ (j ≤ p ∧ p < secondEnd i m j k) := by
  have hfirst := h.first.counts
  have hsecond := h.second.counts
  unfold Override.runsOn
  rw [Bool.and_eq_true, decide_eq_true_iff]
  constructor
  · rintro ⟨hpos, hspanned⟩
    obtain ⟨o, ho⟩ := Override.exists_inForce hspanned
    rcases h.only o ho with hnone | ha | hb
    · rw [o.inForce_none] at hnone
      cases hnone
    · rw [Overlay.inForce_eq_of_kinds ha, h.first.inForce, a.inForce_none] at ho
      obtain ⟨hi, hlast⟩ := ho.resolve_left (by decide)
      have := (hfirst hi hlast).2
      omega
    · rw [Overlay.inForce_eq_of_kinds hb, h.second.inForce, b.inForce_none] at ho
      obtain ⟨hj, hlast⟩ := ho.resolve_left (by decide)
      have := (hsecond hj hlast).2
      omega
  · rintro (⟨hi, hlast⟩ | ⟨hj, hlast⟩)
    · obtain ⟨hholds, hcount⟩ := hfirst hi (by omega)
      exact ⟨by omega, Overlay.hasSpanned_of_inForce hholds.1⟩
    · obtain ⟨hholds, hcount⟩ := hsecond hj (by omega)
      exact ⟨by omega, Overlay.hasSpanned_of_inForce hholds.1⟩

/-- One step of the walk keeps both countdowns. -/
theorem BothCount.step (h : BothCount a b i j m k .none p current) (hab : a.kinds ≠ b.kinds) (base : Override) :
    BothCount a b i j m k base (p + 1)
      (if runs : current.runsOn = true then current.carriedTo (placedBoth a b i j m k base (p + 1)) runs
        else placedBoth a b i j m k base (p + 1)) := by
  have hfirst := firstEnd_cases i m j k
  have hsecond := secondEnd_cases i m j k
  by_cases hruns : current.runsOn = true
  · have hrunning := h.runsOn_iff.1 hruns
    rw [dif_pos hruns]
    -- whichever of the two is running, the count tells the position to which it runs
    have hcount : (i ≤ p → p ≤ firstEnd i m j k → current.remaining.val + p = firstEnd i m j k) ∧
        (j ≤ p → p ≤ secondEnd i m j k → current.remaining.val + p = secondEnd i m j k) :=
      ⟨fun hi hlast => (h.first.counts hi hlast).2, fun hj hlast => (h.second.counts hj hlast).2⟩
    have hpos := Override.remaining_pos hruns
    refine ⟨h.first.carriedTo (placed_first hab base (p + 1)) (by omega) (by omega) (by omega) hruns,
      h.second.carriedTo (placed_second hab base (p + 1)) (by omega) (by omega) (by omega) hruns, fun o ho => ?_⟩
    rw [o.inForce_carriedTo, Bool.or_eq_true] at ho
    rcases ho with ho | ho
    · exact placed_only base (p + 1) o ho
    · rcases h.only o ho with hnone | hkinds
      · rw [o.inForce_none] at hnone
        cases hnone
      · exact .inr hkinds
  · have hidle : ¬ ((i ≤ p ∧ p < firstEnd i m j k) ∨ (j ≤ p ∧ p < secondEnd i m j k)) :=
      fun hrunning => hruns (h.runsOn_iff.2 hrunning)
    rw [dif_neg hruns]
    exact bothCount_placed hab base (by omega)

end Both

/-! ## The walk -/

/-- Placing an override with a span that fits a byte succeeds. -/
theorem Store.place_byte (s : Store) (addr : Int) (o : Overlay) (span : Fin 256) :
    s.place addr o span.val = .ok (s.put addr ((s.get addr).overlay span o)) := by
  have hrange : (0 : Int) ≤ span.val ∧ (span.val : Int) < 256 := by omega
  rw [place_eq, dif_pos hrange]
  rfl

section Walk

variable {start : Int} {block : List Instruction} {s : Store} {a b : Overlay} {i j q : Nat}

/-- The store in which `a` has been placed at position `i` of a line and then `b` at position `j`. -/
def Store.placedOnLine (s : Store) (start : Int) (block : List Instruction) (a b : Overlay) (i j : Nat)
    (m k : Fin 256) : Store :=
  let s₁ := s.put (addressAt start block i) ((s.get (addressAt start block i)).overlay m a)
  s₁.put (addressAt start block j) ((s₁.get (addressAt start block j)).overlay k b)

theorem StraightLine.get_placedOnLine (h : StraightLine start block) (s : Store) (hi : i ≤ block.length)
    (hj : j ≤ block.length) (m k : Fin 256) (hq : q ≤ block.length) :
    (s.placedOnLine start block a b i j m k).get (addressAt start block q) =
      placedBoth a b i j m k (s.get (addressAt start block q)) q := by
  have hone : (s.put (addressAt start block i) ((s.get (addressAt start block i)).overlay m a)).get
      (addressAt start block q) =
        if q = i then (s.get (addressAt start block q)).overlay m a else s.get (addressAt start block q) := by
    by_cases hqi : q = i
    · rw [if_pos hqi, hqi, Store.get_put_self]
    · rw [if_neg hqi, Store.get_put_of_ne _ _ fun heq => hqi (h.addressAt_inj hq hi heq)]
  unfold Store.placedOnLine placedBoth
  by_cases hqj : q = j
  · subst hqj
    simp only [if_true, Store.get_put_self, hone]
  · simp only [if_neg hqj]
    rw [Store.get_put_of_ne _ _ fun heq => hqj (h.addressAt_inj hq hj heq), hone]

/-- Both countdowns hold at every position that the walk comes to. -/
theorem StraightLine.bothCount (h : StraightLine start block) (hplain : ∀ e ∈ block, e.family ≠ .ext)
    (hfree : ∀ p < block.length, s.table.get? (addressAt start block p) = none) (hab : a.kinds ≠ b.kinds)
    (hi : i < block.length) (hj : j < block.length) (m k : Fin 256) (l : Lifter) (hq : q ≤ block.length) :
    BothCount a b i j m k (s.get (addressAt start block q)) q
      ((l.storeAt (s.placedOnLine start block a b i j m k) start block q).get (addressAt start block q)) := by
  induction q with
  | zero =>
    rw [Lifter.storeAt_zero, h.get_placedOnLine s (by omega) (by omega) m k hq]
    exact bothCount_placed hab _ (by omega)
  | succ p ih =>
    have hp : p < block.length := by omega
    have hcurrent := ih (by omega)
    have hbase : s.get (addressAt start block p) = .none := by
      unfold Store.get
      rw [hfree p hp]
      rfl
    rw [hbase] at hcurrent
    have hentry := h.get?_storeAt_succ l (s.placedOnLine start block a b i j m k) (List.getElem?_eq_getElem hp)
    have hstep := hcurrent.step hab (s.get (addressAt start block (p + 1)))
    rw [← h.get_placedOnLine s (by omega) (by omega) m k hq] at hstep
    have hget := congrArg (fun entry => entry.getD Override.none) hentry
    simp only [Instruction.leaves_plain_getD (hplain _ (List.getElem_mem hp))] at hget
    unfold Store.get at hstep ⊢
    rw [hget]
    exact hstep

/-- Away from the addresses of the line, nothing is placed and nothing is written. -/
theorem StraightLine.get_walkLine_of_ne (h : StraightLine start block) (s : Store) (hi : i ≤ block.length)
    (hj : j ≤ block.length) (m k : Fin 256) (l : Lifter) {addr : Int}
    (haddr : ∀ q ≤ block.length, addr ≠ addressAt start block q) :
    (l.walkLine (s.placedOnLine start block a b i j m k) start block).2.get addr = s.get addr := by
  have hwalk : (l.walkLine (s.placedOnLine start block a b i j m k) start block).2.table.get? addr =
      (s.placedOnLine start block a b i j m k).table.get? addr := by
    refine l.get?_treatAll _ h fun site hsite => ?_
    obtain ⟨p, hp⟩ := List.getElem?_of_mem hsite
    rw [sitesFrom_getElem?, Option.map_eq_some_iff] at hp
    obtain ⟨e, he, rfl⟩ := hp
    obtain ⟨hlt, -⟩ := List.getElem?_eq_some_iff.1 he
    have hnext := addressAt_succ start he
    exact fun heq => haddr (p + 1) hlt (heq.trans hnext.symm)
  unfold Store.get
  rw [hwalk]
  show (s.placedOnLine start block a b i j m k).get addr = s.get addr
  unfold Store.placedOnLine
  rw [Store.get_put_of_ne _ _ (haddr j hj), Store.get_put_of_ne _ _ (haddr i hi)]

/-- Where an override counts down along a line and all else is as before, it is in force where it was before and at
the positions of its countdown. -/
theorem StraightLine.inForce_iff (h : StraightLine start block) {t : Store} {o : Overlay} {first last : Nat}
    (hcount : ∀ q ≤ block.length,
      Countdown o first last (s.get (addressAt start block q)) q (t.get (addressAt start block q)))
    (hother : ∀ addr, (∀ q ≤ block.length, addr ≠ addressAt start block q) → t.get addr = s.get addr) (addr : Int) :
    t.inForce o addr = true ↔
      s.inForce o addr = true ∨ ∃ p ≤ block.length, first ≤ p ∧ p ≤ last ∧ addr = addressAt start block p := by
  rw [Store.inForce_eq, Store.inForce_eq]
  by_cases hline : ∃ q ≤ block.length, addr = addressAt start block q
  · obtain ⟨q, hq, rfl⟩ := hline
    rw [(hcount q hq).inForce]
    refine or_congr_right ⟨fun ⟨hfirst, hlast⟩ => ⟨q, hq, hfirst, hlast, rfl⟩, ?_⟩
    rintro ⟨p, hp, hfirst, hlast, heq⟩
    obtain rfl := h.addressAt_inj hq hp heq
    exact ⟨hfirst, hlast⟩
  · have hne : ∀ q ≤ block.length, addr ≠ addressAt start block q := fun q hq heq => hline ⟨q, hq, heq⟩
    rw [hother addr hne]
    refine ⟨.inl, ?_⟩
    rintro (hbefore | ⟨p, hp, -, -, heq⟩)
    · exact hbefore
    · exact absurd heq (hne p hp)

/-- Two overrides of different kinds, placed by hand on a line without extensions that holds no entries yet, share
their counts. The one placed first is in force from its address on for its span, unless the second reaches that
address, and then for as long as the second; the one placed second is in force for its span, unless the first is
already running when it comes to the address of the second, and then for as long as the first. Neither is in force
anywhere else, and both keep their values. -/
theorem StraightLine.shared_countdown (h : StraightLine start block) (hplain : ∀ e ∈ block, e.family ≠ .ext)
    (hfree : ∀ p < block.length, s.table.get? (addressAt start block p) = none) (hab : a.kinds ≠ b.kinds)
    (hi : i < block.length) (hj : j < block.length) (m k : Fin 256) (l : Lifter) :
    ∃ s₁ s₂, s.place (addressAt start block i) a m.val = .ok s₁ ∧
      s₁.place (addressAt start block j) b k.val = .ok s₂ ∧
      (∀ addr, (l.walkLine s₂ start block).2.inForce a addr = true ↔
        s.inForce a addr = true ∨
          ∃ p ≤ block.length, i ≤ p ∧ p ≤ firstEnd i m j k ∧ addr = addressAt start block p) ∧
      (∀ addr, (l.walkLine s₂ start block).2.inForce b addr = true ↔
        s.inForce b addr = true ∨
          ∃ p ≤ block.length, j ≤ p ∧ p ≤ secondEnd i m j k ∧ addr = addressAt start block p) ∧
      (∀ p ≤ block.length, i ≤ p → p ≤ firstEnd i m j k →
        (l.walkLine s₂ start block).2.Shows a (addressAt start block p)) ∧
      (∀ p ≤ block.length, j ≤ p → p ≤ secondEnd i m j k →
        (l.walkLine s₂ start block).2.Shows b (addressAt start block p)) := by
  refine ⟨_, s.placedOnLine start block a b i j m k, s.place_byte _ a m, Store.place_byte _ _ b k, ?_⟩
  have hcount : ∀ q ≤ block.length, BothCount a b i j m k (s.get (addressAt start block q)) q
      ((l.walkLine (s.placedOnLine start block a b i j m k) start block).2.get (addressAt start block q)) := by
    intro q hq
    have hat := h.bothCount hplain hfree hab hi hj m k l hq
    have hfinal := h.get?_storeAt_of_le l (s.placedOnLine start block a b i j m k) hq (Nat.le_refl _)
    rw [Lifter.storeAt_length] at hfinal
    unfold Store.get at hat ⊢
    rw [hfinal]
    exact hat
  have hother : ∀ addr, (∀ q ≤ block.length, addr ≠ addressAt start block q) →
      (l.walkLine (s.placedOnLine start block a b i j m k) start block).2.get addr = s.get addr := by
    intro addr haddr
    exact h.get_walkLine_of_ne s (Nat.le_of_lt hi) (Nat.le_of_lt hj) m k l haddr
  refine ⟨?_, ?_, fun p hp hfirst hlast => ?_, fun p hp hfirst hlast => ?_⟩
  · exact h.inForce_iff (fun q hq => (hcount q hq).first) hother
  · exact h.inForce_iff (fun q hq => (hcount q hq).second) hother
  · exact Store.shows_of_holds ((hcount p hp).first.counts hfirst hlast).1
  · exact Store.shows_of_holds ((hcount p hp).second.counts hfirst hlast).1

end Walk

/-- A page for two further instructions runs over a segment placed for one instruction only, and takes it along. -/
theorem shared_countdown_idle :
    StraightLine 0x1000 (List.replicate 3 idle) ∧
      ∃ s₁ s₂, (Store.empty .zero).place 0x1000 (.page 3) 2 = .ok s₁ ∧ s₁.place 0x1002 (.segment 5) 0 = .ok s₂ ∧
        ((⟨.tvx, false⟩ : Lifter).walkLine s₂ 0x1000 (List.replicate 3 idle)).2.Shows (.segment 5) 0x1004 := by
  have hline := straightLine_replicate_idle 0x1000 3
  obtain ⟨s₁, s₂, hfirst, hsecond, -, -, -, hshows⟩ :=
    hline.shared_countdown (s := .empty .zero) (a := .page 3) (b := .segment 5) (i := 0) (j := 1) (by decide)
      (by decide) (by decide) (by decide) (by decide) 2 0 ⟨.tvx, false⟩
  exact ⟨hline, s₁, s₂, hfirst, hsecond, hshows 2 (by decide) (by decide) (by decide)⟩

/-- The two countdowns are not independent of each other. -/
theorem countdowns_not_independent :
    ¬ ∀ (start : Int) (block : List Instruction) (s s₁ s₂ : Store) (a b : Overlay) (i j m k : Nat) (l : Lifter),
      StraightLine start block → (∀ e ∈ block, e.family ≠ .ext) →
      (∀ p ≤ block.length, s.table.get? (addressAt start block p) = none) →
      a.kinds ≠ b.kinds → i < block.length → j < block.length →
      s.place (addressAt start block i) a m = .ok s₁ → s₁.place (addressAt start block j) b k = .ok s₂ →
      ∀ p ≤ block.length,
        ((l.walkLine s₂ start block).2.inForce a (addressAt start block p) = true ↔ i ≤ p ∧ p ≤ i + m) ∧
          ((l.walkLine s₂ start block).2.inForce b (addressAt start block p) = true ↔ j ≤ p ∧ p ≤ j + k) := by
  intro hclaim
  have hat := hclaim 0x1000 (List.replicate 3 idle) (.empty .zero) _ _ (.page 3) (.segment 5) 0 1 2 0 ⟨.tvx, false⟩
    (straightLine_replicate_idle 0x1000 3) (by decide) (by decide) (by decide) (by decide) (by decide) rfl rfl 2
    (by decide)
  -- the segment was placed for the second instruction alone, and is in force at the third
  have hspread := hat.2.1 (by decide)
  omega

end Lift166
