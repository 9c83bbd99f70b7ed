/-!
# Maps from addresses

A finite map from addresses, kept as its bindings in ascending order of address. The order is part of the type,
so a map is determined by what it holds: `AddressMap.ext` turns equal look-ups into equal maps.
-/

namespace Lift166

/-- Binds an address in an ascending list of bindings. -/
def insertBinding {α : Type} (addr : Int) (value : α) : List (Int × α) → List (Int × α)
  | [] => [(addr, value)]
  | (a, v) :: rest =>
    if addr < a then (addr, value) :: (a, v) :: rest
    else if addr = a then (addr, value) :: rest
    else (a, v) :: insertBinding addr value rest

/-- The value bound to an address in a list of bindings. -/
def lookupBinding {α : Type} (addr : Int) : List (Int × α) → Option α
  | [] => none
  | (a, v) :: rest => if addr = a then some v else lookupBinding addr rest

theorem mem_insertBinding {α : Type} {addr : Int} {value : α} {bindings : List (Int × α)} {b : Int × α}
    (h : b ∈ insertBinding addr value bindings) : b = (addr, value) ∨ b ∈ bindings := by
  induction bindings with
  | nil => simpa [insertBinding] using h
  | cons head rest ih =>
    obtain ⟨a, v⟩ := head
    simp only [insertBinding] at h
    split at h
    · simpa using h
    · split at h
      · rcases List.mem_cons.1 h with h | h
        · exact .inl h
        · exact .inr (List.mem_cons_of_mem _ h)
      · rcases List.mem_cons.1 h with h | h
        · exact .inr (h ▸ List.mem_cons_self)
        · rcases ih h with h | h
          · exact .inl h
          · exact .inr (List.mem_cons_of_mem _ h)

theorem insertBinding_ascending {α : Type} (addr : Int) (value : α) {bindings : List (Int × α)}
    (h : bindings.Pairwise fun a b => a.1 < b.1) :
    (insertBinding addr value bindings).Pairwise fun a b => a.1 < b.1 := by
  induction bindings with
  | nil => simp [insertBinding]
  | cons head rest ih =>
    obtain ⟨a, v⟩ := head
    obtain ⟨hhead, hrest⟩ := List.pairwise_cons.1 h
    simp only [insertBinding]
    split
    · next hlt =>
      refine List.pairwise_cons.2 ⟨fun b hb => ?_, h⟩
      rcases List.mem_cons.1 hb with rfl | hb
      · exact hlt
      · exact Int.lt_trans hlt (hhead b hb)
    · split
      · next heq =>
        subst heq
        exact List.pairwise_cons.2 ⟨hhead, hrest⟩
      · next hle hne =>
        refine List.pairwise_cons.2 ⟨fun b hb => ?_, ih hrest⟩
        rcases mem_insertBinding hb with rfl | hb
        · show a < addr
          omega
        · exact hhead b hb

theorem lookupBinding_insertBinding {α : Type} (addr other : Int) (value : α) (bindings : List (Int × α)) :
    lookupBinding other (insertBinding addr value bindings) =
      if other = addr then some value else lookupBinding other bindings := by
  induction bindings with
  | nil => simp [insertBinding, lookupBinding]
  | cons head rest ih =>
    obtain ⟨a, v⟩ := head
    simp only [insertBinding]
    split
    · simp [lookupBinding]
    · split
      · next heq =>
        subst heq
        by_cases h : other = addr <;> simp [lookupBinding, h]
      · by_cases h : other = a
        · subst h
          simp [lookupBinding]
          omega
        · simp [lookupBinding, h, ih]

/-- A finite map from addresses. -/
structure AddressMap (α : Type) where
  /-- The bindings, by ascending address. -/
  toList : List (Int × α)
  /-- Addresses ascend, so none occurs twice. -/
  ascending : toList.Pairwise fun a b => a.1 < b.1
deriving DecidableEq

namespace AddressMap

variable {α : Type}

/-- The map without bindings. -/
def empty : AddressMap α :=
  ⟨[], .nil⟩

/-- The value at an address. -/
def get? (m : AddressMap α) (addr : Int) : Option α :=
  lookupBinding addr m.toList

/-- Binds an address, whatever was bound to it before. -/
def insert (m : AddressMap α) (addr : Int) (value : α) : AddressMap α :=
  ⟨insertBinding addr value m.toList, insertBinding_ascending addr value m.ascending⟩

/-- Whether an address is bound. -/
def contains (m : AddressMap α) (addr : Int) : Bool :=
  (m.get? addr).isSome

/-- The number of bindings. -/
def size (m : AddressMap α) : Nat :=
  m.toList.length

/-- The bound addresses, in ascending order. -/
def addresses (m : AddressMap α) : List Int :=
  m.toList.map Prod.fst

/-- The map of a list of bindings; the last binding of an address counts. -/
def ofList (bindings : List (Int × α)) : AddressMap α :=
  bindings.foldl (fun m b => m.insert b.1 b.2) empty

@[simp] theorem get?_empty (addr : Int) : (empty : AddressMap α).get? addr = none := rfl

/-- Binding an address changes the look-up there and nowhere else. -/
theorem get?_insert (m : AddressMap α) (addr other : Int) (value : α) :
    (m.insert addr value).get? other = if other = addr then some value else m.get? other :=
  lookupBinding_insertBinding addr other value m.toList

@[simp] theorem get?_insert_self (m : AddressMap α) (addr : Int) (value : α) :
    (m.insert addr value).get? addr = some value := by
  simp [get?_insert]

theorem get?_insert_of_ne (m : AddressMap α) {addr other : Int} (value : α) (h : other ≠ addr) :
    (m.insert addr value).get? other = m.get? other := by
  simp [get?_insert, h]

theorem lookupBinding_eq_some_iff {bindings : List (Int × α)}
    (h : bindings.Pairwise fun a b => a.1 < b.1) {addr : Int} {value : α} :
    lookupBinding addr bindings = some value ↔ (addr, value) ∈ bindings := by
  induction bindings with
  | nil => simp [lookupBinding]
  | cons head rest ih =>
    obtain ⟨a, v⟩ := head
    obtain ⟨hhead, hrest⟩ := List.pairwise_cons.1 h
    simp only [lookupBinding]
    split
    · next heq =>
      subst heq
      constructor
      · intro hv
        cases hv
        exact List.mem_cons_self
      · intro hmem
        rcases List.mem_cons.1 hmem with hmem | hmem
        · cases hmem
          rfl
        · exact absurd (hhead _ hmem) (Int.lt_irrefl _)
    · next hne =>
      rw [ih hrest]
      constructor
      · exact List.mem_cons_of_mem _
      · intro hmem
        rcases List.mem_cons.1 hmem with hmem | hmem
        · cases hmem
          exact absurd rfl hne
        · exact hmem

/-- The look-up finds exactly the bindings of the list. -/
theorem get?_eq_some_iff {m : AddressMap α} {addr : Int} {value : α} :
    m.get? addr = some value ↔ (addr, value) ∈ m.toList :=
  lookupBinding_eq_some_iff m.ascending

/-- Ascending lists with the same members are equal. -/
theorem ascending_ext {l₁ l₂ : List (Int × α)} (h₁ : l₁.Pairwise fun a b => a.1 < b.1)
    (h₂ : l₂.Pairwise fun a b => a.1 < b.1) (h : ∀ b, b ∈ l₁ ↔ b ∈ l₂) : l₁ = l₂ := by
  induction l₁ generalizing l₂ with
  | nil =>
    cases l₂ with
    | nil => rfl
    | cons b rest => exact absurd ((h b).2 List.mem_cons_self) List.not_mem_nil
  | cons a rest₁ ih =>
    cases l₂ with
    | nil => exact absurd ((h a).1 List.mem_cons_self) List.not_mem_nil
    | cons b rest₂ =>
      obtain ⟨ha, hrest₁⟩ := List.pairwise_cons.1 h₁
      obtain ⟨hb, hrest₂⟩ := List.pairwise_cons.1 h₂
      have hab : a = b := by
        rcases List.mem_cons.1 ((h a).1 List.mem_cons_self) with hab | hab
        · exact hab
        · rcases List.mem_cons.1 ((h b).2 List.mem_cons_self) with hba | hba
          · exact hba.symm
          · exact absurd (Int.lt_trans (ha b hba) (hb a hab)) (Int.lt_irrefl _)
      subst hab
      congr 1
      refine ih hrest₁ hrest₂ fun c => ⟨fun hc => ?_, fun hc => ?_⟩
      · rcases List.mem_cons.1 ((h c).1 (List.mem_cons_of_mem _ hc)) with rfl | hc'
        · exact absurd (ha c hc) (Int.lt_irrefl _)
        · exact hc'
      · rcases List.mem_cons.1 ((h c).2 (List.mem_cons_of_mem _ hc)) with rfl | hc'
        · exact absurd (hb c hc) (Int.lt_irrefl _)
        · exact hc'

/-- Maps with equal look-ups are equal. -/
theorem ext {m₁ m₂ : AddressMap α} (h : ∀ addr, m₁.get? addr = m₂.get? addr) : m₁ = m₂ := by
  obtain ⟨l₁, h₁⟩ := m₁
  obtain ⟨l₂, h₂⟩ := m₂
  have hlist : l₁ = l₂ := by
    refine ascending_ext h₁ h₂ fun b => ?_
    rw [← lookupBinding_eq_some_iff h₁, ← lookupBinding_eq_some_iff h₂]
    have := h b.1
    simp only [get?] at this
    rw [this]
  subst hlist
  rfl

end AddressMap

end Lift166
