import Lift166.Proofs.ControlFlow
import Lift166.Proofs.Effects
import Lift166.Proofs.Evaluation
import Mathlib.Logic.Function.Basic

/-!
# Running lifted code

What a host does with the code of one instruction. An assignment of `n` bytes keeps the `n` low bytes of the value; a
byte register is a half of a word register, and a store puts the lowest byte first. The policies in a statement say
which flags it updates. To what is for the host to choose, so the choice is a parameter, and what is proved about a run
holds for every choice.

A run goes down the statements. After a branch it looks for the label below, since no label of lifted code stands above
a branch to it. A run ends behind the last statement or with a jump. A push, a call and the like have no meaning here,
and neither has a statement whose value has none.
-/

namespace Lift166

open Il

/-! ## Changes of a machine -/

theorem mod_word_lt (x : Nat) : x % 65536 < 65536 :=
  Nat.mod_lt x (by decide)

/-- The word of a number's sixteen low bits. -/
def wordOf (x : Nat) : Fin 65536 :=
  ⟨x % 65536, mod_word_lt x⟩

namespace Machine

/-- A word with one half replaced. -/
def replaceHalf (word : Fin 65536) (upper : Bool) (byte : Nat) : Fin 65536 :=
  wordOf (if upper then byte % 256 * 256 + word.val % 256 else word.val / 256 * 256 + byte % 256)

def setWord (m : Machine) (index : Fin 16) (word : Fin 65536) : Machine :=
  { m with words := Function.update m.words index word }

/-- Assigns the low `size` bytes of a number to a variable. -/
def assign (m : Machine) (size : Nat) (var : Var) (x : Nat) : Machine :=
  let low := lowBits (8 * size) x
  match var with
  | .machine (.word index) => m.setWord index (wordOf low)
  | .machine (.byte index) =>
    let owner : Fin 16 := ⟨index.val / 2, Register.half_lt index⟩
    m.setWord owner (replaceHalf (m.words owner) (index.val % 2 = 1) low)
  | .machine r => { m with others := Function.update m.others r low }
  | .temp index => { m with temps := Function.update m.temps index low }

/-- Stores the low `size` bytes of a number at an address. -/
def store (m : Machine) (size address x : Nat) : Machine :=
  { m with memory := fun a =>
      if address ≤ a ∧ a < address + size then UInt8.ofNat (x >>> (8 * (a - address))) else m.memory a }

def setFlag (m : Machine) (flag : Flag) (value : Bool) : Machine :=
  { m with flags := Function.update m.flags flag value }

/-- Gives the listed flags the values chosen for them. -/
def updateFlags (m : Machine) (updated : List Flag) (choice : Flag → Bool) : Machine :=
  { m with flags := fun f => if f ∈ updated then choice f else m.flags f }

end Machine

/-! ## Statements -/

/-- The values that a host gives to the flags that a statement updates. -/
abbrev FlagRule : Type :=
  Stmt → Machine → Flag → Bool

namespace Il.Stmt

/-- The flags that the policies in a statement list. -/
def updated (stmt : Stmt) : List Flag :=
  stmt.tally.policies.flatMap FlagPolicy.flags

/-- What a statement does beside the flags of its policies. -/
def effect (m : Machine) : Stmt → Option Machine
  | setReg size _ var value => (value.eval m).map (m.assign size var)
  | store size _ address value => (address.eval m).bind fun a => (value.eval m).map (m.store size a)
  | setFlag flag value => (value.eval m).map fun x => m.setFlag flag (x != 0)
  | eval value => (value.eval m).map fun _ => m
  | nop => some m
  | _ => none

/-- The machine after a statement. -/
def exec (rule : FlagRule) (m : Machine) (stmt : Stmt) : Option Machine :=
  (stmt.effect m).map fun after => after.updateFlags stmt.updated (rule stmt m)

end Il.Stmt

/-! ## Runs -/

/-- How a run ends: behind the last statement, or with a jump. -/
inductive Exit
  | next
  | jump (target : Nat)
deriving DecidableEq

namespace Il

/-- Runs code, from the given label on if there is one. -/
def runFrom (rule : FlagRule) : List Stmt → Option Nat → Machine → Option (Machine × Exit)
  | [], none, m => some (m, .next)
  | [], some _, _ => none
  | stmt :: rest, some label, m => runFrom rule rest (if stmt = .label label then none else some label) m
  | .label _ :: rest, none, m => runFrom rule rest none m
  | .goto label :: rest, none, m => runFrom rule rest (some label) m
  | .ifElse cond onTrue onFalse :: rest, none, m =>
    (cond.eval m).bind fun c => runFrom rule rest (some (if c = 0 then onFalse else onTrue)) m
  | .jump dest :: _, none, m => (dest.eval m).map fun target => (m, .jump target)
  | stmt :: rest, none, m => (stmt.exec rule m).bind (runFrom rule rest none)

/-- Runs code from its first statement on. -/
def run (rule : FlagRule) (code : List Stmt) (m : Machine) : Option (Machine × Exit) :=
  runFrom rule code none m

variable {rule : FlagRule} {m : Machine}

theorem run_nil : run rule [] m = some (m, .next) := rfl

theorem run_cons {stmt : Stmt} (h : stmt.isControl = false) (rest : List Stmt) :
    run rule (stmt :: rest) m = (stmt.exec rule m).bind (run rule rest) := by
  cases stmt
  case jump | ifElse | goto | label => cases h
  all_goals rfl

theorem run_of_exec {stmt : Stmt} {after : Machine} (h : stmt.isControl = false) (hexec : stmt.exec rule m = some after)
    (rest : List Stmt) : run rule (stmt :: rest) m = run rule rest after := by
  rw [run_cons h, hexec, Option.bind_some]

/-- A label is found below code that does not mark it. -/
theorem runFrom_label {front : List Stmt} {label : Nat} (h : ∀ stmt ∈ front, stmt ≠ .label label) (rest : List Stmt) :
    runFrom rule (front ++ .label label :: rest) (some label) m = run rule rest m := by
  induction front with
  | nil =>
    rw [List.nil_append, runFrom, if_pos rfl]
    rfl
  | cons stmt front ih =>
    rw [List.cons_append, runFrom, if_neg (h stmt List.mem_cons_self)]
    exact ih fun stmt hstmt => h stmt (List.mem_cons_of_mem _ hstmt)

/-- A branch over a body that marks no label: where the condition fails, the body is left out. -/
theorem run_branch {cond : Expr} {c : Nat} {body : List Stmt} (hcond : cond.eval m = some c)
    (hbody : ∀ stmt ∈ body, ∀ label, stmt ≠ .label label) (rule : FlagRule) :
    run rule (.ifElse cond 0 1 :: .label 0 :: (body ++ [.label 1])) m =
      if c = 0 then some (m, .next) else run rule (body ++ [.label 1]) m := by
  rw [run, runFrom, hcond, Option.bind_some]
  by_cases hzero : c = 0
  · have hskip : ∀ stmt ∈ .label 0 :: body, stmt ≠ .label 1 := by
      intro stmt hstmt
      rcases List.mem_cons.1 hstmt with rfl | hstmt
      · decide
      · exact hbody stmt hstmt 1
    rw [if_pos hzero, if_pos hzero, ← List.cons_append, runFrom_label hskip, run_nil]
  · rw [if_neg hzero, if_neg hzero, runFrom, if_pos rfl]
    rfl

end Il

/-! ## Flags -/

theorem Machine.updateFlags_nil (m : Machine) (choice : Flag → Bool) : m.updateFlags [] choice = m := by
  simp only [updateFlags, List.not_mem_nil, if_false]

/-- A statement leaves alone the flags that it neither assigns nor lists. -/
theorem Il.Stmt.exec_flag {rule : FlagRule} {m after : Machine} {stmt : Stmt} (h : stmt.exec rule m = some after)
    {f : Flag} (hassigned : f ∉ stmt.tally.assigned) (hupdated : f ∉ stmt.updated) : after.flags f = m.flags f := by
  obtain ⟨between, heffect, rfl⟩ := Option.map_eq_some_iff.1 h
  have hkept : between.flags f = m.flags f := by
    cases stmt with
    | setReg size flags var value =>
      obtain ⟨x, -, rfl⟩ := Option.map_eq_some_iff.1 heffect
      cases var with
      | machine r => cases r <;> rfl
      | temp index => rfl
    | store size flags address value =>
      obtain ⟨a, -, hvalue⟩ := Option.bind_eq_some_iff.1 heffect
      obtain ⟨x, -, rfl⟩ := Option.map_eq_some_iff.1 hvalue
      rfl
    | setFlag flag value =>
      obtain ⟨x, -, rfl⟩ := Option.map_eq_some_iff.1 heffect
      have hne : f ≠ flag := by
        rintro rfl
        exact hassigned List.mem_cons_self
      exact Function.update_of_ne hne _ _
    | eval value =>
      obtain ⟨x, -, rfl⟩ := Option.map_eq_some_iff.1 heffect
      rfl
    | nop =>
      cases heffect
      rfl
    | _ => cases heffect
  exact (if_neg hupdated).trans hkept

theorem Il.Stmt.exec_flags {rule : FlagRule} {m after : Machine} {stmt : Stmt} (h : stmt.exec rule m = some after)
    (hquiet : stmt.tally = 0) : after.flags = m.flags := by
  funext f
  refine exec_flag h ?_ ?_
  · rw [hquiet]
    exact List.not_mem_nil
  · rw [updated, hquiet]
    exact List.not_mem_nil

end Lift166
