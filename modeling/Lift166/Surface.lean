import Lift166.Encoding.Decode
import Lift166.Flow
import Lift166.Lifting.Lift
import Lift166.Listing

/-!
# The surface

What a host asks of an address: how control leaves it, its text, and its lifted form. Bytes that do not decode have
no answer, and that is reported as an event; any other failure is reported to the host and returned.
-/

namespace Lift166

/-- Why a query fails. -/
inductive QueryError
  /-- A value among the first four is no byte. -/
  | notBytes
  /-- The instruction makes no sense. -/
  | instruction (cause : InstructionError)
  /-- The instruction is not lifted. -/
  | lift (cause : LiftError)
deriving DecidableEq

/-- The wording of a query error. -/
def QueryError.message : QueryError → String
  | notBytes => "bytes must be in range(0, 256)"
  | instruction cause => cause.message
  | lift cause => cause.message

/-- The values as bytes, if they all are. -/
def bytesOfInts? : List Int → Option (List UInt8)
  | [] => some []
  | x :: rest =>
    if 0 ≤ x ∧ x < 256 then (bytesOfInts? rest).map (UInt8.ofNat x.toNat :: ·) else none

/-- The bytes of one instruction from a sequence of integers; only the first four are looked at. -/
def instructionBytes (data : List Int) : Except QueryError (List UInt8) :=
  match bytesOfInts? (data.take 4) with
  | some bytes => .ok bytes
  | none => .error .notBytes

/-- The length of an instruction and how control leaves it. -/
structure FlowInfo where
  /-- The length in bytes. -/
  length : Int
  /-- How control leaves. -/
  flow : Flow
deriving DecidableEq

/-- The length of an instruction and its line. -/
structure Line where
  /-- The length in bytes. -/
  length : Int
  /-- The tokens of the line. -/
  tokens : List Token
deriving DecidableEq

namespace Lifter

/-- The instruction at an address. Failure to decode is no answer. -/
def decodeAt (l : Lifter) (s : Store) (data : List Int) (addr : Int) : Outcome QueryError (Option Instruction) :=
  match instructionBytes data with
  | .error e => ⟨.error e, s, []⟩
  | .ok bytes =>
    match decode bytes addr with
    | .ok i => ⟨.ok (some i), s, []⟩
    | .error e => ⟨.ok none, s, [.undecodable l.variant.name addr e]⟩

/-- Goes on with the decoded instruction, if there is one. -/
def withDecoded {α : Type} (l : Lifter) (s : Store) (data : List Int) (addr : Int)
    (next : Instruction → Outcome QueryError α) : Outcome QueryError (Option α) :=
  match l.decodeAt s data addr with
  | ⟨.ok (some i), _, events⟩ =>
    let outcome := next i
    ⟨outcome.answer.map some, outcome.store, events ++ outcome.events⟩
  | ⟨.ok none, store, events⟩ => ⟨.ok none, store, events⟩
  | ⟨.error e, store, events⟩ => ⟨.error e, store, events⟩

/-- Reports a failure to the host. -/
def reported {α : Type} (l : Lifter) (query : Query) (addr : Int) (outcome : Outcome QueryError α) :
    Outcome QueryError α :=
  match outcome.answer with
  | .ok _ => outcome
  | .error e =>
    { outcome with events := outcome.events ++ [.queryFailed l.variant.name query addr e.message] }

/-- How control leaves the instruction at an address. -/
def info (l : Lifter) (s : Store) (data : List Int) (addr : Int) : Outcome QueryError (Option FlowInfo) :=
  l.reported .info addr <| l.withDecoded s data addr fun i =>
    match Flow.ofInstruction i addr with
    | .ok flow => ⟨.ok ⟨i.length, flow⟩, s, []⟩
    | .error e => ⟨.error (.instruction e), s, []⟩

/-- The line of the instruction at an address. -/
def line (l : Lifter) (s : Store) (data : List Int) (addr : Int) : Outcome QueryError (Option Line) :=
  l.withDecoded s data addr fun i =>
    match render s i addr with
    | .ok tokens => ⟨.ok ⟨i.length, tokens⟩, s, []⟩
    | .error e => ⟨.error (.instruction e), s, []⟩

/-- The line of the instruction at an address, as a host asks for it. -/
def text (l : Lifter) (s : Store) (data : List Int) (addr : Int) : Outcome QueryError (Option Line) :=
  l.reported .text addr (l.line s data addr)

/-- The lifted form of the instruction at an address. -/
def liftAt (l : Lifter) (s : Store) (data : List Int) (addr : Int) : Outcome QueryError (Option Lifted) :=
  l.reported .lift addr <| l.withDecoded s data addr fun i =>
    let outcome := l.lift s i addr
    ⟨outcome.answer.mapError .lift, outcome.store, outcome.events⟩

end Lifter

/-- What a walk finds at one address. -/
structure WalkLine where
  /-- The address. -/
  addr : Int
  /-- How control leaves, the line, and the lifted form, unless the bytes do not decode. -/
  found : Option (FlowInfo × Line × Lifted)
deriving DecidableEq

/-- How far a walk moves on: the length of the instruction, or two bytes where there is none. -/
def WalkLine.advance (line : WalkLine) : Nat :=
  match line.found with
  | some (info, _, _) => info.length.toNat
  | none => 2

namespace Lifter

/-- Looks at one address: how control leaves, then the lifted form, then the line. -/
def visit (l : Lifter) (s : Store) (data : List Int) (addr : Int) : Outcome QueryError WalkLine :=
  match l.info s data addr with
  | ⟨.error e, s₁, ev₁⟩ => ⟨.error e, s₁, ev₁⟩
  | ⟨.ok none, s₁, ev₁⟩ => ⟨.ok ⟨addr, none⟩, s₁, ev₁⟩
  | ⟨.ok (some info), s₁, ev₁⟩ =>
    match l.liftAt s₁ data addr with
    | ⟨.error e, s₂, ev₂⟩ => ⟨.error e, s₂, ev₁ ++ ev₂⟩
    | ⟨.ok none, s₂, ev₂⟩ => ⟨.ok ⟨addr, none⟩, s₂, ev₁ ++ ev₂⟩
    | ⟨.ok (some lifted), s₂, ev₂⟩ =>
      match l.line s₂ data addr with
      | ⟨.error e, s₃, ev₃⟩ => ⟨.error e, s₃, ev₁ ++ ev₂ ++ ev₃⟩
      | ⟨.ok none, s₃, ev₃⟩ => ⟨.ok ⟨addr, none⟩, s₃, ev₁ ++ ev₂ ++ ev₃⟩
      | ⟨.ok (some line), s₃, ev₃⟩ => ⟨.ok ⟨addr, some (info, line, lifted)⟩, s₃, ev₁ ++ ev₂ ++ ev₃⟩

/-- Visits address after address, at most `steps` of them, until the bytes are used up. -/
def walkSteps (l : Lifter) : Nat → Store → List Int → Int → Outcome QueryError (List WalkLine)
  | 0, s, _, _ => ⟨.ok [], s, []⟩
  | _ + 1, s, [], _ => ⟨.ok [], s, []⟩
  | steps + 1, s, data, addr =>
    match l.visit s data addr with
    | ⟨.error e, s₁, ev₁⟩ => ⟨.error e, s₁, ev₁⟩
    | ⟨.ok line, s₁, ev₁⟩ =>
      let advance := line.advance
      let rest := l.walkSteps steps s₁ (data.drop advance) (addr + advance)
      ⟨rest.answer.map (line :: ·), rest.store, ev₁ ++ rest.events⟩

/-- Visits the instructions of a piece of code in order. Each visit uses up at least a byte. -/
def walk (l : Lifter) (s : Store) (data : List Int) (start : Int) : Outcome QueryError (List WalkLine) :=
  l.walkSteps data.length s data start

end Lifter

end Lift166
