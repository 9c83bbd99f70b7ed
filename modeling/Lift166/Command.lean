import Lift166.Journal
import Lift166.Override.Record

/-!
# Commands

What a user does by hand: placing overrides on a selection of code, and keeping the table with the view that is
being looked at. A command asks for the values it needs, one after the other; an answer that is left out cancels
it, and then nothing has changed.
-/

namespace Lift166

/-- A question to the user. -/
structure Prompt where
  /-- The question. -/
  text : String
  /-- The title of the dialogue. -/
  title : String
deriving DecidableEq

/-- What a view keeps under a name. -/
inductive Metadata
  /-- Bytes. -/
  | bytes (data : List UInt8)
  /-- Text, which stands for bytes when each of its characters is one. -/
  | text (data : String)
deriving DecidableEq

/-- The view that is being looked at. -/
structure View where
  /-- What is kept with the view, by name. -/
  metadata : List (String × Metadata)
  /-- How often the view has been analysed anew. -/
  reanalyzed : Nat
deriving DecidableEq

namespace View

/-- A view with nothing kept. -/
def empty : View := ⟨[], 0⟩

/-- What is kept under a name. -/
def get? (v : View) (key : String) : Option Metadata :=
  v.metadata.lookup key

/-- Keeps something under a name. -/
def put (v : View) (key : String) (value : Metadata) : View :=
  { v with metadata := (key, value) :: v.metadata.filter fun kept => kept.1 != key }

/-- Analyses the view anew. -/
def reanalyze (v : View) : View :=
  { v with reanalyzed := v.reanalyzed + 1 }

end View

/-- The instruction slots of a selection: the even addresses of the words it touches. -/
def instructionSlots (start length : Int) : List Int :=
  everySecond (evenFloor start) (start + length)

/-- What a range command leaves behind. -/
structure RangeResult where
  /-- The number of addresses changed. -/
  count : Nat
  /-- The questions asked, in order. -/
  asked : List Prompt
  /-- The store afterwards. -/
  store : Store
  /-- The view afterwards. -/
  view : View
  /-- The events, in order. -/
  events : List Event

/-- The result of a command that was cancelled after the given questions. -/
def RangeResult.cancelled (s : Store) (view : View) (asked : List Prompt) : RangeResult :=
  ⟨0, asked, s, view, []⟩

/-- Places an override at every slot of a list, for the instruction there alone. -/
def Store.placeAlone (s : Store) (overlay : Overlay) (slots : List Int) : Store :=
  slots.foldl (fun s addr => s.put addr ((s.get addr).overlay (byteOf 0) overlay)) s

/-- Places an override at every slot of a selection, and reports each. -/
def applyOverlay (s : Store) (view : View) (start length : Int) (asked : List Prompt) (overlay : Overlay)
    (report : Int → Event) : RangeResult :=
  let slots := instructionSlots start length
  ⟨slots.length, asked, s.placeAlone overlay slots, view.reanalyze, slots.map report⟩

/-- The first answer, if one is given. -/
def firstAnswer (answers : List (Option Int)) : Option Int :=
  match answers with
  | some value :: _ => some value
  | _ => none

/-- Asks for a page and places it on a selection. -/
def applyPage (s : Store) (view : View) (start length : Int) (answers : List (Option Int)) : RangeResult :=
  let asked := [⟨"Page (pag10)", "Apply EXTP"⟩]
  match firstAnswer answers with
  | none => .cancelled s view asked
  | some page => applyOverlay s view start length asked (.page page) (.pageApplied (.ofInt page))

/-- Asks for a segment and places it on a selection. -/
def applySegment (s : Store) (view : View) (start length : Int) (answers : List (Option Int)) : RangeResult :=
  let asked := [⟨"Segment (seg8)", "Apply EXTS"⟩]
  match firstAnswer answers with
  | none => .cancelled s view asked
  | some segment => applyOverlay s view start length asked (.segment segment) (.segmentApplied (.ofInt segment))

/-- Places the extended register bank on a selection. -/
def applyBank (s : Store) (view : View) (start length : Int) : RangeResult :=
  applyOverlay s view start length [] .registerBank .bankApplied

/-- The question for a data page pointer. -/
def dppPrompt (index : Nat) : Prompt :=
  ⟨"DPP" ++ decimal index ++ " page", "Apply DPP"⟩

/-- Asks for data page pointers from `index` on, `count` of them: the questions asked, and the answers unless one
was left out. -/
def askPointers (index : Nat) : Nat → List (Option Int) → List Prompt × Option (List Int)
  | 0, _ => ([], some [])
  | count + 1, some value :: rest =>
    let (asked, values) := askPointers (index + 1) count rest
    (dppPrompt index :: asked, values.map (value :: ·))
  | _ + 1, _ => ([dppPrompt index], none)

/-- Asks for four data page pointers and gives them to a selection. -/
def applyDpp (s : Store) (view : View) (start length : Int) (answers : List (Option Int)) : RangeResult :=
  match askPointers 0 4 answers with
  | (asked, none) => .cancelled s view asked
  | (asked, some values) =>
    match DppVector.ofInts values with
    | .error _ => .cancelled s view asked
    | .ok dpp =>
      let (count, filled) := s.fillDpp dpp (everySecond (evenFloor start) (start + length - 1 + 1))
      ⟨count, asked, filled, view.reanalyze, [.dppApplied dpp count start (start + length)]⟩

/-! ## The table with the view -/

/-- The name under which a view keeps the table. -/
def stateKey : String := "c166_state"

/-- Keeps the table with the view. -/
def saveStateMap (s : Store) (view : View) : Except StoreError (View × List Event) :=
  s.serialize.map fun bytes => (view.put stateKey (.bytes bytes), [.mapSaved s.table.size])

/-- Replaces the table by a saved one and reports its size. -/
def restore (s : Store) (bytes : List UInt8) : Outcome StoreError Unit :=
  match s.tryDeserialize bytes with
  | (.ok (), restored) => ⟨.ok (), restored, [.recordsRead restored.table.size]⟩
  | (.error e, kept) => ⟨.error e, kept, []⟩

/-- Why the kept table cannot be looked at. -/
inductive MetadataError
  /-- A character of the text stands for no byte. -/
  | notLatin1
deriving DecidableEq

/-- The bytes that are kept. -/
def Metadata.toBytes : Metadata → Except MetadataError (List UInt8)
  | bytes data => .ok data
  | text data =>
    if data.toList.all (fun c => c.toNat < 256) then .ok (data.toList.map fun c => UInt8.ofNat c.toNat)
    else .error .notLatin1

/-- What restoring the table leaves behind. -/
structure LoadResult where
  /-- Whether a table was restored. -/
  loaded : Bool
  /-- The store afterwards. -/
  store : Store
  /-- The view afterwards. -/
  view : View
  /-- The events, in order. -/
  events : List Event

/-- Restores the table that the view keeps, if it keeps one. The answer says whether it did, and has the view
afterwards. -/
def tryLoadStateMap (s : Store) (view : View) : Outcome MetadataError (Bool × View) :=
  match view.get? stateKey with
  | none => ⟨.ok (false, view), s, [.mapMissing]⟩
  | some kept =>
    match kept.toBytes with
    | .error e => ⟨.error e, s, []⟩
    | .ok bytes =>
      match restore s bytes with
      | ⟨.error e, store, events⟩ => ⟨.ok (false, view), store, events ++ [.mapRejected e]⟩
      | ⟨.ok (), store, events⟩ =>
        ⟨.ok (true, view.reanalyze), store, events ++ [.mapLoaded store.table.size]⟩

/-- What restoring the table leaves behind, unless the kept table cannot be looked at. -/
def loadStateMap (s : Store) (view : View) : Except MetadataError LoadResult :=
  let outcome := tryLoadStateMap s view
  outcome.answer.map fun (loaded, view) => ⟨loaded, outcome.store, view, outcome.events⟩

/-! ## The menu -/

/-- What a command of the menu works on. -/
inductive CommandScope
  /-- The selection. -/
  | range
  /-- The whole view. -/
  | view
deriving DecidableEq

/-- A host's word for the way such a command is added to its menu. -/
def CommandScope.method : CommandScope → String
  | range => "register_for_range"
  | view => "register"

/-- A command of the menu. -/
structure MenuCommand where
  /-- What it works on. -/
  scope : CommandScope
  /-- Its place in the menu. -/
  menuName : String
  /-- What it does. -/
  description : String
  /-- The name of its action. -/
  action : String
deriving DecidableEq

/-- The menu. -/
def menu : List MenuCommand :=
  [⟨.range, "C166\\Apply EXTP #pag10", "Treat the selected instructions as EXTP-prefixed", "apply_extp"⟩,
    ⟨.range, "C166\\Apply EXTS #seg8", "Treat the selected instructions as EXTS-prefixed", "apply_exts"⟩,
    ⟨.range, "C166\\Apply EXTR", "Treat the selected instructions as EXTR-prefixed", "apply_extr"⟩,
    ⟨.range, "C166\\Apply DPP", "Use custom DPP0..DPP3 values for the selected instructions", "apply_dpp"⟩,
    ⟨.view, "C166\\Save state map", "Store the extension state table in the database", "save_state_map"⟩,
    ⟨.view, "C166\\Load state map", "Restore the extension state table from the database", "load_state_map"⟩]

end Lift166
