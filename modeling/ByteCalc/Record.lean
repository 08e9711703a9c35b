import ByteCalc.Chunk.Listing
import ByteCalc.Machine
import ByteCalc.Text.Blank

/-! Log records: what a compilation and a run report about themselves, in rising detail. -/

namespace ByteCalc

/-- How much detail a record belongs to, from the least to the most. -/
inductive Detail where
  | error
  | warn
  | info
  | debug
  | trace
deriving DecidableEq, Repr

namespace Detail

/-- The position of a detail, counted from the least. -/
def rank : Detail → Nat
  | error => 0
  | warn => 1
  | info => 2
  | debug => 3
  | trace => 4

/-- The name written before a record. -/
def label : Detail → String
  | error => "ERROR"
  | warn => "WARN"
  | info => "INFO"
  | debug => "DEBUG"
  | trace => "TRACE"

/-- Whether records of a detail are kept under a limit, which keeps none when it is absent. -/
def within (detail : Detail) (limit : Option Detail) : Bool :=
  match limit with
  | some most => detail.rank ≤ most.rank
  | none => false

end Detail

/-- One record of a log. -/
structure Record where
  /-- The detail the record belongs to. -/
  detail : Detail
  /-- What the record says. -/
  message : String
deriving DecidableEq, Repr

namespace Record

/-- The record of a finished compilation. -/
def compiled (chunk : Chunk) : Record :=
  ⟨.debug, s!"compiled {chunk.code.size} bytes, {chunk.constants.size} constants"⟩

/-- The record of a run that begins. -/
def running (chunk : Chunk) : Record :=
  ⟨.debug, s!"running chunk of {chunk.code.size} bytes, {chunk.constants.size} constants"⟩

/-- The record of a run that has ended, in the state it left. -/
def ended (outcome : Outcome) (last : Machine) : Record :=
  match outcome with
  | .ok value => ⟨.debug, s!"chunk returned {value.toText}"⟩
  | .error error =>
    ⟨.warn, s!"execution aborted at offset {last.cursor}: {error.fault.message}"⟩

end Record

namespace Machine

/-- The values on the stack, the bottom first, each between brackets. -/
def stackText (machine : Machine) : String :=
  machine.stackUp.foldl (fun text value => text ++ "[ " ++ value.toText ++ " ]") "          "

/-- The records of one fetch: the stack, and the instruction under the cursor if there is one. -/
def fetchRecords (machine : Machine) : Array Record :=
  -- The instruction is shown as in a listing, up to the line feed at the end of its row.
  let stack : Record := ⟨.trace, machine.stackText⟩
  if machine.cursor < machine.chunk.code.size then
    let shown := (machine.chunk.row machine.cursor).text ++ "\n"
    #[stack, ⟨.trace, trimBlanksEnd shown⟩]
  else #[stack]

/-- The records of a run that are kept under a limit. -/
def runRecords (limit : Option Detail) (machine : Machine) : Array Record :=
  -- The fetches are described only if somebody reads them.
  let fetched := if Detail.trace.within limit then machine.fetches.flatMap fetchRecords else #[]
  let (outcome, last) := machine.run
  let made := #[.running machine.chunk] ++ fetched ++ #[.ended outcome last]
  made.filter fun record => record.detail.within limit

end Machine

end ByteCalc
