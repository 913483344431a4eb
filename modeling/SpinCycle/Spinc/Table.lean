/-
`spinc find`'s output: `Find.Run` fetches the requests the filter selects
and prints them as a table.

# The model

`Find.run` takes what `RMClient.FindRequests` returned and whether the
`CommandRunResult` hook is set, and gives the lines written to the output
or the error returned. The hook, `SqueezeString`, `time.Time.Local().Format`
and the `proto.StateName` map are not among the sources: the hook enters as
a flag (the call it makes is its own business), the other three as a
`Display`. `Run` builds its line format with `fmt.Sprintf` from the column
widths and prints each line with it; `formatLine` is the two together: Go's
`%-ws` pads on the right with spaces to `w` runes and prints a longer
value whole (`padRight`), and a `Lean` `Char` is a rune. The `Debug` print
is output only and is left out.

# Columns

A cell is as wide as its column or as its value, whichever is wider.
`findTimeColLen` is the width of `findTimeFmt`, 23, so a time printed with
a zone abbreviation of four letters or more (`CEST`, `AEST`) is wider and
pushes the rest of its row to the right.
-/
import SpinCycle.Spinc.Run

namespace SpinCycle.Spinc

-- ============================================================ constants

/-- `findReqColLen`. -/
def findReqColLen : Nat := 40

/-- `findIdColLen`. -/
def findIdColLen : Nat := 20

/-- `findUserColLen`. -/
def findUserColLen : Nat := 9

/-- `findStateColLen`. -/
def findStateColLen : Nat := 9

/-- `findJobsColLen`. -/
def findJobsColLen : Nat := 15

/-- `findTimeColLen`: the width of `findTimeFmt`. -/
def findTimeColLen : Nat := findTimeFmt.length

/-- The widths of the eight padded columns of `line`, in order: `ID`,
`REQUEST`, `USER`, `STATE`, `CREATED`, `STARTED`, `FINISHED`, `JOBS`. -/
def findColLens : List Nat :=
  [findIdColLen, findReqColLen, findUserColLen, findStateColLen,
    findTimeColLen, findTimeColLen, findTimeColLen, findJobsColLen]

-- =========================================================== formatting

/-- `fmt`'s `%-ws`: `s` padded on the right with spaces to `w` runes; a
longer `s` is printed whole. -/
def padRight (w : Nat) (s : String) : String := s ++ String.mk (List.replicate (w - s.length) ' ')

/-- The padded cells of a line, each followed by the space `line` puts
after it. -/
def formatCells : List (Nat × String) → String
  | [] => ""
  | (w, s) :: cells => padRight w s ++ " " ++ formatCells cells

/-- `fmt.Fprintf(out, line, cols..., host)`, with `line` the format
`Run` builds: `%-20s %-40s %-9s %-9s %-23s %-23s %-23s %-15s %s` and a
newline. -/
def formatLine (cols : List String) (host : String) : String :=
  formatCells (findColLens.zip cols) ++ host ++ "\n"

-- ============================================================= requests

/-- The fields of `proto.Request` that `Run` prints; `none` stands for a
`nil` `*time.Time`. -/
structure Request (τ : Type) where
  id : String
  type : String
  user : String
  state : UInt8
  createdAt : τ
  startedAt : Option τ
  finishedAt : Option τ
  finishedJobs : Nat
  totalJobs : Nat
  jobRunnerURL : String

/-- What `Run` calls outside the sources to print a request:
`SqueezeString(s, w, ellipsis)`, `t.Local().Format(layout)`, and the
`proto.StateName` map, `none` at a byte it has no entry for. -/
structure Display (τ : Type) where
  squeezeString : String → Nat → String → String
  localFormat : τ → String → String
  stateName : UInt8 → Option String

variable {τ : Type}

/-- The eight padded columns of a request's line, before padding. -/
def Find.cells (P : Proto) (D : Display τ) (r : Request τ) : List String :=
  let state := match D.stateName r.state with
    | some name => name
    | none => (D.stateName (P.state .unknown)).getD ""
  let createdAt := D.localFormat r.createdAt findTimeFmtStr
  let startedAt := match r.startedAt with
    | some t => D.localFormat t findTimeFmtStr
    | none => "N/A"
  let finishedAt := match r.finishedAt with
    | some t => D.localFormat t findTimeFmtStr
    | none => "N/A"
  let jobs := toString r.finishedJobs ++ " / " ++ toString r.totalJobs
  [D.squeezeString r.id findIdColLen "..", D.squeezeString r.type findReqColLen "..",
    D.squeezeString r.user findUserColLen "..", D.squeezeString state findStateColLen "..",
    createdAt, startedAt, finishedAt, D.squeezeString jobs findJobsColLen ".."]

/-- The header's columns. -/
def findHeader : List String :=
  ["ID", "REQUEST", "USER", "STATE", "CREATED", "STARTED", "FINISHED", "JOBS"]

/-- `Find.Run`, from what `FindRequests` returned: its error, or nothing
printed when the hook is set or no request came back, or the header and
a line per request. -/
def Find.run (P : Proto) (D : Display τ) (hook : Bool)
    (found : Except GoError (List (Request τ))) : Except GoError (List String) :=
  match found with
  | .error err => .error err
  | .ok requests =>
      if hook then .ok []
      else if requests.length = 0 then .ok []
      else .ok (formatLine findHeader "HOST" ::
        requests.map fun r => formatLine (Find.cells P D r) r.jobRunnerURL)

end SpinCycle.Spinc
