import ClauseExchange.Number.Reading
import ClauseExchange.Text.Blank

/-!
# Resident memory from a process status

The operating system describes a process in lines such as `VmRSS:  65536 kB`, the memory that is
resident in kilobytes.
-/

namespace ClauseExchange.Resident

/-- The label of the line with the resident memory. -/
def label : List Char := "VmRSS:".toList

/-- The resident memory in megabytes: the first line with the label must hold a number and then the
unit `kB`. -/
def megabytes? (status : String) : Option Float := do
  let line ← (Blank.lines status.toList).find? label.isPrefixOf
  match Blank.fields (line.drop label.length) with
  | number :: unit :: _ =>
    let kilobytes ← Reading.float? number
    if unit = "kB" then some (kilobytes / 1024.0) else none
  | _ => none

end ClauseExchange.Resident
