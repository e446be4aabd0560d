import ClauseExchange.Clause
import ClauseExchange.Report
import ClauseExchange.Statistics

/-!
# The result of a portfolio

What a portfolio of workers concluded, with the statistics of every worker, and the summary of it
for a reader. Totals that do not fit a word are a fault.
-/

namespace ClauseExchange

/-- The result of a portfolio run. -/
structure PortfolioResult where
  /-- The verdict of the winner. -/
  verdict : Verdict := .unknown
  /-- The signature of the winner. -/
  winner? : Option Signature := none
  /-- The winning engine's assignment. -/
  model? : Option (List Literal) := none
  /-- The statistics of all workers, by their numbers. -/
  statistics : List WorkerStatistics := []
  /-- How long the run took. -/
  elapsed : Duration := {}
  deriving Repr, Inhabited

namespace PortfolioResult

/-- The total of a counter over all workers. -/
def total (r : PortfolioResult) (counter : WorkerStatistics → Nat) : Except Fault Nat :=
  Word.sum (r.statistics.map counter)

/-- The conflicts of all engines. -/
def totalConflicts (r : PortfolioResult) : Except Fault Nat := r.total (·.engine.conflicts)

/-- The imported clauses of all workers. -/
def totalImported (r : PortfolioResult) : Except Fault Nat := r.total (·.importedClauses)

/-- The exported clauses of all workers. -/
def totalExported (r : PortfolioResult) : Except Fault Nat := r.total (·.exportedClauses)

/-- A text padded on the left with blanks to a width. -/
def padded (width : Nat) (text : String) : String := "".pushn ' ' (width - text.length) ++ text

/-- A number padded on the left with blanks to a width. -/
def column (width n : Nat) : String := padded width (toString n)

/-- The two lines about one worker. -/
def workerLines (s : WorkerStatistics) : List String :=
  [ "  worker " ++ column 2 s.worker ++ ": " ++ s.verdict.text
      ++ " periods " ++ column 6 s.periods ++ " len " ++ column 9 s.periodLength
      ++ " conflicts " ++ column 9 s.engine.conflicts
      ++ " exported " ++ column 7 s.exportedClauses
      ++ " imported " ++ column 8 s.importedClauses
      ++ " forced " ++ column 4 s.forcedApplications
      ++ " wait " ++ padded 5 (Decimal.fixed 1 (s.waitingRatio * 100.0)) ++ "%",
    "             literals " ++ toString s.exportedLiterals
      ++ " rate " ++ Decimal.fixed 0 s.conflictRate ++ " conflicts/s | "
      ++ " ".intercalate (s.times.toList.map fun (p, t) => p.text ++ " " ++ t.text) ]

/-- The lines of the summary. -/
def summaryLines (r : PortfolioResult) : Except Fault (List String) := do
  let conflicts ← r.totalConflicts
  let exported ← r.totalExported
  let literals ← r.total (·.exportedLiterals)
  let imported ← r.totalImported
  let winner := r.winner?.toList.map fun w => "Winner: " ++ w.text
  let totals := [s!"Conflicts: {conflicts}", s!"Exported clauses: {exported}",
    s!"Exported literals: {literals}", s!"Imported clauses: {imported}"]
  return [s!"Workers: {r.statistics.length}", "Time: " ++ r.elapsed.text] ++ winner ++ totals
    ++ r.statistics.flatMap workerLines

/-- The summary, every line ended. -/
def summary (r : PortfolioResult) : Except Fault String :=
  r.summaryLines.map fun lines => String.join (lines.map (· ++ "\n"))

end PortfolioResult

end ClauseExchange
