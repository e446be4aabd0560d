/-!
# Verdicts

What a search concludes about a formula. Only `satisfiable` and `unsatisfiable` are conclusive;
`unknown` is the answer of a search that stopped early.
-/

namespace ClauseExchange

/-- The answer of one engine, or of a whole portfolio. -/
inductive Verdict
  | satisfiable
  | unsatisfiable
  /-- The search stopped without an answer. -/
  | unknown
  deriving DecidableEq, Repr

namespace Verdict

instance : Inhabited Verdict := ⟨unknown⟩

/-- Whether the verdict settles the formula. -/
def isConclusive : Verdict → Bool
  | unknown => false
  | _ => true

/-- The conventional exit code of a solver that ends with this verdict. -/
def exitCode : Verdict → Nat
  | satisfiable => 10
  | unsatisfiable => 20
  | unknown => 0

/-- The verdict as it is printed on a solution line. -/
def text : Verdict → String
  | satisfiable => "SATISFIABLE"
  | unsatisfiable => "UNSATISFIABLE"
  | unknown => "UNKNOWN"

/-- Two verdicts contradict each other when both are conclusive and they differ. -/
def contradicts (v w : Verdict) : Bool :=
  v.isConclusive && w.isConclusive && v != w

end Verdict

end ClauseExchange
