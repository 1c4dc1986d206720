/-!
# Ceilings

Fixed bounds that keep every call of the engine bounded in time and memory.
-/
namespace Tabular.Limits

/-- Longest formula, in characters. -/
def formulaLength : Nat := 500

def formulaComplexity : Nat := 50

def nestingDepth : Nat := 10

def linearRows : Nat := 100000

/-- Most rows an aggregate scans that sorts or counts frequencies. -/
def sortedRows : Nat := 50000

def amount : Float := 1e15

def sampleSize : Nat := 5

end Tabular.Limits
