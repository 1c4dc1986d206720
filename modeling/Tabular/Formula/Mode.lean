import Tabular.Error

/-!
# Evaluation modes

A formula yields one value per row, or one for the whole dataset.
-/
namespace Tabular.Formula

/-- Whether a formula yields a value per row or one value. -/
inductive Mode
  | rowWise
  | datasetWise
  deriving DecidableEq

namespace Mode

def name : Mode → String
  | rowWise => "row_wise"
  | datasetWise => "dataset_wise"

/-- A name as it is compared: trimmed, in lower case, with underscores for hyphens. -/
def normalize (text : String) : String :=
  Text.replaceChar '-' '_' (Text.lower (Text.trim text))

def parse (text : String) : Except Error Mode :=
  let name := normalize text
  if ["row", "row_wise", "rows"].contains name then .ok .rowWise
  else if ["dataset", "dataset_wise", "scalar"].contains name then .ok .datasetWise
  else .error (.invalid (.unknownMode name))

end Mode
end Tabular.Formula
