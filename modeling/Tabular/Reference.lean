import Tabular.Text.Case

/-!
# Column references

References to columns are written by people and are rarely spelled as the data
spells them. `resolve` tries ever looser matches and always answers with the
data's own spelling.
-/
namespace Tabular

/-- The first column that equals a name when both are in lower case. -/
def findIgnoringCase (name : String) (columns : List String) : Option String :=
  columns.find? fun c => Text.lower c == Text.lower name

/-- The column a spelling means: itself, or one that differs in letter case. -/
def findSpelling (name : String) (columns : List String) : Option String :=
  (columns.find? (· == name)).or (findIgnoringCase name columns)

/-- The column a reference means: as written, else with underscores for spaces,
else with spaces for underscores; each first exactly and then ignoring case. A
blank reference means none. -/
def resolve (reference : String) (columns : List String) : Option String :=
  let name := Text.trim reference
  if name.isEmpty then none
  else
    (findSpelling name columns).or
      ((findSpelling (Text.replaceChar ' ' '_' name) columns).or
        (findSpelling (Text.replaceChar '_' ' ' name) columns))

end Tabular
