/-!
# Version

The version that the command line and the web service report.
-/
namespace Tabular

def version : String := "1.0.0"

end Tabular
