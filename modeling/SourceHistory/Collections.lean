import Std.Data.ExtTreeMap
import Std.Data.ExtTreeSet

namespace SourceHistory

/-- Finite sets of strings. Like the maps below they are extensional ordered trees: two with the
same members are equal, and their lists ascend by code points. -/
abbrev NameSet := Std.ExtTreeSet String

abbrev NameMap (α : Type) := Std.ExtTreeMap String α

end SourceHistory
