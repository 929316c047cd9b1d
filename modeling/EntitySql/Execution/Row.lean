import EntitySql.Json.Basic
import EntitySql.Sql.Join

/-! Result rows. A joined column carries the name of its navigation before the
property; folding a row gathers these columns into an object per navigation.
The split is made at the first separator in a name. A navigation whose columns
are all null found no row to join and becomes null itself; it takes the place of
a column of the same name. -/

namespace EntitySql

/-- The columns of one row, in ascending order of their names. -/
abbrev Row := Members

/-- What comes before and after the first occurrence of two underscores. -/
def splitAtSeparator? : List Char → Option (List Char × List Char)
  | '_' :: '_' :: rest => some ([], rest)
  | [] => none
  | character :: rest =>
      (splitAtSeparator? rest).map fun (before, after) => (character :: before, after)

/-- The navigation and the property in the name of a joined column. -/
def splitColumnName? (name : String) : Option (String × String) :=
  (splitAtSeparator? name.toList).map fun (navigation, property) =>
    (String.ofList navigation, String.ofList property)

namespace Row

def plainColumns (row : Row) : Members :=
  row.filter fun (name, _) => (splitColumnName? name).isNone

/-- The navigations that columns of the row belong to. -/
def navigations (row : Row) : List String :=
  (row.filterMap fun (name, _) => (splitColumnName? name).map (·.1)).eraseDups

def joinedColumns (row : Row) (navigation : String) : Members :=
  Members.ofList (row.filterMap fun (name, value) =>
    match splitColumnName? name with
    | some (owner, property) => if owner = navigation then some (property, value) else none
    | none => none)

def joinedValue (row : Row) (navigation : String) : Json :=
  let columns := row.joinedColumns navigation
  if columns.all (·.2.isNull) then .null else .object columns

def fold (row : Row) : Json :=
  .object (row.navigations.foldl
    (fun members navigation =>
      Members.insert members navigation (row.joinedValue navigation))
    row.plainColumns)

end Row

end EntitySql
