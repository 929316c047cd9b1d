import EntitySql.Expr

/-! What can go wrong, by cause, and the message that reports each cause. -/

namespace EntitySql

/-- A place that only takes expressions of certain kinds. -/
inductive Position where
  | predicate
  | value
  | projection
  | orderingComparison
  | aggregateSelector
  | updateExpression
  | updateProjection
  deriving DecidableEq, Repr

/-- What stands at the wrong place: a node, or the null constant. -/
inductive Shape where
  | node (kind : Expr.Kind)
  | nullConstant
  deriving DecidableEq, Repr

inductive Argument where
  | aggregateArgument
  | projectionMembers
  | aggregateSelector
  | updateAssignments
  | updatableField
  | insertableField
  | primaryKeyValue
  | statementText
  deriving DecidableEq, Repr

/-- Why a mapping cannot be used. -/
inductive MappingFault where
  | noTable
  | noFields
  | repeatedField (property : String)
  | unmappedKey (property : String)
  | improperAlias (aliasName : String)
  | improperNavigation (name : String)
  | notAnObject (kind : Json.Kind)
  deriving DecidableEq, Repr

inductive ExecutionFault where
  | unboundParameter (name : String)
  /-- The server refused a statement. -/
  | refused (code : Nat) (state message : String)
  | negativeCount (shown : String)
  | countText (text : String)
  | countShape (shown : String)
  /-- An executor's own report. -/
  | reported (message : String)
  deriving DecidableEq, Repr

inductive ConfigFault where
  | unknownDialect (name : String)
  | noDatabaseUrl
  | malformed
  deriving DecidableEq, Repr

inductive Error where
  | unsupported (shape : Shape) (position : Position)
  | missingArgument (argument : Argument)
  | noMapping (entity : String) (fault : MappingFault)
  | unknownMember (table member : String)
  | noPrimaryKey (table : String)
  | invalidPaging (index size : UInt32)
  /-- A result that the wanted type does not hold. -/
  | undecodable
  /-- The database cannot be reached. -/
  | unreachable
  | execution (fault : ExecutionFault)
  | config (fault : ConfigFault)
  | unreadableFile
  deriving DecidableEq, Repr

/-! The wording. -/

def Position.name : Position → String
  | .predicate => "predicate"
  | .value => "value"
  | .projection => "select"
  | .orderingComparison => "ordering comparison"
  | .aggregateSelector => "aggregate selector"
  | .updateExpression => "update expression"
  | .updateProjection => "update projection"

def Shape.name : Shape → String
  | .node kind => kind.name
  | .nullConstant => "null constant"

def Argument.name : Argument → String
  | .aggregateArgument => "aggregate argument"
  | .projectionMembers => "projection members"
  | .aggregateSelector => "aggregate selector"
  | .updateAssignments => "update assignments"
  | .updatableField => "updatable field"
  | .insertableField => "insertable field"
  | .primaryKeyValue => "primary key value"
  | .statementText => "statement text"

def Json.Kind.phrase : Json.Kind → String
  | .null => "null"
  | .boolean => "a boolean"
  | .number => "a number"
  | .text => "a string"
  | .array => "an array"
  | .object => "an object"

def MappingFault.reason : MappingFault → String
  | .noTable => "no table name"
  | .noFields => "no mapped fields"
  | .repeatedField property => "field '" ++ property ++ "' mapped twice"
  | .unmappedKey property => "key '" ++ property ++ "' is not a mapped field"
  | .improperAlias aliasName => "alias '" ++ aliasName ++ "' is not a plain identifier"
  | .improperNavigation name => "navigation '" ++ name ++ "' is not a plain identifier"
  | .notAnObject kind => "entity serialized to " ++ kind.phrase ++ " instead of an object"

def ExecutionFault.message : ExecutionFault → String
  | .unboundParameter name => "no value bound for parameter '" ++ name ++ "'"
  | .refused code state message =>
      "error returned from database: " ++ toString code ++ " (" ++ state ++ "): " ++ message
  | .negativeCount shown => "count is not a non-negative integer: " ++ shown
  | .countText text => "count is not an integer: " ++ text
  | .countShape shown => "unexpected count value: " ++ shown
  | .reported message => message

/-- The variable that holds the database's address when the configuration does not. -/
def databaseUrlVariable : String := "SQLFORGE_DATABASE_URL"

def ConfigFault.message : ConfigFault → String
  | .unknownDialect name => "unknown dialect '" ++ name ++ "'"
  | .noDatabaseUrl => "database_url is not set (or set " ++ databaseUrlVariable ++ ")"
  | .malformed => "malformed configuration"

def Error.message : Error → String
  | .unsupported shape position =>
      "Unsupported expression shape: " ++ shape.name ++ " is not valid as " ++ position.name
  | .missingArgument argument => "Missing argument: " ++ argument.name
  | .noMapping entity fault => "No entity mapping for '" ++ entity ++ "': " ++ fault.reason
  | .unknownMember table member =>
      "Unknown member '" ++ member ++ "' on entity '" ++ table ++ "'"
  | .noPrimaryKey table => "Entity '" ++ table ++ "' declares no primary key"
  | .invalidPaging index size =>
      "Invalid paging: page index " ++ toString index.toNat ++ ", page size " ++
        toString size.toNat
  | .undecodable => "Serialization error: the value has another type"
  | .unreachable => "Database error: no connection"
  | .execution fault => "Execution error: " ++ fault.message
  | .config fault => "Configuration error: " ++ fault.message
  | .unreadableFile => "IO error: the file cannot be read"

end EntitySql
