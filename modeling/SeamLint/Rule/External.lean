import SeamLint.Rule.Shapes

set_option autoImplicit false

/-! # Rules about the outside world

Code that opens files, connections and processes itself cannot be tested without them.
-/

namespace SeamLint.Rule

open SeamLint.Code SeamLint.Surroundings

/-! ## Files -/

/-- Types whose static methods work on files. -/
def fileTypes : List String := ["System.IO.File", "System.IO.Directory"]

/-- Types whose objects work on files. -/
def fileObjects : List String :=
  ["System.IO.FileStream", "System.IO.StreamReader", "System.IO.StreamWriter",
   "System.IO.FileInfo", "System.IO.DirectoryInfo"]

/-- How a node gets at the file system, if it does. -/
def fileAccess? (kind : Kind) (s : Symbol) : Option String :=
  if kind = .invocation then
    if s.isStatic && s.containingType.any fileTypes.contains then some (qualifiedMember s)
    else none
  else
    if s.containingType.any fileObjects.contains then
      some ("new " ++ s.containingTypeName.getD "")
    else none

/-- The facts about `fileSystemAccess`. -/
def fileSystemAccessDescriptor : Descriptor where
  id := "SEAM015"
  title := "Direct file system access"
  template := [.text "Direct file system access via '", .slot 0,
    .text "' creates an infrastructure dependency"]
  category := .infrastructure
  severity := .info
  description := "Direct file system access makes code dependent on the file system and harder to test. Consider injecting an IFileSystem abstraction."

/-- Finds code that works on files directly. -/
def fileSystemAccess : Rule where
  descriptor := fileSystemAccessDescriptor
  kinds := [.invocation, .objectCreation]
  evaluate context n := do
    let some symbol := n.symbol | return none
    let some access := fileAccess? n.kind symbol | return none
    if ← context.excludesTypeOf (some symbol) then return none
    return some (fileSystemAccessDescriptor.found context n.span [textArgument access])

/-! ## HTTP -/

/-- The type of HTTP clients. -/
def httpClientType : String := "System.Net.Http.HttpClient"

/-- The facts about `httpClientCreation`. -/
def httpClientCreationDescriptor : Descriptor where
  id := "SEAM016"
  title := "Direct HttpClient creation"
  template := [.text "Direct HttpClient creation should be avoided in favor of IHttpClientFactory"]
  category := .infrastructure
  severity := .warning
  description := "Creating HttpClient directly can lead to socket exhaustion and makes testing difficult. Use IHttpClientFactory instead."

/-- Finds HTTP clients that are created outside a factory. -/
def httpClientCreation : Rule where
  descriptor := httpClientCreationDescriptor
  kinds := [.objectCreation]
  evaluate context n := do
    if constructedType n != some httpClientType then return none
    let tags ← context.tags n
    if tags.contains .httpClientFactoryClass || tags.contains .staticReadonlyFieldInit then
      return none
    if ← context.excludesTypeOf n.symbol then return none
    return some (httpClientCreationDescriptor.found context n.span [])

/-! ## Databases -/

/-- Types of database connections. -/
def connectionTypes : List String :=
  ["System.Data.SqlClient.SqlConnection", "Microsoft.Data.SqlClient.SqlConnection",
   "System.Data.OleDb.OleDbConnection", "System.Data.Odbc.OdbcConnection",
   "Npgsql.NpgsqlConnection", "MySql.Data.MySqlClient.MySqlConnection",
   "MySqlConnector.MySqlConnection", "Microsoft.Data.Sqlite.SqliteConnection",
   "System.Data.SQLite.SQLiteConnection", "Oracle.ManagedDataAccess.Client.OracleConnection",
   "Oracle.DataAccess.Client.OracleConnection"]

/-- What database connections derive from. -/
def connectionBases : List String :=
  ["System.Data.Common.DbConnection", "System.Data.IDbConnection"]

/-- The described type is a database connection, by its name or its bases. -/
def isConnection (s : Symbol) : Bool :=
  s.containingType.any connectionTypes.contains || connectionBases.any s.derivesFrom

/-- The facts about `databaseAccess`. -/
def databaseAccessDescriptor : Descriptor where
  id := "SEAM017"
  title := "Direct database connection creation"
  template := [.text "Direct creation of '", .slot 0,
    .text "' creates tight coupling to database infrastructure"]
  category := .infrastructure
  severity := .info
  description := "Creating database connections directly makes code tightly coupled to the database and hard to test. Consider using the repository pattern with dependency injection."

/-- Finds database connections that are created outside data access classes. -/
def databaseAccess : Rule where
  descriptor := databaseAccessDescriptor
  kinds := [.objectCreation]
  evaluate context n := do
    let some symbol := n.symbol | return none
    let some typeName := symbol.containingType | return none
    if !isConnection symbol then return none
    if (← context.tags n).contains .dataAccessClass then return none
    if ← context.excludesTypeOf (some symbol) then return none
    return some (databaseAccessDescriptor.found context n.span
      [textArgument (Text.lastName typeName)])

/-! ## Processes -/

/-- The type of processes. -/
def processType : String := "System.Diagnostics.Process"

/-- The type that describes a process to start. -/
def processStartInfoType : String := "System.Diagnostics.ProcessStartInfo"

/-- The method that starts a process. -/
def startMethod : String := "Start"

/-- The created object is started right away. -/
def isStartedAtOnce (context : Context) (n : Node) : Except Stop Bool := do
  let some access ← parentOfKind context.tree .memberAccess n | return false
  if access.name != some startMethod then return false
  return (← parentOfKind context.tree .invocation access).isSome

/-- The node starts a process or prepares one. -/
def startsProcess (context : Context) (n : Node) : Except Stop Bool :=
  if n.kind = .invocation then return isMemberOf n.symbol processType [startMethod]
  else if constructedType n == some processStartInfoType then return true
  else if constructedType n == some processType then isStartedAtOnce context n
  else return false

/-- The facts about `processStart`. -/
def processStartDescriptor : Descriptor where
  id := "SEAM018"
  title := "Direct Process.Start usage"
  template := [.text "Direct Process.Start creates dependency on external processes"]
  category := .infrastructure
  severity := .info
  description := "Calling Process.Start directly creates a dependency on external processes and system state. Consider injecting an IProcessRunner abstraction."

/-- Finds code that starts processes. A process that is started right where it is created is
found twice, once for the creation and once for the call. -/
def processStart : Rule where
  descriptor := processStartDescriptor
  kinds := [.invocation, .objectCreation]
  evaluate context n := do
    if !(← startsProcess context n) then return none
    if ← context.excludesTypeOf n.symbol then return none
    return some (processStartDescriptor.found context n.span [])

end SeamLint.Rule
