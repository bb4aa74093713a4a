import SqlCompiler.Dialect
/-!
# Savepoints

Marks inside a transaction, and the way back to them. Names of savepoints are not quoted.
-/

namespace SqlCompiler.Engine

variable (e : Engine)

def supportsSavepoints : Bool :=
  match e.dialect with
  | .generic | .mysql | .postgres | .sqlite | .sqlserver => true

def savepointSql (name : String) : String :=
  match e.dialect with
  | .sqlserver => "SAVE TRANSACTION " ++ name
  | .generic | .mysql | .postgres | .sqlite => "SAVEPOINT " ++ name

def rollbackSql (name : String) : String :=
  match e.dialect with
  | .sqlserver => "ROLLBACK TRANSACTION " ++ name
  | .generic | .mysql | .postgres | .sqlite => "ROLLBACK TO SAVEPOINT " ++ name

end SqlCompiler.Engine
