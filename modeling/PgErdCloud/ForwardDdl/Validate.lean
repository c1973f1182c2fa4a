import Mathlib
import PgErdCloud.Lib.PyStr

/-
  `app/pg_introspect/forward_ddl.py`: the gate in front of the forward-apply executor.

  Strings are lists of code points. `findall` is `_WORD_RE.findall` and `tokenize` keeps the
  check that the matches, concatenated, are the text without its whitespace. Digits and letters
  are the ASCII ones: every function below `rejectUnsafeSyntax` only sees ASCII text.
  Python's exceptions are the `error` case, with the source's texts.
-/

namespace PgErdCloud.ForwardDdl

open PgErdCloud.Lib.PyStr

/-- A lexical token, as the source keeps it: its text. -/
abbrev Token := List Char

/-- `(` -/
def lparen : Token := ['(']

/-- `)` -/
def rparen : Token := [')']

/-- `,` -/
def comma : Token := [',']

/-- `.` -/
def dot : Token := ['.']

/-- `ForwardDdlValidationError` -/
structure ForwardDdlValidationError where
  message : String
deriving DecidableEq, Repr

/-- Validated SQL batch accepted by the forward-apply executor. -/
structure ForwardDdlBatch where
  sql : List Char
deriving DecidableEq, Repr

/-- Results of the validator. -/
abbrev Checked (α : Type) := Except ForwardDdlValidationError α

/-- `raise ForwardDdlValidationError(message)` -/
def fail {α : Type} (message : String) : Checked α :=
  .error ⟨message⟩

/-! ## Word lists -/

/-- `_DANGEROUS_KEYWORDS` -/
def dangerousKeywords : List Token :=
  ["ANALYZE", "CALL", "CHECK", "COPY", "DATABASE", "DELETE", "DO", "DROP", "EXECUTE",
    "EXTENSION", "FUNCTION", "DEFAULT", "GRANT", "INSERT", "LISTEN", "LOCK", "MERGE", "NOTIFY",
    "POLICY", "PROCEDURE", "REFRESH", "REVOKE", "ROLE", "RULE", "SCHEMA", "SECURITY", "SELECT",
    "SERVER", "SYSTEM", "TEMP", "TEMPORARY", "TRIGGER", "TRUNCATE", "UNLOGGED", "UPDATE", "USER",
    "VACUUM", "VIEW"].map String.toList

/-- `_TYPE_WORDS` -/
def typeWords : List Token :=
  ["BIGINT", "BOOLEAN", "CHAR", "DATE", "DECIMAL", "DOUBLE", "INTEGER", "JSONB", "NUMERIC",
    "PRECISION", "REAL", "SERIAL", "SMALLINT", "TEXT", "TIME", "TIMESTAMP", "TIMESTAMPTZ", "UUID",
    "VARCHAR", "WITH", "ZONE"].map String.toList

/-- `_CONSTRAINT_WORDS` -/
def constraintWords : List Token :=
  ["CONSTRAINT", "KEY", "NOT", "NULL", "PRIMARY", "REFERENCES", "UNIQUE"].map String.toList

/-- `_CREATE_TABLE_WORDS` -/
def createTableWords : List Token :=
  typeWords ++ constraintWords ++
    ["CREATE", "EXISTS", "IF", "NOT", "TABLE"].map String.toList

/-- `_ALTER_TABLE_WORDS` -/
def alterTableWords : List Token :=
  typeWords ++ constraintWords ++
    ["ADD", "ALTER", "COLUMN", "EXISTS", "IF", "RENAME", "TABLE", "TO"].map String.toList

/-- `_CREATE_INDEX_WORDS` -/
def createIndexWords : List Token :=
  ["BTREE", "CREATE", "EXISTS", "HASH", "IF", "INDEX", "NOT", "ON", "USING"].map String.toList

/-! ## Lexing -/

/-- `[A-Za-z_]` -/
def isWordStart (ch : Char) : Bool :=
  ch.isAlpha || ch == '_'

/-- `[A-Za-z0-9_]` -/
def isWordChar (ch : Char) : Bool :=
  ch.isAlphanum || ch == '_'

/-- `[(),.]` -/
def isPunct (ch : Char) : Bool :=
  ch == '(' || ch == ')' || ch == ',' || ch == '.'

/-- Length of the match of `_WORD_RE` at the start of the text; `0` where it does not match. -/
def wordLen : List Char → Nat
  | [] => 0
  | ch :: rest =>
      if isWordStart ch then 1 + (rest.takeWhile isWordChar).length
      else if ch.isDigit then 1 + (rest.takeWhile Char.isDigit).length
      else if isPunct ch then 1
      else 0

/-- The scan of `findall`: `skip` characters still belong to the last match. -/
def findallFrom : Nat → List Char → List Token
  | _, [] => []
  | skip + 1, _ :: rest => findallFrom skip rest
  | 0, ch :: rest =>
      match wordLen (ch :: rest) with
      | 0 => findallFrom 0 rest
      | n + 1 => (ch :: rest.take n) :: findallFrom n rest

/-- `_WORD_RE.findall(text)`. -/
def findall (text : List Char) : List Token :=
  findallFrom 0 text

/-- `_SNAKE_CASE_RE.fullmatch(token)`. -/
def isSnakeCase : Token → Bool
  | [] => false
  | ch :: rest =>
      (ch.isLower || ch == '_') && rest.all fun c => c.isLower || c.isDigit || c == '_'

/-- The tokens of a statement, if they are all of it but white space. -/
def tokenize (statement : List Char) : Checked (List Token) :=
  let tokens := findall statement
  let rendered := tokens.flatten
  let compact := statement.filter fun ch => !isSpace ch
  if rendered ≠ compact then
    fail "forward DDL contains unsupported punctuation or operators"
  else if tokens = [] then fail "forward DDL statement is empty"
  else .ok tokens

/-- The statements of a script without blank ones. -/
def splitStatements (sql : List Char) : List (List Char) :=
  ((split ';' sql).map strip).filter fun statement => statement ≠ []

/-! ## Token checks -/

/-- A token that is one of the four marks. -/
def isPunctToken (token : Token) : Bool :=
  token = lparen || token = rparen || token = comma || token = dot

/-- `token.isdigit()`. -/
def isDigitToken (token : Token) : Bool :=
  token ≠ [] && token.all Char.isDigit

/-- Texts with anything but ASCII, with comments, or with quotes are refused. -/
def rejectUnsafeSyntax (sql : List Char) : Checked Unit :=
  if !isAscii sql then fail "forward DDL must use ASCII identifiers"
  else if contains "--".toList sql || contains "/*".toList sql || contains "*/".toList sql then
    fail "comments are not allowed in forward DDL"
  else if sql.contains '\'' || sql.contains '"' || sql.contains '$' then
    fail "quoted literals and quoted identifiers are not allowed"
  else .ok ()

/-- A statement with a dangerous keyword is refused. -/
def rejectDangerousKeywords : List Token → Checked Unit
  | [] => .ok ()
  | token :: rest =>
      if isPunctToken token || isDigitToken token then rejectDangerousKeywords rest
      else if upper token ∈ dangerousKeywords then
        fail (String.ofList (upper token) ++ " is not allowed in forward DDL")
      else rejectDangerousKeywords rest

/-- `_matches`: the words at `index`, in any letter case. -/
def matchesAt (tokens : List Token) (index : Nat) (expected : List Token) : Bool :=
  if tokens.length < index + expected.length then false
  else ((tokens.drop index).take expected.length).map upper = expected

/-- The place behind an identifier, which has to be in snake case. -/
def parseIdentifier (tokens : List Token) (index : Nat) (kind : String) : Checked Nat :=
  match tokens[index]? with
  | none => fail ("missing " ++ kind ++ " identifier")
  | some token =>
      if isSnakeCase token then .ok (index + 1)
      else fail (kind ++ " identifier must be unquoted snake_case: " ++ String.ofList token)

/-- The place behind a name with or without a schema. -/
def parseQualifiedName (tokens : List Token) (index : Nat) (kind : String) : Checked Nat := do
  let index ← parseIdentifier tokens index kind
  if tokens[index]? = some dot then parseIdentifier tokens (index + 1) kind
  else .ok index

/-- Every token is a mark, a number, one of the words or an identifier in snake case. -/
def validateAllowedWords (allowed : List Token) (statementKind : String) :
    List Token → Checked Unit
  | [] => .ok ()
  | token :: rest =>
      if isPunctToken token || isDigitToken token then
        validateAllowedWords allowed statementKind rest
      else if upper token ∉ allowed ∧ ¬ isSnakeCase token then
        fail (statementKind ++ " contains unsupported token: " ++ String.ofList token)
      else validateAllowedWords allowed statementKind rest

/-- The depth the loop of `_expect_balanced_parentheses` ends with; it breaks below zero. -/
def balanceFrom : Int → List Token → Int
  | depth, [] => depth
  | depth, token :: rest =>
      if token = lparen then balanceFrom (depth + 1) rest
      else if token = rparen then
        if depth - 1 < 0 then depth - 1 else balanceFrom (depth - 1) rest
      else balanceFrom depth rest

/-- Every parenthesis has its other one. -/
def expectBalancedParentheses (tokens : List Token) : Checked Unit :=
  if balanceFrom 0 tokens ≠ 0 then fail "parentheses are not balanced" else .ok ()

/-- The loop of `_split_top_level_commas`, with its three accumulators. -/
def splitCommasFrom (chunks : List (List Token)) (current : List Token) (depth : Int) :
    List Token → List (List Token)
  | [] => chunks ++ [current]
  | token :: rest =>
      let depth :=
        if token = lparen then depth + 1 else if token = rparen then depth - 1 else depth
      if token = comma ∧ depth = 0 then splitCommasFrom (chunks ++ [current]) [] depth rest
      else splitCommasFrom chunks (current ++ [token]) depth rest

/-- The parts between the commas that stand in no parentheses. -/
def splitTopLevelCommas (tokens : List Token) : List (List Token) :=
  splitCommasFrom [] [] 0 tokens

/-! ## Statements -/

/-- A clause of `CREATE TABLE`: a column or a constraint. -/
def validateTableClause (tokens : List Token) : Checked Unit :=
  match tokens with
  | [] => fail "CREATE TABLE contains an empty clause"
  | token :: _ => do
      let first := upper token
      if first = "CONSTRAINT".toList then
        let _ ← parseIdentifier tokens 1 "constraint"
      else if first = "PRIMARY".toList ∨ first = "UNIQUE".toList then
        return ()
      else if first = "FOREIGN".toList then
        fail (String.ofList first ++ " constraints are not supported")
      else
        let _ ← parseIdentifier tokens 0 "column"

/-- An action of `ALTER TABLE`. -/
def validateAlterTableAction (tokens : List Token) : Checked Unit :=
  match tokens with
  | [] => fail "ALTER TABLE contains an empty action"
  | token :: _ => do
      let first := upper token
      if first = "ADD".toList then
        let index := if tokens[1]?.map upper = some "COLUMN".toList then 2 else 1
        let _ ← parseIdentifier tokens index "column"
      else if first = "RENAME".toList ∧ matchesAt tokens 1 ["COLUMN".toList] then
        let afterOld ← parseIdentifier tokens 2 "column"
        if tokens[afterOld]?.map upper ≠ some "TO".toList then
          fail "RENAME COLUMN must include TO"
        else
          let last ← parseIdentifier tokens (afterOld + 1) "column"
          if last ≠ tokens.length then fail "RENAME COLUMN has trailing tokens" else return ()
      else if first = "RENAME".toList ∧ matchesAt tokens 1 ["TO".toList] then
        let last ← parseIdentifier tokens 2 "table"
        if last ≠ tokens.length then fail "RENAME TO has trailing tokens" else return ()
      else fail "ALTER TABLE allows only ADD COLUMN and RENAME actions"

/-- `IF NOT EXISTS` -/
def ifNotExists : List Token := ["IF", "NOT", "EXISTS"].map String.toList

/-- `IF EXISTS` -/
def ifExists : List Token := ["IF", "EXISTS"].map String.toList

/-- `_validate_create_table` -/
def validateCreateTable (tokens : List Token) : Checked Unit := do
  let start := if matchesAt tokens 2 ifNotExists then 5 else 2
  let index ← parseQualifiedName tokens start "table"
  if tokens[index]? ≠ some lparen then fail "CREATE TABLE must declare columns"
  else
    expectBalancedParentheses (tokens.drop index)
    validateAllowedWords createTableWords "CREATE TABLE" tokens
    (splitTopLevelCommas (tokens.dropLast.drop (index + 1))).forM validateTableClause

/-- `_validate_alter_table` -/
def validateAlterTable (tokens : List Token) : Checked Unit := do
  let start := if matchesAt tokens 2 ifExists then 4 else 2
  let index ← parseQualifiedName tokens start "table"
  if tokens.length ≤ index then fail "ALTER TABLE must include an action"
  else
    validateAllowedWords alterTableWords "ALTER TABLE" tokens
    (splitTopLevelCommas (tokens.drop index)).forM validateAlterTableAction

/-- One column of the list of an index. -/
def validateIndexColumn (column : List Token) : Checked Unit := do
  if column.length ≠ 1 then fail "CREATE INDEX allows only column names"
  else
    let _ ← parseIdentifier column 0 "index column"

/-- `_validate_create_index` -/
def validateCreateIndex (tokens : List Token) : Checked Unit := do
  let start := if matchesAt tokens 2 ifNotExists then 5 else 2
  let onAt ← parseIdentifier tokens start "index"
  if tokens[onAt]?.map upper ≠ some "ON".toList then
    fail "CREATE INDEX must specify ON table"
  else
    let index ← parseQualifiedName tokens (onAt + 1) "table"
    let usesMethod := tokens[index]?.map upper = some "USING".toList
    let method := tokens[index + 1]?.map upper
    if usesMethod ∧ method ≠ some "BTREE".toList ∧ method ≠ some "HASH".toList then
      fail "CREATE INDEX uses an unsupported method"
    else
      let index := if usesMethod then index + 2 else index
      if tokens[index]? ≠ some lparen then fail "CREATE INDEX must list indexed columns"
      else
        expectBalancedParentheses (tokens.drop index)
        validateAllowedWords createIndexWords "CREATE INDEX" tokens
        (splitTopLevelCommas (tokens.dropLast.drop (index + 1))).forM validateIndexColumn

/-- The statement begins with these two words, in any letter case. -/
def beginsWith (tokens : List Token) (first second : String) : Bool :=
  tokens[0]?.map upper = some first.toList && tokens[1]?.map upper = some second.toList

/-- The dispatch of `validate_forward_ddl` on the first two tokens. -/
def validateTokens (tokens : List Token) : Checked Unit :=
  if beginsWith tokens "CREATE" "TABLE" then validateCreateTable tokens
  else if beginsWith tokens "ALTER" "TABLE" then validateAlterTable tokens
  else if beginsWith tokens "CREATE" "INDEX" then validateCreateIndex tokens
  else fail "forward DDL allows only CREATE TABLE, ALTER TABLE, and CREATE INDEX"

/-! ## Rendering -/

/-- One step of `_format_statement`: a blank, unless punctuation forbids it, then the token. -/
def formatStep (sql : List Char) (token : Token) : List Char :=
  if sql ≠ [] ∧ token ≠ rparen ∧ token ≠ comma ∧ token ≠ dot ∧
      sql.getLast? ≠ some '(' ∧ sql.getLast? ≠ some '.' then
    sql ++ ' ' :: token
  else sql ++ token

/-- The tokens of a statement as the batch prints them. -/
def formatStatement (tokens : List Token) : List Char :=
  tokens.foldl formatStep []

/-- The body of the loop of `validate_forward_ddl`. -/
def validateStatement (statement : List Char) : Checked (List Char) := do
  let tokens ← tokenize statement
  rejectDangerousKeywords tokens
  validateTokens tokens
  return formatStatement tokens

/-- How long a script may be. -/
def maxSqlLength : Nat := 262144

/-- How many statements a script may have. -/
def maxStatements : Nat := 25

/-- `validate_forward_ddl` -/
def validateForwardDdl (sql : List Char) : Checked ForwardDdlBatch := do
  if strip sql = [] then fail "forward DDL is empty"
  else if maxSqlLength < sql.length then fail "forward DDL exceeds the maximum size"
  else
    rejectUnsafeSyntax sql
    let statements := splitStatements sql
    if statements = [] then fail "forward DDL is empty"
    else if maxStatements < statements.length then
      fail "forward DDL may contain at most 25 statements"
    else
      let normalized ← statements.mapM validateStatement
      return ⟨join ";\n".toList normalized ++ [';']⟩

example : validateForwardDdl "create TABLE t (id int) ; alter table t add x text;".toList =
    .ok ⟨"create TABLE t (id int);\nalter table t add x text;".toList⟩ := by decide

end PgErdCloud.ForwardDdl
