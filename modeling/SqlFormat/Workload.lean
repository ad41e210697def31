import SqlFormat.Error
import SqlFormat.Format
import SqlFormat.Text.Count

/-!
# A workload

A fixed text that is formatted a number of times, so that the time it takes can be measured.
-/

namespace SqlFormat.Workload

/-- The statements of the text. -/
def statements : List String :=
  ["SELECT a.id, b.name AS label, count(*) FROM a LEFT JOIN b ON a.id = b.a_id " ++
     "WHERE a.x BETWEEN 1 AND 5 AND b.y IN (SELECT y FROM c) GROUP BY a.id, b.name;",
   "INSERT INTO t (a, b, c) VALUES (1, 'one', NULL), (2, 'two', 3.5);",
   "UPDATE t SET a = a + 1, b = coalesce(b, 'x') WHERE id = 7; -- bump",
   "BEGIN SELECT CASE WHEN x > 0 THEN 'pos' ELSE 'neg' END FROM t; END;"]

/-- The text. -/
def text : String :=
  String.join (List.replicate 50 (String.intercalate "\n" statements))

/-- The rounds unless another number is asked for. -/
def defaultRounds : Nat := 2000

/-- The style of the output. -/
def style : Style := { Style.standard with alignColumns := true }

/-- The dialect of the text, unless the name given for it is unknown. -/
def dialectOf : Option String → Except Error Dialect
  | none => .ok .standard
  | some name =>
    match Dialect.ofName? name with
    | some dialect => .ok dialect
    | none => .error (.unknownDialect name)

/-- The bytes of output in one round. -/
def bytesPerRound (dialect : Dialect) : Nat :=
  ((format? dialect style text).map String.utf8ByteSize).getD 0

/-- What is said after a number of rounds. -/
def summary (rounds : Nat) (dialect : Dialect) : String :=
  toString rounds ++ " iterations, " ++ toString (rounds * bytesPerRound dialect) ++
    " bytes of output"

/-- Run the workload: the arguments are the number of rounds and the dialect. -/
def run (args : List String) : Except Error String := do
  let rounds := (args.head?.bind Text.count?).getD defaultRounds
  let dialect ← dialectOf args[1]?
  return summary rounds dialect

end SqlFormat.Workload
