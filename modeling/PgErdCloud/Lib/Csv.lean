/-
  Comma-separated values with every field in quotes, and a reader of such texts: records end at
  a line break, fields at a comma, and a quote in a quoted field is doubled. A quote within a
  field that is not quoted, text behind the closing quote and a bare carriage return are errors
  of the reader. RFC 4180 ends a record with a carriage return and a line feed; this reader also
  takes a line feed alone, with which the texts here are written. What was written is read back.
-/
import PgErdCloud.Lib.Words

namespace PgErdCloud.Lib.Csv

open PyStr

/-! ## Writing -/

/-- A field as it is written: always in quotes, with those within doubled. -/
def quoteField (field : Str) : Str :=
  "\"".toList ++ replaceChar '"' "\"\"".toList field ++ "\"".toList

/-- The line of a record. -/
def writeRecord (fields : List Str) : Str := join ",".toList (fields.map quoteField)

/-- The lines of the records. -/
def write (records : List (List Str)) : Str := join "\n".toList (records.map writeRecord)

/-! ## Reading -/

/-- Where the reader is; `quoteSeen` is behind a quote that ends a field or doubles the next. -/
inductive Place
  | recordStart
  | fieldStart
  | bare
  | quoted
  | quoteSeen
  | returnSeen
  deriving DecidableEq

/-- What a character does to the field that has been begun. -/
inductive Move
  | keep (place : Place)
  | skip (place : Place)
  | endField
  | endRecord
  | fail

/-- A character outside of quotes that is no quote. -/
def moveBare (ch : Char) : Move :=
  if ch = ',' then .endField
  else if ch = '\n' then .endRecord
  else if ch = '\r' then .skip .returnSeen
  else .keep .bare

/-- What the reader does with a character. A quote within a bare field, and anything but a separator
    behind a closing quote, is an error. -/
def move (place : Place) (ch : Char) : Move :=
  match place with
  | .quoted => if ch = '"' then .skip .quoteSeen else .keep .quoted
  | .quoteSeen =>
      if ch = '"' then .keep .quoted
      else if ch = ',' ∨ ch = '\n' ∨ ch = '\r' then moveBare ch
      else .fail
  | .returnSeen => if ch = '\n' then .endRecord else .fail
  | .bare => if ch = '"' then .fail else moveBare ch
  | .recordStart | .fieldStart => if ch = '"' then .skip .quoted else moveBare ch

/-- The records of a text, with the field and the record that have been begun. A line break at
    the end of the text begins no record. -/
def readFrom : Place → Str → List Str → Str → Option (List (List Str))
  | .recordStart, _, _, [] => some []
  | .quoted, _, _, [] | .returnSeen, _, _, [] => none
  | _, field, done, [] => some [done ++ [field]]
  | place, field, done, ch :: s =>
      match move place ch with
      | .keep place => readFrom place (field ++ [ch]) done s
      | .skip place => readFrom place field done s
      | .endField => readFrom .fieldStart [] (done ++ [field]) s
      | .endRecord => (readFrom .recordStart [] [] s).map ((done ++ [field]) :: ·)
      | .fail => none

/-- The records of a text. -/
def read (s : Str) : Option (List (List Str)) := readFrom .recordStart [] [] s

example : read "a,\"b \"\"c\"\"\"\r\n,".toList =
    some [["a".toList, "b \"c\"".toList], [[], []]] := by decide

/-! ## Reading what was written -/

theorem readFrom_quoted (text field : Str) (done : List Str) (rest : Str) :
    readFrom .quoted field done (replaceChar '"' "\"\"".toList text ++ '"' :: rest) =
      readFrom .quoteSeen (field ++ text) done rest := by
  induction text generalizing field with
  | nil =>
      rw [List.append_nil]
      rfl
  | cons ch text ih =>
      have hkept := ih (field ++ [ch])
      rw [List.append_assoc, List.singleton_append] at hkept
      rw [replaceChar, List.flatMap_cons, List.append_assoc]
      by_cases hch : ch = '"'
      · subst hch
        exact hkept
      · rw [if_neg hch, List.singleton_append, readFrom, move, if_neg hch]
        exact hkept

theorem readFrom_quoteField {place : Place} (hplace : place = .recordStart ∨ place = .fieldStart)
    (field : Str) (done : List Str) (rest : Str) :
    readFrom place [] done (quoteField field ++ rest) = readFrom .quoteSeen field done rest := by
  have hsplit : quoteField field ++ rest =
      '"' :: (replaceChar '"' "\"\"".toList field ++ '"' :: rest) := by
    simp [quoteField]
  have hquoted := readFrom_quoted field [] done rest
  rw [List.nil_append] at hquoted
  rw [hsplit]
  rcases hplace with rfl | rfl
  · exact hquoted
  · exact hquoted

/-- The fields of a record are read one by one; `finish` is what becomes of the record. -/
theorem readFrom_writeRecord (rest : Str) (finish : List Str → Option (List (List Str)))
    (hfinish : ∀ field done, readFrom .quoteSeen field done rest = finish (done ++ [field]))
    {fields : List Str} (hne : fields ≠ []) {place : Place}
    (hplace : place = .recordStart ∨ place = .fieldStart) (done : List Str) :
    readFrom place [] done (writeRecord fields ++ rest) = finish (done ++ fields) := by
  induction fields generalizing done place with
  | nil => exact absurd rfl hne
  | cons field fields ih =>
      by_cases hfields : fields = []
      · subst hfields
        rw [writeRecord, List.map_singleton, join_singleton, readFrom_quoteField hplace, hfinish]
      · have hmap : fields.map quoteField ≠ [] := by simpa using hfields
        have hcomma (s : Str) : readFrom .quoteSeen field done (",".toList ++ s) =
            readFrom .fieldStart [] (done ++ [field]) s := rfl
        rw [writeRecord, List.map_cons, join_cons_of_ne_nil _ _ hmap, List.append_assoc,
          readFrom_quoteField hplace, List.append_assoc, hcomma]
        rw [← writeRecord, ih hfields (.inr rfl), List.append_assoc, List.singleton_append]

/-- **Reading what was written** gives the records, whatever the texts of their fields. -/
theorem read_write {records : List (List Str)} (h : ∀ record ∈ records, record ≠ []) :
    read (write records) = some records := by
  rw [read, write]
  induction records with
  | nil => rfl
  | cons record records ih =>
      have hne := h record List.mem_cons_self
      have hrest := ih fun r hr => h r (List.mem_cons_of_mem _ hr)
      by_cases hrecords : records = []
      · subst hrecords
        rw [List.map_singleton, join_singleton, ← List.append_nil (writeRecord record)]
        exact readFrom_writeRecord [] (fun record => some [record]) (fun _ _ => rfl) hne
          (.inl rfl) []
      · have hmap : records.map writeRecord ≠ [] := by simpa using hrecords
        rw [List.map_cons, join_cons_of_ne_nil _ _ hmap]
        refine (readFrom_writeRecord ("\n".toList ++ join "\n".toList (records.map writeRecord))
          (fun record => (some records).map (record :: ·)) (fun field done => ?_) hne (.inl rfl)
          []).trans rfl
        rw [← hrest]
        rfl

end PgErdCloud.Lib.Csv
