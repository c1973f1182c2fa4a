/-
  Names in generated code (app/spec/orm_codegen.py): identifiers in lower case with underscores,
  and names of classes. What they keep of a name of the database is its words.
-/
import PgErdCloud.Lib.Words

namespace PgErdCloud.Spec.Orm

open Lib.PyStr

/-! ## Characters -/

/-- `[0-9a-zA-Z]` -/
def isAsciiAlnum (ch : Char) : Bool := ch.isAlphanum

/-- `keyword.iskeyword` -/
def pythonKeywords : List Str :=
  ["False", "None", "True", "and", "as", "assert", "async", "await", "break", "class", "continue",
    "def", "del", "elif", "else", "except", "finally", "for", "from", "global", "if", "import",
    "in", "is", "lambda", "nonlocal", "not", "or", "pass", "raise", "return", "try", "while",
    "with", "yield"].map String.toList

/-- `keyword.iskeyword(name)` -/
def isKeyword (name : Str) : Bool := name ∈ pythonKeywords

/-! ## Identifiers -/

/-- `re.sub(r"(?<=[a-z0-9])(?=[A-Z])", "_", s)` -/
def splitCamel : Str → Str
  | [] => []
  | [ch] => [ch]
  | ch :: next :: s =>
      if (ch.isLower || ch.isDigit) && next.isUpper then ch :: '_' :: splitCamel (next :: s)
      else ch :: splitCamel (next :: s)

/-- `name[0].isdigit()`, of a name in ASCII. -/
def startsWithDigit (name : Str) : Bool := name.head?.any Char.isDigit

/-- `_snake_name` -/
def snakeName (value fallback : Str) : Str :=
  let name := replaceOthers isAsciiAlnum '_' false (splitCamel value)
  let name := (stripChars ['_'] name).map Char.toLower
  let name := if name = [] then fallback else name
  let name := if startsWithDigit name then fallback ++ "_".toList ++ name else name
  if isKeyword name then name ++ "_".toList else name

example : snakeName "2FA Enabled".toList "column".toList = "column_2_fa_enabled".toList := by
  decide

/-! ## Classes -/

/-- `p[:1].upper() + p[1:]` -/
def capitalize : Str → Str
  | [] => []
  | ch :: s => ch.toUpper :: s

/-- The parts of a table's name, each with a capital. -/
def camelName (tableName : Str) : Str := (runs isAsciiAlnum tableName).flatMap capitalize

/-- `_class_name` -/
def className (tableName : Str) : Str :=
  let name := camelName tableName
  let name := if name = [] ∨ startsWithDigit name = true then "Table".toList ++ name else name
  if isKeyword name then name ++ "Model".toList else name

example : className "Order items-2".toList = "OrderItems2".toList := by decide

/-! ## Words of identifiers -/

/-- The words of an identifier: the runs of letters and digits of the name, cut before a
    capital behind another letter or a digit, in lower case. -/
def snakeWords (value : Str) : List Str :=
  (runs isAsciiAlnum (splitCamel value)).map fun word => word.map Char.toLower

/-- The words with the fallback, for a name without words, or that begins with a digit. -/
def fullWords (value fallback : Str) : List Str :=
  let words := snakeWords value
  if words = [] then [fallback]
  else if words.head?.any startsWithDigit then fallback :: words else words

theorem map_toLower_join (words : List Str) :
    (join "_".toList words).map Char.toLower =
      join "_".toList (words.map fun word => word.map Char.toLower) := by
  induction words with
  | nil => rfl
  | cons word words ih =>
      cases words with
      | nil => simp
      | cons next words =>
          rw [join_cons_cons, List.map_append, List.map_append, ih]
          exact (join_cons_cons _ _ _ _).symm

theorem snakeWords_ne_nil {value word : Str} (h : word ∈ snakeWords value) : word ≠ [] := by
  obtain ⟨run, hrun, rfl⟩ := List.mem_map.mp h
  simpa using (of_mem_runs hrun).1

/-- **An identifier** is its words with underscores, and one more behind a keyword. -/
theorem snakeName_eq {fallback : Str} (value : Str)
    (hdigit : startsWithDigit fallback = false) :
    snakeName value fallback =
      let name := join "_".toList (fullWords value fallback)
      if isKeyword name then name ++ "_".toList else name := by
  have hsep : isAsciiAlnum '_' = false := by decide
  have hjoin : (stripChars ['_'] (replaceOthers isAsciiAlnum '_' false (splitCamel value))).map
      Char.toLower = join "_".toList (snakeWords value) := by
    have hruns := stripChars_replaceOthers hsep (splitCamel value)
    rw [hruns]
    exact map_toLower_join _
  rw [snakeName, hjoin, fullWords]
  cases hw : snakeWords value with
  | nil => simp [hdigit]
  | cons word words =>
      have hmem : word ∈ snakeWords value := by
        rw [hw]
        exact List.mem_cons_self
      have hword : word ≠ [] := snakeWords_ne_nil hmem
      obtain ⟨ch, rest, rfl⟩ := List.exists_cons_of_ne_nil hword
      have hhead : (join "_".toList ((ch :: rest) :: words)).head? = some ch := by
        cases words with
        | nil => simp
        | cons next words => simp [join_cons_cons]
      have hne : join "_".toList ((ch :: rest) :: words) ≠ [] := by
        intro he
        rw [he] at hhead
        exact absurd hhead (by simp)
      have hstart : startsWithDigit (join "_".toList ((ch :: rest) :: words)) = ch.isDigit := by
        rw [startsWithDigit, hhead, Option.any_some]
      have hfirst : ((ch :: rest) :: words).head?.any startsWithDigit = ch.isDigit := rfl
      simp only [hne, if_false, hstart, List.cons_ne_nil, hfirst]
      cases hch : ch.isDigit with
      | false => simp
      | true =>
          have hcons : fallback ++ "_".toList ++ join "_".toList ((ch :: rest) :: words) =
              join "_".toList (fallback :: (ch :: rest) :: words) := by
            rw [join_cons_cons "_".toList fallback (ch :: rest) words]
            exact List.append_assoc _ _ _
          rw [if_pos rfl, if_pos rfl, hcons]

/-! ## Shapes of names -/

theorem not_isUpper_of_isDigit {ch : Char} (h : ch.isDigit = true) : ¬ ch.isUpper = true := by
  intro hu
  simp only [Char.isUpper, Char.isDigit, Bool.and_eq_true, decide_eq_true_eq,
    UInt32.le_iff_toNat_le, ge_iff_le] at hu h
  exact absurd (hu.1.trans h.2) (by decide)

theorem not_isLower_of_isDigit {ch : Char} (h : ch.isDigit = true) : ¬ ch.isLower = true := by
  intro hl
  simp only [Char.isLower, Char.isDigit, Bool.and_eq_true, decide_eq_true_eq,
    UInt32.le_iff_toNat_le, ge_iff_le] at hl h
  exact absurd (hl.1.trans h.2) (by decide)

theorem isLower_or_isDigit_toLower {ch : Char} (h : isAsciiAlnum ch = true) :
    ch.toLower.isLower = true ∨ ch.toLower.isDigit = true := by
  rcases (Bool.or_eq_true _ _).mp h with halpha | hdigit
  · exact Or.inl ((Char.isLower_toLower_eq_isAlpha ch).trans halpha)
  · rw [Char.toLower_eq_of_not_isUpper (not_isUpper_of_isDigit hdigit)]
    exact Or.inr hdigit

/-- The characters of words. -/
theorem of_mem_snakeWords {value word : Str} (h : word ∈ snakeWords value) :
    word ≠ [] ∧ ∀ ch ∈ word, ch.isLower = true ∨ ch.isDigit = true := by
  obtain ⟨run, hrun, rfl⟩ := List.mem_map.mp h
  obtain ⟨hne, hkeep⟩ := of_mem_runs hrun
  refine ⟨by simpa using hne, ?_⟩
  intro ch hch
  obtain ⟨c, hc, rfl⟩ := List.mem_map.mp hch
  exact isLower_or_isDigit_toLower (hkeep c hc)

theorem of_mem_fullWords {value word : Str} (h : word ∈ fullWords value "column".toList) :
    word ≠ [] ∧ ∀ ch ∈ word, ch.isLower = true ∨ ch.isDigit = true := by
  have hall : ("column".toList.all fun ch => ch.isLower || ch.isDigit) = true := by decide
  have hcolumn : "column".toList ≠ [] ∧
      ∀ ch ∈ "column".toList, ch.isLower = true ∨ ch.isDigit = true :=
    ⟨by decide, fun ch hch => (Bool.or_eq_true _ _).mp (List.all_eq_true.mp hall ch hch)⟩
  rw [fullWords] at h
  split_ifs at h
  · rwa [List.mem_singleton.mp h]
  · rcases List.mem_cons.mp h with rfl | h
    · exact hcolumn
    · exact of_mem_snakeWords h
  · exact of_mem_snakeWords h

theorem fullWords_ne_nil (value fallback : Str) : fullWords value fallback ≠ [] := by
  rw [fullWords]
  split_ifs with hnil
  · exact List.cons_ne_nil _ _
  · exact List.cons_ne_nil _ _
  · exact hnil

theorem head?_join {sep word : Str} {words : List Str} (h : word ≠ []) :
    (join sep (word :: words)).head? = word.head? := by
  obtain ⟨ch, rest, rfl⟩ := List.exists_cons_of_ne_nil h
  cases words with
  | nil => simp
  | cons next words => simp [join_cons_cons]

/-- An identifier of a column begins with a small letter or a digit. -/
theorem exists_head_snakeName (value : Str) :
    ∃ ch rest, snakeName value "column".toList = ch :: rest ∧
      (ch.isLower = true ∨ ch.isDigit = true) := by
  obtain ⟨word, words, hwords⟩ :=
    List.exists_cons_of_ne_nil (fullWords_ne_nil value "column".toList)
  have hword : word ∈ fullWords value "column".toList := by
    rw [hwords]
    exact List.mem_cons_self
  obtain ⟨hne, hchars⟩ := of_mem_fullWords hword
  obtain ⟨ch, rest, rfl⟩ := List.exists_cons_of_ne_nil hne
  have hhead : (join "_".toList (fullWords value "column".toList)).head? = some ch := by
    rw [hwords]
    exact head?_join hne
  obtain ⟨tail, htail⟩ := List.head?_eq_some_iff.mp hhead
  have hch := hchars ch List.mem_cons_self
  rw [snakeName_eq value (by decide), htail]
  by_cases hkeyword : isKeyword (ch :: tail) = true
  · exact ⟨ch, tail ++ "_".toList, by simp [hkeyword], hch⟩
  · exact ⟨ch, tail, by simp [hkeyword], hch⟩

/-- A letter or a digit is a capital in upper case, unless it is a digit there. -/
theorem isUpper_toUpper {ch : Char} (h : isAsciiAlnum ch = true)
    (hdigit : ¬ ch.toUpper.isDigit = true) : ch.toUpper.isUpper = true := by
  rw [Char.isUpper_toUpper_eq_isAlpha]
  rcases (Bool.or_eq_true _ _).mp h with halpha | hd
  · exact halpha
  · rw [Char.toUpper_eq_of_not_isLower (not_isLower_of_isDigit hd)] at hdigit
    exact absurd hd hdigit

/-- **A class** has a capital at its beginning. -/
theorem exists_head_className (tableName : Str) :
    ∃ ch rest, className tableName = ch :: rest ∧ ch.isUpper = true := by
  have hbase : ∃ ch rest,
      (if camelName tableName = [] ∨ startsWithDigit (camelName tableName) = true
      then "Table".toList ++ camelName tableName else camelName tableName) = ch :: rest ∧
      ch.isUpper = true := by
    split_ifs with h
    · exact ⟨'T', "able".toList ++ camelName tableName, rfl, by decide⟩
    · obtain ⟨hne, hdigit⟩ := not_or.mp h
      rw [camelName] at hne hdigit ⊢
      cases hruns : runs isAsciiAlnum tableName with
      | nil => exact absurd (by rw [hruns]; rfl) hne
      | cons run more =>
          have hmem : run ∈ runs isAsciiAlnum tableName := by
            rw [hruns]
            exact List.mem_cons_self
          obtain ⟨hrun, hkeep⟩ := of_mem_runs hmem
          obtain ⟨ch, rest, rfl⟩ := List.exists_cons_of_ne_nil hrun
          rw [hruns] at hdigit
          have hch : ¬ ch.toUpper.isDigit = true := hdigit
          exact ⟨ch.toUpper, rest ++ more.flatMap capitalize, rfl,
            isUpper_toUpper (hkeep ch List.mem_cons_self) hch⟩
  obtain ⟨ch, rest, hname, hupper⟩ := hbase
  rw [className]
  simp only [hname]
  split_ifs
  · exact ⟨ch, rest ++ "Model".toList, rfl, hupper⟩
  · exact ⟨ch, rest, rfl, hupper⟩

end PgErdCloud.Spec.Orm
