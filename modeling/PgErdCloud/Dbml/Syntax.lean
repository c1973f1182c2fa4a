/-
  The parts that the lines of a DBML document are written with: names, the words of a type, what
  stands around the text of a line, and the header of a table with its alias and its settings.
  They follow the grammar of DBML, and nothing here depends on how the parser reads a line.
-/
import PgErdCloud.Dbml.Content

namespace PgErdCloud.Dbml

open Lib Lib.PyStr

variable (chars : Chars)

/-! ## White space -/

/-- Text between the parts of a line, possibly none. -/
def Blank (s : Str) : Prop := ∀ ch ∈ s, ch = ' ' ∨ ch = '\t'

instance (s : Str) : Decidable (Blank s) := inferInstanceAs (Decidable (∀ ch ∈ s, _))

/-- The white space that keeps two words apart. -/
structure Gap where
  text : Str
  blank : Blank text
  ne_nil : text ≠ []

theorem blank_nil : Blank [] := by simp [Blank]

theorem blank_space : Blank " ".toList := by simp [Blank]

theorem blank_twoSpaces : Blank "  ".toList := by simp [Blank]

theorem space_ne_nil : " ".toList ≠ [] := by simp

/-- One blank. -/
def Gap.single : Gap := ⟨" ".toList, blank_space, space_ne_nil⟩

/-! ## Names -/

/-- A name as it is written: a word, or any text in quotes. -/
inductive Ident
  | bare (word : Str)
  | quoted (name : Str)
  deriving DecidableEq

namespace Ident

/-- The name that is meant, without the quotes. -/
def name : Ident → Str
  | bare word => word
  | quoted name => name

/-- The name with its quotes, where it has any. -/
def text : Ident → Str
  | bare word => word
  | quoted name => doubleQuoted name

/-- A word is of letters, digits and underscores; a text in quotes is one line without quotes. -/
def Valid : Ident → Prop
  | bare word => word ≠ [] ∧ ∀ ch ∈ word, chars.isWord ch = true
  | quoted name => name ≠ [] ∧ '"' ∉ name ∧ OneLine name

instance (i : Ident) : Decidable (i.Valid chars) := by
  cases i
  · exact inferInstanceAs (Decidable (_ ∧ _))
  · exact inferInstanceAs (Decidable (_ ∧ _))

end Ident

/-- A table as it is written: `[schema.]name`. -/
structure TableName where
  schema : Option Ident
  table : Ident

namespace TableName

/-- The schema and the table with a dot between them. -/
def text (t : TableName) : Str :=
  (t.schema.elim [] fun schema => schema.text ++ ".".toList) ++ t.table.text

/-- The table that is meant. Its schema is `public` where none is given. -/
def key (t : TableName) : TableKey := (t.schema.elim "public".toList Ident.name, t.table.name)

/-- Both names are well formed. -/
def Valid (t : TableName) : Prop := (∀ schema ∈ t.schema, schema.Valid chars) ∧ t.table.Valid chars

end TableName

/-- One word of a type: `varchar(255)`, `text[]`. -/
structure TypeWord where
  word : Str
  args : Option Str
  isArray : Bool

namespace TypeWord

/-- The word, its arguments in parentheses and the brackets of an array. -/
def text (t : TypeWord) : Str :=
  t.word ++ (t.args.elim [] fun args => "(".toList ++ args ++ ")".toList) ++
    if t.isArray then "[]".toList else []

/-- Arguments are one line without a closing parenthesis. -/
def Valid (t : TypeWord) : Prop :=
  t.word ≠ [] ∧ (∀ ch ∈ t.word, chars.isWord ch = true) ∧
    ∀ args ∈ t.args, ')' ∉ args ∧ OneLine args

end TypeWord

/-! ## Lines -/

/-- What stands around the text of a line: blanks, and a comment at the end. -/
structure Margin where
  indent : Str
  trail : Str
  comment : Option Str
  blank_indent : Blank indent
  blank_trail : Blank trail
  oneLine_comment : ∀ text ∈ comment, OneLine text

namespace Margin

/-- The comment with its slashes. -/
def commentText (m : Margin) : Str := m.comment.elim [] fun text => "//".toList ++ text

/-- The line with a text in this margin. -/
def around (m : Margin) (text : Str) : Str :=
  m.indent ++ (text ++ (m.trail ++ m.commentText))

theorem oneLine_none : ∀ text ∈ (Option.none : Option Str), OneLine text := by simp

/-- A line without anything around its text. -/
def none : Margin := ⟨[], [], .none, blank_nil, blank_nil, oneLine_none⟩

/-- A line that is indented by two. -/
def indented : Margin := ⟨"  ".toList, [], .none, blank_twoSpaces, blank_nil, oneLine_none⟩

end Margin

/-! ## Headers of tables -/

/-- ` as alias`. The keyword may be written in any case. -/
structure Alias (chars : Chars) where
  before : Gap
  keyword : Str
  after : Gap
  name : Ident
  isKeyword : isWordIgnoreCase "as" keyword = true
  valid_name : name.Valid chars

/-- The alias with the keyword and the gaps. -/
def Alias.text {chars : Chars} (a : Alias chars) : Str :=
  a.before.text ++ (a.keyword ++ (a.after.text ++ a.name.text))

/-- ` [headercolor: #3498DB]`: any settings between brackets. -/
structure HeaderSettings where
  gap : Str
  inside : Str
  blank_gap : Blank gap
  oneLine_inside : OneLine inside

/-- The settings with their brackets. -/
def HeaderSettings.text (s : HeaderSettings) : Str :=
  s.gap ++ ('[' :: (s.inside ++ "]".toList))

/-- The brace that opens the body of a table: on the line of the header, or on the next one. -/
inductive Opening
  | here (gap : Str) (blank : Blank gap)
  | next (margin : Margin)

namespace Opening

/-- What the header ends with. -/
def text : Opening → Str
  | here gap _ => gap ++ "\x7b".toList
  | next _ => []

/-- The line behind that of the header. -/
def lines : Opening → List Str
  | here _ _ => []
  | next margin => [margin.around ['\x7b']]

end Opening

/-- `Table [schema.]name [as alias] [settings] {`, in any case of the keyword. -/
structure Header (chars : Chars) where
  keyword : Str
  gap : Gap
  name : TableName
  asName : Option (Alias chars)
  settings : Option HeaderSettings
  opening : Opening
  isKeyword : isWordIgnoreCase "table" keyword = true
  valid_name : name.Valid chars

namespace Header

variable {chars} (h : Header chars)

/-- What stands behind the name of the table. -/
def tail : Str :=
  h.asName.elim [] Alias.text ++ (h.settings.elim [] HeaderSettings.text ++ h.opening.text)

/-- The line of the header without its margin. -/
def text : Str := h.keyword ++ (h.gap.text ++ (h.name.text ++ h.tail))

end Header

end PgErdCloud.Dbml
