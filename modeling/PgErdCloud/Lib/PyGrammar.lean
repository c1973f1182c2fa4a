/-
  A part of Python's grammar over lines of tokens: imports, classes, assignments with and without
  annotation, `pass` and expressions. It derives no line with an open bracket, so that a line is a
  statement. Nothing here belongs to one program.
-/
import PgErdCloud.Lib.PyLex

namespace PgErdCloud.Lib.PyGrammar

open PyStr PyLex

variable (isKeyword : Str → Bool)

/-- `a.b.c` -/
def dotted (names : List Str) : List Token :=
  [Token.mark '.'].intercalate (names.map fun name => [Token.name name])

/-- `a, b` -/
def commas (parts : List (List Token)) : List Token := [Token.mark ','].intercalate parts

/-- `name=value` -/
def keywordArg (arg : Str × List Token) : List Token := .name arg.1 :: Token.mark '=' :: arg.2

/-! ## Expressions -/

/-- The expressions that occur: names, constants, string literals, attributes, subscripts, unions,
    calls and dictionaries. -/
inductive Expr : List Token → Prop
  | name {name : Str} (h : isKeyword name = false) : Expr [Token.name name]
  | constant {name : Str} (h : name ∈ ["None", "True", "False"].map String.toList) :
      Expr [Token.name name]
  | str (value : Str) : Expr [.str value]
  | attribute {e : List Token} {name : Str} (he : Expr e) (h : isKeyword name = false) :
      Expr (e ++ [Token.mark '.', Token.name name])
  | subscript {e i : List Token} (he : Expr e) (hi : Expr i) :
      Expr (e ++ [Token.mark '['] ++ i ++ [Token.mark ']'])
  | call {e : List Token} {args : List (List Token)} {keywordArgs : List (Str × List Token)}
      (he : Expr e) (hargs : ∀ arg ∈ args, Expr arg)
      (hnames : ∀ arg ∈ keywordArgs, isKeyword arg.1 = false)
      (hvalues : ∀ arg ∈ keywordArgs, Expr arg.2) :
      Expr (e ++ [Token.mark '('] ++ commas (args ++ keywordArgs.map keywordArg) ++
        [Token.mark ')'])
  | union {a b : List Token} (ha : Expr a) (hb : Expr b) : Expr (a ++ [Token.mark '|'] ++ b)
  | dict {k v : List Token} (hk : Expr k) (hv : Expr v) :
      Expr ([Token.mark '\x7b'] ++ k ++ [Token.mark ':'] ++ v ++ [Token.mark '\x7d'])

/-! ## Statements -/

/-- A path of modules. -/
def IsDotted (names : List Str) : Prop := names ≠ [] ∧ ∀ name ∈ names, isKeyword name = false

/-- The statements on one line: `pass`, expressions, assignments with or without annotation, and
    imports. -/
inductive Simple : List Token → Prop
  | pass : Simple [Token.name "pass".toList]
  | expr {e : List Token} (he : Expr isKeyword e) : Simple e
  | assign {name : Str} {e : List Token} (h : isKeyword name = false) (he : Expr isKeyword e) :
      Simple (.name name :: Token.mark '=' :: e)
  | annotated {name : Str} {t e : List Token} (h : isKeyword name = false)
      (ht : Expr isKeyword t) (he : Expr isKeyword e) :
      Simple (.name name :: Token.mark ':' :: (t ++ [Token.mark '='] ++ e))
  | importModule (path : List Str) (h : IsDotted isKeyword path) :
      Simple (.name "import".toList :: dotted path)
  | importAs (path : List Str) (name : Str) (h : IsDotted isKeyword path)
      (hname : isKeyword name = false) :
      Simple (.name "import".toList :: dotted path ++ [Token.name "as".toList, Token.name name])
  | importFrom (path names : List Str) (h : IsDotted isKeyword path)
      (hnames : IsDotted isKeyword names) :
      Simple (.name "from".toList :: dotted path ++ [Token.name "import".toList] ++
        commas (names.map fun name => [Token.name name]))

/-- The statements of one indentation. A class has an indented block of them. -/
inductive Block : Nat → List Line → Prop
  | nil (indent : Nat) : Block indent []
  | simple {indent : Nat} {line : Line} {rest : List Line} (hindent : line.indent = indent)
      (h : Simple isKeyword line.tokens) (hrest : Block indent rest) : Block indent (line :: rest)
  | classDef {indent inner : Nat} {line : Line} {name : Str} {base : List Token}
      {body rest : List Line} (hindent : line.indent = indent) (hname : isKeyword name = false)
      (hbase : Expr isKeyword base)
      (htokens : line.tokens =
        .name "class".toList :: .name name :: Token.mark '(' ::
          (base ++ [Token.mark ')', Token.mark ':']))
      (hinner : indent < inner) (hne : body ≠ []) (hbody : Block inner body)
      (hrest : Block indent rest) : Block indent (line :: (body ++ rest))

/-- A module; a line without tokens is no statement. -/
def IsModule (lines : List Line) : Prop :=
  Block isKeyword 0 (lines.filter fun line => line.tokens ≠ [])

/-! ## Blocks -/

variable {isKeyword}

theorem Block.append {indent : Nat} {lines rest : List Line} (h : Block isKeyword indent lines)
    (hrest : Block isKeyword indent rest) : Block isKeyword indent (lines ++ rest) := by
  induction h with
  | nil => exact hrest
  | simple hindent h _ ih => exact .simple hindent h (ih hrest)
  | classDef hindent hname hbase htokens hinner hne hbody _ _ ih =>
      rw [List.cons_append, List.append_assoc]
      exact .classDef hindent hname hbase htokens hinner hne hbody (ih hrest)

theorem Block.of_simple {indent : Nat} {lines : List Line}
    (h : ∀ line ∈ lines, line.indent = indent ∧ Simple isKeyword line.tokens) :
    Block isKeyword indent lines := by
  induction lines with
  | nil => exact .nil indent
  | cons line lines ih =>
      rw [List.forall_mem_cons] at h
      exact .simple h.1.1 h.1.2 (ih h.2)

/-! ## Paths -/

theorem dotted_cons_cons (name next : Str) (names : List Str) :
    dotted (name :: next :: names) = .name name :: Token.mark '.' :: dotted (next :: names) := by
  simp [dotted, List.intercalate]

/-- A path is an expression. -/
theorem Expr.of_isDotted {names : List Str} (h : IsDotted isKeyword names) :
    Expr isKeyword (dotted names) := by
  have hall : ∀ (rest : List Str) {e : List Token}, Expr isKeyword e →
      (∀ name ∈ rest, isKeyword name = false) →
        Expr isKeyword (e ++ rest.flatMap fun name => [Token.mark '.', Token.name name]) := by
    intro rest
    induction rest with
    | nil =>
        intro e he _
        rwa [List.flatMap_nil, List.append_nil]
    | cons name rest ih =>
        intro e he hrest
        rw [List.forall_mem_cons] at hrest
        rw [List.flatMap_cons, ← List.append_assoc]
        exact ih (.attribute he hrest.1) hrest.2
  obtain ⟨name, rest, rfl⟩ := List.exists_cons_of_ne_nil h.1
  have hdotted : ∀ name, dotted (name :: rest) =
      [Token.name name] ++ rest.flatMap fun name => [Token.mark '.', Token.name name] := by
    clear h hall
    induction rest with
    | nil => exact fun name => rfl
    | cons next rest ih =>
        intro name
        rw [dotted_cons_cons, ih next]
        rfl
  have hkeyword := List.forall_mem_cons.mp h.2
  rw [hdotted]
  exact hall rest (.name hkeyword.1) hkeyword.2

end PgErdCloud.Lib.PyGrammar
