/-
  The table on the canvas (erd/TableNode.tsx): what is rendered of the data of a node, and the
  comparison by which it is not rendered again. Arrays and node data are compared by reference;
  what a reference leads to does not change between the renderings that are compared.

  `tableNode_eq_of_isSameNode` says of every heap that node data which compare as equal are
  rendered alike.
-/
import PgErdCloud.Canvas.Graph

namespace PgErdCloud.Canvas.NodeView

open Lib Lib.PyStr

/-! ## Values -/

/-- A field that may be left out or null. -/
inductive Nullish (α : Type)
  | undefined
  | null
  | value (a : α)
  deriving DecidableEq

/-- `field?.…` -/
def Nullish.toOption {α : Type} : Nullish α → Option α
  | .value a => some a
  | _ => none

/-- A number of JavaScript. Both zeros are one: they are equal and have one text. -/
inductive JsNumber
  | nan
  | infinity (negative : Bool)
  | finite (value : ℚ)
  deriving DecidableEq

/-- An example value, of one of the three types that JSON has for it. -/
inductive Example
  | string (s : Str)
  | number (x : JsNumber)
  | boolean (b : Bool)
  deriving DecidableEq

/-- `a === b`: not a number is not equal to itself. -/
def strictEq (a b : Nullish Example) : Bool := a = b ∧ a ≠ .value (.number .nan)

/-- The identity of an array on the heap. -/
abbrev Ref := Nat

/-- A column as the node shows it. -/
structure Column where
  columnName : Str
  dataType : Str
  isNotNull : Bool
  isPk : Option Bool
  columnComment : Nullish Str
  exampleValue : Nullish Example

/-- The group that a table belongs to. -/
structure BusinessGroup where
  id : Str
  name : Str
  color : Str
  deriving DecidableEq

/-- An index as the node shows it. -/
structure Index where
  indexName : Str
  columns : List Str
  accessMethod : Str

/-- What stands beside a column; a flag may be missing. -/
structure Badges where
  pk : Option Bool
  fk : Option Bool

/-- The data of a node. Its arrays are known by identity. -/
structure TableNodeData where
  title : Str
  comment : Nullish Str
  columns : Ref
  businessGroup : Nullish BusinessGroup
  indexes : Option Ref
  isDimmed : Option Bool
  isHighlighted : Option Bool
  badges : Option Badges

/-- What references lead to. -/
structure Heap where
  data : Ref → TableNodeData
  columns : Ref → List Column
  indexes : Ref → List Index

/-! ## Rendering -/

/-- What React renders: texts, and elements with their attributes. -/
inductive Html
  | text (s : Str)
  | element (tag : String) (attributes : List (String × Str)) (children : List Html)

/-- `MAX_RENDERED_COLUMNS` -/
def maxRenderedColumns : Nat := 25

/-- `BUSINESS_GROUP_COLORS` -/
def businessGroupColors : List Str :=
  ["#047857", "#2563eb", "#b45309", "#7c3aed", "#be123c", "#0f766e"].map String.toList

/-- `normalizeBusinessGroupColor` (erd/businessGroups.ts) -/
def normalizeBusinessGroupColor (color : Str) : Str :=
  if color ∈ businessGroupColors then color else "#047857".toList

/-- What is rendered where the condition holds, or else nothing. -/
def shown (condition : Bool) (html : Html) : List Html := if condition then [html] else []

/-- `AccessibleTruncatedText`: a text that may be cut off, with the whole one in its title. -/
def accessibleTruncatedText (className : String) (text : Str) (title : Option Str)
    (children : Option (List Html)) : Html :=
  let accessibleText := JsStr.trim text
  let children := children.getD [.text text]
  if accessibleText = [] then .element "span" [("className", className.toList)] children
  else
    .element "span"
      [("className", className.toList), ("title", title.getD accessibleText),
        ("aria-label", accessibleText)] children

/-- An end that edges are drawn from or to. -/
def handle (type position : String) (id : Option Str) : Html :=
  .element "Handle"
    ([("type", type.toList), ("position", position.toList)] ++
      (id.map fun id => [("id", id), ("className", "colHandle".toList)]).getD []) []

/-- A letter with its meaning as title. -/
def badge (title label text : String) : Html :=
  .element "abbr"
    [("className", "tableNode__badge".toList), ("title", title.toList),
      ("aria-label", label.toList)]
    [.element "span" [("aria-hidden", "true".toList)] [.text text.toList]]

/-- An optional text that is neither null nor empty. -/
def textComment (className : String) (comment : Nullish Str) : List Html :=
  match comment.toOption with
  | some comment => shown (comment ≠ []) (accessibleTruncatedText className comment none none)
  | none => []

/-- How numbers are written. -/
abbrev NumberText := ℚ → Str

variable (numberText : NumberText)

/-- `String(value)` -/
def Example.text : Example → Str
  | .string s => s
  | .number .nan => "NaN".toList
  | .number (.infinity negative) => (if negative then "-Infinity" else "Infinity").toList
  | .number (.finite value) => numberText value
  | .boolean b => (if b then "true" else "false").toList

/-- `formatExample`: nothing for a value that is blank as a text. -/
def formatExample (value : Nullish Example) : Option Str :=
  value.toOption.bind fun value =>
    let text := JsStr.trim (value.text numberText)
    if text = [] then none else some text

/-- The example of a column, where there is one. -/
def renderExample (value : Nullish Example) : List Html :=
  match formatExample numberText value with
  | some text =>
      [accessibleTruncatedText "tableNode__colExample" ("e.g. ".toList ++ text) none
        (some [.text "e.g. ".toList, .text text])]
  | none => []

/-- The row of a column. -/
def renderColumn (c : Column) : Html :=
  .element "div" [("key", c.columnName), ("className", "tableNode__col".toList)]
    ([handle "target" "left" (some (targetColumnHandleId c.columnName)),
      .element "span" [("className", "tableNode__colIdentity".toList)]
        ([.element "span" [("className", "tableNode__colName".toList)] [.text c.columnName]] ++
          textComment "tableNode__colComment" c.columnComment ++
          renderExample numberText c.exampleValue),
      .element "span" [("className", "tableNode__colType".toList)] [.text c.dataType]] ++
      shown (c.isPk.getD false) (badge "Primary Key" "Primary Key" "PK") ++
      shown c.isNotNull (badge "Not Null" "필수 입력 (Not Null)" "NN") ++
      [handle "source" "right" (some (sourceColumnHandleId c.columnName))])

/-- `… n more`, with what is said of it. -/
def renderMore (hint : String) (count : Nat) (what : String) : Html :=
  .element "div"
    [("className", "tableNode__more".toList), ("title", hint.toList), ("aria-label", hint.toList)]
    [.text "… ".toList, .text (toString count).toList, .text what.toList]

/-- The first rows, and how many more there are. -/
def renderColumns (columns : List Column) : List Html :=
  (columns.take maxRenderedColumns).map (renderColumn numberText) ++
    shown (columns.length > maxRenderedColumns)
      (renderMore "생략된 컬럼이 더 있습니다" (columns.length - maxRenderedColumns) " more")

/-- The row of an index. -/
def renderIndex (index : Index) : Html :=
  .element "div" [("key", index.indexName), ("className", "tableNode__index".toList)]
    [accessibleTruncatedText "tableNode__indexName" index.indexName
        (some ("Access method: ".toList ++ index.accessMethod)) (some [.text index.indexName]),
      accessibleTruncatedText "tableNode__indexCols"
        ("(".toList ++ join ", ".toList index.columns ++ ")".toList) none none]

/-- The list of indexes, where there are some. -/
def renderIndexes (indexes : List Index) : List Html :=
  shown (indexes ≠ [])
    (.element "div"
      [("className", "tableNode__indexes".toList), ("role", "group".toList),
        ("aria-label", "추천 인덱스".toList)]
      ([.element "div" [("className", "tableNode__indexHeading".toList)]
          [.text "Indexes".toList]] ++
        (indexes.take 4).map renderIndex ++
        shown (indexes.length > 4)
          (renderMore "생략된 인덱스가 더 있습니다" (indexes.length - 4) " more indexes")))

/-- The classes of the node. -/
def nodeClassName (data : TableNodeData) : Str :=
  join " ".toList
    (["tableNode".toList,
      if data.businessGroup.toOption.isSome then "tableNode--grouped".toList else [],
      if data.isDimmed.getD false then "tableNode--dimmed".toList else [],
      if data.isHighlighted.getD false then "tableNode--highlighted".toList else []].filter
      (· ≠ []))

/-- The head of the node. -/
def renderTitle (data : TableNodeData) : Html :=
  .element "div" [("className", "tableNode__title".toList)]
    [.element "span" [("className", "tableNode__titleText".toList)]
        ([.element "span" [] [.text data.title]] ++
          textComment "tableNode__titleComment" data.comment),
      .element "span" [("style", "display: inline-flex; gap: 6".toList)]
        ((data.businessGroup.toOption.map fun group =>
            [accessibleTruncatedText "tableNode__groupBadge" group.name none none]).getD [] ++
          shown ((data.badges.bind Badges.pk).getD false)
            (badge "Primary Key" "Primary Key" "PK") ++
          shown ((data.badges.bind Badges.fk).getD false)
            (badge "Foreign Key" "Foreign Key" "FK"))]

/-- `TableNode` -/
def tableNode (heap : Heap) (data : TableNodeData) : Html :=
  .element "div"
    ([("className", nodeClassName data)] ++
      (data.businessGroup.toOption.map fun group =>
        [("--table-group-color", normalizeBusinessGroupColor group.color)]).getD [] ++
      [("role", "region".toList),
        ("aria-label",
          JsStr.orElse (JsStr.trim data.title) "이름 없는".toList ++ " 테이블".toList)])
    [handle "target" "top" none, renderTitle data,
      .element "div" [("className", "tableNode__cols".toList)]
        (renderColumns numberText (heap.columns data.columns) ++
          (data.indexes.map fun indexes => renderIndexes (heap.indexes indexes)).getD []),
      handle "source" "bottom" none]

/-! ## Comparison -/

/-- What the comparison looks at in a column. -/
def isSameColumn (a b : Column) : Bool :=
  a.columnName = b.columnName && a.dataType = b.dataType && a.isNotNull = b.isNotNull &&
    a.isPk = b.isPk && a.columnComment = b.columnComment &&
    strictEq a.exampleValue b.exampleValue

/-- `for (let i = 0; i < limit; i += 1)` -/
def isSameUpTo : Nat → List Column → List Column → Bool
  | limit + 1, a :: as, b :: bs => isSameColumn a b && isSameUpTo limit as bs
  | _, _, _ => true

/-- `isSameRenderedColumns`: the same array, or one with the same columns. -/
def isSameRenderedColumns (heap : Heap) (prev next : Ref) : Bool :=
  prev = next ||
    (let prevCols := heap.columns prev
     let nextCols := heap.columns next
     prevCols.length = nextCols.length &&
       isSameUpTo (min maxRenderedColumns (min prevCols.length nextCols.length))
         prevCols nextCols)

/-- The comparison that `memo` gets. -/
def isSameNode (heap : Heap) (prev next : Ref) : Bool :=
  prev = next ||
    (let a := heap.data prev
     let b := heap.data next
     a.title = b.title && a.comment = b.comment &&
       isSameRenderedColumns heap a.columns b.columns && a.indexes = b.indexes &&
       a.businessGroup.toOption.map BusinessGroup.id =
         b.businessGroup.toOption.map BusinessGroup.id &&
       a.businessGroup.toOption.map BusinessGroup.name =
         b.businessGroup.toOption.map BusinessGroup.name &&
       a.businessGroup.toOption.map BusinessGroup.color =
         b.businessGroup.toOption.map BusinessGroup.color &&
       a.isDimmed = b.isDimmed && a.isHighlighted = b.isHighlighted &&
       a.badges.bind Badges.pk = b.badges.bind Badges.pk &&
       a.badges.bind Badges.fk = b.badges.bind Badges.fk)

/-! ## The same rendering -/

theorem renderColumn_eq {a b : Column} (h : isSameColumn a b = true) :
    renderColumn numberText a = renderColumn numberText b := by
  simp only [isSameColumn, strictEq, Bool.and_eq_true, decide_eq_true_eq] at h
  obtain ⟨⟨⟨⟨⟨hname, htype⟩, hnull⟩, hpk⟩, hcomment⟩, hexample, -⟩ := h
  rw [renderColumn, renderColumn, hname, htype, hnull, hpk, hcomment, hexample]

theorem map_take_eq {limit : Nat} {as bs : List Column} (hlength : as.length = bs.length)
    (h : isSameUpTo limit as bs = true) :
    (as.take limit).map (renderColumn numberText) =
      (bs.take limit).map (renderColumn numberText) := by
  induction limit generalizing as bs with
  | zero => rfl
  | succ limit ih =>
      cases as with
      | nil => rw [List.length_eq_zero_iff.mp hlength.symm]
      | cons a as =>
          cases bs with
          | nil => exact absurd hlength (Nat.succ_ne_zero _)
          | cons b bs =>
              rw [isSameUpTo, Bool.and_eq_true] at h
              rw [List.take_succ_cons, List.take_succ_cons, List.map_cons, List.map_cons,
                renderColumn_eq numberText h.1, ih (Nat.succ.inj hlength) h.2]

theorem renderColumns_eq {heap : Heap} {prev next : Ref}
    (h : isSameRenderedColumns heap prev next = true) :
    renderColumns numberText (heap.columns prev) =
      renderColumns numberText (heap.columns next) := by
  rw [isSameRenderedColumns, Bool.or_eq_true, decide_eq_true_eq] at h
  rcases h with rfl | h
  · rfl
  · simp only [Bool.and_eq_true, decide_eq_true_eq] at h
    obtain ⟨hlength, hsame⟩ := h
    -- the loop ends with the list or behind the last column that is rendered
    have htake (columns : List Column) (hl : columns.length = (heap.columns prev).length) :
        columns.take (min maxRenderedColumns (heap.columns prev).length) =
          columns.take maxRenderedColumns := by
      rw [← hl, ← List.take_take, List.take_length]
    rw [← hlength, Nat.min_self] at hsame
    have hmap := map_take_eq numberText hlength hsame
    rw [htake _ rfl, htake _ hlength.symm] at hmap
    rw [renderColumns, renderColumns, hmap, hlength]

/-- The group is known by its three fields. -/
theorem group_eq {a b : Option BusinessGroup}
    (hid : a.map BusinessGroup.id = b.map BusinessGroup.id)
    (hname : a.map BusinessGroup.name = b.map BusinessGroup.name)
    (hcolor : a.map BusinessGroup.color = b.map BusinessGroup.color) : a = b := by
  cases a with
  | none =>
      cases b with
      | none => rfl
      | some b => exact absurd hid.symm (Option.some_ne_none _)
  | some a =>
      cases b with
      | none => exact absurd hid (Option.some_ne_none _)
      | some b =>
          obtain ⟨id, name, color⟩ := a
          obtain ⟨id', name', color'⟩ := b
          rw [Option.map_some, Option.map_some, Option.some_inj] at hid hname hcolor
          simp only at hid hname hcolor
          rw [hid, hname, hcolor]

/-- **Nodes that the comparison takes for the same are rendered the same.** -/
theorem tableNode_eq_of_isSameNode (heap : Heap) (prev next : Ref)
    (h : isSameNode heap prev next = true) :
    tableNode numberText heap (heap.data prev) = tableNode numberText heap (heap.data next) := by
  rw [isSameNode, Bool.or_eq_true, decide_eq_true_eq] at h
  rcases h with rfl | h
  · rfl
  · simp only [Bool.and_eq_true, decide_eq_true_eq] at h
    obtain ⟨⟨⟨⟨⟨⟨⟨⟨⟨⟨htitle, hcomment⟩, hcolumns⟩, hindexes⟩, hid⟩, hname⟩, hcolor⟩, hdimmed⟩,
      hhighlighted⟩, hpk⟩, hfk⟩ := h
    have hgroup := group_eq hid hname hcolor
    have hclass : nodeClassName (heap.data prev) = nodeClassName (heap.data next) := by
      rw [nodeClassName, nodeClassName, hgroup, hdimmed, hhighlighted]
    have hrendered : renderTitle (heap.data prev) = renderTitle (heap.data next) := by
      rw [renderTitle, renderTitle, htitle, hcomment, hgroup, hpk, hfk]
    rw [tableNode, tableNode, hclass, hrendered, hgroup, htitle, hindexes,
      renderColumns_eq numberText hcolumns]

/-- Two nodes whose fields are the same; their columns are two arrays. -/
def twoNodes : Heap where
  data id := ⟨"public.users".toList, .null, id, .undefined, none, some false, none, none⟩
  columns _ := [⟨"id".toList, "int".toList, true, some true, .undefined,
    .value (.number (.finite 1))⟩]
  indexes _ := []

/-- A number without fraction is written in its digits. -/
def wholeText (value : ℚ) : Str := (toString value.num).toList

theorem tableNode_twoNodes :
    tableNode wholeText twoNodes (twoNodes.data 0) =
      tableNode wholeText twoNodes (twoNodes.data 1) :=
  tableNode_eq_of_isSameNode wholeText twoNodes 0 1 (by decide)

end PgErdCloud.Canvas.NodeView
