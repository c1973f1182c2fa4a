/-
  The Mermaid export of the diagram (`exportMermaid` of erd/mermaid.ts), and a reader of such
  diagrams. Entities are named by what is left of the titles of tables, so that the diagram is
  the graph under other names only where these keep titles apart.

  `exportMermaid_renders_iff` is about all nodes and edges: the text is a diagram of them exactly
  when no title is lost and no two become one.
-/
import PgErdCloud.Canvas.Graph
import PgErdCloud.Lib.Words

namespace PgErdCloud.Canvas

open Lib Lib.PyStr

/-! ## Export -/

/-- A letter of ASCII, a digit, an underscore or a blank. -/
def isKept (ch : Char) : Bool := JsStr.isWordChar ch || ch = ' '

/-- `sanitizeString`: a text without the characters that Mermaid has another use for. -/
def sanitizeString (str : Str) : Str := str.filter isKept

/-- `fkNodeColumnPairs`: an identifier of a node and what follows `src-` or `tgt-` in a
    handle. -/
def fkNodeColumnPairs (edges : List Edge) : List Str :=
  edges.flatMap fun edge =>
    let pair (start id : Str) (handle : Option Str) : List Str :=
      match handle with
      | none => []
      | some handle =>
          if startsWith handle start then [id ++ ":".toList ++ handle.drop 4] else []
    pair "src-".toList edge.source edge.sourceHandle ++
      pair "tgt-".toList edge.target edge.targetHandle

/-- The tables with an edge that begins at no column. -/
def fkNodesWithoutHandles (edges : List Edge) : List Str :=
  (edges.filter fun edge => edge.sourceHandle.getD [] = []).map Edge.source

/-- What follows the name of a column. -/
def mermaidModifiers (edges : List Edge) (node : TableNode) (col : Column) : Str :=
  let safeId := sanitizeHandleId col.columnName
  let isFk := node.id ++ ":".toList ++ safeId ∈ fkNodeColumnPairs edges ∨
    node.id ∈ fkNodesWithoutHandles edges ∧ node.badges.fk = true
  (if col.isPk then " PK".toList else []) ++ if isFk ∧ col.isPk = false then " FK".toList else []

/-- The line of a column. -/
def mermaidColumn (edges : List Edge) (node : TableNode) (col : Column) : Str :=
  "    ".toList ++ JsStr.replaceOthers JsStr.isWordChar '_' col.dataType ++ " ".toList ++
    sanitizeString col.columnName ++ mermaidModifiers edges node col ++ "\n".toList

/-- The lines of a table. -/
def mermaidEntity (edges : List Edge) (node : TableNode) : Str :=
  "  \"".toList ++ sanitizeString node.title ++ "\" \x7b\n".toList ++
    node.columns.flatMap (mermaidColumn edges node) ++ "  \x7d\n".toList

/-- The line of an edge between tables that are there. -/
def mermaidRelation (nodes : List TableNode) (edge : Edge) : Str :=
  match nodeById nodes edge.source, nodeById nodes edge.target with
  | some sourceNode, some targetNode =>
      "  \"".toList ++ sanitizeString targetNode.title ++ "\" ||--o\x7b \"".toList ++
        sanitizeString sourceNode.title ++ "\" : \"".toList ++
        sanitizeString (JsStr.orElse (edge.label.getD []) "rel".toList) ++ "\"\n".toList
  | _, _ => []

/-- `exportMermaid` -/
def exportMermaid (nodes : List TableNode) (edges : List Edge) : Str :=
  "erDiagram\n".toList ++
    if nodes = [] then []
    else nodes.flatMap (mermaidEntity edges) ++ edges.flatMap (mermaidRelation nodes)

/-! ## Diagrams -/

/-- The names of the entities, in the order of their blocks, and for each relationship the
    names of the entities it joins. -/
structure Diagram where
  entities : List Str
  relations : List (Str × Str)
  deriving DecidableEq

/-- The graph, with tables named by their titles. -/
def titleDiagram (nodes : List TableNode) (edges : List Edge) : Diagram where
  entities := nodes.map TableNode.title
  relations := edges.filterMap fun edge =>
    match nodeById nodes edge.source, nodeById nodes edge.target with
    | some sourceNode, some targetNode => some (targetNode.title, sourceNode.title)
    | _, _ => none

/-- The diagram with other names. -/
def Diagram.rename (name : Str → Str) (d : Diagram) : Diagram :=
  ⟨d.entities.map name, d.relations.map fun pair => (name pair.1, name pair.2)⟩

/-! ## Reading -/

/-- A line of a diagram. -/
inductive Statement
  | entity (name : Str)
  | field (text : Str)
  | close
  | relation (target source label : Str)

/-- The text between quotes, and what stands behind them. -/
def readQuoted (s : Str) : Option (Str × Str) := (dropStart ['"'] s).bind (cutAt ['"'])

/-- A relationship, from behind its first entity. -/
def readRelation (target rest : Str) : Option Statement := do
  let (source, rest) ← (dropStart " ||--o\x7b ".toList rest).bind readQuoted
  let (label, rest) ← (dropStart " : ".toList rest).bind readQuoted
  if rest = [] then some (.relation target source label) else none

/-- What a line says to Mermaid. -/
def readStatement (line : Str) : Option Statement :=
  if line = "  \x7d".toList then some .close
  else if "    ".toList.isPrefixOf line then some (.field (line.drop 4))
  else do
    let (name, rest) ← (dropStart "  ".toList line).bind readQuoted
    if rest = " \x7b".toList then some (.entity name) else readRelation name rest

/-- The statements of a diagram; whether the block of an entity is open. -/
def readStatements : Bool → List Str → Option Diagram
  | false, [] => some ⟨[], []⟩
  | true, [] => none
  | inBlock, line :: lines =>
      match inBlock, readStatement line with
      | false, some (.entity name) =>
          (readStatements true lines).map fun d => ⟨name :: d.entities, d.relations⟩
      | true, some (.field _) => readStatements true lines
      | true, some .close => readStatements false lines
      | false, some (.relation target source _) =>
          (readStatements false lines).map fun d => ⟨d.entities, (target, source) :: d.relations⟩
      | _, _ => none

/-- The lines of a text that are ended. -/
def linesOf (text : Str) : List Str := (split '\n' text).dropLast

/-- A diagram is a heading and statements, each on a line that is ended. -/
def readDiagram (text : Str) : Option Diagram :=
  match linesOf text with
  | heading :: lines => if heading = "erDiagram".toList then readStatements false lines else none
  | [] => none

/-! ## Names -/

/-- Neither a quote nor a line break is kept. -/
theorem not_mem_sanitizeString {str : Str} {ch : Char} (h : isKept ch = false) :
    ch ∉ sanitizeString str := by
  intro hmem
  rw [(List.mem_filter.mp hmem).2] at h
  exact absurd h nofun

theorem quote_not_mem (str : Str) : '"' ∉ sanitizeString str := not_mem_sanitizeString (by decide)

theorem feed_not_mem (str : Str) : '\n' ∉ sanitizeString str := not_mem_sanitizeString (by decide)

theorem feed_not_mem_replaceOthers (str : Str) :
    '\n' ∉ JsStr.replaceOthers JsStr.isWordChar '_' str := by
  intro hmem
  obtain ⟨ch, -, hmem⟩ := List.mem_flatMap.mp hmem
  split_ifs at hmem with hword
  · rw [← List.mem_singleton.mp hmem] at hword
    exact absurd hword (by decide)
  · exact absurd (List.eq_of_mem_replicate hmem) (by decide)

/-! ## Reading what was exported -/

theorem linesOf_append {line : Str} (rest : Str) (h : '\n' ∉ line) :
    linesOf (line ++ '\n' :: rest) = line :: linesOf rest := by
  have hsplit : split '\n' (line ++ '\n' :: rest) = line :: split '\n' rest :=
    List.splitOn_append_cons_self_of_not_mem h rest
  have hne : split '\n' rest ≠ [] := List.splitOn_ne_nil _ _
  rw [linesOf, hsplit, List.dropLast_cons_of_ne_nil hne, linesOf]

theorem readQuoted_append {name : Str} (rest : Str) (h : '"' ∉ name) :
    readQuoted (['"'] ++ (name ++ '"' :: rest)) = some (name, rest) := by
  rw [readQuoted, dropStart_append, Option.bind_some, cutAt_char_append rest h]

theorem readStatement_quoted {name : Str} (rest : Str) (h : '"' ∉ name) :
    readStatement ("  ".toList ++ (['"'] ++ (name ++ '"' :: rest))) =
      if rest = " \x7b".toList then some (.entity name) else readRelation name rest := by
  have hclose : "  ".toList ++ (['"'] ++ (name ++ '"' :: rest)) ≠ "  \x7d".toList :=
    fun he => by simp at he
  have hindented : ¬ "    ".toList.isPrefixOf
      ("  ".toList ++ (['"'] ++ (name ++ '"' :: rest))) = true := by
    simp
  rw [readStatement, if_neg hclose, if_neg hindented, dropStart_append, Option.bind_some,
    readQuoted_append rest h]
  rfl

theorem readRelation_append (target : Str) {source label : Str} (hsource : '"' ∉ source)
    (hlabel : '"' ∉ label) :
    readRelation target (" ||--o\x7b ".toList ++ (['"'] ++ (source ++ '"' ::
      (" : ".toList ++ (['"'] ++ (label ++ ['"'])))))) = some (.relation target source label) := by
  have hfirst := readQuoted_append (" : ".toList ++ (['"'] ++ (label ++ ['"']))) hsource
  have hsecond := readQuoted_append [] hlabel
  rw [readRelation, dropStart_append, Option.bind_some, hfirst, Option.bind_eq_bind,
    Option.bind_some]
  dsimp only
  rw [dropStart_append, Option.bind_some, hsecond, Option.bind_some]
  rfl

theorem readStatement_field (text : Str) :
    readStatement ("    ".toList ++ text) = some (.field text) := by
  have hclose : "    ".toList ++ text ≠ "  \x7d".toList := fun he => by simp at he
  have hindented : "    ".toList.isPrefixOf ("    ".toList ++ text) = true :=
    List.isPrefixOf_iff_prefix.mpr (List.prefix_append _ text)
  rw [readStatement, if_neg hclose, if_pos hindented]
  rfl

variable {line name text : Str} {lines : List Str}

theorem readStatements_of_entity (h : readStatement line = some (.entity name)) :
    readStatements false (line :: lines) =
      (readStatements true lines).map fun d => ⟨name :: d.entities, d.relations⟩ := by
  simp only [readStatements, h]

theorem readStatements_of_field (h : readStatement line = some (.field text)) :
    readStatements true (line :: lines) = readStatements true lines := by
  simp only [readStatements, h]

theorem readStatements_of_relation {target source label : Str}
    (h : readStatement line = some (.relation target source label)) :
    readStatements false (line :: lines) =
      (readStatements false lines).map fun d => ⟨d.entities, (target, source) :: d.relations⟩ := by
  simp only [readStatements, h]

/-- The line of a column is one field. -/
theorem readStatements_mermaidColumn (edges : List Edge) (node : TableNode) (col : Column)
    (rest : Str) : readStatements true (linesOf (mermaidColumn edges node col ++ rest)) =
      readStatements true (linesOf rest) := by
  have hmodifiers : '\n' ∉ mermaidModifiers edges node col := by
    rw [mermaidModifiers, List.mem_append, not_or]
    constructor <;> split_ifs <;> decide
  set fieldText := JsStr.replaceOthers JsStr.isWordChar '_' col.dataType ++ (' ' ::
    (sanitizeString col.columnName ++ mermaidModifiers edges node col)) with hfield
  have hfeed : '\n' ∉ "    ".toList ++ fieldText := by
    simp [hfield, feed_not_mem_replaceOthers, feed_not_mem, hmodifiers]
  have hsplit : mermaidColumn edges node col ++ rest =
      ("    ".toList ++ fieldText) ++ '\n' :: rest := by
    have hline : mermaidColumn edges node col =
        "    ".toList ++ JsStr.replaceOthers JsStr.isWordChar '_' col.dataType ++ " ".toList ++
          sanitizeString col.columnName ++ mermaidModifiers edges node col ++ "\n".toList := rfl
    rw [hline, hfield]
    simp
  rw [hsplit, linesOf_append _ hfeed, readStatements_of_field (readStatement_field _)]

theorem readStatements_mermaidColumns (edges : List Edge) (node : TableNode)
    (columns : List Column) (rest : Str) :
    readStatements true (linesOf (columns.flatMap (mermaidColumn edges node) ++ rest)) =
      readStatements true (linesOf rest) := by
  induction columns with
  | nil => rfl
  | cons col columns ih =>
      rw [List.flatMap_cons, List.append_assoc, readStatements_mermaidColumn, ih]

theorem readStatements_mermaidEntity (edges : List Edge) (node : TableNode) (rest : Str) :
    readStatements false (linesOf (mermaidEntity edges node ++ rest)) =
      (readStatements false (linesOf rest)).map fun d =>
        ⟨sanitizeString node.title :: d.entities, d.relations⟩ := by
  have hquote := quote_not_mem node.title
  have hfeed : '\n' ∉ "  ".toList ++ (['"'] ++ (sanitizeString node.title ++
      '"' :: " \x7b".toList)) := by
    simp [feed_not_mem]
  have hsplit : mermaidEntity edges node ++ rest =
      ("  ".toList ++ (['"'] ++ (sanitizeString node.title ++ '"' :: " \x7b".toList))) ++ '\n' ::
        (node.columns.flatMap (mermaidColumn edges node) ++ ("  \x7d".toList ++ '\n' :: rest)) := by
    have hlines : mermaidEntity edges node =
        "  \"".toList ++ sanitizeString node.title ++ "\" \x7b\n".toList ++
          node.columns.flatMap (mermaidColumn edges node) ++ "  \x7d\n".toList := rfl
    rw [hlines]
    simp
  have hclose : readStatements true (linesOf ("  \x7d".toList ++ '\n' :: rest)) =
      readStatements false (linesOf rest) := by
    rw [linesOf_append rest (by decide)]
    rfl
  have hentity := (readStatement_quoted " \x7b".toList hquote).trans (if_pos rfl)
  rw [hsplit, linesOf_append _ hfeed, readStatements_of_entity hentity,
    readStatements_mermaidColumns, hclose]

theorem readStatements_mermaidRelation (nodes : List TableNode) {edge : Edge}
    {source target : TableNode} (hsource : nodeById nodes edge.source = some source)
    (htarget : nodeById nodes edge.target = some target) (rest : Str) :
    readStatements false (linesOf (mermaidRelation nodes edge ++ rest)) =
      (readStatements false (linesOf rest)).map fun d =>
        ⟨d.entities, (sanitizeString target.title, sanitizeString source.title) ::
          d.relations⟩ := by
  set label := sanitizeString (JsStr.orElse (edge.label.getD []) "rel".toList) with hlabel
  set line := " ||--o\x7b ".toList ++ (['"'] ++ (sanitizeString source.title ++ '"' ::
    (" : ".toList ++ (['"'] ++ (label ++ ['"']))))) with hline
  have hfeed : '\n' ∉ "  ".toList ++ (['"'] ++ (sanitizeString target.title ++ '"' :: line)) := by
    simp [hline, hlabel, feed_not_mem]
  have hsplit : mermaidRelation nodes edge ++ rest =
      ("  ".toList ++ (['"'] ++ (sanitizeString target.title ++ '"' :: line))) ++
        '\n' :: rest := by
    simp [mermaidRelation, hsource, htarget, hline, hlabel]
  have hentity : line ≠ " \x7b".toList := fun he => by simp [hline] at he
  have hrelation := (readStatement_quoted line (quote_not_mem target.title)).trans
    ((if_neg hentity).trans (readRelation_append _ (quote_not_mem source.title) (quote_not_mem _)))
  rw [hsplit, linesOf_append _ hfeed, readStatements_of_relation hrelation]

theorem readStatements_mermaidRelations (nodes : List TableNode) (edges : List Edge) :
    readStatements false (linesOf (edges.flatMap (mermaidRelation nodes))) =
      some ⟨[], ((titleDiagram nodes edges).rename sanitizeString).relations⟩ := by
  induction edges with
  | nil => rfl
  | cons edge edges ih =>
      rw [List.flatMap_cons]
      cases hsource : nodeById nodes edge.source with
      | none =>
          have hnone : mermaidRelation nodes edge = [] := by rw [mermaidRelation, hsource]
          rw [hnone, List.nil_append, ih]
          simp [titleDiagram, hsource]
      | some source =>
          cases htarget : nodeById nodes edge.target with
          | none =>
              have hnone : mermaidRelation nodes edge = [] := by
                rw [mermaidRelation, hsource, htarget]
              rw [hnone, List.nil_append, ih]
              simp [titleDiagram, hsource, htarget]
          | some target =>
              rw [readStatements_mermaidRelation nodes hsource htarget, ih]
              simp [titleDiagram, Diagram.rename, hsource, htarget]

theorem readStatements_mermaidEntities (edges : List Edge) (nodes : List TableNode) {rest : Str}
    {d : Diagram} (h : readStatements false (linesOf rest) = some d) :
    readStatements false (linesOf (nodes.flatMap (mermaidEntity edges) ++ rest)) =
      some ⟨nodes.map (fun node => sanitizeString node.title) ++ d.entities, d.relations⟩ := by
  induction nodes with
  | nil => exact h
  | cons node nodes ih =>
      rw [List.flatMap_cons, List.append_assoc, readStatements_mermaidEntity, ih]
      rfl

theorem linesOf_heading (rest : Str) :
    linesOf ("erDiagram\n".toList ++ rest) = "erDiagram".toList :: linesOf rest := by
  have hfeed : '\n' ∉ "erDiagram".toList := by decide
  have hsplit : "erDiagram\n".toList ++ rest = "erDiagram".toList ++ '\n' :: rest := by simp
  rw [hsplit, linesOf_append rest hfeed]

theorem readDiagram_heading (rest : Str) :
    readDiagram ("erDiagram\n".toList ++ rest) = readStatements false (linesOf rest) := by
  unfold readDiagram
  rw [linesOf_heading]
  exact if_pos (Eq.refl _)

/-- **What is exported** is the graph with the titles of tables reduced. -/
theorem readDiagram_exportMermaid (nodes : List TableNode) (edges : List Edge) :
    readDiagram (exportMermaid nodes edges) =
      some ((titleDiagram nodes edges).rename sanitizeString) := by
  have hstatements : readStatements false (linesOf (if nodes = [] then []
      else nodes.flatMap (mermaidEntity edges) ++ edges.flatMap (mermaidRelation nodes))) =
      some ((titleDiagram nodes edges).rename sanitizeString) := by
    split_ifs with hnodes
    · subst hnodes
      have hnone : (titleDiagram [] edges).relations = [] :=
        List.filterMap_eq_nil_iff.mpr fun edge _ => rfl
      rw [Diagram.rename, hnone]
      rfl
    · rw [readStatements_mermaidEntities edges nodes (readStatements_mermaidRelations nodes edges)]
      simp [titleDiagram, Diagram.rename]
  unfold exportMermaid
  exact (readDiagram_heading _).trans hstatements

/-! ## Entities and tables -/

/-- The diagram is the graph under other names: they are not empty, and tell titles apart. -/
def Renders (nodes : List TableNode) (edges : List Edge) (d : Diagram) : Prop :=
  ∃ name : Str → Str,
    (∀ node ∈ nodes, name node.title ≠ []) ∧
    (∀ a ∈ nodes, ∀ b ∈ nodes, name a.title = name b.title → a.title = b.title) ∧
    d = (titleDiagram nodes edges).rename name

theorem mem_of_nodeById {nodes : List TableNode} {id : Str} {node : TableNode}
    (h : nodeById nodes id = some node) : node ∈ nodes :=
  List.mem_reverse.mp (List.mem_of_find?_eq_some h)

theorem mem_titleDiagram_relations {nodes : List TableNode} {edges : List Edge}
    {pair : Str × Str} (h : pair ∈ (titleDiagram nodes edges).relations) :
    ∃ target ∈ nodes, ∃ source ∈ nodes, pair = (target.title, source.title) := by
  obtain ⟨edge, -, h⟩ := List.mem_filterMap.mp h
  cases hsource : nodeById nodes edge.source with
  | none =>
      rw [hsource] at h
      exact absurd h nofun
  | some source =>
      cases htarget : nodeById nodes edge.target with
      | none =>
          rw [hsource, htarget] at h
          exact absurd h nofun
      | some target =>
          rw [hsource, htarget] at h
          exact ⟨target, mem_of_nodeById htarget, source, mem_of_nodeById hsource,
            (Option.some.inj h).symm⟩

/-- Of tables with different titles the diagram has as many entities. -/
theorem Renders.nodup {nodes : List TableNode} {edges : List Edge} {d : Diagram}
    (h : Renders nodes edges d) (htitles : (nodes.map TableNode.title).Nodup) :
    d.entities.Nodup ∧ d.entities.length = nodes.length := by
  obtain ⟨name, -, hinj, rfl⟩ := h
  have hentities : ((titleDiagram nodes edges).rename name).entities =
      (nodes.map TableNode.title).map name := rfl
  rw [hentities]
  refine ⟨List.Nodup.map_on ?_ htitles, by rw [List.length_map, List.length_map]⟩
  intro t ht t' ht' he
  obtain ⟨a, ha, rfl⟩ := List.mem_map.mp ht
  obtain ⟨b, hb, rfl⟩ := List.mem_map.mp ht'
  exact hinj a ha b hb he

/-- Two entities are joined when their tables are. -/
theorem Renders.adjacent {nodes : List TableNode} {edges : List Edge} {d : Diagram}
    (h : Renders nodes edges d) : ∃ name : Str → Str, d.entities = nodes.map (name ·.title) ∧
      ∀ a ∈ nodes, ∀ b ∈ nodes, (name a.title, name b.title) ∈ d.relations ↔
        (a.title, b.title) ∈ (titleDiagram nodes edges).relations := by
  obtain ⟨name, -, hinj, rfl⟩ := h
  refine ⟨name, List.map_map, fun a ha b hb => ?_⟩
  constructor
  · intro hmem
    obtain ⟨pair, hpair, he⟩ := List.mem_map.mp hmem
    obtain ⟨target, htarget, source, hsource, rfl⟩ := mem_titleDiagram_relations hpair
    obtain ⟨hfirst, hsecond⟩ := Prod.mk.inj he
    rw [hinj target htarget a ha hfirst, hinj source hsource b hb hsecond] at hpair
    exact hpair
  · exact fun hmem => List.mem_map.mpr ⟨_, hmem, rfl⟩

/-- **The diagram renders the graph**, so that different tables are different entities, as many as
    there are tables, and two of them are joined when their tables are, exactly when what is left
    of each title is not empty and different titles leave different names. -/
theorem exportMermaid_renders_iff (nodes : List TableNode) (edges : List Edge) :
    (∃ d, readDiagram (exportMermaid nodes edges) = some d ∧ Renders nodes edges d ∧
      ((nodes.map TableNode.title).Nodup →
        d.entities.Nodup ∧ d.entities.length = nodes.length) ∧
      ∃ name : Str → Str, d.entities = nodes.map (name ·.title) ∧
        ∀ a ∈ nodes, ∀ b ∈ nodes, (name a.title, name b.title) ∈ d.relations ↔
          (a.title, b.title) ∈ (titleDiagram nodes edges).relations) ↔
      (∀ node ∈ nodes, sanitizeString node.title ≠ []) ∧
      ∀ a ∈ nodes, ∀ b ∈ nodes, sanitizeString a.title = sanitizeString b.title →
        a.title = b.title := by
  constructor
  · rintro ⟨d, hread, ⟨name, hne, hinj, rfl⟩, -, -⟩
    rw [readDiagram_exportMermaid] at hread
    have hentities := congrArg Diagram.entities (Option.some.inj hread)
    have hname : ∀ node ∈ nodes, sanitizeString node.title = name node.title := by
      refine List.map_inj_left.mp ?_
      simpa [titleDiagram, Diagram.rename] using hentities
    refine ⟨fun node hnode => ?_, fun a ha b hb he => ?_⟩
    · rw [hname node hnode]
      exact hne node hnode
    · rw [hname a ha, hname b hb] at he
      exact hinj a ha b hb he
  · rintro ⟨hne, hinj⟩
    have hrenders : Renders nodes edges ((titleDiagram nodes edges).rename sanitizeString) :=
      ⟨sanitizeString, hne, hinj, rfl⟩
    exact ⟨_, readDiagram_exportMermaid nodes edges, hrenders, hrenders.nodup, hrenders.adjacent⟩

/-! ## Titles without a letter of ASCII -/

/-- Two tables with Korean titles. -/
def koreanTables : List TableNode :=
  [⟨"1".toList, "회원".toList, none, [], [], ⟨false, false⟩⟩,
    ⟨"2".toList, "주문".toList, none, [], [], ⟨false, false⟩⟩]

/-- Both tables are the entity without a name. -/
theorem not_exportMermaid_renders_koreanTables :
    ¬ ∀ nodes edges, ∃ d, readDiagram (exportMermaid nodes edges) = some d ∧
      Renders nodes edges d := by
  intro hall
  obtain ⟨d, hread, name, hne, -, hd⟩ := hall koreanTables []
  have hentities : (readDiagram (exportMermaid koreanTables [])).map Diagram.entities =
      some [[], []] := by decide
  rw [hread, hd] at hentities
  have hnames : name "회원".toList = [] ∧ name "주문".toList = [] := by
    simpa [titleDiagram, Diagram.rename, koreanTables] using hentities
  exact hne _ List.mem_cons_self hnames.1

end PgErdCloud.Canvas
