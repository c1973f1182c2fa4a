/-
  Cancelling the dialog of a table (components/modals/EditTableModal.tsx, App.tsx). The buttons
  that add and delete columns change the copy in the dialog and the node on the canvas; the
  button that cancels drops the copy and leaves the node as it is by then.

  `cancelChangesNothing_iff` is about every canvas and every sequence of edits: a cancelled
  session changes nothing exactly when it took back by itself what it had done.
-/
import PgErdCloud.Canvas.Integrity

namespace PgErdCloud.Canvas

open Lib Lib.PyStr

/-! ## Adding to a list and deleting from it -/

/-- What can be done to the columns in the dialog. -/
inductive ColumnEdit
  | add (now now' : Nat)
  | delete (idx : Nat)

/-- A button of the dialog as an action of the editor. -/
def ColumnEdit.action : ColumnEdit → Action
  | .add now now' => .addColumn now now'
  | .delete idx => .deleteColumn idx

section
variable {α β : Type}

/-- One edit of a list, with elements that are made for the time on the clock. -/
def editList (make : Nat → α) (xs : List α) : ColumnEdit → List α
  | .add now _ => xs ++ [make now]
  | .delete idx => xs.eraseIdx idx

/-- The list after the edits. -/
def replay (make : Nat → α) (edits : List ColumnEdit) (xs : List α) : List α :=
  edits.foldl (editList make) xs

theorem map_replay (f : α → β) (make : Nat → α) (edits : List ColumnEdit) (xs : List α) :
    (replay make edits xs).map f = replay (f ∘ make) edits (xs.map f) := by
  induction edits generalizing xs with
  | nil => rfl
  | cons edit edits ih =>
      have hstep : (editList make xs edit).map f = editList (f ∘ make) (xs.map f) edit := by
        cases edit with
        | add now now' => exact List.map_append
        | delete idx => exact (List.eraseIdx_map f xs idx).symm
      rw [replay, List.foldl_cons]
      exact (ih _).trans (by rw [hstep]; rfl)

/-- Elements of the list, and those that edits put into it. -/
abbrev Tagged (α : Type) := α ⊕ Nat

/-- What is left of the list is in its order. -/
theorem own_replay_sublist (edits : List ColumnEdit) (ts : List (Tagged α)) :
    ((replay Sum.inr edits ts).filterMap Sum.getLeft?).Sublist (ts.filterMap Sum.getLeft?) := by
  induction edits generalizing ts with
  | nil => exact List.Sublist.refl _
  | cons edit edits ih =>
      refine (ih (editList Sum.inr ts edit)).trans ?_
      cases edit with
      | add now now' =>
          rw [editList, List.filterMap_append]
          simp
      | delete idx => exact (List.eraseIdx_sublist ts idx).filterMap _

theorem mem_replay_inr {edits : List ColumnEdit} {ts : List (Tagged α)} {now : Nat}
    (h : .inr now ∈ replay Sum.inr edits ts) :
    .inr now ∈ ts ∨ ∃ now', .add now now' ∈ edits := by
  induction edits generalizing ts with
  | nil => exact Or.inl h
  | cons edit edits ih =>
      rcases ih h with hmem | ⟨now', hadd⟩
      · cases edit with
        | add time time' =>
            rcases List.mem_append.mp hmem with hmem | hmem
            · exact Or.inl hmem
            · obtain rfl : now = time := Sum.inr.inj (List.mem_singleton.mp hmem)
              exact Or.inr ⟨time', List.mem_cons_self⟩
        | delete idx => exact Or.inl (List.mem_of_mem_eraseIdx hmem)
      · exact Or.inr ⟨now', List.mem_cons_of_mem edit hadd⟩

/-- The list after the edits, where each element says where it is from. -/
def tagged (edits : List ColumnEdit) (xs : List α) : List (Tagged α) :=
  replay Sum.inr edits (xs.map Sum.inl)

theorem map_tagged (make : Nat → α) (edits : List ColumnEdit) (xs : List α) :
    (tagged edits xs).map (Sum.elim id make) = replay make edits xs := by
  rw [tagged, map_replay, List.map_map]
  exact congrArg (replay make edits) (List.map_id xs)

end

/-- Of a table with so many columns, the edits leave these and no others: whatever was deleted
    had been added, and whatever was added was deleted. -/
def Restores (edits : List ColumnEdit) (columns : Nat) : Prop :=
  replay (fun _ => false) edits (List.replicate columns true) = List.replicate columns true

instance (edits : List ColumnEdit) (columns : Nat) : Decidable (Restores edits columns) :=
  inferInstanceAs (Decidable (_ = _))

section
variable {α : Type} {edits : List ColumnEdit} {xs : List α}

/-- A list without new elements is made of old ones. -/
theorem eq_map_inl {ts : List (Tagged α)} (h : ∀ t ∈ ts, t.isLeft = true) :
    ts = (ts.filterMap Sum.getLeft?).map Sum.inl := by
  induction ts with
  | nil => rfl
  | cons t ts ih =>
      cases t with
      | inl x =>
          have hrest := ih fun t ht => h t (List.mem_cons_of_mem _ ht)
          exact congrArg (Sum.inl x :: ·) hrest
      | inr now => exact absurd (h _ List.mem_cons_self) Bool.false_ne_true

theorem map_isLeft_tagged :
    (tagged edits xs).map Sum.isLeft =
      replay (fun _ => false) edits (List.replicate xs.length true) := by
  rw [tagged, map_replay, List.map_map, ← List.map_const']
  rfl

theorem restores_iff_tagged : Restores edits xs.length ↔ tagged edits xs = xs.map Sum.inl := by
  rw [Restores, ← map_isLeft_tagged]
  constructor
  · intro h
    have hleft : ∀ t ∈ tagged edits xs, t.isLeft = true := by
      intro t ht
      have hmem := List.mem_map_of_mem (f := Sum.isLeft) ht
      rw [h] at hmem
      exact (List.eq_of_mem_replicate hmem)
    have hts := eq_map_inl hleft
    have hown : (xs.map (Sum.inl : α → Tagged α)).filterMap Sum.getLeft? = xs := by
      rw [List.filterMap_map]
      exact List.filterMap_some
    have hsub : ((tagged edits xs).filterMap Sum.getLeft?).Sublist xs := by
      have hreplay := own_replay_sublist edits (xs.map (Sum.inl : α → Tagged α))
      rwa [hown] at hreplay
    have hlen : ((tagged edits xs).filterMap Sum.getLeft?).length = xs.length := by
      have hlength := congrArg List.length h
      rw [List.length_map, List.length_replicate] at hlength
      rw [← hlength]
      conv_rhs => rw [hts, List.length_map]
    rw [hts, hsub.eq_of_length hlen]
  · intro h
    rw [h, List.map_map, ← List.map_const']
    rfl

theorem replay_of_restores (make : Nat → α) (h : Restores edits xs.length) :
    replay make edits xs = xs := by
  rw [← map_tagged, restores_iff_tagged.mp h, List.map_map]
  exact List.map_id xs

/-- Edits that leave a list as it was restore it, unless it had what they add. -/
theorem restores_of_replay {make : Nat → α}
    (hnew : ∀ now now', .add now now' ∈ edits → make now ∉ xs)
    (h : replay make edits xs = xs) : Restores edits xs.length := by
  have hleft : ∀ t ∈ tagged edits xs, t.isLeft = true := by
    rintro (x | now) ht
    · rfl
    · have hmake := List.mem_map_of_mem (f := Sum.elim id make) ht
      rw [map_tagged, h] at hmake
      rcases mem_replay_inr ht with hold | ⟨now', hadd⟩
      · obtain ⟨x, -, hx⟩ := List.mem_map.mp hold
        cases hx
      · exact absurd hmake (hnew now now' hadd)
  have hts := eq_map_inl hleft
  have hown : (tagged edits xs).filterMap Sum.getLeft? = xs := by
    have hreplay := (map_tagged make edits xs).trans h
    rw [hts, List.map_map] at hreplay
    exact (List.map_id _).symm.trans hreplay
  exact restores_iff_tagged.mpr (by rw [hts, hown])

end

/-! ## Cancelling -/

/-- The dialog of a table is opened, columns are added and deleted, and it is cancelled. -/
def cancelledSession (id : Str) (edits : List ColumnEdit) : List Action :=
  .openTable id :: edits.map ColumnEdit.action ++ [.cancelTable]

/-- A table behind the edits of a session. -/
def editColumns (edits : List ColumnEdit) (node : TableNode) : TableNode :=
  { node with columns := replay newColumn edits node.columns }

theorem updateNode_updateNode {id : Str} {f g : TableNode → TableNode}
    (hid : ∀ node, (f node).id = node.id) (nodes : List TableNode) :
    updateNode id g (updateNode id f nodes) = updateNode id (fun node => g (f node)) nodes := by
  rw [updateNode, updateNode, updateNode, List.map_map]
  refine List.map_congr_left fun node _ => ?_
  rw [Function.comp_apply]
  by_cases h : node.id = id
  · rw [if_pos h, if_pos ((hid node).trans h), if_pos h]
  · rw [if_neg h, if_neg h, if_neg h]

variable {addEdge : Edge → List Edge → List Edge}

/-- One edit, at the node and at the copy. -/
theorem step_edit (edit : ColumnEdit) {s : Editor} {editing : TableNode}
    (h : s.editingNode = some editing) :
    ∃ copy, copy.id = editing.id ∧ step addEdge s edit.action =
      some ⟨updateNode editing.id (editColumns [edit]) s.nodes, s.edges, some copy⟩ := by
  cases edit with
  | add now now' =>
      refine ⟨appendColumn now' editing, rfl, ?_⟩
      simp only [ColumnEdit.action, step, h]
      rfl
  | delete idx =>
      refine ⟨removeColumn idx editing, rfl, ?_⟩
      simp only [ColumnEdit.action, step, h]
      rfl

/-- The edits reach the node of the table, whatever they do to the copy. -/
theorem run_edits (edits : List ColumnEdit) {s : Editor} {editing : TableNode}
    (h : s.editingNode = some editing) :
    ∃ copy, run (step addEdge) s (edits.map ColumnEdit.action) =
      some ⟨updateNode editing.id (editColumns edits) s.nodes, s.edges, some copy⟩ := by
  induction edits generalizing s editing with
  | nil =>
      have hnodes : updateNode editing.id (editColumns []) s.nodes = s.nodes := by
        rw [updateNode]
        exact (List.map_congr_left fun node _ => ite_self node).trans (List.map_id _)
      refine ⟨editing, ?_⟩
      rw [hnodes, ← h]
      rfl
  | cons edit edits ih =>
      obtain ⟨copy, hid, hstep⟩ := step_edit edit h
      obtain ⟨last, hrun⟩ := ih (s := ⟨_, s.edges, some copy⟩) rfl
      refine ⟨last, run_cons.mpr ⟨_, hstep, hrun.trans ?_⟩⟩
      have hnodes : updateNode editing.id (editColumns edits)
          (updateNode editing.id (editColumns [edit]) s.nodes) =
            updateNode editing.id (editColumns (edit :: edits)) s.nodes :=
        @updateNode_updateNode _ (editColumns [edit]) (editColumns edits) (fun _ => rfl) s.nodes
      rw [hid, hnodes]

theorem run_cancelledSession {s t : Editor} {id : Str} {edits : List ColumnEdit}
    (h : run (step addEdge) s (cancelledSession id edits) = some t) :
    t = ⟨updateNode id (editColumns edits) s.nodes, s.edges, none⟩ := by
  obtain ⟨opened, hopen, h⟩ := run_cons.mp h
  obtain ⟨editing, hfind, hopened⟩ := Option.map_eq_some_iff.mp hopen
  have hid : editing.id = id := of_decide_eq_true (List.find?_eq_some_iff_append.mp hfind).1
  obtain ⟨copy, hedits⟩ := run_edits edits (s := opened) (by rw [← hopened])
  obtain ⟨u, hu, hcancel⟩ := run_concat.mp h
  rw [hu] at hedits
  rw [Option.some.inj hedits, hid, ← hopened] at hcancel
  exact (Option.some.inj hcancel).symm

/-- Cancelling leaves nodes and edges as they were when the dialog was opened. -/
def CancelChangesNothing (addEdge : Edge → List Edge → List Edge) (s : Editor) (id : Str)
    (edits : List ColumnEdit) : Prop :=
  ∀ t, run (step addEdge) s (cancelledSession id edits) = some t →
    t.nodes = s.nodes ∧ t.edges = s.edges

theorem updateNode_eq_self_iff {id : Str} {f : TableNode → TableNode} {nodes : List TableNode} :
    updateNode id f nodes = nodes ↔ ∀ node ∈ nodes, node.id = id → f node = node := by
  rw [updateNode]
  conv_lhs => rhs; rw [← List.map_id nodes]
  rw [List.map_inj_left]
  refine forall₂_congr fun node _ => ?_
  by_cases h : node.id = id
  · simp [h]
  · simp [h]

/-- The table has a column just as the dialog adds one, and the edits happen to leave the same
    columns. -/
def Coincides (edits : List ColumnEdit) (columns : List Column) : Prop :=
  (∃ now now', .add now now' ∈ edits ∧ newColumn now ∈ columns) ∧
    replay newColumn edits columns = columns

theorem replay_newColumn_iff {edits : List ColumnEdit} {columns : List Column} :
    replay newColumn edits columns = columns ↔
      Restores edits columns.length ∨ Coincides edits columns := by
  constructor
  · intro h
    by_cases hold : ∃ now now', .add now now' ∈ edits ∧ newColumn now ∈ columns
    · exact Or.inr ⟨hold, h⟩
    · refine Or.inl (restores_of_replay (fun now now' hadd hmem => ?_) h)
      exact hold ⟨now, now', hadd, hmem⟩
  · rintro (h | h)
    · exact replay_of_restores newColumn h
    · exact h.2

/-- **Cancelling** changes nothing exactly where the session restores the columns of the
    table. -/
theorem cancelChangesNothing_iff (addEdge : Edge → List Edge → List Edge) (s : Editor) (id : Str)
    (edits : List ColumnEdit) :
    CancelChangesNothing addEdge s id edits ↔ ∀ node ∈ s.nodes, node.id = id →
      Restores edits node.columns.length ∨ Coincides edits node.columns := by
  have hnode : ∀ node : TableNode, editColumns edits node = node ↔
      Restores edits node.columns.length ∨ Coincides edits node.columns := by
    intro node
    rw [← replay_newColumn_iff]
    constructor
    · exact congrArg TableNode.columns
    · intro h
      rw [editColumns, h]
  constructor
  · intro h node hmem hid
    obtain ⟨first, hfirst⟩ : ∃ first, s.nodes.find? (fun node => node.id = id) = some first :=
      Option.isSome_iff_exists.mp (List.find?_isSome.mpr ⟨node, hmem, decide_eq_true hid⟩)
    obtain ⟨copy, hedits⟩ := run_edits edits (s := ⟨s.nodes, s.edges, some first⟩) rfl
    have hopen : step addEdge s (.openTable id) = some ⟨s.nodes, s.edges, some first⟩ := by
      simp only [step, hfirst]
      rfl
    have hrun : run (step addEdge) s (cancelledSession id edits) =
        some ⟨updateNode first.id (editColumns edits) s.nodes, s.edges, none⟩ :=
      run_cons.mpr ⟨_, hopen, run_concat.mpr ⟨_, hedits, rfl⟩⟩
    have hnodes := (h _ hrun).1
    rw [run_cancelledSession hrun] at hnodes
    exact (hnode node).mp (updateNode_eq_self_iff.mp hnodes node hmem hid)
  · intro h t ht
    rw [run_cancelledSession ht]
    exact ⟨updateNode_eq_self_iff.mpr fun node hmem hid => (hnode node).mpr (h node hmem hid), rfl⟩

/-- A canvas with one table. -/
def oneTable : Editor where
  nodes := [⟨"1".toList, "public.users".toList, none,
    [⟨"id".toList, "integer".toList, true, true, none⟩], [], ⟨true, false⟩⟩]
  edges := []
  editingNode := none

/-- The column that was deleted before the dialog was cancelled is gone. -/
theorem not_cancelChangesNothing_oneTable :
    ¬ CancelChangesNothing appendNewEdge oneTable "1".toList [.delete 0] := by
  intro h
  have hnodes := (h ⟨[⟨"1".toList, "public.users".toList, none, [], [], ⟨true, false⟩⟩], [], none⟩
    rfl).1
  exact absurd hnodes (by decide)

end PgErdCloud.Canvas
