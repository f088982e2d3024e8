import Dataflow.Proofs.Plan.Edges
import Dataflow.Proofs.Text.Decimal

/-!
# Listings line by line

In the text of a listing the lines cannot be told apart: a predicate may contain anything, also what
looks like the line of an edge. `listing` keeps for each line what it shows, and `Line.text` gives the
written form of each, so that the texts in their order are the lines that are written
(`map_text_listing`). What a listing says about the edges is then said without reading it back, but for
one line: below its source, the line of an edge shows which edge it is (`eq_of_text_edge_eq`).
-/

namespace Dataflow

namespace Plan

/-- A line of a listing, by what it shows. -/
inductive Line where
  | operator (id : OpId) (op : Operator)
  | column (i : Nat) (c : OutputColumn)
  | edge (e : Edge)

namespace Line

/-- The line as it is written. -/
def text : Line → String
  | operator id op =>
    s!"OpId({id.toNat}) {op.kind.name}" ++ op.name.elim "" (" " ++ ·) ++ s!": {op.describe}\n"
  | column i c => s!"    [{i}] {c.root.render}\n"
  | edge e => s!"  -> OpId({e.target.toNat}) (out {e.outSlot}, in {e.inSlot})\n"

/-- The edge that the line shows. -/
def edge? : Line → Option Edge
  | edge e => some e
  | _ => none

/-! ## Written forms -/

open Text.Decimal (digits digits_append_inj toString_string toList_toString)

theorem text_operator (id : OpId) (op : Operator) :
    (Line.operator id op).text = operatorLine id op := by
  have hclose : ") " = ")" ++ " " := rfl
  unfold text operatorLine
  cases hname : op.name <;>
    simp only [toString_string, OpId.toString_eq, Kind.toString_eq, hname, hclose, Option.elim,
      String.append_assoc]

theorem text_column (i : Nat) (c : OutputColumn) : (Line.column i c).text = columnLine i c :=
  rfl

theorem text_edge (e : Edge) : (Line.edge e).text = edgeLine e := by
  have harrow : "  -> OpId(" = "  -> " ++ "OpId(" := rfl
  have hclose : ") (out " = ")" ++ " (out " := rfl
  unfold text edgeLine
  simp only [toString_string, OpId.toString_eq, harrow, hclose, String.append_assoc]

theorem toList_text_edge (e : Edge) : (Line.edge e).text.toList =
    "  -> OpId(".toList ++ (digits e.target.toNat ++ ')' :: (" (out ".toList ++
      (digits e.outSlot ++ ',' :: (" in ".toList ++ (digits e.inSlot ++ [')', '\n']))))) := by
  unfold text
  simp only [toString_string, toList_toString, String.toList_append, List.append_assoc]
  rfl

/-- Below its source, the line of an edge shows which edge it is: no number in it is followed by a
digit. -/
theorem eq_of_text_edge_eq {e e' : Edge} (hsource : e.source = e'.source)
    (h : (Line.edge e).text = (Line.edge e').text) : e = e' := by
  have hchars := congrArg String.toList h
  rw [toList_text_edge, toList_text_edge, List.append_cancel_left_eq] at hchars
  obtain ⟨htarget, -, hchars⟩ := digits_append_inj rfl rfl hchars
  rw [List.append_cancel_left_eq] at hchars
  obtain ⟨hout, -, hchars⟩ := digits_append_inj rfl rfl hchars
  rw [List.append_cancel_left_eq] at hchars
  obtain ⟨hin, -⟩ := digits_append_inj rfl rfl hchars
  rw [Edge.mk.injEq]
  exact ⟨hsource, OpId.toNat_inj.mp htarget, hout, hin⟩

end Line

/-- The lines of a listing, operator by operator. -/
def listing (p : LogicalPlan) : List Line :=
  p.operators.entries.flatMap fun (id, op) ↦
    .operator id op :: (op.outputs.mapIdx .column ++ (p.listedEdges id).map .edge)

theorem map_text_listing (p : LogicalPlan) : p.listing.map Line.text = p.explainLines := by
  rw [listing, explainLines, List.map_flatMap]
  refine List.flatMap_congr fun x _ ↦ ?_
  simp only [explainOperator, List.map_cons, List.map_append, List.mapIdx_eq_zipIdx_map,
    List.map_map, Function.comp_def, Line.text_operator, Line.text_column, Line.text_edge]

theorem explain_eq_join_listing (p : LogicalPlan) :
    p.explain = String.join (p.listing.map Line.text) := by
  rw [explain, map_text_listing]

theorem filterMap_edge?_column (cs : List OutputColumn) :
    (cs.mapIdx Line.column).filterMap Line.edge? = [] := by
  refine List.filterMap_eq_nil_iff.mpr fun l hl ↦ ?_
  obtain ⟨i, hi, rfl⟩ := List.mem_mapIdx.mp hl
  rfl

theorem filterMap_edge?_edge (es : List Edge) : (es.map Line.edge).filterMap Line.edge? = es := by
  rw [List.filterMap_map]
  exact List.filterMap_some

theorem filterMap_edge?_listing (p : LogicalPlan) :
    p.listing.filterMap Line.edge? = p.ids.flatMap p.listedEdges := by
  rw [listing, List.filterMap_flatMap, ids, IdTable.keys, List.flatMap_map]
  refine List.flatMap_congr fun x _ ↦ ?_
  rw [List.filterMap_cons_none rfl, List.filterMap_append, filterMap_edge?_column,
    filterMap_edge?_edge, List.nil_append]

/-- In a consistent plan the edges below an operator are those that it is the source of. -/
theorem listing_eq {p : LogicalPlan} (hp : p.Consistent) :
    p.listing = p.operators.entries.flatMap fun (id, op) ↦
      .operator id op ::
        (op.outputs.mapIdx .column ++ (p.edges.filter (·.source = id)).map .edge) := by
  rw [listing]
  refine List.flatMap_congr fun ⟨id, op⟩ _ ↦ ?_
  dsimp only
  rw [hp.listedEdges_eq, hp.filter_source_edges]

/-- **The views of the edges agree.** In a consistent plan the list of edges is complete, and two
plans with the same list have the same neighbours everywhere. A listing is the text of its lines: below
the line of an operator and those of its columns stand the edges of the list that leave it. In this way
it shows all edges of the list, in the same order and with the same slots, and passes over none. The
line of an edge is an arrow with the target and the slots, and says which of the edges that leave the
operator it is. -/
theorem edge_views_agree :
    (∀ (α : Type) (p : Plan α), p.Consistent → p.EdgesComplete) ∧
    (∀ (α β : Type) (p : Plan α) (q : Plan β), p.Consistent → q.Consistent → p.edges = q.edges →
      ∀ v, p.successors v = q.successors v ∧ p.predecessors v = q.predecessors v) ∧
    (∀ p : LogicalPlan, p.Consistent →
      p.explain = String.join (p.listing.map Line.text) ∧
      p.listing = (p.operators.entries.flatMap fun (id, op) ↦
        .operator id op ::
          (op.outputs.mapIdx .column ++ (p.edges.filter (·.source = id)).map .edge)) ∧
      p.listing.filterMap Line.edge? = p.edges ∧
      ∀ v, (p.successors v).map (p.edge? v) = (p.listedEdges v).map some) ∧
    (∀ e : Edge, (Line.edge e).text =
      "  -> OpId(" ++ toString e.target.toNat ++ ") (out " ++ toString e.outSlot ++ ", in " ++
        toString e.inSlot ++ ")\n") ∧
    ∀ e e' : Edge, e.source = e'.source → (Line.edge e).text = (Line.edge e').text → e = e' := by
  refine ⟨fun α p hp ↦ hp.edgesComplete, fun α β p q hp hq h v ↦ ?_, fun p hp ↦ ?_, fun e ↦ rfl,
    fun e e' ↦ Line.eq_of_text_edge_eq⟩
  · exact ⟨hp.successors_eq_of_edges_eq hq h v, hp.predecessors_eq_of_edges_eq hq h v⟩
  · refine ⟨explain_eq_join_listing p, listing_eq hp, ?_, hp.map_edge?_eq⟩
    rw [filterMap_edge?_listing, hp.edges_eq]
    exact List.flatMap_congr fun v _ ↦ hp.listedEdges_eq v

/-- A dataflow with the edges of `interleaved`. One of its predicates reads like the line of an
edge. -/
def deceptive : LogicalPlan where
  operators := .ofList [
    (⟨1⟩, .load ⟨some "a", ⟨"a.tsv", ⟨"PigStorage", []⟩⟩, none, none, false⟩),
    (⟨2⟩, .load ⟨some "b", ⟨"b.tsv", ⟨"PigStorage", []⟩⟩, none, none, false⟩),
    (⟨3⟩, .filter ⟨none, "x > 0\n  -> OpId(1) (out 0, in 0)"⟩),
    (⟨4⟩, .join ⟨none, [("id", "id")]⟩)]
  outgoing := .ofList [(⟨1⟩, [⟨3⟩, ⟨4⟩]), (⟨2⟩, [⟨4⟩]), (⟨3⟩, [⟨4⟩]), (⟨4⟩, [])]
  incoming := .ofList [(⟨1⟩, []), (⟨3⟩, [⟨1⟩]), (⟨4⟩, [⟨1⟩, ⟨3⟩, ⟨2⟩])]
  nextId := ⟨5⟩

theorem edge_views_agree_deceptive :
    deceptive.Consistent ∧ interleaved.Consistent ∧ deceptive.edges = interleaved.edges ∧
      deceptive.EdgesComplete ∧
      deceptive.predecessors ⟨4⟩ = interleaved.predecessors ⟨4⟩ ∧
      deceptive.listing.filterMap Line.edge?
        = [⟨⟨1⟩, ⟨3⟩, 0, 0⟩, ⟨⟨1⟩, ⟨4⟩, 1, 0⟩, ⟨⟨2⟩, ⟨4⟩, 0, 2⟩, ⟨⟨3⟩, ⟨4⟩, 0, 1⟩] ∧
      (Line.edge ⟨⟨2⟩, ⟨4⟩, 0, 2⟩).text = "  -> OpId(4) (out 0, in 2)\n" := by
  have hwf : deceptive.WellFormed := by decide +kernel
  have hwf' : interleaved.WellFormed := by decide +kernel
  have hedges : deceptive.edges = interleaved.edges := by decide +kernel
  obtain ⟨hcomplete, hlists, hlisting, htext, -⟩ := edge_views_agree
  refine ⟨hwf.consistent, hwf'.consistent, hedges, hcomplete _ _ hwf.consistent,
    (hlists _ _ _ _ hwf.consistent hwf'.consistent hedges ⟨4⟩).2, ?_, ?_⟩
  · rw [(hlisting deceptive hwf.consistent).2.2.1]
    decide +kernel
  · rw [htext]
    decide +kernel

end Plan

end Dataflow
