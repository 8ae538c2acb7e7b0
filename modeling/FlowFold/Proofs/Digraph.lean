import FlowFold.Proofs.Listing
import FlowFold.Proofs.Quoting

/-! # What a digraph tells

A digraph tells the labels of the drawn nodes and the arrows between them, whatever
characters the labels have: each line can be read in one way only, a label is quoted and
stays on its line, and the lines of nodes cannot be taken for those of arrows.

The arrows in turn are the edges of the drawn nodes. No arrow leads to a node by default: the
walk is closed under edges, so the target of an edge has a position of its own.
-/

namespace FlowFold.Graph

/-- The edges of the walk in order, each with the position of the node that it leaves. -/
def edges (g : Graph) : List (Nat × Edge) :=
  g.walk.zipIdx.flatMap fun (n, i) => n.successors.map fun e => (i, e)

/-- The arrow shows the edge: it leads to the position of the very node to which the edge leads. -/
structure Draws (g : Graph) (a : Arrow) (edge : Nat × Edge) : Prop where
  source : a.source = edge.1
  target : ∃ n, g.walk[a.target]? = some n ∧ n.id = edge.2.target
  kind : a.kind = edge.2.kind

section

variable {g : Graph}

theorem arrows_eq_map (g : Graph) :
    g.arrows = g.edges.map fun x => ⟨x.1, (g.reachable.idxOf? x.2.target).getD 0, x.2.kind⟩ := by
  simp only [arrows, edges, List.map_flatMap, List.map_map]
  rfl

theorem Arena.live_of_mem_edges (arena : g.Arena) {x : Nat × Edge} (member : x ∈ g.edges) :
    g.Live x.2.target := by
  obtain ⟨⟨n, i⟩, numbered, leaves⟩ := List.mem_flatMap.mp member
  obtain ⟨e, edge, rfl⟩ := List.mem_map.mp leaves
  obtain ⟨live, found⟩ := arena.mem_walk.mp (List.fst_mem_of_mem_zipIdx numbered)
  exact live.edge (targets_eq found ▸ List.mem_map_of_mem edge)

theorem Arena.draws_arrows (arena : g.Arena) : List.Forall₂ g.Draws g.arrows g.edges := by
  rw [arrows_eq_map, List.forall₂_map_left_iff, List.forall₂_same]
  intro x member
  have live := arena.live_of_mem_edges member
  obtain ⟨instr, found⟩ := arena.live_node live
  cases place : g.reachable.idxOf? x.2.target with
  | none => exact absurd (arena.mem_reachable.mpr live) (List.idxOf?_eq_none_iff.mp place)
  | some i =>
      have walked := arena.walk_idxOf live found
      rw [List.idxOf_eq_getD_idxOf?, place, Option.getD_some] at walked
      exact ⟨rfl, ⟨_, walked, rfl⟩, rfl⟩

end

/-! ## The lines of a digraph -/

def nodeLine (x : String × Nat) : String := "\tn" ++ toString x.2 ++ " [label=" ++ Text.quoted x.1 ++ "];"

def arrowLine (a : Arrow) : String :=
  "\tn" ++ toString a.source ++ " -> n" ++ toString a.target ++ dotAttribute a.kind ++ ";"

def dotLines (labels : List String) (arrows : List Arrow) : List String :=
  "digraph cfg \x7b" :: "\tnode [shape=box];" ::
    (labels.zipIdx.map nodeLine ++ arrows.map arrowLine ++ ["\x7d"])

theorem dot_eq_lines {g : Graph} {labels : List String} (labelled : g.labels = .ok labels) :
    g.dot = .ok (String.join ((dotLines labels g.arrows).map (· ++ "\n"))) := by
  have node : ∀ x : String × Nat,
      nodeLine x ++ "\n" = "\tn" ++ toString x.2 ++ " [label=" ++ Text.quoted x.1 ++ "];\n" :=
    fun x => String.append_assoc ..
  have arrow : ∀ a : Arrow, arrowLine a ++ "\n" =
      "\tn" ++ toString a.source ++ " -> n" ++ toString a.target ++ dotAttribute a.kind ++ ";\n" :=
    fun a => String.append_assoc ..
  rw [dot, labelled]
  refine congrArg Except.ok (String.toList_inj.mp ?_)
  simp [dotLines, Function.comp_def, node, arrow]

theorem toList_nodeLine (x : String × Nat) : (nodeLine x).toList =
    '\t' :: 'n' :: ((toString x.2).toList ++ ' ' :: ("[label=".toList ++
      ((Text.quoted x.1).toList ++ [']', ';']))) := by
  simp [nodeLine]

theorem toList_arrowLine (a : Arrow) : (arrowLine a).toList =
    '\t' :: 'n' :: ((toString a.source).toList ++ ' ' :: ("-> n".toList ++
      ((toString a.target).toList ++ ((dotAttribute a.kind).toList ++ [';'])))) := by
  simp [arrowLine]

theorem nodeLine_inj (i : Nat) : Function.Injective fun label => nodeLine (label, i) := by
  intro label label' same
  have texts := String.toList_inj.mpr same
  simp only [toList_nodeLine, List.cons.injEq, List.append_cancel_left_eq, true_and] at texts
  exact (Text.quoted_unique texts).1

theorem ends_dotAttribute (kind : EdgeKind) : Text.Ends ((dotAttribute kind).toList ++ [';']) := by
  cases kind <;> simp [dotAttribute, Text.Ends, Text.Delimits]

theorem dotAttribute_inj {kind kind' : EdgeKind}
    (same : (dotAttribute kind).toList ++ [';'] = (dotAttribute kind').toList ++ [';']) : kind = kind' := by
  cases kind <;> cases kind'
  case plain.plain | yes.yes | no.no => rfl
  case yes.no | no.yes =>
    simp only [dotAttribute, String.toList_append, List.append_assoc, List.append_cancel_left_eq] at same
    exact absurd (Text.quoted_unique same).1 (by decide)
  all_goals simp [dotAttribute] at same

theorem arrowLine_inj : Function.Injective arrowLine := by
  rintro ⟨source, target, kind⟩ ⟨source', target', kind'⟩ same
  have texts := String.toList_inj.mpr same
  simp only [toList_arrowLine, List.cons.injEq, true_and] at texts
  obtain ⟨sources, afterSource⟩ := Text.nat_unique (.blank _) (.blank _) texts
  simp only [List.cons.injEq, List.append_cancel_left_eq, true_and] at afterSource
  obtain ⟨targets, afterTarget⟩ :=
    Text.nat_unique (ends_dotAttribute kind) (ends_dotAttribute kind') afterSource
  rw [sources, targets, dotAttribute_inj afterTarget]

theorem nodeLine_ne_arrowLine (x : String × Nat) (a : Arrow) : nodeLine x ≠ arrowLine a := by
  intro same
  have texts := String.toList_inj.mpr same
  simp only [toList_nodeLine, toList_arrowLine, List.cons.injEq, true_and] at texts
  have rests := (Text.nat_unique (.blank _) (.blank _) texts).2
  simp at rests

theorem dotLines_inj {labels labels' : List String} {arrows arrows' : List Arrow}
    (same : dotLines labels arrows = dotLines labels' arrows') : labels = labels' ∧ arrows = arrows' := by
  have lines := List.append_cancel_right (List.cons.inj (List.cons.inj same).2).2
  have nodes : ∀ labels : List String, ∀ l ∈ labels.zipIdx.map nodeLine, ¬ ∃ a, l = arrowLine a := by
    rintro labels l member ⟨a, arrow⟩
    obtain ⟨x, -, node⟩ := List.mem_map.mp member
    exact nodeLine_ne_arrowLine x a (node.trans arrow)
  have first : ∀ arrows : List Arrow, ∀ l ∈ (arrows.map arrowLine).head?, ∃ a, l = arrowLine a := by
    intro arrows l head
    obtain ⟨a, -, arrow⟩ := List.mem_map.mp (List.mem_of_mem_head? head)
    exact ⟨a, arrow.symm⟩
  -- The lines of nodes go on until the first line of an arrow.
  obtain ⟨nodeLines, arrowLines⟩ := Text.append_unique (fun l => ∃ a, l = arrowLine a)
    (nodes labels) (nodes labels') (first arrows) (first arrows') lines
  exact ⟨Text.map_zipIdx_inj nodeLine_inj nodeLines, List.map_injective_iff.mpr arrowLine_inj arrowLines⟩

theorem newline_dotLines (labels : List String) (arrows : List Arrow) :
    ∀ l ∈ dotLines labels arrows, '\n' ∉ l.toList := by
  have node : ∀ x, '\n' ∉ (nodeLine x).toList := by
    intro x
    simp [toList_nodeLine, Text.newline_toDigits, Text.newline_quoted]
  have mark : ∀ kind, '\n' ∉ (dotAttribute kind).toList := by
    intro kind
    cases kind <;> simp [dotAttribute, Text.newline_quoted]
  have arrow : ∀ a, '\n' ∉ (arrowLine a).toList := by
    intro a
    simp [toList_arrowLine, Text.newline_toDigits, mark]
  intro l member
  simp only [dotLines, List.mem_cons, List.mem_append, List.mem_map, List.not_mem_nil, or_false] at member
  rcases member with rfl | rfl | (⟨x, -, rfl⟩ | ⟨a, -, rfl⟩) | rfl
  · decide
  · decide
  · exact node x
  · exact arrow a
  · decide

/-- Two digraphs are the same text iff they have the same labels and the same arrows, and each
    arrow shows an edge. -/
theorem dot_eq_iff {g f : Graph} (built : g.Built) (built' : f.Built) {labels labels' : List String}
    (labelled : g.labels = .ok labels) (labelled' : f.labels = .ok labels') :
    ∃ text text', g.dot = .ok text ∧ f.dot = .ok text' ∧
      (text = text' ↔ labels = labels' ∧ g.arrows = f.arrows) ∧
      List.Forall₂ g.Draws g.arrows g.edges ∧ List.Forall₂ f.Draws f.arrows f.edges := by
  refine ⟨_, _, dot_eq_lines labelled, dot_eq_lines labelled', ?_, built.arena.draws_arrows,
    built'.arena.draws_arrows⟩
  constructor
  · intro same
    exact dotLines_inj (Text.join_lines_inj (newline_dotLines _ _) (newline_dotLines _ _) same)
  · rintro ⟨rfl, arrows⟩
    rw [arrows]

def singleAssign (name : String) : Graph := build [.addAssign name (.int 1) 0, .setEntry 1]

theorem reachable_singleAssign (name : String) : (singleAssign name).reachable = [1, 0] := by
  have entry : (singleAssign name).entry = 1 := rfl
  have nodes : (singleAssign name).nodes = #[⟨0, .quit⟩, ⟨1, .assign name (.int 1) 0⟩] := rfl
  simp [reachable, search_cons, search_nil, node?, targets, successors, Node.successors, entry, nodes]

/-- A line feed in a name, and a backslash with an n after it, are told apart. -/
theorem dot_eq_iff_lineFeed :
    let g := singleAssign "a\n\""
    let f := singleAssign "a\\n\""
    g.labels = .ok ["Assign a\n\" = 1", "Quit"] ∧ f.labels = .ok ["Assign a\\n\" = 1", "Quit"] ∧
      g.arrows = [⟨0, 1, .plain⟩] ∧ f.arrows = [⟨0, 1, .plain⟩] ∧
      ∃ text text', g.dot = .ok text ∧ f.dot = .ok text' ∧ text ≠ text' := by
  intro g f
  have labelled : g.labels = .ok ["Assign a\n\" = 1", "Quit"] := by
    rw [labels, walk, reachable_singleAssign]
    decide
  have labelled' : f.labels = .ok ["Assign a\\n\" = 1", "Quit"] := by
    rw [labels, walk, reachable_singleAssign]
    decide
  have arrow : ∀ name, (singleAssign name).arrows = [⟨0, 1, .plain⟩] := by
    intro name
    rw [arrows, walk, reachable_singleAssign]
    rfl
  obtain ⟨text, text', drawn, drawn', same, -⟩ := dot_eq_iff ⟨_, rfl⟩ ⟨_, rfl⟩ labelled labelled'
  exact ⟨labelled, labelled', arrow _, arrow _, text, text', drawn, drawn', by simp [same]⟩

end FlowFold.Graph
