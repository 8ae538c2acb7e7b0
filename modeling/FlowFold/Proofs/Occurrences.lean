import FlowFold.Proofs.Spans
import FlowFold.Proofs.Traversal

/-! # The nodes of a program's steps

Every step of a program has a node of its own in the graph, and `quit` is the only other
node. Forming the graph can take a note of each node that it adds, with the place of the
step that the node is for. The nodes out of reach are those of the steps that a check
reports as unreachable, or that stand inside a statement it reports.
-/

namespace FlowFold

theorem except_map_bind {ε α β γ δ : Type} {m : Except ε α} {m' : Except ε γ} {k : α → Except ε β}
    {k' : γ → Except ε δ} {f : β → δ} {h : α → γ} (same : m.map h = m')
    (next : ∀ a, (k a).map f = k' (h a)) : (m >>= k).map f = m' >>= k' := by
  subst same
  cases m with
  | error e => rfl
  | ok a => exact next a

namespace Stmt

mutual

/-- Form a statement, and note for every node that is added the place of the step it is for. -/
def formNoting (place : Place) (next : NodeId) (g : Graph) :
    Stmt → Except Fault (NodeId × Graph × List (Place × NodeId))
  | .block body => formNotingAll place 0 next g body
  | .assign none _ => .error .absent
  | .assign (some name) value => do
      let (id, g) ← g.addAssign name value next
      return (id, g, [(place, id)])
  | .ret result => do
      let (id, g) := g.addReturn result
      return (id, g, [(place, id)])
  | .ite cond then_ .missing => do
      let (yes, g, notes) ← then_.formNoting (place ++ [.thenBranch]) next g
      let (id, g) ← g.addBranch cond yes next next
      return (id, g, notes ++ [(place, id)])
  | .ite cond then_ otherwise => do
      let (yes, g, notes) ← then_.formNoting (place ++ [.thenBranch]) next g
      let (no, g, notes') ← otherwise.formNoting (place ++ [.elseBranch]) next g
      let (id, g) ← g.addBranch cond yes no next
      return (id, g, notes ++ notes' ++ [(place, id)])
  | .while cond body => do
      let (loop, g) ← g.addLoop cond next
      let (start, g, notes) ← body.formNoting (place ++ [.body]) loop g
      let g ← g.setBody loop start
      return (loop, g, (place, loop) :: notes)
  | .missing => .error .missingStmt
  | .hollow _ => .error .absent
  | .foreign other => .error (.foreignStmt other.typeName)

def formNotingAll (place : Place) (i : Nat) (next : NodeId) (g : Graph) :
    List Stmt → Except Fault (NodeId × Graph × List (Place × NodeId))
  | [] => return (next, g, [])
  | s :: rest => do
      let (next, g, notes) ← formNotingAll place (i + 1) next g rest
      let (start, g, notes') ← s.formNoting (place ++ [.index i]) next g
      return (start, g, notes ++ notes')

end

mutual

/-- Taking notes does not change what is formed. -/
theorem map_formNoting (s : Stmt) (place : Place) (next : NodeId) (g : Graph) :
    (s.formNoting place next g).map (fun r => (r.1, r.2.1)) = s.form next g := by
  cases s with
  | block body => exact map_formNotingAll body place 0 next g
  | assign target value =>
      cases target with
      | none => rfl
      | some name =>
          rw [formNoting, form]
          cases g.addAssign name value next <;> rfl
  | ret | missing | hollow | foreign => rfl
  | ite cond then_ otherwise =>
      by_cases none : otherwise = .missing
      · subst none
        rw [formNoting, form]
        have yes := map_formNoting then_ (place ++ [.thenBranch]) next g
        refine except_map_bind yes fun (yes, g, notes) => ?_
        dsimp only
        cases g.addBranch cond yes next next <;> rfl
      · rw [formNoting, form]
        · have yes := map_formNoting then_ (place ++ [.thenBranch]) next g
          refine except_map_bind yes fun (yes, g, notes) => ?_
          have no := map_formNoting otherwise (place ++ [.elseBranch]) next g
          refine except_map_bind no fun (no, g, notes') => ?_
          dsimp only
          cases g.addBranch cond yes no next <;> rfl
        · exact none
        · exact none
  | «while» cond body =>
      rw [formNoting, form]
      refine except_map_bind (congrFun Except.map_id (g.addLoop cond next)) fun (loop, g) => ?_
      refine except_map_bind (map_formNoting body (place ++ [.body]) loop g) fun (start, g, notes) => ?_
      exact except_map_bind (congrFun Except.map_id (g.setBody loop start)) fun _ => rfl

theorem map_formNotingAll (body : List Stmt) (place : Place) (i : Nat) (next : NodeId) (g : Graph) :
    (formNotingAll place i next g body).map (fun r => (r.1, r.2.1)) = formAll next g body := by
  cases body with
  | nil => rfl
  | cons s rest =>
      rw [formNotingAll, formAll]
      refine except_map_bind (map_formNotingAll rest place (i + 1) next g) fun (next, g, notes) => ?_
      dsimp only
      rw [← map_formNoting s (place ++ [.index i])]
      cases s.formNoting (place ++ [.index i]) next g <;> rfl

end

def Site.note (site : Site) : Place × NodeId := (site.place, site.id)

theorem map_fst_note (sites : List Site) : (sites.map Site.note).map Prod.fst = sites.map Site.place := by
  rw [List.map_map]
  rfl

theorem map_snd_note (sites : List Site) : (sites.map Site.note).map Prod.snd = sites.map Site.id := by
  rw [List.map_map]
  rfl

theorem Forms.size_eq {next start : NodeId} {g g' : Graph} {s : Stmt} (forms : Forms next g s start g')
    (x : Option String) (reached : Bool) (place : Place) :
    g'.size = g.size + (s.sites x reached place g.size).length :=
  Spans.top_eq s (forms.spans g' fun _ _ _ => rfl) x reached place

mutual

theorem Forms.noting (s : Stmt) {next start : NodeId} {g g' : Graph} (forms : Forms next g s start g')
    (x : Option String) (reached : Bool) (place : Place) :
    s.formNoting place next g = .ok (start, g', (s.sites x reached place g.size).map Site.note) := by
  cases s with
  | block body => exact Forms.notingAll body forms x reached place 0
  | assign target value =>
      cases forms with
      | assign inside =>
          rw [formNoting, Graph.addAssign_eq_ok.mpr ⟨inside, rfl⟩]
          rfl
  | ret result =>
      cases forms
      rfl
  | ite cond then_ otherwise =>
      cases forms with
      | ifThen first inside =>
          have size := first.size_eq x reached (place ++ [.thenBranch])
          rw [formNoting, Forms.noting then_ first x reached]
          simp only [bind, Except.bind, Graph.addBranch_eq_ok.mpr ⟨inside, rfl⟩]
          simp [sites, Site.note, size, pure, Except.pure]
      | ifElse first second inside =>
          have size₁ := first.size_eq x reached (place ++ [.thenBranch])
          have size₂ := second.size_eq x reached (place ++ [.elseBranch])
          rw [formNoting, Forms.noting then_ first x reached]
          · simp only [bind, Except.bind, Forms.noting otherwise second x reached,
              Graph.addBranch_eq_ok.mpr ⟨inside, rfl⟩]
            simp [sites, Site.note, size₁, size₂, pure, Except.pure]
          · rintro rfl
            cases second
  | «while» cond body =>
      cases forms with
      | «while» inside inner closed =>
          rw [formNoting, Graph.addLoop_eq_ok.mpr ⟨inside, rfl⟩]
          simp only [bind, Except.bind, Graph.add_fst, Forms.noting body inner x reached, closed]
          simp [sites, Site.note, pure, Except.pure]
  | missing | hollow | foreign => cases forms

theorem Forms.notingAll (body : List Stmt) {next start : NodeId} {g g' : Graph}
    (forms : Forms next g (.block body) start g') (x : Option String) (reached : Bool) (place : Place)
    (i : Nat) :
    formNotingAll place i next g body =
      .ok (start, g', (sitesAll x reached place i g.size body).map Site.note) := by
  cases body with
  | nil =>
      cases forms
      rfl
  | cons s rest =>
      cases forms with
      | cons others first =>
          have size := Spans.top_eqAll rest (others.spans _ fun _ _ _ => rfl) x (reached && s.passes x)
            place (i + 1)
          rw [formNotingAll, Forms.notingAll rest others x (reached && s.passes x)]
          simp only [bind, Except.bind, Forms.noting s first x reached]
          simp [sitesAll, size, pure, Except.pure]

end

end Stmt

/-- The graph of a program, and for every node but `quit` the place of its step. -/
def Graph.ofProgramNoting (program : Stmt) : Except Fault (Graph × List (Place × NodeId)) := do
  let (entry, g, notes) ← program.formNoting [] 0 .empty
  return (← g.setEntry entry, notes)

theorem Graph.map_ofProgramNoting (program : Stmt) :
    (ofProgramNoting program).map Prod.fst = ofProgram program := by
  refine except_map_bind (Stmt.map_formNoting program [] 0 .empty) fun (entry, g, notes) => ?_
  dsimp only
  cases g.setEntry entry <;> rfl

theorem Stmt.All.spans {P : Expr → Prop} {program : Stmt} (all : program.All P) :
    ∃ g, Graph.ofProgram program = .ok g ∧ g.Arena ∧
      (∀ id n e, g.node? id = some n → n.expression = some e → P e) ∧
      Spans g 0 1 program g.entry g.size ∧
      Graph.ofProgramNoting program = .ok (g, (program.sites none true [] 1).map Site.note) := by
  obtain ⟨g, g', formed, built, whole, forms, same⟩ := all.ofProgram
  have size : g.size = g'.size :=
    Nat.le_antisymm (Graph.node?_eq_none.mp ((same _).trans (Graph.node?_eq_none.mpr (Nat.le_refl _))))
      (Graph.node?_eq_none.mp ((same _).symm.trans (Graph.node?_eq_none.mpr (Nat.le_refl _))))
  refine ⟨g, formed, built.arena, whole, ?_, ?_⟩
  · rw [size]
    exact forms.spans g fun id _ _ => same id
  · have entered := Graph.setEntry_eq_ok.mpr ⟨forms.start_lt Graph.Arena.empty.nonempty, rfl⟩
    have noted : Graph.ofProgramNoting program =
        .ok ({ g' with entry := g.entry }, (program.sites none true [] 1).map Site.note) := by
      rw [Graph.ofProgramNoting, Forms.noting program forms none true []]
      simp only [bind, Except.bind, entered]
      rfl
    have whole : { g' with entry := g.entry } = g := by
      simpa [noted, formed, Except.map] using Graph.map_ofProgramNoting program
    rwa [whole] at noted

/-! ## Unreachable steps -/

namespace Stmt

variable {x : Option String} {s : Stmt} {reached past : Bool} {place : Place} {base : Nat} {site : Site}
  {next : NodeId}

theorem le_id_of_mem_sites (member : site ∈ s.sites x reached place base) : base ≤ site.id := by
  have numbered := List.mem_map_of_mem (f := Site.id) member
  rw [map_id_sites] at numbered
  exact (List.mem_range'_1.mp numbered).1

theorem gets_site (member : site ∈ s.sites x reached place base) (before : next < base) :
    Gets (s.sites x reached place base) past next site.id ↔ site.reached = true := by
  have own := le_id_of_mem_sites member
  have numbers : ((s.sites x reached place base).map Site.id).Nodup := by
    rw [map_id_sites]
    exact List.nodup_range'
  constructor
  · rintro (⟨same, -⟩ | ⟨other, member', here, same⟩)
    · exact absurd same (Nat.ne_of_gt (Nat.lt_of_lt_of_le before own))
    · exact List.inj_on_of_nodup_map numbers member' member same ▸ here
  · exact fun here => .inr ⟨site, member, here, rfl⟩

theorem gets_next (before : next < base) :
    Gets (s.sites x reached place base) past next next ↔ past = true := by
  constructor
  · rintro (⟨-, past⟩ | ⟨site, member, -, same⟩)
    · exact past
    · exact absurd same (Nat.ne_of_gt (Nat.lt_of_lt_of_le before (le_id_of_mem_sites member)))
  · exact fun past => .inl ⟨rfl, past⟩

end Stmt

theorem Graph.Arena.mem_reachable_iff {g : Graph} (arena : g.Arena) {program : Stmt} {top : Nat}
    (spans : program.Spans g 0 1 g.entry top) {id : NodeId} :
    id ∈ g.reachable ↔ Stmt.Gets (program.sites none true [] 1) (program.passes none) 0 id := by
  have edges : g.Onward none = fun a b => b ∈ g.targets a := by
    funext a b
    simp [Onward]
  rw [arena.mem_reachable, Live, Path, ← edges, onward_iff arena spans]

/-- The nodes of a checked program are `quit` and one for every step, which does what the step says.
    The node of a step is out of reach exactly if the check reports the step, or a statement
    around it, as unreachable. `quit` is in reach exactly if the check finds that a path continues
    past the whole program. -/
theorem Graph.reachable_iff_unflagged {program : Stmt} {inputs : List String} {report : Report}
    (checked : check program inputs = .ok report) (clean : report.errors = []) :
    ∃ g notes, ofProgram program = .ok g ∧ ofProgramNoting program = .ok (g, notes) ∧
      g.node? 0 = some ⟨0, .quit⟩ ∧ 0 :: notes.map Prod.snd = List.range g.size ∧
      (notes.map Prod.fst).Nodup ∧
      (∀ place, place ∈ notes.map Prod.fst ↔
        ∃ s, (Piece.stmt program).at? place = some (.stmt s) ∧ s.isStep = true) ∧
      (∀ place id, (place, id) ∈ notes →
        (∃ s instr, (Piece.stmt program).at? place = some (.stmt s) ∧ g.node? id = some ⟨id, instr⟩ ∧
          instr.Does s) ∧
        (id ∉ g.reachable ↔ report.Flags place)) ∧
      ∃ after, program.check false (some inputs) [] = .ok (report, after) ∧
        (0 ∈ g.reachable ↔ after ≠ none) := by
  obtain ⟨solid, rfl⟩ := check_eq_ok.mp checked
  obtain ⟨g, formed, arena, -, spans, noted⟩ := (Stmt.accepted_of_report clean).spans
  have size := Stmt.Spans.top_eq program spans none true []
  refine ⟨g, _, formed, noted, arena.node_zero, ?_, ?_, fun place => ?_, ?_,
    (program.report false inputs []).2, ?_, ?_⟩
  · rw [Stmt.map_snd_note, Stmt.map_id_sites, List.range_eq_range', size, Nat.add_comm, List.range'_succ]
  · rw [Stmt.map_fst_note]
    exact Stmt.nodup_sites program true [] 1
  · rw [Stmt.map_fst_note]
    exact Stmt.mem_places
  · intro place id noted
    obtain ⟨site, member, same⟩ := List.mem_map.mp noted
    cases same
    obtain ⟨instr, node, does⟩ := Stmt.Spans.does program spans member
    refine ⟨⟨site.stmt, instr, (Stmt.at?_site member).1, node, does⟩, ?_⟩
    rw [arena.mem_reachable_iff spans, Stmt.gets_site member Nat.zero_lt_one, Bool.not_eq_true]
    exact (Stmt.flags_report program false inputs member).symm
  · rw [Stmt.check_eq, if_pos solid]
    rfl
  · rw [arena.mem_reachable_iff spans, Stmt.gets_next Nat.zero_lt_one,
      ← Stmt.isSome_report program false inputs [], Option.isSome_iff_ne_none]

def Stmt.deadLoop : Stmt :=
  .block [.ret (.int 1), .while (.var "c") (.set "x" (.int 2))]

/-- The assignment in the loop is out of reach, and the loop around it is reported. -/
theorem Graph.reachable_iff_unflagged_deadLoop :
    (∃ report, check Stmt.deadLoop [] = .ok report ∧ report.errors = []) ∧
      ∃ g notes, ofProgram Stmt.deadLoop = .ok g ∧ ofProgramNoting Stmt.deadLoop = .ok (g, notes) ∧
        ([.index 1, .body], 2) ∈ notes ∧ 2 ∉ g.reachable ∧ ([.index 0], 3) ∈ notes ∧ 3 ∈ g.reachable ∧
        0 ∉ g.reachable := by
  refine ⟨⟨_, rfl, rfl⟩, ?_⟩
  have checked : check Stmt.deadLoop [] = .ok (findings Stmt.deadLoop []) := by rfl
  obtain ⟨g, notes, formed, noted, -, -, -, -, reach, _, ends, quit⟩ :=
    reachable_iff_unflagged checked (by decide)
  obtain rfl := congrArg Prod.snd (Except.ok.inj ends)
  have taken : (ofProgramNoting Stmt.deadLoop).map Prod.snd =
      .ok [([.index 1], 1), ([.index 1, .body], 2), ([.index 0], 3)] := by rfl
  rw [noted] at taken
  cases taken
  refine ⟨g, _, formed, noted, by simp, ?_, by simp, ?_, ?_⟩
  · exact (reach [.index 1, .body] 2 (by simp)).2.mpr (by decide)
  · exact not_not.mp (mt (reach [.index 0] 3 (by simp)).2.mp (by decide))
  · exact mt quit.mp (by decide)

end FlowFold
