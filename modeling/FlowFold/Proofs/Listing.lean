import Mathlib.Data.List.GetD
import FlowFold.Proofs.Effort
import FlowFold.Proofs.Likeness
import FlowFold.Proofs.Readable

/-! # The listing is a canonical form

The listing of a graph tells its script: the instructions in the order of the walk, with
positions in the walk in place of handles. This is so because every line can be read in one
way only. The script in turn tells the graph, up to the names of its nodes: nodes with the
same position in the two walks correspond to each other.
-/

namespace FlowFold

def Instr.Readable : Instr → Prop
  | .assign name value _ => Text.isIdentifier name = true ∧ value.Readable
  | .ret e | .branch e .. | .loop e .. => e.Readable
  | .quit => True

instance Instr.decideReadable : (instr : Instr) → Decidable instr.Readable
  | .assign name value _ => inferInstanceAs (Decidable (Text.isIdentifier name = true ∧ value.Readable))
  | .ret e | .branch e .. | .loop e .. => inferInstanceAs (Decidable e.Readable)
  | .quit => .isTrue trivial

namespace Graph

/-- All that a listing of the graph shows of names and expressions can be read in one way only. -/
def Readable (g : Graph) : Prop := ∀ id n, g.Live id → g.node? id = some n → n.instr.Readable

/-- The instructions in the order of the walk, with positions in the walk in place of handles.
    The position of a handle that is not in the walk is the one after the last. -/
def script (g : Graph) : List Instr :=
  g.walk.map fun n => n.instr.relabel fun h => g.reachable.idxOf h

/-! ## From the listing to the script -/

section Lines

variable {order order' : List NodeId} {h h' : NodeId} {n n' : Node}

theorem numberText_token (order : List NodeId) (h : NodeId) : Text.Token (numberText order h).toList := by
  unfold numberText
  cases order.idxOf? h with
  | some i => exact Text.Token.nat i
  | none => simp [Text.Token, Text.Delimits]

theorem nat_ne_dash (i : Nat) : toString i ≠ "-" := by
  intro same
  have digit : '-'.isDigit = true := Text.isDigit_of_mem_nat (n := i) (by simp [same])
  cases digit

theorem idxOf_eq_of_numberText (size : order.length = order'.length)
    (same : (numberText order h).toList = (numberText order' h').toList) :
    order.idxOf h = order'.idxOf h' := by
  have same := String.toList_inj.mp same
  rw [List.idxOf_eq_getD_idxOf?, List.idxOf_eq_getD_idxOf?]
  unfold numberText at same
  cases place : order.idxOf? h <;> cases place' : order'.idxOf? h' <;> simp only [place, place'] at same
  case none.none => exact size
  case none.some i => exact absurd same.symm (nat_ne_dash i)
  case some.none i => exact absurd same (nat_ne_dash i)
  case some.some i j => exact Text.toString_nat_inj same

theorem numberText_unique (size : order.length = order'.length) {rest rest' : List Char}
    (same : (numberText order h).toList ++ ' ' :: rest = (numberText order' h').toList ++ ' ' :: rest') :
    order.idxOf h = order'.idxOf h' ∧ rest = rest' := by
  obtain ⟨numbers, rests⟩ :=
    (numberText_token order h).unique (numberText_token order' h') (.blank rest) (.blank rest') same
  exact ⟨idxOf_eq_of_numberText size numbers, (List.cons.inj rests).2⟩

theorem relabel_of_dumpLine (size : order.length = order'.length) (readable : n.instr.Readable)
    (readable' : n'.instr.Readable) (same : dumpLine order n = dumpLine order' n') :
    n.instr.relabel (fun h => order.idxOf h) = n'.instr.relabel fun h => order'.idxOf h := by
  obtain ⟨id, instr⟩ := n
  obtain ⟨id', instr'⟩ := n'
  rw [← String.toList_inj] at same
  -- The first character tells the kind, so lines of two kinds differ.
  cases instr <;> cases instr' <;> simp [dumpLine] at same
  case quit.quit => rfl
  case ret.ret e e' =>
    have exprs := readable.unique readable' .nil .nil (congrArg (· ++ []) same)
    simp only [Instr.relabel, exprs.1]
  case assign.assign name value next name' value' next' =>
    obtain ⟨names, afterName⟩ :=
      (Text.Token.identifier readable.1).unique (.identifier readable'.1) (.blank _) (.blank _) same
    simp only [List.cons.injEq, true_and] at afterName
    obtain ⟨values, afterValue⟩ := readable.2.unique readable'.2 (.blank _) (.blank _) afterName
    simp only [List.cons.injEq, true_and] at afterValue
    simp only [Instr.relabel, String.toList_inj.mp names, values, idxOf_eq_of_numberText size afterValue]
  case branch.branch cond yes no join cond' yes' no' join' =>
    obtain ⟨conds, afterCond⟩ := readable.unique readable' (.blank _) (.blank _) same
    simp only [List.cons.injEq, true_and] at afterCond
    obtain ⟨yeses, afterYes⟩ := numberText_unique size afterCond
    simp only [List.cons.injEq, true_and] at afterYes
    obtain ⟨noes, afterNo⟩ := numberText_unique size afterYes
    simp only [List.cons.injEq, true_and] at afterNo
    simp only [Instr.relabel, conds, yeses, noes, idxOf_eq_of_numberText size afterNo]
  case loop.loop cond body join cond' body' join' =>
    obtain ⟨conds, afterCond⟩ := readable.unique readable' (.blank _) (.blank _) same
    simp only [List.cons.injEq, true_and] at afterCond
    obtain ⟨bodies, afterBody⟩ := numberText_unique size afterCond
    simp only [List.cons.injEq, true_and] at afterBody
    simp only [Instr.relabel, conds, bodies, idxOf_eq_of_numberText size afterBody]

theorem dumpLine_newline (order : List NodeId) (readable : n.instr.Readable) :
    '\n' ∉ (dumpLine order n).toList := by
  have number : ∀ h, '\n' ∉ (numberText order h).toList := fun h => (numberText_token order h).newline
  obtain ⟨id, instr⟩ := n
  cases instr with
  | quit => simp [dumpLine]
  | assign name value next =>
      simp [dumpLine, number, (Text.Token.identifier readable.1).newline, readable.2.newline]
  | ret e | branch e | loop e => simp [dumpLine, number, Expr.Readable.newline readable]

end Lines

variable {g f : Graph}

theorem Arena.length_walk (arena : g.Arena) : g.walk.length = g.reachable.length := by
  rw [← arena.walk_ids, List.length_map]

theorem Readable.walk (arena : g.Arena) (readable : g.Readable) : ∀ n ∈ g.walk, n.instr.Readable := by
  intro n walked
  obtain ⟨live, found⟩ := arena.mem_walk.mp walked
  exact readable n.id n live found

theorem map_dumpLine_eq (arena : g.Arena) (arena' : f.Arena) (readable : g.Readable) (readable' : f.Readable)
    (same : g.dump = f.dump) : g.walk.map (dumpLine g.reachable) = f.walk.map (dumpLine f.reachable) := by
  have plain : ∀ {g : Graph}, g.Arena → g.Readable →
      ∀ l ∈ (g.walk.map (dumpLine g.reachable)).zipIdx.map numberedLine, '\n' ∉ l.toList := by
    intro g arena readable l member
    obtain ⟨⟨line, i⟩, numbered, rfl⟩ := List.mem_map.mp member
    obtain ⟨n, walked, rfl⟩ := List.mem_map.mp (List.fst_mem_of_mem_zipIdx numbered)
    simp [numberedLine, Text.padLeft, Text.newline_toDigits, dumpLine_newline g.reachable (readable.walk arena n walked)]
  rw [dump_eq_lines, dump_eq_lines] at same
  refine Text.map_zipIdx_inj (fun i line line' equal => ?_)
    (Text.join_lines_inj (plain arena readable) (plain arena' readable') same)
  exact (String.append_right_inj _).mp equal

theorem script_of_dump (arena : g.Arena) (arena' : f.Arena) (readable : g.Readable) (readable' : f.Readable)
    (same : g.dump = f.dump) : g.script = f.script := by
  have lines := map_dumpLine_eq arena arena' readable readable' same
  have size : g.reachable.length = f.reachable.length := by
    simpa [arena.length_walk, arena'.length_walk] using congrArg List.length lines
  refine List.ext_getElem? fun i => ?_
  have line : (g.walk.map (dumpLine g.reachable))[i]? = (f.walk.map (dumpLine f.reachable))[i]? := by rw [lines]
  rw [script, script, List.getElem?_map, List.getElem?_map]
  rw [List.getElem?_map, List.getElem?_map] at line
  cases found : g.walk[i]? <;> cases found' : f.walk[i]? <;> rw [found, found'] at line
  case none.none => rfl
  case none.some | some.none => cases line
  case some.some n n' =>
    have readable := readable.walk arena n (List.mem_of_getElem? found)
    have readable' := readable'.walk arena' n' (List.mem_of_getElem? found')
    exact congrArg some (relabel_of_dumpLine size readable readable' (Option.some.inj line))

/-! ## From the script to the graph -/

theorem Arena.idxOf_entry (arena : g.Arena) : g.reachable.idxOf g.entry = 0 := by
  obtain ⟨instr, found⟩ := arena.live_node (Live.entry g)
  have kept := (g.search_explored (fun _ => false) (g.targets g.entry) [g.entry]).kept
  have starts : [g.entry] <+: g.reachable := by
    rw [reachable, search_new (List.not_mem_nil) found, search_nil]
    exact List.reverse_prefix.mpr kept
  obtain ⟨later, walk⟩ := starts
  rw [← walk, List.singleton_append, List.idxOf_cons_self]

theorem Arena.idxOf_lt_iff (arena : g.Arena) {id : NodeId} :
    g.reachable.idxOf id < g.reachable.length ↔ g.Live id :=
  List.idxOf_lt_length_iff.trans arena.mem_reachable

theorem Arena.walk_idxOf (arena : g.Arena) {id : NodeId} {n : Node} (live : g.Live id)
    (found : g.node? id = some n) : g.walk[g.reachable.idxOf id]? = some n := by
  have place : (g.walk.map (·.id))[g.reachable.idxOf id]? = some id := by
    rw [arena.walk_ids, List.getElem?_idxOf]
    exact arena.mem_reachable.mpr live
  rw [List.getElem?_map, Option.map_eq_some_iff] at place
  obtain ⟨m, walked, rfl⟩ := place
  have found' := (arena.mem_walk.mp (List.mem_of_getElem? walked)).2
  rw [walked, ← found, found']

/-- The node of the other graph with the same position. -/
def partner (g f : Graph) (id : NodeId) : NodeId := f.reachable.getD (g.reachable.idxOf id) 0

/-- Two handles have the same position, or neither has one. -/
structure Partners (g f : Graph) (h h' : NodeId) : Prop where
  live : g.Live h ↔ f.Live h'
  eq : g.Live h → h' = partner g f h

section Partner

variable {id h h' : NodeId} (arena : g.Arena) (arena' : f.Arena)
  (size : g.reachable.length = f.reachable.length)

include arena size

theorem idxOf_partner (live : g.Live id) :
    f.reachable.idxOf (partner g f id) = g.reachable.idxOf id := by
  have inside : g.reachable.idxOf id < f.reachable.length := size ▸ arena.idxOf_lt_iff.mpr live
  rw [partner, List.getD_eq_getElem _ _ inside, f.reachable_nodup.idxOf_getElem]

include arena'

theorem partners_of_idxOf (same : g.reachable.idxOf h = f.reachable.idxOf h') : Partners g f h h' where
  live := by rw [← arena.idxOf_lt_iff, ← arena'.idxOf_lt_iff, same, size]
  eq := by
    intro live
    have inside : f.reachable.idxOf h' < f.reachable.length := by
      rw [← same, ← size]
      exact arena.idxOf_lt_iff.mpr live
    rw [partner, same, List.getD_eq_getElem _ _ inside, List.getElem_idxOf]

theorem partner_partner (live : g.Live id) : f.Live (partner g f id) ∧ partner f g (partner g f id) = id := by
  have partners : Partners f g (partner g f id) id :=
    partners_of_idxOf arena' arena size.symm (idxOf_partner arena size live)
  have live' := partners.live.mpr live
  exact ⟨live', (partners.eq live').symm⟩

theorem bijOn_partner : Set.BijOn (partner g f) { id | g.Live id } { id | f.Live id } := by
  have inverse : Set.InvOn (partner f g) (partner g f) { id | g.Live id } { id | f.Live id } :=
    ⟨fun id live => (partner_partner arena arena' size live).2,
      fun id live => (partner_partner arena' arena size.symm live).2⟩
  exact inverse.bijOn (fun id live => (partner_partner arena arena' size live).1)
    fun id live => (partner_partner arena' arena size.symm live).1

end Partner

/-- A dead join may be renamed apart from the live nodes. -/
theorem update_partner {join join' h : NodeId} (joins : Partners g f join join') (live : g.Live h) :
    Function.update (partner g f) join join' h = partner g f h := by
  by_cases here : h = join
  · subst here
    rw [Function.update_self, joins.eq live]
  · rw [Function.update_of_ne here]

/-- Instructions that agree up to partners are renamings of each other. Only the join of a
    branch may be dead; it is renamed on its own. -/
theorem exists_relabel {instr instr' : Instr} {p p' : NodeId → Nat}
    (partners : ∀ {h h'}, p h = p' h' → Partners g f h h')
    (edges : ∀ h ∈ (Node.mk 0 instr).successors.map (·.target), g.Live h)
    (same : instr.relabel p = instr'.relabel p') :
    ∃ ψ : NodeId → NodeId, instr' = instr.relabel ψ ∧ ∀ h ∈ instr.handles, Partners g f h (ψ h) := by
  cases instr <;> cases instr' <;> simp [Instr.relabel] at same
  case quit.quit => exact ⟨id, rfl, by simp [Instr.handles]⟩
  case ret.ret e e' => exact ⟨id, by rw [same]; rfl, by simp [Instr.handles]⟩
  case assign.assign name value next name' value' next' =>
    obtain ⟨rfl, rfl, place⟩ := same
    exact ⟨fun _ => next', rfl, by simpa [Instr.handles] using partners place⟩
  case branch.branch cond yes no join cond' yes' no' join' =>
    obtain ⟨rfl, yesPlace, noPlace, joinPlace⟩ := same
    have yesLive : g.Live yes := edges yes (by simp [Node.successors])
    have noLive : g.Live no := edges no (by simp [Node.successors])
    have joins := partners joinPlace
    have yeses : Function.update (partner g f) join join' yes = yes' := by
      rw [update_partner joins yesLive, (partners yesPlace).eq yesLive]
    have noes : Function.update (partner g f) join join' no = no' := by
      rw [update_partner joins noLive, (partners noPlace).eq noLive]
    refine ⟨Function.update (partner g f) join join', ?_, ?_⟩
    · rw [Instr.relabel, yeses, noes, Function.update_self]
    · simpa [Instr.handles, yeses, noes] using ⟨partners yesPlace, partners noPlace, joins⟩
  case loop.loop cond body join cond' body' join' =>
    obtain ⟨rfl, bodyPlace, joinPlace⟩ := same
    have bodies : body' = partner g f body := (partners bodyPlace).eq (edges body (by simp [Node.successors]))
    have joins : join' = partner g f join := (partners joinPlace).eq (edges join (by simp [Node.successors]))
    subst bodies joins
    exact ⟨partner g f, rfl, by simpa [Instr.handles] using ⟨partners bodyPlace, partners joinPlace⟩⟩

theorem alike_partner (arena : g.Arena) (arena' : f.Arena) (size : g.reachable.length = f.reachable.length)
    (same : g.script = f.script) : g.Alike f (partner g f) where
  entry := by
    have partners : Partners g f g.entry f.entry :=
      partners_of_idxOf arena arena' size (by rw [arena.idxOf_entry, arena'.idxOf_entry])
    exact (partners.eq (Live.entry g)).symm
  injOn := (bijOn_partner arena arena' size).injOn
  node := by
    intro id n live found
    have live' := (partner_partner arena arena' size live).1
    obtain ⟨instr', found'⟩ := arena'.live_node live'
    have walked' := arena'.walk_idxOf live' found'
    have step : g.script[g.reachable.idxOf id]? = f.script[g.reachable.idxOf id]? := by rw [same]
    rw [script, script, List.getElem?_map, List.getElem?_map, arena.walk_idxOf live found,
      ← idxOf_partner arena size live, walked'] at step
    obtain ⟨ψ, rfl, partners⟩ := exists_relabel (partners_of_idxOf arena arena' size)
      (fun h edge => live.edge (targets_eq found ▸ edge)) (Option.some.inj step)
    exact ⟨ψ, found', fun h handle => ⟨(partners h handle).live, (partners h handle).eq⟩⟩

/-- The listing is a canonical form: two graphs have the same listing iff they look alike under
    a one-to-one correspondence of their live nodes. -/
theorem dump_eq_iff (built : g.Built) (built' : f.Built) (readable : g.Readable) (readable' : f.Readable) :
    g.dump = f.dump ↔ ∃ φ, Set.BijOn φ { id | g.Live id } { id | f.Live id } ∧ g.Alike f φ := by
  have arena := built.arena
  have arena' := built'.arena
  constructor
  · intro same
    have scripts := script_of_dump arena arena' readable readable' same
    have size : g.reachable.length = f.reachable.length := by
      simpa [script, arena.length_walk, arena'.length_walk] using congrArg List.length scripts
    exact ⟨partner g f, bijOn_partner arena arena' size, alike_partner arena arena' size scripts⟩
  · rintro ⟨φ, -, alike⟩
    exact (alike.dump arena arena').symm

/-- A loop that is entered in its middle. Its body leaves the loop by a branch whose join is dead. -/
def countdown : List Call :=
  [.addReturn (.int (-1)),
    .addReturn (.var "x"),
    .addLoop (.binary .lt (.var "x") (.int 3)) 1,
    .addBranch (.binary .eq (.var "x") (.int 2)) 2 3 0,
    .addAssign "x" (.binary .sub (.var "x") (.int 1)) 4,
    .setBody 3 5,
    .setEntry 5]

/-- The same, filled in another order, with a node of its own for the dead join. -/
def countdownAgain : List Call :=
  [.addReturn (.var "x"),
    .addReturn (.bool true),
    .addReturn (.int (-1)),
    .addLoop (.binary .lt (.var "x") (.int 3)) 3,
    .addBranch (.binary .eq (.var "x") (.int 2)) 1 4 2,
    .addAssign "x" (.binary .sub (.var "x") (.int 1)) 5,
    .setBody 4 6,
    .setEntry 6]

theorem reachable_countdown : (build countdown).reachable = [5, 4, 2, 3, 1] := by
  have entry : (build countdown).entry = 5 := rfl
  have nodes : (build countdown).nodes =
      #[⟨0, .quit⟩, ⟨1, .ret (.int (-1))⟩, ⟨2, .ret (.var "x")⟩,
        ⟨3, .loop (.binary .lt (.var "x") (.int 3)) 5 1⟩, ⟨4, .branch (.binary .eq (.var "x") (.int 2)) 2 3 0⟩,
        ⟨5, .assign "x" (.binary .sub (.var "x") (.int 1)) 4⟩] := rfl
  simp [reachable, search_cons, search_nil, node?, targets, successors, Node.successors, entry, nodes]

theorem reachable_countdownAgain : (build countdownAgain).reachable = [6, 5, 1, 4, 3] := by
  have entry : (build countdownAgain).entry = 6 := rfl
  have nodes : (build countdownAgain).nodes =
      #[⟨0, .quit⟩, ⟨1, .ret (.var "x")⟩, ⟨2, .ret (.bool true)⟩, ⟨3, .ret (.int (-1))⟩,
        ⟨4, .loop (.binary .lt (.var "x") (.int 3)) 6 3⟩, ⟨5, .branch (.binary .eq (.var "x") (.int 2)) 1 4 2⟩,
        ⟨6, .assign "x" (.binary .sub (.var "x") (.int 1)) 5⟩] := rfl
  simp [reachable, search_cons, search_nil, node?, targets, successors, Node.successors, entry, nodes]

theorem dump_eq_iff_countdown :
    let g := build countdown
    let f := build countdownAgain
    g.Readable ∧ f.Readable ∧ g.dump = f.dump ∧
      ∃ φ, Set.BijOn φ { id | g.Live id } { id | f.Live id } ∧ g.Alike f φ ∧ φ 5 = 6 := by
  intro g f
  have readable : g.Readable := forall_live (by decide)
  have readable' : f.Readable := forall_live (by decide)
  have same : g.dump = f.dump := by
    rw [dump, dump, walk, walk, reachable_countdown, reachable_countdownAgain]
    decide
  obtain ⟨φ, bijOn, alike⟩ := (dump_eq_iff ⟨_, rfl⟩ ⟨_, rfl⟩ readable readable').mp same
  exact ⟨readable, readable', same, φ, bijOn, alike, alike.entry⟩

end Graph

end FlowFold
