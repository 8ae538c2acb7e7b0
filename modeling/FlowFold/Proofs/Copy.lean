import Mathlib.Logic.Function.Basic
import FlowFold.Analysis.Rebuild
import FlowFold.Proofs.Soundness

/-! # The copy that folding makes

Each node of the copied graph stems from a node of the graph. A node may well be copied
twice: a loop that is entered in its body leads back to nodes whose copies are still being
made. So the copies are told apart by position, and a map takes each position of the new
arena to the node it stems from. Up to this map a copy is the node itself, with its
expression folded. While the body of a loop is being copied, the copy of the loop is
pending, and its body may still be a stand-in.

Copying goes down, to smaller handles, or into the body of a loop that was not in the
cache before. This bounds its depth by the number of loops times the size of the arena.
-/

namespace FlowFold

namespace Instr

def handles : Instr → List NodeId
  | quit | ret _ => []
  | assign _ _ next => [next]
  | branch _ yes no join => [yes, no, join]
  | loop _ body join => [body, join]

def relabel (f : NodeId → NodeId) : Instr → Instr
  | quit => quit
  | assign name value next => assign name value (f next)
  | ret result => ret result
  | branch cond yes no join => branch cond (f yes) (f no) (f join)
  | loop cond body join => loop cond (f body) (f join)

/-- The instruction, with another body if it is a loop. -/
def withBody (body : NodeId) : Instr → Instr
  | loop cond _ join => loop cond body join
  | instr => instr

variable {f f' : NodeId → NodeId} {instr : Instr} {size position : Nat}

theorem relabel_congr (same : ∀ h ∈ instr.handles, f h = f' h) : instr.relabel f = instr.relabel f' := by
  cases instr <;> simp_all [relabel, handles]

theorem relabel_relabel : (instr.relabel f).relabel f' = instr.relabel (f' ∘ f) := by
  cases instr <;> rfl

theorem relabel_eq_self (same : ∀ h ∈ instr.handles, f h = h) : instr.relabel f = instr := by
  cases instr <;> simp_all [relabel, handles]

theorem handles_relabel : (instr.relabel f).handles = instr.handles.map f := by
  cases instr <;> rfl

theorem Placed.handles_lt (placed : instr.Placed size position) (inside : position < size) :
    ∀ h ∈ instr.handles, h < size := by
  cases instr with
  | quit | ret => simp [handles]
  | assign name value next => simpa [handles] using Nat.lt_trans placed inside
  | branch cond yes no join =>
      simpa [handles] using ⟨Nat.lt_trans placed.1 inside, Nat.lt_trans placed.2.1 inside,
        Nat.lt_trans placed.2.2 inside⟩
  | loop cond body join => simpa [handles] using ⟨placed.1, Nat.lt_trans placed.2 inside⟩

theorem Placed.of_handles (below : ∀ h ∈ instr.handles, h < size) (nonempty : 0 < size)
    (ends : instr ≠ quit) : instr.Placed (size + 1) size := by
  cases instr with
  | quit => exact absurd rfl ends
  | ret => exact nonempty
  | assign | branch => simpa [handles, Placed] using below
  | loop cond body join =>
      obtain ⟨inBody, inJoin⟩ : body < size ∧ join < size := by simpa [handles] using below
      exact ⟨Nat.lt_succ_of_lt inBody, inJoin⟩

end Instr

namespace Analysis

def exprAt (a : Analysis) (id : NodeId) (k : Key) (e : Expr) : Expr :=
  match a.factAt id k with
  | .ok fact => fact.folded e
  | .error _ => e

/-- The instruction of a node's copy, up to its handles. -/
def foldedInstr (a : Analysis) (n : Node) : Instr :=
  match n.instr with
  | .quit => .quit
  | .assign name value next => .assign name (a.exprAt n.id (.var name) value) next
  | .ret result => .ret (a.exprAt n.id (.expr n.id) result)
  | .branch cond yes no join => .branch (a.exprAt n.id (.expr n.id) cond) yes no join
  | .loop cond body join => .loop (a.exprAt n.id (.expr n.id) cond) body join

theorem handles_foldedInstr (a : Analysis) (n : Node) : (a.foldedInstr n).handles = n.instr.handles := by
  obtain ⟨id, instr⟩ := n
  cases instr <;> rfl

end Analysis

theorem Node.expression_of_key {n : Node} {k : Key} (own : n.key? = some k) :
    ∃ e, n.expression = some e := by
  obtain ⟨id, instr⟩ := n
  cases instr with
  | quit => cases own
  | assign | ret | branch | loop => exact ⟨_, rfl⟩

namespace Copying

/-- The new arena consists of folded copies, and the cache knows some of them. -/
structure Mirrors (a : Analysis) (g : Graph) (origin : NodeId → NodeId) (pending : List NodeId)
    (c : Copying) : Prop where
  arena : c.graph.Arena
  quit : origin 0 = 0
  node : ∀ {id instr}, c.graph.node? id = some ⟨id, instr⟩ → ∃ n, g.node? (origin id) = some n ∧
    (instr.relabel origin = a.foldedInstr n ∨
      id ∈ pending ∧ ∃ body, (instr.relabel origin).withBody body = a.foldedInstr n)
  cached : ∀ {id copy : NodeId}, c.cache[id]? = some copy → copy < c.graph.size ∧ origin copy = id

/-- Copying only adds: to the arena, to the map of origins and to the keys of the cache. -/
structure Grows (origin : NodeId → NodeId) (c : Copying) (origin' : NodeId → NodeId) (c' : Copying) :
    Prop where
  size : c.graph.size ≤ c'.graph.size
  kept : ∀ id, id < c.graph.size → origin' id = origin id
  cache : ∀ id ∈ c.cache, id ∈ c'.cache

structure Copied (a : Analysis) (g : Graph) (origin : NodeId → NodeId) (pending : List NodeId)
    (c : Copying) (id : NodeId) (r : NodeId × Copying) (origin' : NodeId → NodeId) : Prop where
  mirrors : r.2.Mirrors a g origin' pending
  grows : Grows origin c origin' r.2
  inside : r.1 < r.2.graph.size
  stems : origin' r.1 = id
  noted : id ∈ r.2.cache

variable {a : Analysis} {g : Graph} {origin origin' origin'' : NodeId → NodeId}
  {pending : List NodeId} {c c' c'' : Copying} {id : NodeId} {n : Node} {instr : Instr}
  {r : NodeId × Copying}

theorem Grows.refl (origin : NodeId → NodeId) (c : Copying) : Grows origin c origin c :=
  ⟨Nat.le_refl _, fun _ _ => rfl, fun _ member => member⟩

theorem Grows.trans (first : Grows origin c origin' c') (second : Grows origin' c' origin'' c'') :
    Grows origin c origin'' c'' where
  size := Nat.le_trans first.size second.size
  kept := fun id inside => by
    rw [second.kept id (Nat.lt_of_lt_of_le inside first.size), first.kept id inside]
  cache := fun id member => second.cache id (first.cache id member)

theorem Copied.later (copied : Copied a g origin pending c id r origin')
    (grows : Grows origin' r.2 origin'' c'') : r.1 < c''.graph.size ∧ origin'' r.1 = id :=
  ⟨Nat.lt_of_lt_of_le copied.inside grows.size, by rw [grows.kept _ copied.inside, copied.stems]⟩

theorem Copied.after (copied : Copied a g origin' pending c' id r origin'')
    (grows : Grows origin c origin' c') : Copied a g origin pending c id r origin'' :=
  { copied with grows := grows.trans copied.grows }

theorem Mirrors.note (mirrors : c.Mirrors a g origin pending) {copy : NodeId}
    (inside : copy < c.graph.size) (stems : origin copy = id) :
    Copied a g origin pending c id (c.note id copy) origin where
  mirrors :=
    { mirrors with
      cached := by
        intro other found entry
        rw [Copying.note, Std.ExtTreeMap.getElem?_insert] at entry
        split at entry
        · rename_i same
          obtain rfl : id = other := by simpa using same
          cases entry
          exact ⟨inside, stems⟩
        · exact mirrors.cached entry }
  grows := ⟨Nat.le_refl _, fun _ _ => rfl, fun _ member => Std.ExtTreeMap.mem_insert.mpr (.inr member)⟩
  inside := inside
  stems := stems
  noted := Std.ExtTreeMap.mem_insert_self

theorem Mirrors.add (mirrors : c.Mirrors a g origin pending) (instr : Instr)
    (found : g.node? id = some n) (below : ∀ h ∈ instr.handles, h < c.graph.size)
    (ends : instr ≠ .quit) {more : List NodeId} (fewer : ∀ x ∈ pending, x ∈ more)
    (folded : instr.relabel origin = a.foldedInstr n ∨
      c.graph.size ∈ more ∧ ∃ body, (instr.relabel origin).withBody body = a.foldedInstr n) :
    Copied a g origin more c id ({ c with graph := (c.graph.add instr).2 }.note id c.graph.size)
      (Function.update origin c.graph.size id) := by
  have kept : ∀ h, h < c.graph.size → Function.update origin c.graph.size id h = origin h :=
    fun h inside => Function.update_of_ne (Nat.ne_of_lt inside) id origin
  have added : Mirrors a g (Function.update origin c.graph.size id) more
      { c with graph := (c.graph.add instr).2 } :=
    { arena := mirrors.arena.add (.of_handles below mirrors.arena.nonempty ends)
      quit := (kept 0 mirrors.arena.nonempty).trans mirrors.quit
      node := by
        intro x instr' here
        rw [Graph.node?_add] at here
        split at here
        · rename_i same
          cases here
          rw [same, Function.update_self, Instr.relabel_congr fun h member => kept h (below h member)]
          exact ⟨n, found, folded⟩
        · have inside := Graph.lt_size_of_node? here
          rw [kept x inside, Instr.relabel_congr fun h member =>
            kept h ((mirrors.arena.placed here).handles_lt inside h member)]
          obtain ⟨n', found', folded'⟩ := mirrors.node here
          exact ⟨n', found', folded'.imp_right fun open_ => ⟨fewer x open_.1, open_.2⟩⟩
      cached := by
        intro other copy entry
        obtain ⟨inside, stems⟩ := mirrors.cached entry
        rw [Graph.size_add, kept copy inside]
        exact ⟨Nat.lt_succ_of_lt inside, stems⟩ }
  have inside : c.graph.size < (c.graph.add instr).2.size := by
    rw [Graph.size_add]
    exact Nat.lt_succ_self _
  have grows : Grows origin c (Function.update origin c.graph.size id)
      { c with graph := (c.graph.add instr).2 } :=
    ⟨Nat.le_of_lt inside, kept, fun _ member => member⟩
  exact (added.note inside (Function.update_self _ _ _)).after grows

theorem Mirrors.close {loop body join copy : NodeId} {cond : Expr}
    (mirrors : c.Mirrors a g origin (loop :: pending)) (inside : loop < c.graph.size)
    (stems : origin loop = id) (found : g.node? id = some ⟨id, .loop cond body join⟩)
    (inBody : copy < c.graph.size) (stemsBody : origin copy = body) :
    ∃ graph, c.graph.setBody loop copy = .ok graph ∧ graph.size = c.graph.size ∧
      Mirrors a g origin pending { c with graph } := by
  obtain ⟨⟨own, instr⟩, here⟩ := Graph.exists_node? inside
  obtain rfl : own = loop := mirrors.arena.id_eq here
  obtain ⟨n, found', folded⟩ := mirrors.node here
  obtain rfl : n = ⟨id, .loop cond body join⟩ := by
    rw [stems, found] at found'
    exact (Option.some.inj found').symm
  -- Whether it was pending or not, the copy is a loop with the right condition and join.
  obtain ⟨old, join', rfl, stemsJoin⟩ : ∃ old join',
      instr = .loop (a.exprAt id (.expr id) cond) old join' ∧ origin join' = join := by
    cases instr with
    | loop cond' old join' =>
        rcases folded with same | ⟨-, other, same⟩
        · injection same with sameCond _ sameJoin
          exact ⟨old, join', by rw [sameCond], sameJoin⟩
        · injection same with sameCond _ sameJoin
          exact ⟨old, join', by rw [sameCond], sameJoin⟩
    | quit | assign | ret | branch =>
        simp [Instr.relabel, Instr.withBody, Analysis.foldedInstr] at folded
  have done := Graph.setBody_eq_ok.mpr ⟨inBody, own, _, old, join', here, rfl⟩
  refine ⟨_, done, Graph.size_modify _ _ _, mirrors.arena.setBody done, mirrors.quit, ?_, ?_⟩
  · intro x instr' there
    rw [Graph.node?_modify] at there
    split at there
    · rename_i same
      subst same
      rw [here, Option.map_some, Option.some.injEq, Node.mk.injEq] at there
      obtain ⟨-, rfl⟩ := there
      rw [stems]
      exact ⟨_, found, .inl (by rw [Instr.relabel, stemsBody, stemsJoin]; rfl)⟩
    · rename_i different
      obtain ⟨n, found', folded'⟩ := mirrors.node there
      refine ⟨n, found', folded'.imp_right fun open_ => ⟨?_, open_.2⟩⟩
      exact (List.mem_cons.mp open_.1).resolve_left (Ne.symm different)
  · intro other copy' entry
    rw [Graph.size_modify]
    exact mirrors.cached entry

end Copying

def Node.isLoopLeft (cache : Std.ExtTreeMap NodeId NodeId) (n : Node) : Bool :=
  match n.instr with
  | .loop .. => decide (n.id ∉ cache)
  | _ => false

theorem Node.isLoopLeft_mono {cache cache' : Std.ExtTreeMap NodeId NodeId}
    (grows : ∀ id ∈ cache, id ∈ cache') (n : Node) (left : n.isLoopLeft cache' = true) :
    n.isLoopLeft cache = true := by
  obtain ⟨id, instr⟩ := n
  cases instr with
  | loop =>
      simp only [isLoopLeft, decide_eq_true_eq] at left ⊢
      exact fun member => left (grows id member)
  | quit | assign | ret | branch => cases left

namespace Graph

/-- How many loops of a graph are not in the cache. -/
def loopsLeft (g : Graph) (cache : Std.ExtTreeMap NodeId NodeId) : Nat :=
  g.nodes.toList.countP (Node.isLoopLeft cache)

variable {g : Graph} {cache cache' : Std.ExtTreeMap NodeId NodeId}

theorem loopsLeft_empty (g : Graph) : g.loopsLeft ∅ = g.loopCount := by
  unfold loopsLeft loopCount Node.isLoopLeft
  refine List.countP_congr fun n _ => ?_
  cases n.instr <;> simp

theorem loopsLeft_le (g : Graph) (grows : ∀ id ∈ cache, id ∈ cache') : g.loopsLeft cache' ≤ g.loopsLeft cache :=
  List.countP_mono_left fun n _ => n.isLoopLeft_mono grows

theorem loopsLeft_lt (grows : ∀ id ∈ cache, id ∈ cache') {id : NodeId} {cond : Expr}
    {body join : NodeId} (found : g.node? id = some ⟨id, .loop cond body join⟩) (before : id ∉ cache)
    (now : id ∈ cache') : g.loopsLeft cache' < g.loopsLeft cache := by
  have member : ⟨id, .loop cond body join⟩ ∈ g.nodes.toList :=
    Array.mem_toList_iff.mpr (Array.mem_of_getElem? found)
  obtain ⟨older, newer, nodes⟩ := List.append_of_mem member
  have fewerOlder := List.countP_mono_left (l := older) fun n _ => n.isLoopLeft_mono grows
  have fewerNewer := List.countP_mono_left (l := newer) fun n _ => n.isLoopLeft_mono grows
  unfold loopsLeft
  rw [nodes, List.countP_append, List.countP_append, List.countP_cons_of_neg (by simpa [Node.isLoopLeft] using now),
    List.countP_cons_of_pos (by simpa [Node.isLoopLeft] using before)]
  omega

end Graph

namespace Graph.Analysed

variable {g : Graph} {a : Analysis} {id : NodeId} {n : Node}

theorem factAt_live (analysed : g.Analysed a.out) (live : g.Live id) (found : g.node? id = some n)
    {k : Key} {e : Expr} (own : n.key? = some k) (has : n.expression = some e) :
    ∃ fact, a.factAt id k = .ok fact ∧ (a.out.getD id ∅)[k]? = some fact ∧
      e.evaluate (g.into a.out id) = .ok fact := by
  rcases Node.transfer_eq_ok.mp (analysed.transfer_eq live found) with
    ⟨quit, -⟩ | ⟨k', e', fact, own', has', known, env⟩
  · simp [Node.key?, quit] at own
  · obtain rfl : k' = k := Option.some.inj (own'.symm.trans own)
    obtain rfl : e' = e := Option.some.inj (has'.symm.trans has)
    have entry : (a.out.getD id ∅)[k']? = some fact := by
      rw [env, Std.ExtTreeMap.getElem?_insert_self]
    refine ⟨fact, ?_, entry, known⟩
    rw [Analysis.factAt, getElem?_out ((analysed.solution.domain id).mpr live)]
    simp only [entry]

theorem factAt_dead (analysed : g.Analysed a.out) (dead : ¬ g.Live id) (k : Key) :
    a.factAt id k = .ok .nothing := by
  have absent := Std.ExtTreeMap.getElem?_eq_none fun member =>
    dead ((analysed.solution.domain id).mp member)
  rw [Analysis.factAt, absent]

theorem factAt_total (analysed : g.Analysed a.out) (found : g.node? id = some n) {k : Key}
    (own : n.key? = some k) : ∃ fact, a.factAt id k = .ok fact := by
  by_cases live : g.Live id
  · obtain ⟨e, has⟩ := Node.expression_of_key own
    obtain ⟨fact, ok, -⟩ := analysed.factAt_live live found own has
    exact ⟨fact, ok⟩
  · exact ⟨.nothing, analysed.factAt_dead live k⟩

end Graph.Analysed

/-! ## Copying a node of each kind -/

namespace Analysis

variable {a : Analysis} {g : Graph} {depth : Nat} {id : NodeId} {c c₁ c₂ c₃ : Copying} {fact : Fact}

theorem copy_quit (miss : c.cache[id]? = none) (found : g.node? id = some ⟨id, .quit⟩) :
    a.copy g (depth + 1) id c = .ok (c.note id 0) := by
  simp [copy, miss, Graph.node_eq_ok.mpr found, bind, Except.bind, pure, Except.pure]

theorem copy_assign {name : String} {value : Expr} {next next' : NodeId} (miss : c.cache[id]? = none)
    (found : g.node? id = some ⟨id, .assign name value next⟩)
    (known : a.factAt id (.var name) = .ok fact) (copyNext : a.copy g depth next c = .ok (next', c₁))
    (inside : next' < c₁.graph.size) :
    a.copy g (depth + 1) id c =
      .ok ({ c₁ with graph := (c₁.graph.add (.assign name (fact.folded value) next')).2 }.note id
        c₁.graph.size) := by
  simp [copy, miss, Graph.node_eq_ok.mpr found, known, copyNext, Graph.addAssign, Graph.require, inside,
    bind, Except.bind, pure, Except.pure]

theorem copy_ret {result : Expr} (miss : c.cache[id]? = none)
    (found : g.node? id = some ⟨id, .ret result⟩) (known : a.factAt id (.expr id) = .ok fact) :
    a.copy g (depth + 1) id c =
      .ok ({ c with graph := (c.graph.add (.ret (fact.folded result))).2 }.note id c.graph.size) := by
  simp [copy, miss, Graph.node_eq_ok.mpr found, known, Graph.addReturn, bind, Except.bind, pure,
    Except.pure]

theorem copy_branch {cond : Expr} {yes no join yes' no' join' : NodeId} (miss : c.cache[id]? = none)
    (found : g.node? id = some ⟨id, .branch cond yes no join⟩)
    (known : a.factAt id (.expr id) = .ok fact) (copyYes : a.copy g depth yes c = .ok (yes', c₁))
    (copyNo : a.copy g depth no c₁ = .ok (no', c₂)) (copyJoin : a.copy g depth join c₂ = .ok (join', c₃))
    (inside : yes' < c₃.graph.size ∧ no' < c₃.graph.size ∧ join' < c₃.graph.size) :
    a.copy g (depth + 1) id c =
      .ok ({ c₃ with graph := (c₃.graph.add (.branch (fact.folded cond) yes' no' join')).2 }.note id
        c₃.graph.size) := by
  simp [copy, miss, Graph.node_eq_ok.mpr found, known, copyYes, copyNo, copyJoin, Graph.addBranch,
    Graph.require, inside, bind, Except.bind, pure, Except.pure]

theorem copy_loop {cond : Expr} {body join body' join' : NodeId} {graph : Graph}
    (miss : c.cache[id]? = none) (found : g.node? id = some ⟨id, .loop cond body join⟩)
    (known : a.factAt id (.expr id) = .ok fact) (copyJoin : a.copy g depth join c = .ok (join', c₁))
    (inside : join' < c₁.graph.size)
    (copyBody : a.copy g depth body ({ c₁ with
      graph := (c₁.graph.add (.loop (fact.folded cond) 0 join')).2 }.note id c₁.graph.size).2 =
        .ok (body', c₂))
    (closed : c₂.graph.setBody c₁.graph.size body' = .ok graph) :
    a.copy g (depth + 1) id c = .ok ({ c₂ with graph }.note id c₁.graph.size) := by
  simp [copy, miss, Graph.node_eq_ok.mpr found, known, copyJoin, Graph.addLoop, Graph.require, inside,
    copyBody, closed, bind, Except.bind, pure, Except.pure]

end Analysis

namespace Copying

variable {a : Analysis} {g : Graph}

/-- The depth that is left below a node suffices for a smaller handle. -/
theorem depth_down {left left' size depth id next : Nat} (le : left' ≤ left) (down : next < id)
    (deep : left * size + id < depth + 1) : left' * size + next < depth := by
  have fewer := Nat.mul_le_mul_right size le
  omega

theorem depth_body {left left' size depth id body : Nat} (lt : left' < left) (inside : body < size)
    (deep : left * size + id < depth + 1) : left' * size + body < depth := by
  have fewer := Nat.mul_le_mul_right size (Nat.succ_le_of_lt lt)
  rw [Nat.succ_mul] at fewer
  omega

theorem Mirrors.copy (analysed : g.Analysed a.out) (depth : Nat) {id : NodeId} {c : Copying}
    {origin : NodeId → NodeId} {pending : List NodeId} (mirrors : c.Mirrors a g origin pending)
    (inside : id < g.size) (deep : g.loopsLeft c.cache * g.size + id < depth) :
    ∃ r origin', a.copy g depth id c = .ok r ∧ Copied a g origin pending c id r origin' := by
  induction depth generalizing id c origin pending with
  | zero => exact absurd deep (Nat.not_lt_zero _)
  | succ depth ih =>
      cases hit : c.cache[id]? with
      | some done =>
          obtain ⟨inArena, stems⟩ := mirrors.cached hit
          refine ⟨(done, c), origin, by simp [Analysis.copy, hit], mirrors, .refl _ _, inArena, stems, ?_⟩
          exact mem_iff_entry.mpr ⟨done, hit⟩
      | none =>
          obtain ⟨⟨own, instr⟩, found⟩ := Graph.exists_node? inside
          obtain rfl : own = id := analysed.arena.id_eq found
          have placed := analysed.arena.placed found
          cases instr with
          | quit =>
              obtain rfl : own = 0 := placed
              exact ⟨_, origin, Analysis.copy_quit hit found,
                mirrors.note mirrors.arena.nonempty mirrors.quit⟩
          | assign name value next =>
              obtain ⟨fact, known⟩ := analysed.factAt_total found rfl
              obtain ⟨⟨next', c₁⟩, origin₁, copyNext, copied⟩ := ih mirrors
                (Nat.lt_trans placed inside) (depth_down (Nat.le_refl _) placed deep)
              have added := copied.mirrors.add (.assign name (fact.folded value) next') found
                (by simpa [Instr.handles] using copied.inside) (by simp) (fun _ => id)
                (.inl (by simp [Instr.relabel, copied.stems, Analysis.foldedInstr, Analysis.exprAt, known]))
              exact ⟨_, _, Analysis.copy_assign hit found known copyNext copied.inside,
                added.after copied.grows⟩
          | ret result =>
              obtain ⟨fact, known⟩ := analysed.factAt_total found rfl
              have added := mirrors.add (.ret (fact.folded result)) found (by simp [Instr.handles])
                (by simp) (fun _ => id)
                (.inl (by simp [Instr.relabel, Analysis.foldedInstr, Analysis.exprAt, known]))
              exact ⟨_, _, Analysis.copy_ret hit found known, added⟩
          | branch cond yes no join =>
              obtain ⟨fact, known⟩ := analysed.factAt_total found rfl
              obtain ⟨r₁, origin₁, copyYes, copied₁⟩ := ih mirrors
                (Nat.lt_trans placed.1 inside) (depth_down (Nat.le_refl _) placed.1 deep)
              have left₁ := g.loopsLeft_le copied₁.grows.cache
              obtain ⟨r₂, origin₂, copyNo, copied₂⟩ := ih copied₁.mirrors
                (Nat.lt_trans placed.2.1 inside) (depth_down left₁ placed.2.1 deep)
              have left₂ := g.loopsLeft_le (copied₁.grows.trans copied₂.grows).cache
              obtain ⟨r₃, origin₃, copyJoin, copied₃⟩ := ih copied₂.mirrors
                (Nat.lt_trans placed.2.2 inside) (depth_down left₂ placed.2.2 deep)
              obtain ⟨inYes, stemsYes⟩ := copied₁.later (copied₂.grows.trans copied₃.grows)
              obtain ⟨inNo, stemsNo⟩ := copied₂.later copied₃.grows
              have ins := And.intro inYes (And.intro inNo copied₃.inside)
              have added := copied₃.mirrors.add (.branch (fact.folded cond) r₁.1 r₂.1 r₃.1) found
                (by simpa [Instr.handles] using ins) (by simp) (fun _ => id)
                (.inl (by simp [Instr.relabel, stemsYes, stemsNo, copied₃.stems, Analysis.foldedInstr,
                  Analysis.exprAt, known]))
              exact ⟨_, _, Analysis.copy_branch hit found known copyYes copyNo copyJoin ins,
                added.after ((copied₁.grows.trans copied₂.grows).trans copied₃.grows)⟩
          | loop cond body join =>
              obtain ⟨fact, known⟩ := analysed.factAt_total found rfl
              obtain ⟨r₁, origin₁, copyJoin, copied₁⟩ := ih mirrors
                (Nat.lt_trans placed.2 inside) (depth_down (Nat.le_refl _) placed.2 deep)
              -- The copy of the loop is pending until the body has been copied.
              have started := copied₁.mirrors.add (.loop (fact.folded cond) 0 r₁.1) found
                (by simpa [Instr.handles] using ⟨copied₁.mirrors.arena.nonempty, copied₁.inside⟩)
                (by simp) (fun _ => List.mem_cons_of_mem r₁.2.graph.size)
                (.inr ⟨List.mem_cons_self, body, by
                  simp [Instr.relabel, Instr.withBody, copied₁.stems, Analysis.foldedInstr,
                    Analysis.exprAt, known]⟩)
              have before : own ∉ c.cache := fun member => by simp [mem_iff_entry, hit] at member
              have left := Graph.loopsLeft_lt (copied₁.grows.trans started.grows).cache found before
                started.noted
              obtain ⟨r₂, origin₂, copyBody, copied₂⟩ := ih started.mirrors placed.1
                (depth_body left placed.1 deep)
              obtain ⟨inLoop, stemsLoop⟩ := started.later copied₂.grows
              obtain ⟨graph, closed, size, mirrors'⟩ := copied₂.mirrors.close inLoop stemsLoop found
                copied₂.inside copied₂.stems
              have same : Grows origin₂ r₂.2 origin₂ { r₂.2 with graph } :=
                ⟨Nat.le_of_eq size.symm, fun _ _ => rfl, fun _ => id⟩
              have noted := mirrors'.note (size ▸ inLoop) stemsLoop
              exact ⟨_, _, Analysis.copy_loop hit found known copyJoin copied₁.inside copyBody closed,
                noted.after ((copied₁.grows.trans started.grows).trans (copied₂.grows.trans same))⟩

theorem Mirrors.start (arena : g.Arena) : Mirrors a g id [] ⟨.empty, ∅⟩ where
  arena := .empty
  quit := rfl
  node := by
    intro x instr here
    obtain rfl : x = 0 := by
      have inside := Graph.lt_size_of_node? here
      exact Nat.lt_one_iff.mp inside
    obtain rfl : instr = .quit := by
      cases here
      rfl
    exact ⟨_, arena.node_zero, .inl rfl⟩
  cached := by
    intro x copy entry
    simp at entry

end Copying

structure Graph.FoldOf (f : Graph) (a : Analysis) (g : Graph) (origin : NodeId → NodeId) : Prop where
  arena : f.Arena
  entry : origin f.entry = g.entry
  node : ∀ {id instr}, f.node? id = some ⟨id, instr⟩ → ∃ n, g.node? (origin id) = some n ∧
    instr.relabel origin = a.foldedInstr n

theorem Graph.FoldOf.exists_copy {f g : Graph} {a : Analysis} {origin : NodeId → NodeId}
    (fold : f.FoldOf a g origin) {x : NodeId} (inside : x < f.size) :
    ∃ instr n, f.node? x = some ⟨x, instr⟩ ∧ g.node? (origin x) = some n ∧
      instr.relabel origin = a.foldedInstr n := by
  obtain ⟨⟨own, instr⟩, here⟩ := Graph.exists_node? inside
  obtain rfl : own = x := fold.arena.id_eq here
  obtain ⟨n, found, folded⟩ := fold.node here
  exact ⟨instr, n, here, found, folded⟩

theorem Copying.Copied.foldOf {a : Analysis} {g : Graph} {origin origin' : NodeId → NodeId} {c : Copying}
    {r : NodeId × Copying} (made : Copied a g origin [] c g.entry r origin') :
    Graph.FoldOf { r.2.graph with entry := r.1 } a g origin' where
  arena :=
    have arena := made.mirrors.arena
    ⟨arena.nonempty, made.inside, arena.id_eq, arena.placed⟩
  entry := made.stems
  node := by
    intro x instr here
    obtain ⟨n, found, folded | ⟨none, -⟩⟩ := made.mirrors.node here
    · exact ⟨n, found, folded⟩
    · cases none

theorem Analysis.rebuild_copied {a : Analysis} {g : Graph} (analysed : g.Analysed a.out)
    (hasRun : a.hasRun = true) :
    ∃ r origin, a.copy g ((g.loopCount + 1) * g.size) g.entry ⟨.empty, ∅⟩ = .ok r ∧
      a.rebuild g = .ok { r.2.graph with entry := r.1 } ∧
      Copying.Copied a g id [] ⟨.empty, ∅⟩ g.entry r origin := by
  have start : g.loopsLeft ∅ * g.size + g.entry < (g.loopCount + 1) * g.size := by
    rw [g.loopsLeft_empty, Nat.succ_mul]
    exact Nat.add_lt_add_left analysed.arena.entry_lt _
  obtain ⟨r, origin, copied, made⟩ := (Copying.Mirrors.start analysed.arena).copy analysed _
    analysed.arena.entry_lt start
  refine ⟨r, origin, copied, ?_, made⟩
  simp only [rebuild, except_bind_eq_ok]
  refine ⟨(), by simp [require, hasRun], _, copied, ?_⟩
  exact Graph.setEntry_eq_ok.mpr ⟨made.inside, rfl⟩

theorem Analysis.rebuild_foldOf {a : Analysis} {g : Graph} (analysed : g.Analysed a.out)
    (hasRun : a.hasRun = true) : ∃ f origin, a.rebuild g = .ok f ∧ f.FoldOf a g origin := by
  obtain ⟨r, origin, -, rebuilt, made⟩ := rebuild_copied analysed hasRun
  exact ⟨_, origin, rebuilt, made.foldOf⟩

end FlowFold
