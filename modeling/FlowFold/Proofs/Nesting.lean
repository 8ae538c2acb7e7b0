import FlowFold.Proofs.Copy
import FlowFold.Proofs.Interpreter

/-! # Loops are entered at the top

A loop heads a region of a graph if its body starts in the region, nothing in the region
leads out of it except to the loop, and nothing outside leads into it except the loop by
its body. Here the join of a branch counts as a way out of the branch, even if control
never takes it. In a nested graph every loop heads a region.

The graphs of programs are nested. The nodes of a statement stand in a row in the arena,
and lead to each other or to the follower of the statement; the nodes of a loop's body come
right after the loop, and the follower of the body is the loop.
-/

namespace FlowFold

/-- The handles that are copied before a node is: all but the body of a loop. -/
def Instr.ahead : Instr → List NodeId
  | loop _ _ join => [join]
  | instr => instr.handles

def Instr.body? : Instr → Option NodeId
  | loop _ body _ => some body
  | _ => none

theorem Instr.mem_handles {instr : Instr} {h : NodeId} :
    h ∈ instr.handles ↔ h ∈ instr.ahead ∨ instr.body? = some h := by
  cases instr <;> simp [handles, ahead, body?]
  tauto

namespace Graph

def handles (g : Graph) (id : NodeId) : List NodeId := ((g.node? id).map (·.instr.handles)).getD []

def ahead (g : Graph) (id : NodeId) : List NodeId := ((g.node? id).map (·.instr.ahead)).getD []

def body? (g : Graph) (id : NodeId) : Option NodeId := (g.node? id).bind (·.instr.body?)

/-- Control comes into the region only from the loop, by its body, and leaves it only to
    the loop. -/
structure Headed (g : Graph) (loop : NodeId) (region : Set NodeId) : Prop where
  entry : g.entry ∉ region
  body : ∀ b, g.body? loop = some b → b = loop ∨ b ∈ region
  stays : ∀ x ∈ region, ∀ h ∈ g.handles x, h = loop ∨ h ∈ region
  ahead : ∀ x, ∀ h ∈ g.ahead x, h ∈ region → x ∈ region
  through : ∀ x b, g.body? x = some b → b ∈ region → x = loop ∨ x ∈ region

def Nested (g : Graph) : Prop := ∀ loop b, g.body? loop = some b → ∃ region, g.Headed loop region

variable {g : Graph}

section

variable {id : NodeId} {n : Node}

theorem handles_eq (found : g.node? id = some n) : g.handles id = n.instr.handles := by
  simp [handles, found]

theorem ahead_eq (found : g.node? id = some n) : g.ahead id = n.instr.ahead := by
  simp [ahead, found]

theorem body?_eq (found : g.node? id = some n) : g.body? id = n.instr.body? := by
  simp [body?, found]

theorem mem_handles {h : NodeId} : h ∈ g.handles id ↔ h ∈ g.ahead id ∨ g.body? id = some h := by
  cases found : g.node? id with
  | none => simp [handles, ahead, body?, found]
  | some n => rw [handles_eq found, ahead_eq found, body?_eq found, Instr.mem_handles]

theorem Arena.ahead_lt (arena : g.Arena) {h : NodeId} (ahead : h ∈ g.ahead id) : h < id := by
  cases found : g.node? id with
  | none => simp [Graph.ahead, found] at ahead
  | some n =>
      have placed := arena.placed found
      rw [ahead_eq found] at ahead
      obtain ⟨own, instr⟩ := n
      cases instr with
      | quit | ret => simp [Instr.ahead, Instr.handles] at ahead
      | assign name value next =>
          obtain rfl : h = next := by simpa [Instr.ahead, Instr.handles] using ahead
          exact placed
      | branch cond yes no join =>
          obtain rfl | rfl | rfl : h = yes ∨ h = no ∨ h = join := by
            simpa [Instr.ahead, Instr.handles] using ahead
          · exact placed.1
          · exact placed.2.1
          · exact placed.2.2
      | loop cond body join =>
          obtain rfl : h = join := by simpa [Instr.ahead] using ahead
          exact placed.2

theorem Arena.handle_lt (arena : g.Arena) {h : NodeId} (handle : h ∈ g.handles id) :
    id < g.size ∧ h < g.size := by
  cases found : g.node? id with
  | none => simp [handles, found] at handle
  | some n =>
      have inside := lt_size_of_node? found
      rw [handles_eq found] at handle
      exact ⟨inside, (arena.placed found).handles_lt inside h handle⟩

theorem Arena.handles_zero (arena : g.Arena) : g.handles 0 = [] := by
  rw [handles_eq arena.node_zero]
  rfl

end

/-! ## The nodes of a statement -/

/-- The nodes between a loop and `top` are its region, as far as the nodes from `low` to
    `high` go; from elsewhere one gets to these only by the doors, and these are outside. -/
structure Encloses (g : Graph) (low high : Nat) (doors : List Nat) (loop top : Nat) : Prop where
  top_le : top ≤ high
  body : ∀ b : Nat, g.body? loop = some b → loop ≤ b ∧ b < top
  stays : ∀ x, loop < x → x < top → ∀ h : Nat, h ∈ g.handles x → loop ≤ h ∧ h < top
  through : ∀ x, low ≤ x → x < high → x ≠ loop → ∀ h : Nat, h ∈ g.handles x →
    loop < h → h < top → loop < x ∧ x < top
  outside : ∀ d ∈ doors, loop < d → top ≤ d

/-- The nodes from `low` to `high` lead to each other and to a follower before them. The
    doors are where one may get to them from elsewhere. -/
structure Laid (g : Graph) (low high next : Nat) (doors : List Nat) : Prop where
  before : next < low
  le : low ≤ high
  door : ∀ d ∈ doors, d = next ∨ low ≤ d ∧ d < high
  leads : ∀ x, low ≤ x → x < high → ∀ h : Nat, h ∈ g.handles x → h = next ∨ low ≤ h ∧ h < high
  loops : ∀ loop b, low ≤ loop → loop < high → g.body? loop = some b →
    ∃ top, g.Encloses low high doors loop top

namespace Laid

variable {low middle high next next' start start' : Nat} {doors : List Nat}

theorem empty (before : next < low) : g.Laid low low next [next] where
  before := before
  le := Nat.le_refl _
  door := by simp
  leads := by omega
  loops := by omega

theorem last (laid : g.Laid low high next doors) (plain : g.body? high = none)
    (leads : ∀ h : Nat, h ∈ g.handles high → h = next ∨ h ∈ doors) : g.Laid low (high + 1) next [high] where
  before := laid.before
  le := Nat.le_succ_of_le laid.le
  door := by
    have le := laid.le
    simp
    omega
  leads := by
    intro x above below h handle
    by_cases new : x = high
    · subst new
      rcases leads h handle with follower | door
      · exact .inl follower
      · exact (laid.door h door).imp_right fun ⟨low, high⟩ => ⟨low, Nat.lt_succ_of_lt high⟩
    · have old := laid.leads x above (by omega) h handle
      omega
  loops := by
    intro loop b above below isLoop
    have old : loop < high := by
      by_contra new
      obtain rfl : loop = high := by omega
      rw [plain] at isLoop
      cases isLoop
    obtain ⟨top, encloses⟩ := laid.loops loop b above old isLoop
    have top_le := encloses.top_le
    refine ⟨top, by omega, encloses.body, encloses.stays, ?_, by simpa using fun _ => top_le⟩
    intro x above' below' other h handle inside inside'
    by_cases new : x = high
    · subst new
      have before := laid.before
      rcases leads h handle with rfl | door
      · omega
      · have out := encloses.outside h door inside
        omega
    · exact encloses.through x above' (by omega) other h handle inside inside'

/-- Two rows of nodes, of which the second is followed by the door of the first or by its
    follower. -/
theorem append (first : g.Laid low middle next [start]) (second : g.Laid middle high next' [start'])
    (follows : next' = next ∨ next' = start) : g.Laid low high next [start, start'] := by
  have before := first.before
  have le := first.le
  have le' := second.le
  have door := first.door start (by simp)
  have door' := second.door start' (by simp)
  constructor
  case before => exact before
  case le => omega
  case door =>
    intro d member
    obtain rfl | rfl : d = start ∨ d = start' := by simpa using member
    · omega
    · omega
  case leads =>
    intro x above below h handle
    by_cases left : x < middle
    · have inside := first.leads x above left h handle
      omega
    · have inside := second.leads x (by omega) below h handle
      omega
  case loops =>
    intro loop b above below isLoop
    by_cases left : loop < middle
    · obtain ⟨top, encloses⟩ := first.loops loop b above left isLoop
      have top_le := encloses.top_le
      have out := encloses.outside start (by simp)
      refine ⟨top, by omega, encloses.body, encloses.stays, ?_, ?_⟩
      · intro x above' below' other h handle inside inside'
        by_cases left' : x < middle
        · exact encloses.through x above' left' other h handle inside inside'
        · have leads := second.leads x (by omega) below' h handle
          omega
      · intro d member
        obtain rfl | rfl : d = start ∨ d = start' := by simpa using member
        · exact out
        · omega
    · obtain ⟨top, encloses⟩ := second.loops loop b (by omega) below isLoop
      have top_le := encloses.top_le
      have out := encloses.outside start' (by simp)
      refine ⟨top, top_le, encloses.body, encloses.stays, ?_, ?_⟩
      · intro x above' below' other h handle inside inside'
        by_cases left' : x < middle
        · have leads := first.leads x above' left' h handle
          omega
        · exact encloses.through x (by omega) below' other h handle inside inside'
      · intro d member
        obtain rfl | rfl : d = start ∨ d = start' := by simpa using member
        · omega
        · exact out

theorem fewer {doors' : List Nat} (laid : g.Laid low high next doors) (sub : doors' ⊆ doors) :
    g.Laid low high next doors' where
  before := laid.before
  le := laid.le
  door := fun d member => laid.door d (sub member)
  leads := laid.leads
  loops := by
    intro loop b above below isLoop
    obtain ⟨top, encloses⟩ := laid.loops loop b above below isLoop
    exact ⟨top, { encloses with outside := fun d member => encloses.outside d (sub member) }⟩

theorem loop {loop : Nat} (inner : g.Laid (loop + 1) high loop [start]) (before : next < loop)
    (handles : g.handles loop = [start, next]) (body : g.body? loop = some start) :
    g.Laid loop high next [loop] := by
  have le := inner.le
  have door := inner.door start (by simp)
  have leads : ∀ x, loop ≤ x → x < high → ∀ h : Nat, h ∈ g.handles x → h = next ∨ loop ≤ h ∧ h < high := by
    intro x above below h handle
    by_cases here : x = loop
    · subst here
      obtain rfl | rfl : h = start ∨ h = next := by simpa [handles] using handle
      · omega
      · exact .inl rfl
    · have inside := inner.leads x (by omega) below h handle
      omega
  have within : loop < high := Nat.lt_of_succ_le le
  refine ⟨before, by omega, by simpa using Or.inr within, leads, fun other b above below isLoop => ?_⟩
  by_cases here : other = loop
  · subst here
    obtain rfl : start = b := by simpa [body] using isLoop
    refine ⟨high, Nat.le_refl _, ?_, ?_, ?_, by simp⟩
    · intro b isBody
      obtain rfl : start = b := by simpa [body] using isBody
      omega
    · intro x above' below' h handle
      have inside := inner.leads x above' below' h handle
      omega
    · omega
  · obtain ⟨top, encloses⟩ := inner.loops other b (by omega) below isLoop
    have out := encloses.outside start (by simp)
    refine ⟨top, encloses.top_le, encloses.body, encloses.stays, ?_, ?_⟩
    · intro x above' below' different h handle inside inside'
      by_cases here' : x = loop
      · subst here'
        obtain rfl | rfl : h = start ∨ h = next := by simpa [handles] using handle
        · omega
        · omega
      · exact encloses.through x (by omega) below' different h handle inside inside'
    · simp
      omega

/-- If the rows reach from one end of the arena to the other, every loop heads a region. -/
theorem nested (arena : g.Arena) (laid : g.Laid 1 g.size 0 [g.entry]) : g.Nested := by
  intro loop b isLoop
  have handle : b ∈ g.handles loop := mem_handles.mpr (.inr isLoop)
  have notQuit : loop ≠ 0 := by
    rintro rfl
    simp [arena.handles_zero] at handle
  obtain ⟨top, encloses⟩ := laid.loops loop b (Nat.pos_of_ne_zero notQuit) (arena.handle_lt handle).1 isLoop
  have through : ∀ x h : Nat, h ∈ g.handles x → loop < h → h < top → x = loop ∨ loop < x ∧ x < top := by
    intro x h handle inside inside'
    by_cases here : x = loop
    · exact .inl here
    · have notQuit : x ≠ 0 := by
        rintro rfl
        simp [arena.handles_zero] at handle
      exact .inr (encloses.through x (by omega) (arena.handle_lt handle).1 here h handle inside inside')
  refine ⟨{ x : Nat | loop < x ∧ x < top }, ?_, ?_, ?_, ?_, ?_⟩
  · rintro ⟨above, below⟩
    have out := encloses.outside g.entry (by simp) above
    omega
  · intro b' isBody
    obtain ⟨above, below⟩ := encloses.body b' isBody
    exact (Nat.eq_or_lt_of_le above).imp Eq.symm fun above => ⟨above, below⟩
  · rintro x ⟨above, below⟩ h handle
    obtain ⟨above', below'⟩ := encloses.stays x above below h handle
    exact (Nat.eq_or_lt_of_le above').imp Eq.symm fun above => ⟨above, below'⟩
  · rintro x h ahead ⟨above, below⟩
    have down := arena.ahead_lt ahead
    rcases through x h (mem_handles.mpr (.inl ahead)) above below with rfl | inside
    · exact absurd above (Nat.lt_asymm down)
    · exact inside
  · rintro x b' isBody ⟨above, below⟩
    exact through x b' (mem_handles.mpr (.inr isBody)) above below

end Laid

end Graph

theorem Stmt.Forms.laid {next start : NodeId} {g g' : Graph} {s : Stmt} (forms : Forms next g s start g')
    (whole : Graph) (same : ∀ id, g.size ≤ id → id < g'.size → whole.node? id = g'.node? id)
    (inside : next < g.size) : whole.Laid g.size g'.size next [start] := by
  induction forms with
  | nil => exact .empty inside
  | @cons next middle start g g₁ g₂ s rest others first ihOthers ihFirst =>
      have laidOthers := ihOthers (Graph.same_before first.grown same) inside
      have laidFirst := ihFirst (fun id above => same id (Nat.le_trans others.grown.size above))
        (others.start_lt inside)
      exact (laidOthers.append laidFirst (.inr rfl)).fewer (by simp)
  | assign =>
      have found := Graph.found_last (.refl _) same
      rw [Graph.size_add]
      refine (Graph.Laid.empty inside).last ?_ ?_
      · rw [Graph.body?_eq found]
        rfl
      · simp [Graph.handles_eq found, Instr.handles]
  | ret =>
      have found := Graph.found_last (.refl _) same
      rw [Graph.size_add]
      refine (Graph.Laid.empty inside).last ?_ ?_
      · rw [Graph.body?_eq found]
        rfl
      · simp [Graph.handles_eq found, Instr.handles]
  | ifThen first _ ih =>
      have found := Graph.found_last first.grown same
      rw [Graph.size_add]
      refine (ih (Graph.same_before (.add _ _) same) inside).last ?_ ?_
      · rw [Graph.body?_eq found]
        rfl
      · simp [Graph.handles_eq found, Instr.handles]
  | ifElse first second _ ihFirst ihSecond =>
      have found := Graph.found_last (first.grown.trans second.grown) same
      have same₂ := Graph.same_before (.add _ _) same
      have laidFirst := ihFirst (Graph.same_before second.grown same₂) inside
      have laidSecond := ihSecond (fun id above => same₂ id (Nat.le_trans first.grown.size above))
        (Nat.lt_of_lt_of_le inside first.grown.size)
      rw [Graph.size_add]
      refine (laidFirst.append laidSecond (.inl rfl)).last ?_ ?_
      · rw [Graph.body?_eq found]
        rfl
      · simp [Graph.handles_eq found, Instr.handles]
  | @«while» next start g g₁ g₂ cond body before inner closed ih =>
      obtain ⟨found, sameBody⟩ := Graph.found_loop inner.grown closed same
      obtain ⟨-, _, _, _, _, -, rfl⟩ := Graph.setBody_eq_ok.mp closed
      have laid := ih sameBody (by simp)
      rw [Graph.size_add] at laid
      rw [Graph.size_modify]
      exact laid.loop inside (Graph.handles_eq found) (Graph.body?_eq found)

theorem Stmt.Forms.nested {program : Stmt} {g g' : Graph} (arena : g.Arena)
    (forms : Forms 0 .empty program g.entry g') (same : ∀ id, g.node? id = g'.node? id) : g.Nested := by
  have size : g'.size = g.size := by
    refine Nat.le_antisymm ?_ ?_
    · exact Graph.node?_eq_none.mp ((same g.size).symm.trans (Graph.node?_eq_none.mpr (Nat.le_refl _)))
    · exact Graph.node?_eq_none.mp ((same g'.size).trans (Graph.node?_eq_none.mpr (Nat.le_refl _)))
  have laid := forms.laid g (fun id _ _ => same id) Graph.Arena.empty.nonempty
  rw [size] at laid
  exact laid.nested arena

end FlowFold
