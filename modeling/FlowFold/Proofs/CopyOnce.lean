import FlowFold.Proofs.Nesting

/-! # A nested graph is copied once

A node is in the cache only after its copy has been made, so a node that is met again while
the nodes it leads to are being copied is copied twice. The one way back to such a node is
through the body of a loop. In a nested graph the body of a loop is met after the loop
only, and the loop is in the cache by then.

So every node of the new arena but `quit` is in the cache, as the copy of one node.
-/

namespace FlowFold

namespace Copying

/-- Add the copy of a node and note it. -/
def place (c : Copying) (id : NodeId) (instr : Instr) : Copying :=
  ({ c with graph := (c.graph.add instr).2 }.note id c.graph.size).2

/-- Copying the nodes of a list one after the other, as far as the cache and the size of
    the arena go. -/
inductive Copies (g : Graph) : List NodeId → Copying → Copying → Prop where
  | nil {c : Copying} : Copies g [] c c
  | hit {id : NodeId} {rest : List NodeId} {c c' : Copying} (cached : id ∈ c.cache)
      (others : Copies g rest c c') : Copies g (id :: rest) c c'
  | quit {id : NodeId} {rest : List NodeId} {c c' : Copying} (miss : id ∉ c.cache)
      (others : Copies g rest (c.note id 0).2 c') : Copies g (id :: rest) c c'
  | node {id : NodeId} {rest : List NodeId} {c c₁ c₂ c' : Copying} {instr : Instr} {graph : Graph}
      (miss : id ∉ c.cache) (ahead : Copies g (g.ahead id) c c₁)
      (body : Copies g (g.body? id).toList (c₁.place id instr) c₂)
      (size : graph.size = c₂.graph.size)
      (others : Copies g rest ({ c₂ with graph }.note id c₁.graph.size).2 c') : Copies g (id :: rest) c c'

variable {g : Graph} {ids ids' : List NodeId} {c c₁ c₂ c' : Copying} {id copy : NodeId}

theorem mem_note {k : NodeId} : k ∈ (c.note id copy).2.cache ↔ id = k ∨ k ∈ c.cache := by
  simp [note, Std.ExtTreeMap.mem_insert]

theorem note_self : (c.note id copy).2.cache[id]? = some copy :=
  Std.ExtTreeMap.getElem?_insert_self

theorem note_of_ne {k : NodeId} (ne : id ≠ k) : (c.note id copy).2.cache[k]? = c.cache[k]? := by
  rw [note, Std.ExtTreeMap.getElem?_insert, if_neg (by simpa using ne)]

theorem ne_of_miss {k x : NodeId} (miss : id ∉ c.cache) (entry : c.cache[k]? = some x) : id ≠ k := by
  rintro rfl
  exact miss (mem_iff_entry.mpr ⟨x, entry⟩)

theorem note_eq_self (noted : c.cache[id]? = some copy) : (c.note id copy).2 = c := by
  have same : c.cache.insert id copy = c.cache := by
    refine Std.ExtTreeMap.ext_getElem? fun k => ?_
    by_cases eq : id = k
    · subst eq
      exact note_self.trans noted.symm
    · exact note_of_ne eq
  rw [note, same]

namespace Copies

theorem append (first : Copies g ids c c₁) (second : Copies g ids' c₁ c₂) : Copies g (ids ++ ids') c c₂ := by
  induction first with
  | nil => exact second
  | hit cached _ ih => exact .hit cached (ih second)
  | quit miss _ ih => exact .quit miss (ih second)
  | node miss ahead body size _ _ _ ih => exact .node miss ahead body size (ih second)

theorem last {instr : Instr} (miss : id ∉ c.cache) (plain : g.body? id = none)
    (ahead : Copies g (g.ahead id) c c₁) : Copies g [id] c (c₁.place id instr) := by
  have noBody (c : Copying) : Copies g (g.body? id).toList c c := by
    rw [plain]
    exact .nil
  refine .node miss ahead (noBody (c₁.place id instr)) rfl ?_
  -- A loop is noted again after its body; for other nodes this changes nothing.
  have same : ((c₁.place id instr).note id c₁.graph.size).2 = c₁.place id instr := note_eq_self note_self
  rw [same]
  exact .nil

theorem kept (copies : Copies g ids c c') {k x : NodeId} (entry : c.cache[k]? = some x) :
    c'.cache[k]? = some x := by
  induction copies with
  | nil => exact entry
  | hit _ _ ih => exact ih entry
  | quit miss _ ih => exact ih ((note_of_ne (ne_of_miss miss entry)).trans entry)
  | node miss _ _ _ _ ihAhead ihBody ihOthers =>
      have ne := ne_of_miss miss entry
      exact ihOthers ((note_of_ne ne).trans (ihBody ((note_of_ne ne).trans (ihAhead entry))))

theorem mem_kept (copies : Copies g ids c c') {k : NodeId} (member : k ∈ c.cache) : k ∈ c'.cache := by
  obtain ⟨x, entry⟩ := mem_iff_entry.mp member
  exact mem_iff_entry.mpr ⟨x, copies.kept entry⟩

/-- Copying stays in a set of nodes if it cannot leave the set by a node that is still to be
    copied. -/
theorem confined (copies : Copies g ids c c') (region : Set NodeId)
    (closed : ∀ x ∈ region, x ∉ c.cache → ∀ h ∈ g.handles x, h ∈ region) (starts : ∀ id ∈ ids, id ∈ region)
    {k : NodeId} (member : k ∈ c'.cache) : k ∈ c.cache ∨ k ∈ region := by
  induction copies with
  | nil => exact .inl member
  | hit _ _ ih => exact ih closed (fun id later => starts id (.tail _ later)) member
  | quit _ _ ih =>
      rcases ih (fun x inside miss => closed x inside fun old => miss (mem_note.mpr (.inr old)))
        (fun id later => starts id (.tail _ later)) member with old | inside
      · rcases mem_note.mp old with rfl | old
        · exact .inr (starts _ (.head _))
        · exact .inl old
      · exact .inr inside
  | @node id rest c c₁ c₂ c' instr graph miss ahead body size others ihAhead ihBody ihOthers =>
      have here : id ∈ region := starts id (.head _)
      have handles := closed id here miss
      have grown₁ : ∀ x ∈ c.cache, x ∈ (c₁.place id instr).cache :=
        fun x old => mem_note.mpr (.inr (ahead.mem_kept old))
      have grown₂ : ∀ x ∈ c.cache, x ∈ ({ c₂ with graph }.note id c₁.graph.size).2.cache :=
        fun x old => mem_note.mpr (.inr (body.mem_kept (grown₁ x old)))
      rcases ihOthers (fun x inside miss => closed x inside fun old => miss (grown₂ x old))
        (fun id later => starts id (.tail _ later)) member with old | inside
      · rcases mem_note.mp old with rfl | old
        · exact .inr here
        rcases ihBody (fun x inside miss => closed x inside fun old => miss (grown₁ x old))
          (fun h isBody => handles h (Graph.mem_handles.mpr (.inr (by simpa using isBody)))) old with
          old | inside
        · rcases mem_note.mp old with rfl | old
          · exact .inr here
          exact ihAhead closed (fun h below => handles h (Graph.mem_handles.mpr (.inl below))) old
        · exact .inr inside
      · exact .inr inside

end Copies

/-- Every node of the new arena but `quit` is in the cache. -/
def Covers (c : Copying) : Prop := ∀ x, 0 < x → x < c.graph.size → ∃ k : NodeId, c.cache[k]? = some x

/-- Whatever region a node is in, the loop that heads the region has been copied. -/
def Entered (g : Graph) (c : Copying) (id : NodeId) : Prop :=
  ∀ loop region, g.Headed loop region → id ∈ region → loop ∈ c.cache

theorem Entered.grow (entered : Entered g c id) (grows : ∀ k ∈ c.cache, k ∈ c'.cache) : Entered g c' id :=
  fun loop region headed inside => grows loop (entered loop region headed inside)

theorem Copies.not_mem (arena : g.Arena) (nested : g.Nested) (copies : Copies g (g.ahead id) c c₁)
    (entered : Entered g c id) (miss : id ∉ c.cache) : id ∉ c₁.cache := by
  -- What may be copied: nodes before this one, and the regions of loops before this one.
  let before : Set NodeId :=
    { x | x < id ∨ ∃ loop region, loop < id ∧ loop ∉ c.cache ∧ g.Headed loop region ∧ x ∈ region }
  have closed : ∀ x ∈ before, x ∉ c.cache → ∀ h ∈ g.handles x, h ∈ before := by
    rintro x (down | ⟨loop, region, down, left, headed, inside⟩) miss h handle
    · rcases Graph.mem_handles.mp handle with ahead | isBody
      · exact .inl (Nat.lt_trans (arena.ahead_lt ahead) down)
      · obtain ⟨region, headed⟩ := nested x h isBody
        rcases headed.body h isBody with rfl | inside
        · exact .inl down
        · exact .inr ⟨x, region, down, miss, headed, inside⟩
    · rcases headed.stays x inside h handle with rfl | inside
      · exact .inl down
      · exact .inr ⟨loop, region, down, left, headed, inside⟩
  intro member
  rcases copies.confined before closed (fun h ahead => .inl (arena.ahead_lt ahead)) member with
    old | down | ⟨loop, region, -, left, headed, inside⟩
  · exact miss old
  · exact Nat.lt_irrefl _ down
  · exact left (entered loop region headed inside)

theorem Covers.note (covers : c.Covers) (noted : id ∉ c.cache ∨ c.cache[id]? = some copy) :
    (c.note id copy).2.Covers := by
  intro x pos inside
  obtain ⟨k, entry⟩ := covers x pos inside
  by_cases eq : id = k
  · subst eq
    rcases noted with miss | old
    · exact absurd rfl (ne_of_miss miss entry)
    · exact ⟨id, note_self.trans (old.symm.trans entry)⟩
  · exact ⟨k, (note_of_ne eq).trans entry⟩

theorem Covers.place (covers : c.Covers) (miss : id ∉ c.cache) {instr : Instr} :
    (c.place id instr).Covers := by
  intro x pos inside
  by_cases new : x = c.graph.size
  · exact ⟨id, new ▸ note_self⟩
  · have old : x < c.graph.size := by
      have le : x < c.graph.size + 1 := by simpa [Copying.place, Copying.note] using inside
      omega
    obtain ⟨k, entry⟩ := covers x pos old
    exact ⟨k, (note_of_ne (ne_of_miss miss entry)).trans entry⟩

/-- The nodes that a node leads to are copied before it. Then the node is not in the cache,
    so noting its copy there overwrites nothing. -/
theorem Copies.covers (arena : g.Arena) (nested : g.Nested) (copies : Copies g ids c c')
    (entered : ∀ id ∈ ids, Entered g c id) (covers : c.Covers) : c'.Covers := by
  induction copies with
  | nil => exact covers
  | hit _ _ ih => exact ih (fun id later => entered id (.tail _ later)) covers
  | quit miss _ ih =>
      refine ih (fun id later => (entered id (.tail _ later)).grow fun k old => ?_) (covers.note (.inl miss))
      exact mem_note.mpr (.inr old)
  | @node id rest c c₁ c₂ c' instr graph miss ahead body size others ihAhead ihBody ihOthers =>
      have here : Entered g c id := entered id (.head _)
      have enteredAhead : ∀ h ∈ g.ahead id, Entered g c h := fun h below loop region headed inside =>
        here loop region headed (headed.ahead id h below inside)
      have covers₁ := ihAhead enteredAhead covers
      have fresh := ahead.not_mem arena nested here miss
      have enteredBody : ∀ b ∈ (g.body? id).toList, Entered g (c₁.place id instr) b := by
        intro b isBody loop region headed inside
        rcases headed.through id b (by simpa using isBody) inside with rfl | inside
        · exact mem_note.mpr (.inl rfl)
        · exact mem_note.mpr (.inr (ahead.mem_kept (here loop region headed inside)))
      have covers₂ := ihBody enteredBody (covers₁.place fresh)
      have noted : c₂.cache[id]? = some c₁.graph.size := body.kept note_self
      have closed : Covers { c₂ with graph } := fun x pos inside => covers₂ x pos (size ▸ inside)
      refine ihOthers (fun id later => (entered id (.tail _ later)).grow fun k old => ?_)
        (closed.note (.inr noted))
      exact mem_note.mpr (.inr (body.mem_kept (mem_note.mpr (.inr (ahead.mem_kept old)))))

end Copying

open Copying in
theorem Analysis.copy_copies {a : Analysis} {g : Graph} (depth : Nat) {id : NodeId} {c : Copying}
    {r : NodeId × Copying} (copied : a.copy g depth id c = .ok r) : Copies g [id] c r.2 := by
  induction depth generalizing id c r with
  | zero => cases copied
  | succ depth ih =>
      cases hit : c.cache[id]? with
      | some done =>
          obtain rfl : (done, c) = r := by simpa [copy, hit] using copied
          exact .hit (mem_iff_entry.mpr ⟨done, hit⟩) .nil
      | none =>
          have miss : id ∉ c.cache := fun member => by simp [mem_iff_entry, hit] at member
          simp only [copy, hit, except_bind_eq_ok, Graph.node_eq_ok] at copied
          obtain ⟨⟨own, instr⟩, found, copied⟩ := copied
          cases instr with
          | quit =>
              obtain rfl : c.note id 0 = r := by simpa [pure, Except.pure] using copied
              exact .quit miss .nil
          | assign name value next =>
              simp only [except_bind_eq_ok, Graph.addAssign_eq_ok] at copied
              obtain ⟨fact, -, ⟨next', c₁⟩, copyNext, -, ⟨-, rfl⟩, copied⟩ := copied
              obtain rfl := Except.ok.inj copied
              exact .last miss (Graph.body?_eq found) (by rw [Graph.ahead_eq found]; exact ih copyNext)
          | ret result =>
              simp only [except_bind_eq_ok] at copied
              obtain ⟨fact, -, copied⟩ := copied
              obtain rfl := Except.ok.inj copied
              exact .last miss (Graph.body?_eq found) (by rw [Graph.ahead_eq found]; exact .nil)
          | branch cond yes no join =>
              simp only [except_bind_eq_ok, Graph.addBranch_eq_ok] at copied
              obtain ⟨fact, -, ⟨yes', c₁⟩, copyYes, ⟨no', c₂⟩, copyNo, ⟨join', c₃⟩, copyJoin, -, ⟨-, rfl⟩,
                copied⟩ := copied
              obtain rfl := Except.ok.inj copied
              have ahead := (ih copyYes).append ((ih copyNo).append (ih copyJoin))
              exact .last miss (Graph.body?_eq found) (by rw [Graph.ahead_eq found]; exact ahead)
          | loop cond body join =>
              simp only [except_bind_eq_ok, Graph.addLoop_eq_ok] at copied
              obtain ⟨fact, -, ⟨join', c₁⟩, copyJoin, -, ⟨-, rfl⟩, ⟨body', c₂⟩, copyBody, graph, closed,
                copied⟩ := copied
              obtain rfl := Except.ok.inj copied
              obtain ⟨-, _, _, _, _, -, rfl⟩ := Graph.setBody_eq_ok.mp closed
              refine .node miss (by rw [Graph.ahead_eq found]; exact ih copyJoin)
                (by rw [Graph.body?_eq found]; exact ih copyBody) (Graph.size_modify _ _ _) .nil

end FlowFold
