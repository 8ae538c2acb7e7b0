import Mathlib.Data.List.TakeWhile
import FlowFold.Proofs.Scopes

/-! # Pruned walks

A walk over a whole tree comes to its end if and only if the tree is solid. Then so does every walk
that leaves out the inside of some pieces, and it is enough to look at the list of the visits.

A walk lists a piece right before everything inside it, and all that is inside is deeper. What
comes after it, if anything, is not deeper, since it belongs to a piece further out. So in the list
of a whole tree the inside of a piece is the run of deeper entries that follows the piece, and a walk
that does not enter some pieces can be read off that list by dropping these runs.

Both facts are about a walk with more entries behind it. All that matters of these is the depth of
the first one.
-/

namespace FlowFold

/-! ## Walks that come to their end -/

theorem exists_mapM_ok {α β : Type} {f : α → Except Fault β} {l : List α} :
    (∃ ys, l.mapM f = .ok ys) ↔ ∀ x ∈ l, ∃ y, f x = .ok y := by
  induction l with
  | nil => exact iff_of_true ⟨[], rfl⟩ (by simp)
  | cons x l ih =>
      rw [List.forall_mem_cons, ← ih, List.mapM_cons]
      cases f x with
      | error fault => simp [bind, Except.bind]
      | ok y => cases l.mapM f <;> simp [bind, Except.bind, pure, Except.pure]

namespace Visit

/-- The parts of a piece, each at its place. There are none if the walk would stop with a fault. -/
def inner (v : Visit) : List Visit := v.parts.toOption.getD []

section

variable {v : Visit} {ps : List Piece} (h : v.piece.parts = .ok ps)

include h

theorem parts_eq : v.parts = .ok (ps.mapIdx fun i q => ⟨i :: v.place, q⟩) := by
  rw [parts, h]
  rfl

theorem inner_eq : v.inner = ps.mapIdx fun i q => ⟨i :: v.place, q⟩ := by
  rw [inner, parts_eq h]
  rfl

end

theorem sizeOf_lt_of_mem_inner {v w : Visit} (part : w ∈ v.inner) : sizeOf w.piece < sizeOf v.piece := by
  cases h : v.parts with
  | error fault => simp [inner, h, Except.toOption] at part
  | ok ws =>
      rw [inner, h] at part
      exact sizeOf_lt_of_mem_parts h part

/-- What a walk lists that enters some pieces only. -/
def listing (enter : Visit → Bool) (v : Visit) : List Visit :=
  v :: if enter v then v.inner.attach.flatMap fun w =>
    have := sizeOf_lt_of_mem_inner w.2
    listing enter w.1 else []
termination_by sizeOf v.piece

theorem listing_eq (enter : Visit → Bool) (v : Visit) :
    v.listing enter = v :: if enter v then v.inner.flatMap (listing enter) else [] := by
  rw [listing]
  simp

theorem depth_of_mem_inner {v w : Visit} (part : w ∈ v.inner) : w.depth = v.depth + 1 := by
  cases h : v.piece.parts with
  | error fault => simp [inner, parts, h, Except.map, Except.toOption] at part
  | ok ps =>
      rw [inner_eq h] at part
      obtain ⟨i, inside, rfl⟩ := List.mem_mapIdx.mp part
      rfl

theorem depth_le_of_mem_listing {enter : Visit → Bool} {v w : Visit} (member : w ∈ v.listing enter) :
    v.depth ≤ w.depth := by
  rw [listing_eq, List.mem_cons] at member
  rcases member with rfl | below
  · exact Nat.le_refl _
  · split at below
    · obtain ⟨u, part, member⟩ := List.mem_flatMap.mp below
      have smaller := sizeOf_lt_of_mem_inner part
      have deeper := depth_le_of_mem_listing member
      rw [depth_of_mem_inner part] at deeper
      exact Nat.le_of_succ_le deeper
    · cases below
termination_by sizeOf v.piece

def inside (v : Visit) : List Visit := v.inner.flatMap (listing fun _ => true)

/-- The first entry, if there is one, is no deeper than `depth`. -/
def Shallow (depth : Nat) (entries : List Visit) : Prop := ∀ w ∈ entries.head?, w.depth ≤ depth

theorem Shallow.nil (depth : Nat) : Shallow depth [] := by
  intro w first
  cases first

theorem Shallow.mono {depth deeper : Nat} {entries : List Visit} (shallow : Shallow depth entries)
    (le : depth ≤ deeper) : Shallow deeper entries :=
  fun w first => Nat.le_trans (shallow w first) le

/-- Each of several pieces starts a walk of its own. -/
theorem Shallow.row {depth : Nat} {rest : List Visit} (shallow : Shallow depth rest) (enter : Visit → Bool)
    {vs : List Visit} (level : ∀ v ∈ vs, v.depth = depth) :
    Shallow depth (vs.flatMap (listing enter) ++ rest) := by
  cases vs with
  | nil => exact shallow
  | cons v vs =>
      rw [List.flatMap_cons, listing_eq]
      intro w first
      cases first
      exact Nat.le_of_eq (level v (.head _))

section Run

variable {v : Visit} {rest : List Visit} (shallow : Shallow v.depth rest)

include shallow

end Run

/-- Every entry is followed by the inside of its piece, and then by nothing that is deeper. -/
def Nested (entries : List Visit) : Prop :=
  ∀ ⦃before v after⦄, entries = before ++ v :: after → ∃ rest, after = v.inside ++ rest ∧ Shallow v.depth rest

theorem Nested.row {depth : Nat} {vs : List Visit} (level : ∀ v ∈ vs, v.depth = depth)
    (each : ∀ v ∈ vs, Nested (v.listing fun _ => true)) : Nested (vs.flatMap (listing fun _ => true)) := by
  induction vs with
  | nil =>
      intro before w after split
      simp at split
  | cons v vs ih =>
      obtain ⟨here, levelLater⟩ := List.forall_mem_cons.mp level
      have later := ih levelLater fun v' member => each v' (.tail _ member)
      intro before w after split
      rw [List.flatMap_cons, List.append_eq_append_iff] at split
      rcases split with ⟨before', -, others⟩ | ⟨found, first, others⟩
      · exact later others
      · cases found with
        | nil =>
            have start : vs.flatMap (listing fun _ => true) = [] ++ w :: after := others.symm
            exact later start
        | cons u found =>
            obtain ⟨rfl, rfl⟩ := List.cons.inj others
            obtain ⟨rest, rfl, shallow⟩ := each v (.head _) first
            refine ⟨rest ++ vs.flatMap (listing fun _ => true), List.append_assoc _ _ _, ?_⟩
            cases rest with
            | nil =>
                -- The next walk of the row starts at `depth`, and this one never goes above that.
                have member : w ∈ v.listing fun _ => true := by rw [first]; simp
                have deeper := depth_le_of_mem_listing member
                rw [here] at deeper
                simpa using ((Shallow.nil depth).row (fun _ => true) levelLater).mono deeper
            | cons u rest => exact shallow

/-- Entries of a walk without those inside the pieces that are cut: after each entry that is kept
    and whose piece is cut, the longest run of deeper entries is dropped. -/
def prune (cut : Visit → Bool) : List Visit → List Visit
  | [] => []
  | v :: rest =>
      v :: if cut v then prune cut (rest.dropWhile fun w => v.depth < w.depth) else prune cut rest
termination_by entries => entries.length
decreasing_by
  · exact Nat.lt_succ_of_le (List.length_dropWhile_le _ _)
  · exact Nat.lt_succ_self _

/-- Whatever follows that is not deeper, pruning takes the entries of a walk to those of another. -/
def Prunes (cut : Visit → Bool) (depth : Nat) (entries left : List Visit) : Prop :=
  ∀ ⦃rest⦄, Shallow depth rest → prune cut (entries ++ rest) = left ++ prune cut rest

theorem Prunes.row {cut : Visit → Bool} {depth : Nat} {vs : List Visit} (level : ∀ v ∈ vs, v.depth = depth)
    (each : ∀ v ∈ vs, Prunes cut v.depth (v.listing fun _ => true) (v.listing fun w => !cut w)) :
    Prunes cut depth (vs.flatMap (listing fun _ => true)) (vs.flatMap (listing fun w => !cut w)) := by
  intro rest shallow
  induction vs with
  | nil => rfl
  | cons v vs ih =>
      obtain ⟨here, levelLater⟩ := List.forall_mem_cons.mp level
      have first := each v (.head _) (here ▸ shallow.row (fun _ => true) levelLater)
      have others := ih levelLater fun v' member => each v' (.tail _ member)
      rw [List.flatMap_cons, List.append_assoc, first, others, List.flatMap_cons, List.append_assoc]

end Visit

namespace Piece

open Visit (prune)

end Piece

end FlowFold
