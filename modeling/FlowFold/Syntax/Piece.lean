import FlowFold.Syntax.Stmt

/-! # Walking over trees

A piece is any part of a program: a statement, an expression, or the variable an
assignment targets. `Piece.walk` calls a function at the pieces of a tree from the top,
at each before its parts. The function says whether the walk goes on below the piece,
and what it gives is collected. It sees the place of the piece as well, so that it can
tell apart pieces that look the same. A reference to an operation or a statement that is
not there stops the walk with a fault, unless the walk does not go on below it.

`Piece.outline` is such a walk that prints the statements, one on a line.
-/

namespace FlowFold

inductive Piece where
  | expr (e : Expr)
  | stmt (s : Stmt)
  deriving DecidableEq

/-- The immediate parts of a piece, in the order they are written. Holes count as
    parts, except for an else branch that is not there. -/
def Piece.parts : Piece → Except Fault (List Piece)
  | expr (.binary _ left right) => .ok [expr left, expr right]
  | expr (.hollow .binary) | stmt (.hollow _) => .error .absent
  | expr _ => .ok []
  | stmt (.block body) => .ok (body.map stmt)
  | stmt (.assign (some name) value) => .ok [expr (.var name), expr value]
  | stmt (.assign none value) => .ok [expr (.hollow .var), expr value]
  | stmt (.ite cond then_ .missing) => .ok [expr cond, stmt then_]
  | stmt (.ite cond then_ otherwise) => .ok [expr cond, stmt then_, stmt otherwise]
  | stmt (.while cond body) => .ok [expr cond, stmt body]
  | stmt (.ret result) => .ok [expr result]
  | stmt .missing | stmt (.foreign _) => .ok []

theorem Piece.sizeOf_lt_of_mem_parts {p q : Piece} {ps : List Piece} (h : p.parts = .ok ps)
    (part : q ∈ ps) : sizeOf q < sizeOf p := by
  unfold parts at h
  split at h
  case h_5 body =>
    cases h
    obtain ⟨s, hs, rfl⟩ := List.mem_map.mp part
    have := List.sizeOf_lt_of_mem hs
    simp only [stmt.sizeOf_spec, Stmt.block.sizeOf_spec]
    omega
  case h_7 value =>
    cases h
    have : 0 < sizeOf value := by cases value <;> simp +arith
    simp at part
    rcases part with rfl | rfl
    all_goals simp
    all_goals omega
  all_goals cases h
  all_goals simp at part
  all_goals rcases part with rfl | rfl | rfl
  all_goals simp
  all_goals omega

/-- A piece at its place in a tree: the positions among the parts that lead to it from the
    top, the last of them first. -/
structure Visit where
  place : List Nat
  piece : Piece
  deriving DecidableEq

namespace Visit

def depth (v : Visit) : Nat := v.place.length

/-- The immediate parts, each at its place. -/
def parts (v : Visit) : Except Fault (List Visit) :=
  v.piece.parts.map fun ps => ps.mapIdx fun i q => ⟨i :: v.place, q⟩

theorem sizeOf_lt_of_mem_parts {v w : Visit} {ws : List Visit} (h : v.parts = .ok ws)
    (part : w ∈ ws) : sizeOf w.piece < sizeOf v.piece := by
  cases ps : v.piece.parts with
  | error f => simp [parts, ps, Except.map] at h
  | ok ps' =>
      simp only [parts, ps, Except.map, Except.ok.injEq] at h
      subst h
      obtain ⟨i, inside, rfl⟩ := List.mem_mapIdx.mp part
      exact Piece.sizeOf_lt_of_mem_parts ps (List.getElem_mem inside)

/-- Call a function at a piece and then, if it says so, at all that is below. -/
def walk {α : Type} (call : Visit → Except Fault (α × Bool)) (v : Visit) : Except Fault (List α) := do
  let (result, enter) ← call v
  if enter then
    match h : v.parts with
    | .error f => throw f
    | .ok parts =>
        let below ← parts.attach.mapM fun w =>
          have := sizeOf_lt_of_mem_parts h w.2
          walk call w.1
        return result :: below.flatten
  else return [result]
termination_by sizeOf v.piece

/-- A walk calls the function at a piece and then, if it enters the piece, walks over each part. -/
theorem walk_eq {α : Type} (call : Visit → Except Fault (α × Bool)) (v : Visit) :
    walk call v = (do
      let (result, enter) ← call v
      if enter then
        let below ← (← v.parts).mapM (walk call)
        return result :: below.flatten
      else return [result]) := by
  rw [walk]
  refine congrArg (call v >>= ·) (funext fun (result, enter) => ?_)
  cases enter with
  | false => rfl
  | true =>
      simp only [if_true, List.mapM_subtype, List.unattach_attach]
      split <;> rename_i parts <;> rw [parts] <;> rfl

end Visit

namespace Piece

def walk {α : Type} (call : Visit → Except Fault (α × Bool)) (p : Piece) : Except Fault (List α) :=
  Visit.walk call ⟨[], p⟩

def all (p : Piece) : Except Fault (List Visit) := p.walk fun v => .ok (v, true)

/-- Two characters for each level, up to a depth of 33; below that the indentation
    stays at 67 characters. -/
def indent (depth : Nat) : String :=
  String.ofList (List.take (min (2 * depth) 67) (List.replicate 34 ['.', ' ']).flatten)

/-- The line of a piece in an outline, if it has one, and whether the outline goes on below: it
    does for blocks, branches and loops. The value of an assignment is written before its target,
    so if both are at fault, the fault is that of the value. -/
def outlineLine (depth : Nat) : Piece → Except Fault (Option String × Bool)
  | stmt (.block _) | stmt (.hollow .block) => .ok (some (indent depth ++ "block"), true)
  | stmt (.ite cond _ _) => do
      return (some (indent depth ++ "if " ++ (← cond.flatText)), true)
  | stmt (.while cond _) => do
      return (some (indent depth ++ "while " ++ (← cond.flatText)), true)
  | stmt (.assign target value) => do
      let written ← value.flatText
      let some name := target | throw .absent
      return (some (indent depth ++ name ++ " = " ++ written), false)
  | stmt (.ret result) => do
      return (some (indent depth ++ "return " ++ (← result.flatText)), false)
  | stmt (.hollow _) => .error .absent
  | _ => .ok (none, false)

/-- The statements of a tree, one on a line, indented by depth. -/
def outline (p : Piece) : Except Fault String := do
  let lines ← p.walk fun v => v.piece.outlineLine v.depth
  return String.join (lines.map fun line => (line.map (· ++ "\n")).getD "")

end Piece

end FlowFold
