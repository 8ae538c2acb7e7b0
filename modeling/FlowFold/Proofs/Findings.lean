import Mathlib.Data.List.Enum
import Mathlib.Data.Set.Insert
import FlowFold.Proofs.Printed
import FlowFold.Proofs.Scopes

/-! # What a check finds

A piece of a program has a flaw of its own if it is a hole or foreign, refers to nothing, lacks a
name or has an operator without a meaning. A check looks into the references to operations and
statements, so it is at fault if one of these refers to nothing, and it takes a reference to a
literal for a literal. Apart from that, the errors of a check are the flaws of all pieces of the
program, each reported once, whether control gets to the piece or not. The findings in a part are at
places below it, and different parts are below different steps, so no two errors are at one place.
Nor do two places have the same text, so the text of a place is enough to find the piece.
-/

namespace FlowFold

/-! ## The texts of places -/

/-- Whatever follows the text of a step, there is one way only to read it. -/
theorem Step.text_unique {a b : Step} {rest rest' : List Char}
    (same : a.text.toList ++ rest = b.text.toList ++ rest') : a = b ∧ rest = rest' := by
  by_cases equal : a = b
  · subst equal
    exact ⟨rfl, List.append_cancel_left same⟩
  · cases a with
    | index i =>
        cases b with
        | index j =>
            -- A position is written in digits, so it ends at the bracket.
            simp only [text, String.toList_append, List.append_assoc] at same
            have digit : ∀ n : Nat, ∀ c ∈ (toString n).toList, ¬ c = ']' := by
              rintro n c member rfl
              exact absurd (Text.isDigit_of_mem_nat member) (by decide)
            obtain ⟨numbers, -⟩ := Text.append_unique (· = ']') (digit i) (digit j) (by simp) (by simp)
              (List.append_cancel_left same)
            exact absurd (congrArg index (Text.toString_nat_inj (String.toList_inj.mp numbers))) equal
        | _ => simp [text] at same
    | _ => cases b <;> simp [text] at same equal

theorem Place.text_inj {a b : Place} (same : Place.text a = Place.text b) : a = b := by
  have steps : ((a.map Step.text).flatMap String.toList) = (b.map Step.text).flatMap String.toList := by
    have whole := congrArg String.toList same
    simp only [Place.text, String.toList_append, String.toList_join] at whole
    exact List.append_cancel_left whole
  clear same
  induction a generalizing b with
  | nil =>
      cases b with
      | nil => rfl
      | cons step b => cases step <;> simp [Step.text] at steps
  | cons step a ih =>
      cases b with
      | nil => cases step <;> simp [Step.text] at steps
      | cons step' b =>
          obtain ⟨rfl, others⟩ := Step.text_unique steps
          rw [ih others]

/-! ## Flaws -/

namespace Piece

/-- What is wrong with a piece itself, whatever its parts are. -/
def flaw? : Piece → Option Problem
  | stmt .missing | stmt (.hollow _) => some .missingStmt
  | stmt (.foreign _) | expr (.foreign _) => some .unknownNode
  | stmt (.assign none _) | expr .missing | expr (.hollow _) => some .missingExpr
  | stmt (.assign (some name) _) | expr (.var name) => if name = "" then some .emptyName else none
  | expr (.binary op _ _) => if op.isKnown then none else some .unknownOp
  | stmt (.block _) | stmt (.ite ..) | stmt (.while ..) | stmt (.ret _) | expr (.const _) => none

/-- What a check reports about a piece: its flaw, unless it is taken for a literal. -/
def reported? : Piece → Option Problem
  | expr (.hollow .const) => none
  | p => p.flaw?

theorem reported?_eq_some {p : Piece} {problem : Problem} :
    p.reported? = some problem ↔ p.flaw? = some problem ∧ p ≠ expr (.hollow .const) := by
  by_cases literal : p = expr (.hollow .const)
  · subst literal
    simp [reported?]
  · rw [reported?, and_iff_left literal]
    exact literal

/-- Whether a check looks into the piece although nothing is there. -/
def isTrap : Piece → Bool
  | expr (.hollow .binary) | stmt (.hollow _) => true
  | _ => false

/-- The steps that lead on from a piece, each with the part that it leads to. -/
def branches : Piece → List (Step × Piece)
  | stmt (.block body) => body.zipIdx.map fun (s, i) => (.index i, stmt s)
  | stmt (.assign _ value) => [(.value, expr value)]
  | stmt (.ret result) => [(.result, expr result)]
  | stmt (.ite cond then_ otherwise) =>
      [(.cond, expr cond), (.thenBranch, stmt then_)] ++
        if otherwise = .missing then [] else [(.elseBranch, stmt otherwise)]
  | stmt (.while cond body) => [(.cond, expr cond), (.body, stmt body)]
  | expr (.binary _ left right) => [(.left, expr left), (.right, expr right)]
  | _ => []

theorem part?_eq_some {p q : Piece} {step : Step} :
    p.part? step = some q ↔ (step, q) ∈ p.branches := by
  cases p with
  | expr e => cases e <;> cases step <;> simp [part?, branches, eq_comm]
  | stmt s =>
      cases s with
      | block body =>
          cases step <;> simp [part?, branches, List.mem_zipIdx_iff_getElem?]
      | ite cond then_ otherwise =>
          by_cases none : otherwise = .missing <;> cases step <;> simp [part?, branches, none, eq_comm]
      | _ => cases step <;> simp [part?, branches, eq_comm]

theorem at?_eq_some {p q : Piece} {place : Place} :
    p.at? place = some q ↔
      (place = [] ∧ q = p) ∨
        ∃ branch ∈ p.branches, ∃ rest, place = branch.1 :: rest ∧ branch.2.at? rest = some q := by
  cases place with
  | nil => simp [at?_nil, eq_comm]
  | cons step rest =>
      rw [at?_cons, Option.bind_eq_some_iff]
      constructor
      · rintro ⟨part, led, found⟩
        exact .inr ⟨(step, part), part?_eq_some.mp led, rest, rfl, found⟩
      · rintro (⟨none, -⟩ | ⟨⟨step', part⟩, member, rest', same, found⟩)
        · cases none
        · cases same
          exact ⟨part, part?_eq_some.mpr member, found⟩

/-- The pieces at places below one where the piece `p` is. -/
def below (place : Place) (p : Piece) : Set (Place × Piece) :=
  {found | ∃ path, found.1 = place ++ path ∧ p.at? path = some found.2}

theorem self_mem_below (place : Place) (p : Piece) : (place, p) ∈ p.below place :=
  ⟨[], (List.append_nil place).symm, at?_nil p⟩

theorem prefix_of_mem_below {place : Place} {p : Piece} {found : Place × Piece} (member : found ∈ p.below place) :
    place <+: found.1 := by
  obtain ⟨path, same, -⟩ := member
  exact ⟨path, same.symm⟩

/-- The piece `p` at a place and the pieces below some of its branches. -/
def within (place : Place) (p : Piece) (branches : List (Step × Piece)) : Set (Place × Piece) :=
  {found | found = (place, p) ∨ ∃ branch ∈ branches, found ∈ below (place ++ [branch.1]) branch.2}

theorem within_nil (place : Place) (p : Piece) : p.within place [] = {(place, p)} := by
  ext found
  simp [within]

theorem within_concat (place : Place) (p : Piece) (branches : List (Step × Piece)) (step : Step) (q : Piece) :
    p.within place (branches ++ [(step, q)]) = p.within place branches ∪ q.below (place ++ [step]) := by
  ext found
  simp [within, or_and_right, exists_or, or_assoc]

/-- Different branches are below different steps, so they have no place in common. -/
theorem not_mem_within_of_below {place there : Place} {p q found found' : Piece}
    {branches : List (Step × Piece)} {step : Step} (new : ∀ branch ∈ branches, branch.1 ≠ step)
    (member : (there, found) ∈ q.below (place ++ [step])) : (there, found') ∉ p.within place branches := by
  have under := prefix_of_mem_below member
  rintro (own | ⟨branch, listed, elsewhere⟩)
  · cases own
    exact Place.not_back under
  · exact new branch listed (Place.step_unique (prefix_of_mem_below elsewhere) under)

theorem within_branches (place : Place) (p : Piece) : p.within place p.branches = p.below place := by
  ext ⟨there, q⟩
  constructor
  · rintro (own | ⟨branch, member, path, same, found⟩)
    · cases own
      exact self_mem_below place p
    · refine ⟨branch.1 :: path, by simpa using same, ?_⟩
      exact at?_eq_some.mpr (.inr ⟨branch, member, path, rfl, found⟩)
  · rintro ⟨path, same, found⟩
    rcases at?_eq_some.mp found with ⟨rfl, rfl⟩ | ⟨branch, member, rest, rfl, later⟩
    · exact .inl (by simpa using same)
    · exact .inr ⟨branch, member, rest, by simpa using same, later⟩

end Piece

/-! ## The findings of each part -/

/-- A report on some pieces: its errors are what there is to report about them, with no two at one
    place, and its warnings are about them. -/
structure Report.Covers (r : Report) (pieces : Set (Place × Piece)) : Prop where
  errors : ∀ f, f ∈ r.errors ↔ (f.place, f.piece) ∈ pieces ∧ f.piece.reported? = some f.problem
  places : (r.errors.map Finding.place).Nodup
  warnings : ∀ f ∈ r.warnings, (f.place, f.piece) ∈ pieces

namespace Report

theorem append_assoc (a b c : Report) : a ++ b ++ c = a ++ (b ++ c) :=
  congrArg₂ Report.mk (List.append_assoc ..) (List.append_assoc ..)

theorem append_empty (a : Report) : a ++ empty = a :=
  congrArg₂ Report.mk (List.append_nil _) (List.append_nil _)

namespace Covers

variable {r r' : Report} {pieces : Set (Place × Piece)} {place : Place} {p q : Piece} {problem : Problem}
  {step : Step} {branches : List (Step × Piece)}

theorem empty (quiet : p.reported? = none) : Report.empty.Covers (p.within place []) where
  errors f := by
    rw [Piece.within_nil, Set.mem_singleton_iff]
    refine iff_of_false List.not_mem_nil ?_
    rintro ⟨own, flaw⟩
    rw [(Prod.mk.inj own).2, quiet] at flaw
    cases flaw
  places := List.nodup_nil
  warnings f member := by cases member

theorem error (flaw : p.reported? = some problem) :
    (Report.error problem place p).Covers (p.within place []) where
  errors f := by
    rw [Piece.within_nil, Set.mem_singleton_iff]
    constructor
    · intro member
      obtain rfl := List.mem_singleton.mp member
      exact ⟨rfl, flaw⟩
    · obtain ⟨problem', place', q⟩ := f
      rintro ⟨own, flaw'⟩
      cases own
      cases flaw.symm.trans flaw'
      exact .head _
  places := List.nodup_singleton _
  warnings f member := by cases member

theorem warn (covers : r.Covers pieces) (here : (place, p) ∈ pieces) :
    (Report.warning problem place p ++ r).Covers pieces where
  errors := covers.errors
  places := covers.places
  warnings f member := by
    rcases List.mem_cons.mp member with rfl | later
    · exact here
    · exact covers.warnings f later

theorem swap (covers : (r ++ r').Covers pieces) : (r' ++ r).Covers pieces where
  errors f := by
    rw [← covers.errors f, errors_append, errors_append, List.mem_append, List.mem_append, or_comm]
  places := by
    refine (List.Perm.nodup_iff ?_).mp covers.places
    exact List.perm_append_comm.map Finding.place
  warnings f member := covers.warnings f (List.mem_append.mpr (List.mem_append.mp member).symm)

theorem branch (covers : r.Covers (p.within place branches))
    (part : r'.Covers (q.below (place ++ [step]))) (new : ∀ branch ∈ branches, branch.1 ≠ step) :
    (r ++ r').Covers (p.within place (branches ++ [(step, q)])) where
  errors f := by
    rw [errors_append, List.mem_append, covers.errors, part.errors, Piece.within_concat, Set.mem_union,
      or_and_right]
  places := by
    rw [errors_append, List.map_append]
    refine covers.places.append part.places ?_
    intro place' first second
    obtain ⟨f, member, rfl⟩ := List.mem_map.mp first
    obtain ⟨f', member', same⟩ := List.mem_map.mp second
    have inPart := ((part.errors f').mp member').1
    rw [same] at inPart
    exact Piece.not_mem_within_of_below new inPart ((covers.errors f).mp member).1
  warnings f member := by
    rw [Piece.within_concat]
    exact (List.mem_append.mp member).imp (covers.warnings f) (part.warnings f)

end Covers

end Report

open Report (Covers)

theorem Expr.covers_report (e : Expr) (dead : Bool) (assigned : Assigned) (place : Place) :
    (e.report dead assigned place).Covers ((Piece.expr e).below place) := by
  induction e generalizing place with
  | const =>
      rw [← Piece.within_branches]
      exact .empty rfl
  | missing | foreign =>
      rw [← Piece.within_branches]
      exact .error rfl
  | hollow kind =>
      rw [← Piece.within_branches]
      cases kind with
      | const => exact .empty rfl
      | var | binary => exact .error rfl
  | var name =>
      rw [← Piece.within_branches, report]
      by_cases unnamed : name = ""
      · rw [if_pos unnamed]
        exact .error (if_pos unnamed)
      · rw [if_neg unnamed]
        have quiet : Covers .empty ((Piece.expr (.var name)).within place []) := .empty (if_neg unnamed)
        split
        · exact quiet
        · exact quiet.warn (.inl rfl)
  | binary op left right ihl ihr =>
      rw [← Piece.within_branches, report]
      have own : Covers (if op.isKnown then .empty
          else .error .unknownOp place (.expr (.binary op left right)))
          ((Piece.expr (.binary op left right)).within place []) := by
        split
        · exact .empty (if_pos ‹_›)
        · exact .error (if_neg ‹_›)
      exact (own.branch (ihl _) (by simp)).branch (ihr _) (by simp)

namespace Stmt

mutual

theorem covers_report (s : Stmt) (dead : Bool) (assigned : Assigned) (place : Place) :
    (s.report dead assigned place).1.Covers ((Piece.stmt s).below place) := by
  rw [← Piece.within_branches]
  cases s with
  | missing | hollow | foreign => exact .error rfl
  | block body => exact covers_reportAll body dead (some assigned) (.empty rfl) (by simp)
  | assign target value =>
      have inValue := value.covers_report dead assigned (place ++ [.value])
      simp only [report]
      split
      · have own : Covers (.error .missingExpr place (.stmt (.assign none value))) _ := .error rfl
        exact (own.branch inValue (by simp)).swap
      · have own : Covers (.error .emptyName place (.stmt (.assign (some "") value))) _ := .error rfl
        exact (own.branch inValue (by simp)).swap
      · rename_i name named
        have own : Covers .empty ((Piece.stmt (.assign (some name) value)).within place []) :=
          .empty (if_neg named)
        exact own.branch inValue (by simp)
  | ret result =>
      have own : Covers .empty ((Piece.stmt (.ret result)).within place []) := .empty rfl
      exact own.branch (result.covers_report dead assigned _) (by simp)
  | ite cond then_ otherwise =>
      have own : Covers .empty ((Piece.stmt (.ite cond then_ otherwise)).within place []) := .empty rfl
      have both := (own.branch (cond.covers_report dead assigned (place ++ [.cond])) (by simp)).branch
        (covers_report then_ dead assigned (place ++ [.thenBranch])) (by simp)
      by_cases none : otherwise = .missing
      · subst none
        exact both
      · rw [report, Piece.branches, if_neg none]
        · exact both.branch (covers_report otherwise dead assigned (place ++ [.elseBranch])) (by simp)
        · exact none
  | «while» cond body =>
      have own : Covers .empty ((Piece.stmt (.while cond body)).within place []) := .empty rfl
      exact (own.branch (cond.covers_report dead assigned _) (by simp)).branch
        (covers_report body dead assigned _) (by simp)

theorem covers_reportAll (body : List Stmt) (dead : Bool) (reached : Option Assigned) {place : Place} {i : Nat}
    {r : Report} {p : Piece} {branches : List (Step × Piece)} (covers : r.Covers (p.within place branches))
    (before : ∀ branch ∈ branches, ∀ j, i ≤ j → branch.1 ≠ .index j) :
    (r ++ (reportAll dead place i reached body).1).Covers
      (p.within place (branches ++ (body.zipIdx i).map fun (s, i) => (.index i, .stmt s))) := by
  cases body with
  | nil =>
      rw [reportAll, Report.append_empty]
      simpa using covers
  | cons s rest =>
      -- Whether control gets to the first statement or not, all that is below it is covered.
      have extend : ∀ first : Report, first.Covers ((Piece.stmt s).below (place ++ [.index i])) →
          ∀ after, (r ++ (first ++ (reportAll dead place (i + 1) after rest).1)).Covers
            (p.within place (branches ++ ((s :: rest).zipIdx i).map fun (s, i) => (.index i, .stmt s))) := by
        intro first inFirst after
        have longer := covers.branch inFirst fun branch member => before branch member i (Nat.le_refl i)
        have whole := covers_reportAll rest dead after longer fun branch member j le => by
          rcases List.mem_append.mp member with earlier | last
          · exact before branch earlier j (Nat.le_of_succ_le le)
          · obtain rfl := List.mem_singleton.mp last
            simpa using Nat.ne_of_lt le
        rw [Report.append_assoc, List.append_assoc] at whole
        exact whole
      cases reached with
      | none =>
          refine extend _ ?_ none
          exact (covers_report s true [] (place ++ [.index i])).warn (Piece.self_mem_below _ _)
      | some assigned => exact extend _ (covers_report s dead assigned _) _

end

end Stmt

/-! ## Properties of all pieces -/

namespace Piece

def Everywhere (P : Piece → Prop) (p : Piece) : Prop := ∀ place q, p.at? place = some q → P q

section Everywhere

variable {P : Piece → Prop}

theorem everywhere_iff {p : Piece} :
    p.Everywhere P ↔ P p ∧ ∀ branch ∈ p.branches, branch.2.Everywhere P := by
  constructor
  · intro all
    refine ⟨all [] p (at?_nil p), fun branch member place q found => ?_⟩
    exact all (branch.1 :: place) q (at?_eq_some.mpr (.inr ⟨branch, member, place, rfl, found⟩))
  · rintro ⟨own, parts⟩ place q found
    rcases at?_eq_some.mp found with ⟨-, rfl⟩ | ⟨branch, member, rest, -, later⟩
    · exact own
    · exact parts branch member rest q later

theorem everywhere_leaf {p : Piece} (leaf : p.branches = []) : p.Everywhere P ↔ P p := by
  rw [everywhere_iff, leaf]
  simp

theorem everywhere_binary {op : BinOp} {left right : Expr} :
    (expr (.binary op left right)).Everywhere P ↔
      P (expr (.binary op left right)) ∧ (expr left).Everywhere P ∧ (expr right).Everywhere P := by
  rw [everywhere_iff]
  simp [branches]

theorem everywhere_block {body : List Stmt} :
    (stmt (.block body)).Everywhere P ↔ P (stmt (.block body)) ∧ ∀ s ∈ body, (stmt s).Everywhere P := by
  rw [everywhere_iff, branches, List.forall_mem_map, List.forall_mem_zipIdx',
    List.forall_mem_iff_forall_getElem]

theorem everywhere_assign {target : Option String} {value : Expr} :
    (stmt (.assign target value)).Everywhere P ↔
      P (stmt (.assign target value)) ∧ (expr value).Everywhere P := by
  rw [everywhere_iff]
  simp [branches]

theorem everywhere_ret {result : Expr} :
    (stmt (.ret result)).Everywhere P ↔ P (stmt (.ret result)) ∧ (expr result).Everywhere P := by
  rw [everywhere_iff]
  simp [branches]

theorem everywhere_ite {cond : Expr} {then_ otherwise : Stmt} :
    (stmt (.ite cond then_ otherwise)).Everywhere P ↔
      P (stmt (.ite cond then_ otherwise)) ∧ (expr cond).Everywhere P ∧ (stmt then_).Everywhere P ∧
        (otherwise ≠ .missing → (stmt otherwise).Everywhere P) := by
  rw [everywhere_iff]
  by_cases none : otherwise = .missing <;> simp [branches, none]

theorem everywhere_while {cond : Expr} {body : Stmt} :
    (stmt (.while cond body)).Everywhere P ↔
      P (stmt (.while cond body)) ∧ (expr cond).Everywhere P ∧ (stmt body).Everywhere P := by
  rw [everywhere_iff]
  simp [branches]

end Everywhere

end Piece

/-! ## Programs without traps -/

theorem Expr.everywhere_isTrap {e : Expr} :
    (Piece.expr e).Everywhere (·.isTrap = false) ↔ e.isSolid = true := by
  induction e with
  | const | var | missing | foreign =>
      rw [Piece.everywhere_leaf rfl]
      exact iff_of_true rfl rfl
  | hollow kind =>
      rw [Piece.everywhere_leaf rfl]
      cases kind <;> simp [Piece.isTrap, isSolid]
  | binary op left right ihl ihr =>
      rw [Piece.everywhere_binary, ihl, ihr]
      simp [Piece.isTrap, isSolid]

namespace Stmt

mutual

theorem everywhere_isTrap (s : Stmt) :
    (Piece.stmt s).Everywhere (·.isTrap = false) ↔ s.isSolid = true := by
  cases s with
  | missing | hollow | foreign =>
      rw [Piece.everywhere_leaf rfl]
      simp [Piece.isTrap, isSolid]
  | block body =>
      rw [Piece.everywhere_block, everywhere_isTrap_all body]
      simp [Piece.isTrap, isSolid]
  | assign target value =>
      rw [Piece.everywhere_assign, Expr.everywhere_isTrap]
      simp [Piece.isTrap, isSolid]
  | ret result =>
      rw [Piece.everywhere_ret, Expr.everywhere_isTrap]
      simp [Piece.isTrap, isSolid]
  | ite cond then_ otherwise =>
      have absent : otherwise = .missing → otherwise.isSolid = true := by
        rintro rfl
        rfl
      rw [Piece.everywhere_ite, Expr.everywhere_isTrap, everywhere_isTrap then_, everywhere_isTrap otherwise,
        isSolid, Bool.and_eq_true, Bool.and_eq_true]
      grind [Piece.isTrap]
  | «while» cond body =>
      rw [Piece.everywhere_while, Expr.everywhere_isTrap, everywhere_isTrap body]
      simp [Piece.isTrap, isSolid]

theorem everywhere_isTrap_all (body : List Stmt) :
    (∀ s ∈ body, (Piece.stmt s).Everywhere (·.isTrap = false)) ↔ areSolid body = true := by
  cases body with
  | nil => exact iff_of_true (by simp) rfl
  | cons s rest =>
      rw [List.forall_mem_cons, everywhere_isTrap s, everywhere_isTrap_all rest, areSolid, Bool.and_eq_true]

end

end Stmt

/-! ## Programs without flaws -/

theorem Expr.everywhere_flaw? {e : Expr} :
    (Piece.expr e).Everywhere (·.flaw? = none) ↔ e.Complete ∧ "" ∉ e.names := by
  induction e with
  | const | missing | hollow | foreign =>
      rw [Piece.everywhere_leaf rfl]
      simp [Piece.flaw?, Complete, names]
  | var name =>
      rw [Piece.everywhere_leaf rfl]
      simp [Piece.flaw?, Complete, names, @eq_comm _ ""]
  | binary op left right ihl ihr =>
      have own : (Piece.expr (.binary op left right)).flaw? = none ↔ op.isKnown = true := by
        simp [Piece.flaw?]
      rw [Piece.everywhere_binary, own, ihl, ihr, Complete, names, List.mem_append, not_or]
      grind

namespace Stmt

theorem complete_cons {s : Stmt} {rest : List Stmt} :
    (block (s :: rest)).Complete ↔ s.Complete ∧ (block rest).Complete := by
  constructor
  · intro complete
    cases complete with
    | cons first others => exact ⟨first, others⟩
  · rintro ⟨first, others⟩
    exact .cons first others

theorem complete_assign {target : Option String} {value : Expr} :
    (assign target value).Complete ↔ target.isSome = true ∧ value.Complete := by
  constructor
  · intro complete
    cases complete with
    | assign meets => exact ⟨rfl, meets⟩
  · rintro ⟨there, meets⟩
    obtain ⟨name, rfl⟩ := Option.isSome_iff_exists.mp there
    exact .assign meets

theorem complete_ret {result : Expr} : (ret result).Complete ↔ result.Complete := by
  constructor
  · intro complete
    cases complete with
    | ret meets => exact meets
  · exact .ret

theorem complete_ite {cond : Expr} {then_ otherwise : Stmt} :
    (ite cond then_ otherwise).Complete ↔
      cond.Complete ∧ then_.Complete ∧ (otherwise ≠ .missing → otherwise.Complete) := by
  constructor
  · intro complete
    cases complete with
    | ifThen meets yes => exact ⟨meets, yes, fun there => absurd rfl there⟩
    | ifElse meets yes no => exact ⟨meets, yes, fun _ => no⟩
  · rintro ⟨meets, yes, no⟩
    by_cases none : otherwise = .missing
    · subst none
      exact .ifThen meets yes
    · exact .ifElse meets yes (no none)

theorem complete_while {cond : Expr} {body : Stmt} :
    (Stmt.while cond body).Complete ↔ cond.Complete ∧ body.Complete := by
  constructor
  · intro complete
    cases complete with
    | «while» meets inner => exact ⟨meets, inner⟩
  · rintro ⟨meets, inner⟩
    exact .while meets inner

mutual

theorem everywhere_flaw? (s : Stmt) :
    (Piece.stmt s).Everywhere (·.flaw? = none) ↔ s.Complete ∧ "" ∉ s.names := by
  cases s with
  | missing | hollow | foreign =>
      rw [Piece.everywhere_leaf rfl]
      refine iff_of_false (by simp [Piece.flaw?]) ?_
      rintro ⟨complete, -⟩
      cases complete
  | block body =>
      rw [Piece.everywhere_block, everywhere_flaw?_all body, names, Piece.flaw?, and_iff_right rfl]
  | assign target value =>
      have own : (Piece.stmt (.assign target value)).flaw? = none ↔
          target.isSome = true ∧ "" ∉ target.toList := by
        cases target <;> simp [Piece.flaw?, @eq_comm _ ""]
      rw [Piece.everywhere_assign, own, Expr.everywhere_flaw?, complete_assign, names, List.mem_append, not_or,
        and_and_and_comm]
  | ret result =>
      rw [Piece.everywhere_ret, Expr.everywhere_flaw?, complete_ret, names, Piece.flaw?, and_iff_right rfl]
  | ite cond then_ otherwise =>
      have absent : otherwise = .missing → "" ∉ otherwise.names := by
        rintro rfl
        exact List.not_mem_nil
      rw [Piece.everywhere_ite, Expr.everywhere_flaw?, everywhere_flaw? then_, everywhere_flaw? otherwise,
        complete_ite, names, List.mem_append, List.mem_append, not_or, not_or, Piece.flaw?]
      grind
  | «while» cond body =>
      rw [Piece.everywhere_while, Expr.everywhere_flaw?, everywhere_flaw? body, complete_while, names,
        List.mem_append, not_or, and_and_and_comm, Piece.flaw?, and_iff_right rfl]

theorem everywhere_flaw?_all (body : List Stmt) :
    (∀ s ∈ body, (Piece.stmt s).Everywhere (·.flaw? = none)) ↔ (block body).Complete ∧ "" ∉ namesAll body := by
  cases body with
  | nil => exact iff_of_true (by simp) ⟨.nil, List.not_mem_nil⟩
  | cons s rest =>
      rw [List.forall_mem_cons, everywhere_flaw? s, everywhere_flaw?_all rest, complete_cons, namesAll,
        List.mem_append, not_or, and_and_and_comm]

end

end Stmt

/-! ## Exactness -/

theorem Piece.mem_below_nil {p q : Piece} {place : Place} :
    (place, q) ∈ p.below [] ↔ p.at? place = some q := by
  simp [below]

namespace Report.Covers

variable {r : Report} {p : Piece} (covers : r.Covers (p.below []))

include covers

theorem mem_errors {f : Finding} : f ∈ r.errors ↔ p.at? f.place = some f.piece ∧
    f.piece.flaw? = some f.problem ∧ f.piece ≠ .expr (.hollow .const) := by
  rw [covers.errors, Piece.mem_below_nil, Piece.reported?_eq_some]

theorem nodup_texts : (r.errors.map fun f => f.place.text).Nodup := by
  have texts := covers.places.map fun _ _ => Place.text_inj
  rwa [List.map_map] at texts

theorem at?_of_text {f : Finding} (member : f ∈ r.errors ++ r.warnings) {place : Place}
    (same : place.text = f.place.text) : p.at? place = some f.piece := by
  rw [Place.text_inj same, ← Piece.mem_below_nil]
  rcases List.mem_append.mp member with isError | isWarning
  · exact ((covers.errors f).mp isError).1
  · exact covers.warnings f isWarning

theorem clean_iff : (r.errors = [] ∧ ∀ place, p.at? place ≠ some (.expr (.hollow .const))) ↔
    p.Everywhere (·.flaw? = none) := by
  rw [List.eq_nil_iff_forall_not_mem]
  constructor
  · rintro ⟨clean, there⟩ place q found
    cases flaw : q.flaw? with
    | none => rfl
    | some problem =>
        have unnoticed : ¬ q ≠ .expr (.hollow .const) := fun noticed =>
          clean ⟨problem, place, q⟩ (covers.mem_errors.mpr ⟨found, flaw, noticed⟩)
        obtain rfl := not_not.mp unnoticed
        exact absurd found (there place)
  · intro flawless
    refine ⟨fun f member => ?_, fun place found => ?_⟩
    · obtain ⟨found, flaw, -⟩ := covers.mem_errors.mp member
      cases (flawless _ _ found).symm.trans flaw
    · cases flawless _ _ found

end Report.Covers

/-- A check is at fault if and only if some piece of the program is a trap. Otherwise its errors are
    the flaws of all pieces except the references to literals that are not there. No two errors have
    places of the same text, and the text of the place of a finding leads to the piece that it is
    about. The program has no holes, no operators without a meaning and no variables without a name
    if and only if there are no errors and all literals are there. -/
theorem check_exact (program : Stmt) (inputs : List String) :
    let root := Piece.stmt program
    (check program inputs = .error .absent ↔ ∃ place q, root.at? place = some q ∧ q.isTrap = true) ∧
      ((∀ place q, root.at? place = some q → q.isTrap = false) → ∃ report, check program inputs = .ok report ∧
        (∀ f, f ∈ report.errors ↔ root.at? f.place = some f.piece ∧ f.piece.flaw? = some f.problem ∧
          f.piece ≠ .expr (.hollow .const)) ∧
        (report.errors.map fun f => f.place.text).Nodup ∧
        (∀ f ∈ report.errors ++ report.warnings, ∀ place : Place,
          place.text = f.place.text → root.at? place = some f.piece) ∧
        (report.errors = [] ∧ (∀ place, root.at? place ≠ some (.expr (.hollow .const))) ↔
          program.Complete ∧ "" ∉ program.names)) := by
  intro root
  have solid : root.Everywhere (·.isTrap = false) ↔ program.isSolid = true := program.everywhere_isTrap
  have covers : (findings program inputs).Covers (root.below []) := program.covers_report false inputs []
  refine ⟨?_, fun safe => ⟨findings program inputs, check_eq_ok.mpr ⟨solid.mp safe, rfl⟩, ?_⟩⟩
  · rw [check_eq_absent, ← solid]
    simp [Piece.Everywhere]
  · exact ⟨fun f => covers.mem_errors, covers.nodup_texts, fun f member place => covers.at?_of_text member,
      covers.clean_iff.trans program.everywhere_flaw?⟩

/-- A loop whose body refers to nothing puts the check at fault, although this is the only flaw of the
    program. No error is reported for a return whose literal is not there. -/
theorem check_hollow :
    let loop := Stmt.while (.bool true) (.hollow .block)
    let result := Stmt.ret (.hollow .const)
    (Piece.stmt loop).at? [.body] = some (.stmt (.hollow .block)) ∧
      (Piece.stmt (.hollow .block)).flaw? = some .missingStmt ∧ check loop [] = .error .absent ∧
      (Piece.stmt result).at? [.result] = some (.expr (.hollow .const)) ∧
      (Piece.expr (.hollow .const)).flaw? = some .missingExpr ∧ check result [] = .ok .empty := by
  decide

/-- After a return there is a loop whose condition has an operator without a meaning and two faulty
    operands. Its body assigns to no variable, and has a branch without a then part. -/
def Stmt.flawedAfterReturn : Stmt :=
  .block
    [.ret (.var "x"),
      .while (.binary (.unknown 9) .missing (.var ""))
        (.block [.assign none (.foreign ⟨"Call", "(call f)"⟩), .ite (.hollow .var) .missing .missing])]

theorem check_exact_flawedAfterReturn :
    ∃ report, check .flawedAfterReturn [] = .ok report ∧
      report.errors.map (fun f => (f.place.text, f.problem)) =
        [("program[1].cond", .unknownOp), ("program[1].cond.left", .missingExpr),
          ("program[1].cond.right", .emptyName), ("program[1].body[0].value", .unknownNode),
          ("program[1].body[0]", .missingExpr), ("program[1].body[1].cond", .missingExpr),
          ("program[1].body[1].then", .missingStmt)] ∧
      report.warnings.map (fun f => (f.place.text, f.problem)) =
        [("program[0].result", .maybeUnassigned), ("program[1]", .unreachable)] ∧
      ¬ (Stmt.flawedAfterReturn.Complete ∧ "" ∉ Stmt.flawedAfterReturn.names) := by
  obtain ⟨-, exact⟩ := check_exact .flawedAfterReturn []
  obtain ⟨report, checked, -, -, -, clean⟩ := exact (Stmt.flawedAfterReturn.everywhere_isTrap.mpr rfl)
  obtain rfl : findings .flawedAfterReturn [] = report := (check_eq_ok.mp checked).2
  refine ⟨_, checked, by decide, by decide, fun flawless => ?_⟩
  exact absurd (clean.mpr flawless).1 (by decide)

end FlowFold
