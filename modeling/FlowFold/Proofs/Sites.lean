import Mathlib.Data.List.Nodup
import FlowFold.Check
import FlowFold.Graph.Basic

/-! # The steps of a program

Blocks only arrange other statements; the statements that do something, its steps, are the
assignments, branches, loops and returns. A site is a step at its place in a program. The
sites of a program are listed in the order in which their nodes are added to a graph, and
numbered in that order.

Of each site it is recorded whether control can get to it from the start of the program. If
a variable is given, only ways are counted on which it is not assigned. A loop may be left
without having been entered, so that a loop lets control pass whatever its body is.
-/

namespace FlowFold

def Expr.names : Expr → List String
  | .var name => [name]
  | .binary _ left right => left.names ++ right.names
  | .const _ | .missing | .hollow _ | .foreign _ => []

namespace Piece

/-- The part of a piece that a step leads to. -/
def part? : Piece → Step → Option Piece
  | stmt (.block body), .index i => body[i]?.map stmt
  | stmt (.assign _ value), .value => some (expr value)
  | stmt (.ret result), .result => some (expr result)
  | stmt (.ite cond _ _), .cond => some (expr cond)
  | stmt (.ite _ then_ _), .thenBranch => some (stmt then_)
  | stmt (.ite _ _ otherwise), .elseBranch =>
      if otherwise = .missing then none else some (stmt otherwise)
  | stmt (.while cond _), .cond => some (expr cond)
  | stmt (.while _ body), .body => some (stmt body)
  | expr (.binary _ left _), .left => some (expr left)
  | expr (.binary _ _ right), .right => some (expr right)
  | _, _ => none

/-- The piece at a place below another. -/
def at? (p : Piece) (place : Place) : Option Piece := place.foldlM part? p

theorem at?_nil (p : Piece) : p.at? [] = some p := rfl

theorem at?_cons (p : Piece) (step : Step) (place : Place) :
    p.at? (step :: place) = (p.part? step).bind (·.at? place) := rfl

theorem at?_expr_ne (e : Expr) (place : Place) (s : Stmt) : (expr e).at? place ≠ some (stmt s) := by
  induction place generalizing e with
  | nil => simp [at?_nil]
  | cons step place ih =>
      rw [at?_cons]
      cases e with
      | binary op left right => cases step <;> simp [part?, ih]
      | const | var | missing | hollow | foreign => simp [part?]

theorem part?_eq_stmt {s inner : Stmt} {step : Step} (part : (stmt s).part? step = some (stmt inner)) :
    (∃ body i, s = .block body ∧ step = .index i ∧ body[i]? = some inner) ∨
      (∃ cond otherwise, s = .ite cond inner otherwise ∧ step = .thenBranch) ∨
      (∃ cond then_, s = .ite cond then_ inner ∧ step = .elseBranch) ∨
      ∃ cond, s = .while cond inner ∧ step = .body := by
  unfold part? at part
  split at part <;> simp_all

end Piece

/-- Two steps from one place to places above a third are the same. -/
theorem Place.step_unique {place below : Place} {a b : Step} (first : place ++ [a] <+: below)
    (second : place ++ [b] <+: below) : a = b := by
  have same := (List.prefix_of_prefix_length_le first second (by simp)).eq_of_length (by simp)
  simpa using same

theorem Place.not_back {place : Place} {a : Step} : ¬ place ++ [a] <+: place := by
  intro back
  have longer := back.length_le
  rw [List.length_append] at longer
  exact Nat.not_succ_le_self _ longer

namespace Stmt

def isStep : Stmt → Bool
  | .assign .. | .ite .. | .while .. | .ret _ => true
  | .block _ | .missing | .hollow _ | .foreign _ => false

/-- The variables that a step reads. -/
def reads : Stmt → List String
  | .assign _ value => value.names
  | .ite cond _ _ => cond.names
  | .while cond _ => cond.names
  | .ret result => result.names
  | .block _ | .missing | .hollow _ | .foreign _ => []

mutual

/-- Whether control can get past a statement, on a way that does not assign `x` if a
    variable is given. -/
def passes (x : Option String) : Stmt → Bool
  | .block body => passesAll x body
  | .assign target _ => x.isNone || target != x
  | .ite _ then_ otherwise => then_.passes x || otherwise.passes x
  | .ret _ => false
  | .while _ _ | .missing | .hollow _ | .foreign _ => true

def passesAll (x : Option String) : List Stmt → Bool
  | [] => true
  | s :: rest => s.passes x && passesAll x rest

end

/-- A step at its place. -/
structure Site where
  place : Place
  stmt : Stmt
  /-- Its number, and the handle of its node. -/
  id : NodeId
  /-- Whether control can get to it. -/
  reached : Bool
  deriving DecidableEq

mutual

/-- The sites of a statement at a place, numbered from `base` on, given whether control can
    get to the statement. -/
def sites (x : Option String) (reached : Bool) (place : Place) (base : Nat) : Stmt → List Site
  | .block body => sitesAll x reached place 0 base body
  | .assign target value => [⟨place, .assign target value, base, reached⟩]
  | .ite cond then_ otherwise =>
      let yes := then_.sites x reached (place ++ [.thenBranch]) base
      let no := otherwise.sites x reached (place ++ [.elseBranch]) (base + yes.length)
      yes ++ no ++ [⟨place, .ite cond then_ otherwise, base + yes.length + no.length, reached⟩]
  | .while cond body =>
      ⟨place, .while cond body, base, reached⟩ :: body.sites x reached (place ++ [.body]) (base + 1)
  | .ret result => [⟨place, .ret result, base, reached⟩]
  | .missing | .hollow _ | .foreign _ => []

/-- The sites of a block from position `i` on. Those of the last statement come first. -/
def sitesAll (x : Option String) (reached : Bool) (place : Place) (i base : Nat) : List Stmt → List Site
  | [] => []
  | s :: rest =>
      let later := sitesAll x (reached && s.passes x) place (i + 1) base rest
      later ++ s.sites x reached (place ++ [.index i]) (base + later.length)

end

variable {x : Option String} {site : Site}

mutual

theorem map_id_sites (s : Stmt) (reached : Bool) (place : Place) (base : Nat) :
    (s.sites x reached place base).map Site.id =
      List.range' base (s.sites x reached place base).length := by
  cases s with
  | block body => exact map_id_sitesAll body reached place 0 base
  | assign | ret | missing | hollow | foreign => rfl
  | ite cond then_ otherwise =>
      simp only [sites, List.map_append, List.length_append, List.map_cons, List.map_nil,
        List.length_singleton]
      rw [map_id_sites then_, map_id_sites otherwise, List.range'_append_1, List.range'_1_concat,
        Nat.add_assoc]
  | «while» cond body =>
      simp only [sites, List.map_cons, List.length_cons, List.range'_succ]
      rw [map_id_sites body]

theorem map_id_sitesAll (body : List Stmt) (reached : Bool) (place : Place) (i base : Nat) :
    (sitesAll x reached place i base body).map Site.id =
      List.range' base (sitesAll x reached place i base body).length := by
  cases body with
  | nil => rfl
  | cons s rest =>
      simp only [sitesAll, List.map_append, List.length_append]
      rw [map_id_sitesAll rest, map_id_sites s, List.range'_append_1]

end

mutual

/-- Where control cannot get to a statement, it gets to none of its steps. -/
theorem reached_of_mem_sites (s : Stmt) {reached : Bool} {place : Place} {base : Nat}
    (member : site ∈ s.sites x reached place base) (gets : site.reached = true) : reached = true := by
  cases s with
  | block body => exact reached_of_mem_sitesAll body member gets
  | assign | ret =>
      obtain rfl := List.mem_singleton.mp member
      exact gets
  | ite cond then_ otherwise =>
      simp only [sites, List.mem_append, List.mem_singleton, or_assoc] at member
      rcases member with inYes | inNo | rfl
      · exact reached_of_mem_sites then_ inYes gets
      · exact reached_of_mem_sites otherwise inNo gets
      · exact gets
  | «while» cond body =>
      rcases List.mem_cons.mp member with rfl | inBody
      · exact gets
      · exact reached_of_mem_sites body inBody gets
  | missing | hollow | foreign => cases member

theorem reached_of_mem_sitesAll (body : List Stmt) {reached : Bool} {place : Place} {i base : Nat}
    (member : site ∈ sitesAll x reached place i base body) (gets : site.reached = true) :
    reached = true := by
  cases body with
  | nil => cases member
  | cons s rest =>
      rcases List.mem_append.mp member with inRest | inFirst
      · exact (Bool.and_eq_true_iff.mp (reached_of_mem_sitesAll rest inRest gets)).1
      · exact reached_of_mem_sites s inFirst gets

end

/-! ## The places of steps -/

mutual

theorem at?_of_mem_sites (s : Stmt) {reached : Bool} {place : Place} {base : Nat}
    (member : site ∈ s.sites x reached place base) :
    ∃ below, site.place = place ++ below ∧ (Piece.stmt s).at? below = some (.stmt site.stmt) ∧
      site.stmt.isStep = true := by
  cases s with
  | block body =>
      obtain ⟨j, s, below, same, here, found, isStep⟩ := at?_of_mem_sitesAll body member
      refine ⟨.index j :: below, by simpa using same, ?_, isStep⟩
      simpa [Piece.at?_cons, Piece.part?, here] using found
  | assign | ret =>
      obtain rfl := List.mem_singleton.mp member
      exact ⟨[], by simp, rfl, rfl⟩
  | ite cond then_ otherwise =>
      simp only [sites, List.mem_append, List.mem_singleton, or_assoc] at member
      rcases member with inYes | inNo | rfl
      · obtain ⟨below, same, found, isStep⟩ := at?_of_mem_sites then_ inYes
        exact ⟨.thenBranch :: below, by simpa using same, found, isStep⟩
      · obtain ⟨below, same, found, isStep⟩ := at?_of_mem_sites otherwise inNo
        have there : otherwise ≠ .missing := by
          rintro rfl
          cases inNo
        refine ⟨.elseBranch :: below, by simpa using same, ?_, isStep⟩
        simpa [Piece.at?_cons, Piece.part?, there] using found
      · exact ⟨[], by simp, rfl, rfl⟩
  | «while» cond body =>
      rcases List.mem_cons.mp member with rfl | inBody
      · exact ⟨[], by simp, rfl, rfl⟩
      · obtain ⟨below, same, found, isStep⟩ := at?_of_mem_sites body inBody
        exact ⟨.body :: below, by simpa using same, found, isStep⟩
  | missing | hollow | foreign => cases member

theorem at?_of_mem_sitesAll (body : List Stmt) {reached : Bool} {place : Place} {i base : Nat}
    (member : site ∈ sitesAll x reached place i base body) :
    ∃ j s below, site.place = place ++ .index (i + j) :: below ∧ body[j]? = some s ∧
      (Piece.stmt s).at? below = some (.stmt site.stmt) ∧ site.stmt.isStep = true := by
  cases body with
  | nil => cases member
  | cons s rest =>
      rcases List.mem_append.mp member with inRest | inFirst
      · obtain ⟨j, s', below, same, here, found, isStep⟩ := at?_of_mem_sitesAll rest inRest
        refine ⟨j + 1, s', below, ?_, by simpa using here, found, isStep⟩
        rw [same, Nat.add_assoc, Nat.add_comm 1 j]
      · obtain ⟨below, same, found, isStep⟩ := at?_of_mem_sites s inFirst
        exact ⟨0, s, below, by simpa using same, by simp, found, isStep⟩

end

theorem prefix_of_mem_sites {s : Stmt} {reached : Bool} {place : Place} {base : Nat}
    (member : site ∈ s.sites x reached place base) : place <+: site.place := by
  obtain ⟨below, same, -⟩ := at?_of_mem_sites s member
  exact ⟨below, same.symm⟩

theorem prefix_of_mem_sitesAll {body : List Stmt} {reached : Bool} {place : Place} {i base : Nat}
    (member : site ∈ sitesAll x reached place i base body) :
    ∃ j, i ≤ j ∧ place ++ [.index j] <+: site.place := by
  obtain ⟨j, _, below, same, -⟩ := at?_of_mem_sitesAll body member
  exact ⟨i + j, Nat.le_add_right i j, below, by simp [same]⟩

theorem sites_subset_sitesAll {body : List Stmt} {s : Stmt} {j : Nat} (here : body[j]? = some s)
    (reached : Bool) (place : Place) (i base : Nat) :
    ∃ reached' base',
      s.sites x reached' (place ++ [.index (i + j)]) base' ⊆ sitesAll x reached place i base body := by
  induction body generalizing reached i base j with
  | nil => cases here
  | cons first rest ih =>
      cases j with
      | zero =>
          obtain rfl : first = s := by simpa using here
          exact ⟨reached, _, List.subset_append_right _ _⟩
      | succ j =>
          have later : rest[j]? = some s := by simpa using here
          obtain ⟨reached', base', within⟩ := ih later (reached && first.passes x) (i + 1) base
          rw [Nat.add_assoc, Nat.add_comm 1 j] at within
          exact ⟨reached', base', List.Subset.trans within (List.subset_append_left _ _)⟩

theorem mem_sites_of_at? {s step : Stmt} {below : Place}
    (found : (Piece.stmt s).at? below = some (.stmt step)) (isStep : step.isStep = true)
    (reached : Bool) (place : Place) (base : Nat) :
    ∃ site ∈ s.sites x reached place base, site.place = place ++ below := by
  induction below generalizing s reached place base with
  | nil =>
      cases found
      cases step with
      | block | missing | hollow | foreign => cases isStep
      | ite => exact ⟨_, List.mem_append_right _ (List.mem_singleton_self _), (List.append_nil place).symm⟩
      | assign | ret | «while» => exact ⟨_, List.mem_cons_self, (List.append_nil place).symm⟩
  | cons first below ih =>
      rw [Piece.at?_cons, Option.bind_eq_some_iff] at found
      obtain ⟨p, part, found⟩ := found
      cases p with
      | expr e => exact absurd found (Piece.at?_expr_ne e below step)
      | stmt inner =>
          rw [List.append_cons]
          rcases Piece.part?_eq_stmt part with ⟨body, i, rfl, rfl, here⟩ | ⟨cond, otherwise, rfl, rfl⟩ |
            ⟨cond, then_, rfl, rfl⟩ | ⟨cond, rfl, rfl⟩
          · obtain ⟨reached', base', within⟩ := sites_subset_sitesAll here reached place 0 base
            rw [Nat.zero_add] at within
            obtain ⟨site, member, same⟩ := ih found reached' _ base'
            exact ⟨site, within member, same⟩
          · obtain ⟨site, member, same⟩ := ih found reached _ base
            exact ⟨site, List.mem_append_left _ (List.mem_append_left _ member), same⟩
          · obtain ⟨site, member, same⟩ := ih found reached _ _
            exact ⟨site, List.mem_append_left _ (List.mem_append_right _ member), same⟩
          · obtain ⟨site, member, same⟩ := ih found reached _ (base + 1)
            exact ⟨site, List.mem_cons_of_mem _ member, same⟩

theorem at?_site {s : Stmt} {reached : Bool} {base : Nat} (member : site ∈ s.sites x reached [] base) :
    (Piece.stmt s).at? site.place = some (.stmt site.stmt) ∧ site.stmt.isStep = true := by
  obtain ⟨below, same, found, isStep⟩ := at?_of_mem_sites s member
  rw [same]
  exact ⟨found, isStep⟩

theorem mem_places {s : Stmt} {reached : Bool} {base : Nat} {place : Place} :
    place ∈ (s.sites x reached [] base).map Site.place ↔
      ∃ step, (Piece.stmt s).at? place = some (.stmt step) ∧ step.isStep = true := by
  constructor
  · intro placed
    obtain ⟨site, member, rfl⟩ := List.mem_map.mp placed
    exact ⟨site.stmt, at?_site member⟩
  · rintro ⟨step, found, isStep⟩
    obtain ⟨site, member, same⟩ := mem_sites_of_at? found isStep reached [] base
    exact List.mem_map.mpr ⟨site, member, same⟩

mutual

/-- No place has two sites: the sites of different parts are below different steps. -/
theorem nodup_sites (s : Stmt) (reached : Bool) (place : Place) (base : Nat) :
    ((s.sites x reached place base).map Site.place).Nodup := by
  cases s with
  | block body => exact nodup_sitesAll body reached place 0 base
  | assign | ret | missing | hollow | foreign => simp [sites]
  | ite cond then_ otherwise =>
      simp only [sites, List.map_append, List.map_cons, List.map_nil]
      refine ((nodup_sites then_ _ _ _).append (nodup_sites otherwise _ _ _) ?_).append
        (List.nodup_singleton _) ?_
      · intro p inYes inNo
        obtain ⟨a, memberA, rfl⟩ := List.mem_map.mp inYes
        obtain ⟨b, memberB, same⟩ := List.mem_map.mp inNo
        cases Place.step_unique (prefix_of_mem_sites memberA) (same ▸ prefix_of_mem_sites memberB)
      · intro p inParts here
        obtain rfl := List.mem_singleton.mp here
        rcases List.mem_append.mp inParts with inYes | inNo
        · obtain ⟨a, member, same⟩ := List.mem_map.mp inYes
          exact Place.not_back (same ▸ prefix_of_mem_sites member)
        · obtain ⟨a, member, same⟩ := List.mem_map.mp inNo
          exact Place.not_back (same ▸ prefix_of_mem_sites member)
  | «while» cond body =>
      simp only [sites, List.map_cons, List.nodup_cons]
      refine ⟨fun inBody => ?_, nodup_sites body _ _ _⟩
      obtain ⟨a, member, same⟩ := List.mem_map.mp inBody
      exact Place.not_back (same ▸ prefix_of_mem_sites member)

theorem nodup_sitesAll (body : List Stmt) (reached : Bool) (place : Place) (i base : Nat) :
    ((sitesAll x reached place i base body).map Site.place).Nodup := by
  cases body with
  | nil => exact List.nodup_nil
  | cons s rest =>
      simp only [sitesAll, List.map_append]
      refine (nodup_sitesAll rest _ _ _ _).append (nodup_sites s _ _ _) ?_
      intro p inRest inFirst
      obtain ⟨a, memberA, rfl⟩ := List.mem_map.mp inRest
      obtain ⟨b, memberB, same⟩ := List.mem_map.mp inFirst
      obtain ⟨j, le, above⟩ := prefix_of_mem_sitesAll memberA
      cases Place.step_unique above (same ▸ prefix_of_mem_sites memberB)
      omega

end

end Stmt

end FlowFold
