import FlowFold.Proofs.Scopes
import FlowFold.Proofs.Sites

/-! # What a check warns about

A check follows control through the tree. The variables that it takes to be assigned after a
statement lack a variable exactly if control can get there without assigning it. So it warns
about a read of an unassigned variable exactly at the sites that control can get to without
assigning the variable, and it reports as unreachable exactly what contains the sites that
control cannot get to at all.
-/

namespace FlowFold

namespace Report

/-- A warning says that the variable may be unassigned. -/
def Warns (r : Report) (x : String) : Prop :=
  ∃ f ∈ r.warnings, f.problem = .maybeUnassigned ∧ f.piece = .expr (.var x)

/-- A warning says that the statement at the place, or one around it, cannot be reached. -/
def Flags (r : Report) (place : Place) : Prop :=
  ∃ f ∈ r.warnings, f.problem = .unreachable ∧ f.place <+: place

instance (r : Report) (x : String) : Decidable (r.Warns x) :=
  inferInstanceAs (Decidable (∃ f ∈ r.warnings, f.problem = .maybeUnassigned ∧ f.piece = .expr (.var x)))

instance (r : Report) (place : Place) : Decidable (r.Flags place) :=
  inferInstanceAs (Decidable (∃ f ∈ r.warnings, f.problem = .unreachable ∧ f.place <+: place))

theorem warnings_append (a b : Report) : (a ++ b).warnings = a.warnings ++ b.warnings := rfl

theorem warns_congr {a b : Report} {x : String} (same : a.warnings = b.warnings) :
    a.Warns x ↔ b.Warns x := by
  rw [Warns, Warns, same]

theorem flags_congr {a b : Report} {place : Place} (same : a.warnings = b.warnings) :
    a.Flags place ↔ b.Flags place := by
  rw [Flags, Flags, same]

@[simp] theorem warns_append {a b : Report} {x : String} : (a ++ b).Warns x ↔ a.Warns x ∨ b.Warns x := by
  simp [Warns, warnings_append, or_and_right, exists_or]

@[simp] theorem flags_append {a b : Report} {place : Place} :
    (a ++ b).Flags place ↔ a.Flags place ∨ b.Flags place := by
  simp [Flags, warnings_append, or_and_right, exists_or]

@[simp] theorem not_warns_empty (x : String) : ¬ empty.Warns x := by simp [Warns, empty]

@[simp] theorem not_flags_empty (place : Place) : ¬ empty.Flags place := by simp [Flags, empty]

@[simp] theorem not_warns_error (problem : Problem) (place : Place) (piece : Piece) (x : String) :
    ¬ (error problem place piece).Warns x := by simp [Warns, error]

@[simp] theorem not_flags_error (problem : Problem) (place : Place) (piece : Piece) (below : Place) :
    ¬ (error problem place piece).Flags below := by simp [Flags, error]

@[simp] theorem not_warns_unreachable (place : Place) (piece : Piece) (x : String) :
    ¬ (warning .unreachable place piece).Warns x := by simp [Warns, warning]

@[simp] theorem warns_unassigned {place : Place} {name x : String} :
    (warning .maybeUnassigned place (.expr (.var name))).Warns x ↔ x = name := by
  simp [Warns, warning, eq_comm]

@[simp] theorem not_flags_unassigned (place : Place) (piece : Piece) (below : Place) :
    ¬ (warning .maybeUnassigned place piece).Flags below := by simp [Flags, warning]

@[simp] theorem flags_unreachable {place below : Place} {piece : Piece} :
    (warning .unreachable place piece).Flags below ↔ place <+: below := by simp [Flags, warning]

end Report

/-- Control gets here, and `x` is not among the variables taken to be assigned. -/
def Assigned.lacks (x : Option String) : Option Assigned → Bool
  | none => false
  | some assigned => x.all fun name => !assigned.contains name

theorem Assigned.lacks_meet (x : Option String) (a b : Option Assigned) :
    lacks x (meet a b) = (lacks x a || lacks x b) := by
  cases a with
  | none => simp [meet, lacks]
  | some a =>
      cases b with
      | none => simp [meet, lacks]
      | some b =>
          cases x with
          | none => rfl
          | some name =>
              rw [Bool.eq_iff_iff]
              simp [meet, lacks]

namespace Expr

variable {dead : Bool} {assigned : Assigned}

theorem warns_report {x : String} (e : Expr) (place : Place) :
    (e.report dead assigned place).Warns x ↔
      x ≠ "" ∧ (!dead && Assigned.lacks (some x) (some assigned)) = true ∧ x ∈ e.names := by
  induction e generalizing place with
  | const | missing | foreign => simp [report, names]
  | hollow kind => cases kind <;> simp [report, names]
  | var name =>
      simp only [report, names, List.mem_singleton]
      split_ifs with empty quiet
      · simp only [Report.not_warns_error, false_iff]
        rintro ⟨named, -, rfl⟩
        exact named empty
      · simp only [Report.not_warns_empty, false_iff]
        rintro ⟨-, lacking, rfl⟩
        simp_all [Assigned.lacks]
      · simp only [Report.warns_unassigned]
        constructor
        · rintro rfl
          simpa [Assigned.lacks, empty] using quiet
        · exact fun read => read.2.2
  | binary op left right ihl ihr =>
      simp only [report, Report.warns_append, ihl, ihr, names, List.mem_append]
      split_ifs <;> simp [and_or_left]

theorem not_flags_report (e : Expr) (place below : Place) : ¬ (e.report dead assigned place).Flags below := by
  induction e generalizing place with
  | const | missing | foreign => simp [report]
  | hollow kind => cases kind <;> simp [report]
  | var name =>
      simp only [report]
      split_ifs <;> simp
  | binary op left right ihl ihr =>
      simp only [report, Report.flags_append, ihl, ihr, or_false]
      split_ifs <;> simp

end Expr

namespace Stmt

variable {x : Option String}

mutual

/-- What is taken to be assigned after a statement lacks `x` if it did before and control can
    get past the statement without assigning `x`. -/
theorem lacks_report (named : x ≠ some "") (s : Stmt) (dead : Bool) (assigned : Assigned) (place : Place) :
    Assigned.lacks x (s.report dead assigned place).2 =
      (Assigned.lacks x (some assigned) && s.passes x) := by
  cases s with
  | block body => exact lacks_reportAll named body dead place 0 (some assigned)
  | assign target value =>
      simp only [report, passes]
      split
      · cases x <;> simp
      · simp [bne_iff_ne.mpr named.symm]
      · rename_i name _
        cases x with
        | none => rfl
        | some y =>
            have apart : (y ∉ name :: assigned) ↔ y ∉ assigned ∧ name ≠ y := by grind
            rw [Bool.eq_iff_iff]
            simpa [Assigned.lacks] using apart
  | ret result => simp [report, passes, Assigned.lacks]
  | ite cond then_ otherwise =>
      by_cases none : otherwise = .missing
      · subst none
        simp only [report, passes, Assigned.lacks_meet, lacks_report named then_, Bool.or_true, Bool.and_true]
        cases Assigned.lacks x (some assigned) <;> simp
      · rw [report]
        · simp only [passes, Assigned.lacks_meet, lacks_report named then_, lacks_report named otherwise,
            Bool.and_or_distrib_left]
        · exact none
  | «while» cond body => simp [report, passes]
  | missing | hollow | foreign => simp [report, passes]

theorem lacks_reportAll (named : x ≠ some "") (body : List Stmt) (dead : Bool) (place : Place) (i : Nat)
    (before : Option Assigned) :
    Assigned.lacks x (reportAll dead place i before body).2 =
      (Assigned.lacks x before && passesAll x body) := by
  cases body with
  | nil => simp [reportAll, passesAll]
  | cons s rest =>
      cases before with
      | none =>
          simp only [reportAll, lacks_reportAll named rest]
          rfl
      | some assigned =>
          simp only [reportAll, lacks_reportAll named rest, lacks_report named s, passesAll, Bool.and_assoc]

end

theorem warnings_check_ite (cond : Expr) (then_ otherwise : Stmt) (dead : Bool) (assigned : Assigned)
    (place : Place) :
    ((ite cond then_ otherwise).report dead assigned place).1.warnings =
      (cond.report dead assigned (place ++ [.cond]) ++
        (then_.report dead assigned (place ++ [.thenBranch])).1 ++
        (otherwise.report dead assigned (place ++ [.elseBranch])).1).warnings := by
  by_cases none : otherwise = .missing
  · subst none
    exact (List.append_nil _).symm
  · rw [report]
    exact none

/-- Control gets to one of the sites, and it reads `x`. -/
def ReadAt (sites : List Site) (x : String) : Prop :=
  ∃ site ∈ sites, site.reached = true ∧ x ∈ site.stmt.reads

section

variable {x : String}

@[simp] theorem not_readAt_nil : ¬ ReadAt [] x := by simp [ReadAt]

@[simp] theorem readAt_cons {site : Site} {sites : List Site} :
    ReadAt (site :: sites) x ↔ site.reached = true ∧ x ∈ site.stmt.reads ∨ ReadAt sites x := by
  simp [ReadAt]

@[simp] theorem readAt_append {a b : List Site} : ReadAt (a ++ b) x ↔ ReadAt a x ∨ ReadAt b x := by
  simp [ReadAt, or_and_right, exists_or]

@[simp] theorem not_readAt_sites (y : Option String) (place : Place) (base : Nat) (s : Stmt) :
    ¬ ReadAt (s.sites y false place base) x := by
  rintro ⟨site, member, gets, -⟩
  cases reached_of_mem_sites s member gets

@[simp] theorem not_readAt_sitesAll (y : Option String) (place : Place) (i base : Nat) (body : List Stmt) :
    ¬ ReadAt (sitesAll y false place i base body) x := by
  rintro ⟨site, member, gets, -⟩
  cases reached_of_mem_sitesAll body member gets

mutual

/-- A check warns about `x` exactly if `x` is read where control gets to without assigning it.
    Reading a variable without a name is an error, and no warning. -/
theorem warns_report (s : Stmt) (dead : Bool) (assigned : Assigned) (place : Place) (base : Nat) :
    (s.report dead assigned place).1.Warns x ↔ x ≠ "" ∧
      ReadAt (s.sites (some x) (!dead && Assigned.lacks (some x) (some assigned)) place base) x := by
  cases s with
  | block body => exact warns_reportAll body dead place 0 base (some assigned)
  | assign target value =>
      simp only [report, sites, readAt_cons, not_readAt_nil, or_false, reads]
      split <;> simp [Expr.warns_report]
  | ret result => simp [report, sites, reads, Expr.warns_report]
  | ite cond then_ otherwise =>
      rw [Report.warns_congr (warnings_check_ite ..)]
      simp only [sites, readAt_append, readAt_cons, not_readAt_nil, Report.warns_append,
        Expr.warns_report, reads, or_false]
      rw [warns_report then_ dead assigned _ base, warns_report otherwise, ← and_or_left, ← and_or_left,
        or_assoc, or_comm]
  | «while» cond body =>
      simp only [report, sites, readAt_cons, Report.warns_append, Expr.warns_report, reads]
      rw [warns_report body dead assigned _ (base + 1), ← and_or_left]
  | missing | hollow | foreign => simp [report, sites]

theorem warns_reportAll (body : List Stmt) (dead : Bool) (place : Place) (i base : Nat)
    (before : Option Assigned) :
    (reportAll dead place i before body).1.Warns x ↔ x ≠ "" ∧
      ReadAt (sitesAll (some x) (!dead && Assigned.lacks (some x) before) place i base body) x := by
  cases body with
  | nil => simp [reportAll, sitesAll]
  | cons s rest =>
      cases before with
      | none =>
          simp only [reportAll, sitesAll, readAt_append, Report.warns_append,
            Report.not_warns_unreachable, false_or]
          rw [warns_report s true [] _ base, warns_reportAll rest dead place (i + 1) base none]
          simp [Assigned.lacks]
      | some assigned =>
          simp only [reportAll, sitesAll, readAt_append, Report.warns_append]
          rw [warns_report s, warns_reportAll rest dead place (i + 1) base, ← and_or_left, or_comm]
          refine and_congr_right fun named => ?_
          rw [lacks_report (by simpa using named) s, Bool.and_assoc]

end

end

/-! ## Unreachable statements -/

theorem isSome_report (s : Stmt) (dead : Bool) (assigned : Assigned) (place : Place) :
    (s.report dead assigned place).2.isSome = s.passes none := by
  have lacks : ∀ after, Assigned.lacks none after = after.isSome := by
    intro after
    cases after <;> rfl
  rw [← lacks]
  exact lacks_report (Option.some_ne_none "").symm s dead assigned place

mutual

theorem prefix_of_flags (s : Stmt) {dead : Bool} {assigned : Assigned} {place below : Place}
    (flags : (s.report dead assigned place).1.Flags below) : place <+: below := by
  cases s with
  | block body =>
      obtain ⟨j, -, inside⟩ := prefix_of_flagsAll body flags
      exact (List.prefix_append place _).trans inside
  | assign target value =>
      simp only [report] at flags
      split at flags <;> simp [Expr.not_flags_report] at flags
  | ret result => exact absurd flags (Expr.not_flags_report _ _ _)
  | ite cond then_ otherwise =>
      rw [Report.flags_congr (warnings_check_ite ..)] at flags
      simp only [Report.flags_append, Expr.not_flags_report, false_or] at flags
      rcases flags with inYes | inNo
      · exact (List.prefix_append place _).trans (prefix_of_flags then_ inYes)
      · exact (List.prefix_append place _).trans (prefix_of_flags otherwise inNo)
  | «while» cond body =>
      simp only [report, Report.flags_append, Expr.not_flags_report, false_or] at flags
      exact (List.prefix_append place _).trans (prefix_of_flags body flags)
  | missing | hollow | foreign => simp [report] at flags

theorem prefix_of_flagsAll (body : List Stmt) {dead : Bool} {place below : Place} {i : Nat}
    {before : Option Assigned} (flags : (reportAll dead place i before body).1.Flags below) :
    ∃ j, i ≤ j ∧ place ++ [.index j] <+: below := by
  cases body with
  | nil => simp [reportAll] at flags
  | cons s rest =>
      have later : ∀ {after}, (reportAll dead place (i + 1) after rest).1.Flags below →
          ∃ j, i ≤ j ∧ place ++ [.index j] <+: below := by
        intro after flags
        obtain ⟨j, le, inside⟩ := prefix_of_flagsAll rest flags
        exact ⟨j, Nat.le_of_succ_le le, inside⟩
      cases before with
      | none =>
          simp only [reportAll, Report.flags_append, Report.flags_unreachable] at flags
          rcases flags with (here | inFirst) | inRest
          · exact ⟨i, Nat.le_refl i, here⟩
          · exact ⟨i, Nat.le_refl i, prefix_of_flags s inFirst⟩
          · exact later inRest
      | some assigned =>
          simp only [reportAll, Report.flags_append] at flags
          rcases flags with inFirst | inRest
          · exact ⟨i, Nat.le_refl i, prefix_of_flags s inFirst⟩
          · exact later inRest

end

/-- Findings below one step say nothing about a place below another. -/
theorem not_flags_beside {s : Stmt} {dead : Bool} {assigned : Assigned} {place below : Place} {a b : Step}
    (inside : place ++ [b] <+: below) (other : a ≠ b) :
    ¬ (s.report dead assigned (place ++ [a])).1.Flags below :=
  fun flags => other (Place.step_unique (prefix_of_flags s flags) inside)

theorem not_flagsAll_before {body : List Stmt} {dead : Bool} {place below : Place} {i : Nat}
    {before : Option Assigned} (inside : place ++ [.index i] <+: below) :
    ¬ (reportAll dead place (i + 1) before body).1.Flags below := by
  intro flags
  obtain ⟨j, le, inside'⟩ := prefix_of_flagsAll body flags
  cases Place.step_unique inside inside'
  omega

mutual

/-- Within a statement that control gets to, the check reports a step as unreachable, or
    something around it, exactly if control does not get to the step. -/
theorem flags_report (s : Stmt) (dead : Bool) (assigned : Assigned) {place : Place} {base : Nat}
    {site : Site} (member : site ∈ s.sites none true place base) :
    (s.report dead assigned place).1.Flags site.place ↔ site.reached = false := by
  cases s with
  | block body => exact flags_reportAll body dead (some assigned) member
  | assign target value =>
      obtain rfl := List.mem_singleton.mp member
      simp only [report]
      split <;> simp [Expr.not_flags_report]
  | ret result =>
      obtain rfl := List.mem_singleton.mp member
      simp [report, Expr.not_flags_report]
  | ite cond then_ otherwise =>
      rw [Report.flags_congr (warnings_check_ite ..)]
      simp only [Report.flags_append, Expr.not_flags_report, false_or]
      simp only [sites, List.mem_append, List.mem_singleton, or_assoc] at member
      rcases member with inYes | inNo | rfl
      · rw [or_iff_left (not_flags_beside (prefix_of_mem_sites inYes) (by simp))]
        exact flags_report then_ dead assigned inYes
      · rw [or_iff_right (not_flags_beside (prefix_of_mem_sites inNo) (by simp))]
        exact flags_report otherwise dead assigned inNo
      · simp only [Bool.true_eq_false, iff_false]
        rintro (inYes | inNo)
        · exact Place.not_back (prefix_of_flags then_ inYes)
        · exact Place.not_back (prefix_of_flags otherwise inNo)
  | «while» cond body =>
      simp only [report, Report.flags_append, Expr.not_flags_report, false_or]
      rcases List.mem_cons.mp member with rfl | inBody
      · simpa using fun flags => Place.not_back (prefix_of_flags body flags)
      · exact flags_report body dead assigned inBody
  | missing | hollow | foreign => cases member

theorem flags_reportAll (body : List Stmt) (dead : Bool) {place : Place} {i base : Nat} {site : Site}
    (before : Option Assigned) (member : site ∈ sitesAll none before.isSome place i base body) :
    (reportAll dead place i before body).1.Flags site.place ↔ site.reached = false := by
  cases body with
  | nil => cases member
  | cons s rest =>
      cases before with
      | none =>
          -- Nothing is reached here, and the check says so of every statement.
          have unreached : site.reached = false :=
            Bool.eq_false_iff.mpr fun gets => nomatch reached_of_mem_sitesAll (s :: rest) member gets
          simp only [reportAll, Report.flags_append, Report.flags_unreachable, unreached, iff_true]
          rcases List.mem_append.mp member with inRest | inFirst
          · exact .inr ((flags_reportAll rest dead none inRest).mpr unreached)
          · exact .inl (.inl (prefix_of_mem_sites inFirst))
      | some assigned =>
          simp only [reportAll, Report.flags_append]
          rcases List.mem_append.mp member with inRest | inFirst
          · obtain ⟨j, le, inside⟩ := prefix_of_mem_sitesAll inRest
            rw [or_iff_right (not_flags_beside inside (by simp; omega))]
            have continued : site ∈ sitesAll none (s.report dead assigned (place ++ [.index i])).2.isSome
                place (i + 1) base rest := by
              rwa [isSome_report]
            exact flags_reportAll rest dead _ continued
          · rw [or_iff_left (not_flagsAll_before (prefix_of_mem_sites inFirst))]
            exact flags_report s dead assigned inFirst

end

end Stmt

end FlowFold
