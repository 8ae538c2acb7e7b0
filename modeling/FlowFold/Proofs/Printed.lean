import FlowFold.Proofs.Formation
import FlowFold.Proofs.Readable
import FlowFold.Proofs.Sites

/-! # Programs and their texts

Every statement is written in brackets that open with a word of its own, so its first
characters tell what kind of statement it is and its text says where it ends. An else branch
that is not there leaves a mark which no statement begins with. So a program can be recovered
from its text, provided that its expressions can: names are identifiers and literals are plain.
-/

namespace FlowFold

theorem Expr.Accepted.readable {e : Expr} (accepted : e.Accepted)
    (identifiers : ∀ name ∈ e.names, Text.isIdentifier name = true)
    (plain : ∀ v ∈ e.literals, ∃ w ∈ v, w.Plain) : e.Readable := by
  induction e with
  | const v =>
      obtain ⟨w, own, plain⟩ := plain _ (.head _)
      cases own
      exact plain
  | var name => exact identifiers name (.head _)
  | hollow kind =>
      cases kind with
      | const =>
          obtain ⟨w, own, -⟩ := plain _ (.head _)
          cases own
      | var | binary => exact accepted
  | binary op left right ihl ihr =>
      obtain ⟨namesLeft, namesRight⟩ := List.forall_mem_append.mp identifiers
      obtain ⟨plainLeft, plainRight⟩ := List.forall_mem_append.mp plain
      exact ⟨accepted.1, ihl accepted.2.1 namesLeft plainLeft, ihr accepted.2.2 namesRight plainRight⟩
  | missing | foreign => exact accepted

namespace Stmt

mutual

def names : Stmt → List String
  | .block body => namesAll body
  | .assign target value => target.toList ++ value.names
  | .ite cond then_ otherwise => cond.names ++ then_.names ++ otherwise.names
  | .while cond body => cond.names ++ body.names
  | .ret result => result.names
  | .missing | .hollow _ | .foreign _ => []

def namesAll : List Stmt → List String
  | [] => []
  | s :: rest => s.names ++ namesAll rest

end

/-- A statement without holes, whose expressions are readable and whose targets are identifiers. -/
inductive Readable : Stmt → Prop where
  | nil : Readable (.block [])
  | cons {s : Stmt} {rest : List Stmt} (first : Readable s) (others : Readable (.block rest)) :
      Readable (.block (s :: rest))
  | assign {name : String} {value : Expr} (identifier : Text.isIdentifier name = true)
      (readable : value.Readable) : Readable (.assign (some name) value)
  | ite {cond : Expr} {then_ otherwise : Stmt} (readable : cond.Readable) (yes : Readable then_)
      (no : otherwise ≠ .missing → Readable otherwise) : Readable (.ite cond then_ otherwise)
  | while {cond : Expr} {body : Stmt} (readable : cond.Readable) (inner : Readable body) :
      Readable (.while cond body)
  | ret {result : Expr} (readable : result.Readable) : Readable (.ret result)

/-! ## The texts of statements -/

/-- What stands in the text of a branch for its else part. -/
def elseText (otherwise : Stmt) : String :=
  if otherwise = .missing then "'noelse" else otherwise.inline

@[simp] theorem inline_block (body : List Stmt) :
    (block body).inline.toList = "(begin".toList ++ ((inlineAll body).toList ++ [')']) := by
  simp [inline]

@[simp] theorem inlineAll_cons (s : Stmt) (rest : List Stmt) :
    (inlineAll (s :: rest)).toList = ' ' :: (s.inline.toList ++ (inlineAll rest).toList) := by
  simp [inlineAll]

@[simp] theorem inline_assign (name : String) (value : Expr) :
    (assign (some name) value).inline.toList =
      "(assign ".toList ++ (name.toList ++ ' ' :: (value.inline.toList ++ [')'])) := by
  simp [inline]

@[simp] theorem inline_ite (cond : Expr) (then_ otherwise : Stmt) :
    (ite cond then_ otherwise).inline.toList =
      "(if ".toList ++ (cond.inline.toList ++ ' ' :: (then_.inline.toList ++ ' ' ::
        ((elseText otherwise).toList ++ [')']))) := by
  by_cases none : otherwise = .missing
  · simp [none, inline, elseText]
  · rw [inline]
    · simp [none, elseText]
    · exact none

@[simp] theorem inline_while (cond : Expr) (body : Stmt) :
    (Stmt.while cond body).inline.toList =
      "(while ".toList ++ (cond.inline.toList ++ ' ' :: (body.inline.toList ++ [')'])) := by
  simp [inline]

@[simp] theorem inline_ret (result : Expr) :
    (ret result).inline.toList = "(return ".toList ++ (result.inline.toList ++ [')']) := by
  simp [inline]

namespace Readable

variable {s s' : Stmt} {rest rest' : List Char}

theorem head (readable : s.Readable) : ∃ tail, s.inline.toList = '(' :: tail := by
  cases readable with
  | nil | cons => exact ⟨_, inline_block _⟩
  | assign => exact ⟨_, inline_assign _ _⟩
  | ite => exact ⟨_, inline_ite _ _ _⟩
  | «while» => exact ⟨_, inline_while _ _⟩
  | ret => exact ⟨_, inline_ret _⟩

theorem elseText_unique {a b : Stmt} (readable : a ≠ .missing → a.Readable) (readable' : b ≠ .missing → b.Readable)
    (unique : a ≠ .missing → ∀ {b : Stmt} {rest rest' : List Char}, b.Readable →
      a.inline.toList ++ rest = b.inline.toList ++ rest' → a = b ∧ rest = rest')
    (same : (elseText a).toList ++ rest = (elseText b).toList ++ rest') : a = b ∧ rest = rest' := by
  -- The mark of an absent branch begins with a quote, every statement with a bracket.
  by_cases noneA : a = .missing
  · by_cases noneB : b = .missing
    · rw [noneA, noneB] at same ⊢
      exact ⟨rfl, List.append_cancel_left same⟩
    · obtain ⟨tail, text⟩ := (readable' noneB).head
      simp [elseText, noneA, noneB, text] at same
  · obtain ⟨tail, text⟩ := (readable noneA).head
    by_cases noneB : b = .missing
    · simp [elseText, noneA, noneB, text] at same
    · simp only [elseText, noneA, noneB, if_false] at same
      exact unique noneA (readable' noneB) same

theorem unique (readable : s.Readable) (readable' : s'.Readable)
    (same : s.inline.toList ++ rest = s'.inline.toList ++ rest') : s = s' ∧ rest = rest' := by
  -- If the two are of different kinds, their words differ at once.
  induction readable generalizing s' rest rest' with
  | nil =>
      cases readable' with
      | nil => exact ⟨rfl, List.append_cancel_left same⟩
      | cons => simp [inlineAll] at same
      | assign | ite | «while» | ret => simp at same
  | @cons s body first others ihFirst ihOthers =>
      cases readable' with
      | nil => simp [inlineAll] at same
      | @cons s' body' first' others' =>
          simp only [inline_block, inlineAll_cons, List.append_assoc, List.cons_append] at same
          have texts := (List.cons.inj (List.append_cancel_left same)).2
          obtain ⟨rfl, afterFirst⟩ := ihFirst first' texts
          have blocks : (block body).inline.toList ++ rest = (block body').inline.toList ++ rest' := by
            simpa using afterFirst
          obtain ⟨bodies, rests⟩ := ihOthers others' blocks
          cases bodies
          exact ⟨rfl, rests⟩
      | assign | ite | «while» | ret => simp at same
  | assign identifier readable =>
      cases readable' with
      | assign identifier' readable' =>
          simp only [inline_assign, List.append_assoc, List.cons_append, List.nil_append] at same
          obtain ⟨names, afterName⟩ := (Text.Token.identifier identifier).unique
            (.identifier identifier') (.blank _) (.blank _) (List.append_cancel_left same)
          obtain ⟨rfl, afterValue⟩ :=
            readable.unique readable' (.bracket _) (.bracket _) (List.cons.inj afterName).2
          rw [String.toList_inj.mp names]
          exact ⟨rfl, (List.cons.inj afterValue).2⟩
      | nil | cons | ite | «while» | ret => simp at same
  | ite readable yes no ihYes ihNo =>
      cases readable' with
      | ite readable' yes' no' =>
          simp only [inline_ite, List.append_assoc, List.cons_append, List.nil_append] at same
          obtain ⟨rfl, afterCond⟩ :=
            readable.unique readable' (.blank _) (.blank _) (List.append_cancel_left same)
          obtain ⟨rfl, afterYes⟩ := ihYes yes' (List.cons.inj afterCond).2
          obtain ⟨rfl, afterNo⟩ := elseText_unique no no' ihNo (List.cons.inj afterYes).2
          exact ⟨rfl, (List.cons.inj afterNo).2⟩
      | nil | cons | assign | «while» | ret => simp at same
  | «while» readable inner ih =>
      cases readable' with
      | «while» readable' inner' =>
          simp only [inline_while, List.append_assoc, List.cons_append, List.nil_append] at same
          obtain ⟨rfl, afterCond⟩ :=
            readable.unique readable' (.blank _) (.blank _) (List.append_cancel_left same)
          obtain ⟨rfl, afterBody⟩ := ih inner' (List.cons.inj afterCond).2
          exact ⟨rfl, (List.cons.inj afterBody).2⟩
      | nil | cons | assign | ite | ret => simp at same
  | ret readable =>
      cases readable' with
      | ret readable' =>
          simp only [inline_ret, List.append_assoc, List.cons_append, List.nil_append] at same
          obtain ⟨rfl, afterResult⟩ :=
            readable.unique readable' (.bracket _) (.bracket _) (List.append_cancel_left same)
          exact ⟨rfl, (List.cons.inj afterResult).2⟩
      | nil | cons | assign | ite | «while» => simp at same

theorem text_eq (readable : s.Readable) : s.text = .ok s.inline := by
  cases readable <;> rfl

end Readable

/-! ## Checked programs -/

theorem Accepted.readable {s : Stmt} (accepted : s.Accepted)
    (identifiers : ∀ name ∈ s.names, Text.isIdentifier name = true)
    (plain : ∀ v ∈ s.literals, ∃ w ∈ v, w.Plain) : s.Readable := by
  induction accepted with
  | nil => exact .nil
  | cons _ _ ihFirst ihOthers =>
      obtain ⟨namesFirst, namesOthers⟩ := List.forall_mem_append.mp identifiers
      obtain ⟨plainFirst, plainOthers⟩ := List.forall_mem_append.mp plain
      exact .cons (ihFirst namesFirst plainFirst) (ihOthers namesOthers plainOthers)
  | assign accepted =>
      obtain ⟨identifier, namesValue⟩ := List.forall_mem_cons.mp identifiers
      exact .assign identifier (accepted.readable namesValue plain)
  | ret accepted => exact .ret (accepted.readable identifiers plain)
  | ifThen accepted _ ih =>
      simp only [names, literals, List.append_nil, List.forall_mem_append] at identifiers plain
      exact .ite (accepted.readable identifiers.1 plain.1) (ih identifiers.2 plain.2)
        (fun there => absurd rfl there)
  | ifElse accepted _ _ ihYes ihNo =>
      simp only [names, literals, List.append_assoc, List.forall_mem_append] at identifiers plain
      obtain ⟨namesCond, namesYes, namesNo⟩ := identifiers
      obtain ⟨plainCond, plainYes, plainNo⟩ := plain
      exact .ite (accepted.readable namesCond plainCond) (ihYes namesYes plainYes)
        (fun _ => ihNo namesNo plainNo)
  | «while» accepted _ ih =>
      obtain ⟨namesCond, namesBody⟩ := List.forall_mem_append.mp identifiers
      obtain ⟨plainCond, plainBody⟩ := List.forall_mem_append.mp plain
      exact .while (accepted.readable namesCond plainCond) (ih namesBody plainBody)

end Stmt

/-- Two checked programs with the same text are the same tree, provided that their variables are
    identifiers and their literals are plain. -/
theorem program_eq_of_text_eq {a b : Stmt} {inputs inputs' : List String} {report report' : Report}
    (checked : check a inputs = .ok report) (clean : report.errors = [])
    (checked' : check b inputs' = .ok report') (clean' : report'.errors = [])
    (identifiers : ∀ name ∈ a.names, Text.isIdentifier name = true)
    (identifiers' : ∀ name ∈ b.names, Text.isIdentifier name = true)
    (plain : ∀ v ∈ a.literals, ∃ w ∈ v, w.Plain) (plain' : ∀ v ∈ b.literals, ∃ w ∈ v, w.Plain)
    (same : a.text = b.text) : a = b := by
  obtain ⟨-, rfl⟩ := check_eq_ok.mp checked
  obtain ⟨-, rfl⟩ := check_eq_ok.mp checked'
  have readable : a.Readable := (Stmt.accepted_of_report clean).readable identifiers plain
  have readable' : b.Readable := (Stmt.accepted_of_report clean').readable identifiers' plain'
  rw [readable.text_eq, readable'.text_eq, Except.ok.injEq] at same
  exact (readable.unique readable' (congrArg (·.toList ++ []) same)).1

/-- A block within a block, an empty block, and a branch without an else part within one that has
    an empty one. The literal is given modulo 2^32. -/
def Stmt.elseLess (literal : Int32) : Stmt :=
  .block
    [.block [.set "begin" (.int literal), .block []],
      .ite (.binary .lt (.var "x") (.int 3))
        (.ite (.bool true) (.set "y_1" (.var "x")) .missing) (.block []),
      .ret (.binary .sub (.var "begin") (.int (-1)))]

theorem program_eq_of_text_eq_elseLess :
    check (Stmt.elseLess (-2)) ["x"] = .ok .empty ∧ check (Stmt.elseLess 4294967294) ["x"] = .ok .empty ∧
      (∀ name ∈ (Stmt.elseLess (-2)).names, Text.isIdentifier name = true) ∧
      (∀ v ∈ (Stmt.elseLess (-2)).literals, ∃ w ∈ v, w.Plain) ∧
      (Stmt.elseLess (-2)).text = (Stmt.elseLess 4294967294).text ∧
      Stmt.elseLess (-2) = Stmt.elseLess 4294967294 := by
  have checked : check (Stmt.elseLess (-2)) ["x"] = .ok .empty := by rfl
  have checked' : check (Stmt.elseLess 4294967294) ["x"] = .ok .empty := by rfl
  have identifiers : ∀ name ∈ (Stmt.elseLess (-2)).names, Text.isIdentifier name = true := by decide
  have plain : ∀ v ∈ (Stmt.elseLess (-2)).literals, ∃ w ∈ v, w.Plain := by decide
  have same : (Stmt.elseLess (-2)).text = (Stmt.elseLess 4294967294).text := by rfl
  exact ⟨checked, checked', identifiers, plain, same,
    program_eq_of_text_eq checked rfl checked' rfl identifiers (by decide) plain (by decide) same⟩

end FlowFold
