import Mathlib.Data.List.Basic
import FlowFold.Proofs.Traversal
import FlowFold.Analysis.Fixpoint

/-! # How much environments say

One environment says no more than another if the other has all of its keys and all of
its constants. Absent is less than unknown, and unknown is less than a constant; two
different constants do not compare. Merging, evaluating and leaving a node all respect
this order: whoever knows more on the way in knows at least as much on the way out.

The analysis makes plain facts only: constants, and the one lack of a fact whose
unused slot is zero. Plain environments that say no more than each other are equal.
-/

namespace FlowFold

theorem mem_iff_entry {α β : Type} {cmp : α → α → Ordering} [Std.TransCmp cmp]
    {map : Std.ExtTreeMap α β cmp} {k : α} : k ∈ map ↔ ∃ entry, map[k]? = some entry := by
  rw [Std.ExtTreeMap.mem_iff_isSome_getElem?, Option.isSome_iff_exists]

/-- A fact as the analysis makes it. -/
def Fact.Plain (fact : Fact) : Prop := fact = .nothing ∨ ∃ v, fact = .known v

namespace Env

def Plain (env : Env) : Prop := ∀ (k : Key) (fact : Fact), env[k]? = some fact → fact.Plain

/-- Every key and every constant of the one environment is one of the other. -/
structure Below (a b : Env) : Prop where
  keys : ∀ k : Key, k ∈ a → k ∈ b
  known : ∀ (k : Key) (v : Value), a[k]? = some (.known v) → b[k]? = some (.known v)

namespace Below

theorem refl (a : Env) : Below a a := ⟨fun _ member => member, fun _ _ known => known⟩

theorem trans {a b c : Env} (ab : Below a b) (bc : Below b c) : Below a c :=
  ⟨fun k member => bc.keys k (ab.keys k member), fun k v known => bc.known k v (ab.known k v known)⟩

theorem empty (a : Env) : Below ∅ a := by
  constructor
  · intro k member
    exact absurd member Std.ExtTreeMap.not_mem_empty
  · intro k v known
    simp at known

theorem antisymm {a b : Env} (plainA : a.Plain) (plainB : b.Plain)
    (ab : Below a b) (ba : Below b a) : a = b := by
  refine Std.ExtTreeMap.ext_getElem? fun k => ?_
  cases inA : a[k]? with
  | none =>
      cases inB : b[k]? with
      | none => rfl
      | some fact =>
          obtain ⟨other, entry⟩ := mem_iff_entry.mp (ba.keys k (mem_iff_entry.mpr ⟨fact, inB⟩))
          rw [inA] at entry
          cases entry
  | some fact =>
      obtain ⟨fact', inB⟩ := mem_iff_entry.mp (ab.keys k (mem_iff_entry.mpr ⟨fact, inA⟩))
      rw [inB]
      rcases plainA k fact inA with rfl | ⟨v, rfl⟩
      · rcases plainB k fact' inB with rfl | ⟨v, rfl⟩
        · rfl
        · rw [ba.known k v inB] at inA
          exact inA.symm
      · rw [ab.known k v inA] at inB
        exact inB

end Below

/-- Every constant that the one environment has under a variable is one of the other. -/
def VarsBelow (a b : Env) : Prop :=
  ∀ (x : String) (v : Value), a[Key.var x]? = some (.known v) → b[Key.var x]? = some (.known v)

theorem Below.vars {a b : Env} (below : Below a b) : VarsBelow a b := fun x => below.known (.var x)

theorem get_eq_known {env : Env} {k : Key} {v : Value} :
    env.get k = .known v ↔ env[k]? = some (.known v) := by
  rw [Env.get, Std.ExtTreeMap.getD_eq_getD_getElem?]
  cases env[k]? with
  | none => simp [Fact.nothing]
  | some fact => simp

theorem getElem?_eq_get {env : Env} {k : Key} (member : k ∈ env) : env[k]? = some (env.get k) :=
  Std.ExtTreeMap.getElem?_eq_some_getD member

/-! ## Merging -/

theorem getElem?_addAll (judge : Key → Fact → Fact) (k : Key) (env merged : Env) :
    (env.foldl (fun merged k fact =>
      if k ∈ merged then merged else merged.insert k (judge k fact)) merged)[k]? =
    merged[k]?.or (env[k]?.map (judge k)) := by
  have entries : ∀ (l : List (Key × Fact)) (merged : Env),
      (l.foldl (fun (merged : Env) (entry : Key × Fact) =>
        if entry.1 ∈ merged then merged else merged.insert entry.1 (judge entry.1 entry.2))
          merged)[k]? =
      merged[k]?.or ((l.find? (compare ·.1 k == .eq)).map fun entry => judge k entry.2) := by
    intro l
    induction l with
    | nil => simp
    | cons entry l ih =>
        intro merged
        rw [List.foldl_cons, ih]
        by_cases same : entry.1 = k
        · subst same
          by_cases member : entry.1 ∈ merged
          · simp [member]
          · simp [member]
        · have kept : (if entry.1 ∈ merged then merged
              else merged.insert entry.1 (judge entry.1 entry.2))[k]? = merged[k]? := by
            split
            · rfl
            · rw [Std.ExtTreeMap.getElem?_insert, if_neg (by simpa using same)]
          rw [kept]
          simp [same]
  rw [Std.ExtTreeMap.foldl_eq_foldl_toList, entries]
  congr 1
  cases here : env[k]? with
  | none =>
      have absent : k ∉ env := fun member => by simp [mem_iff_entry, here] at member
      simp [Std.ExtTreeMap.find?_toList_eq_none_iff_not_mem.mpr absent]
  | some fact =>
      have listed : env.toList.find? (compare ·.1 k == .eq) = some (k, fact) := by
        rw [Std.ExtTreeMap.find?_toList_eq_some_iff_getKey?_eq_some_and_getElem?_eq_some]
        refine ⟨?_, here⟩
        exact Std.ExtTreeMap.getKey?_eq_some (mem_iff_entry.mpr ⟨fact, here⟩)
      simp [listed]

/-- What a merge has under a key: the fact of the first environment with the key, if all
    of them agree on it. -/
theorem getElem?_merge (envs : List Env) (k : Key) :
    (merge envs)[k]? = (envs.find? (k ∈ ·)).map fun env => agreed envs k (env.get k) := by
  have rest : ∀ (part : List Env) (merged : Env),
      (part.foldl (fun merged env => env.foldl (fun merged k fact =>
        if k ∈ merged then merged else merged.insert k (agreed envs k fact)) merged) merged)[k]? =
      merged[k]?.or ((part.find? (k ∈ ·)).map fun env => agreed envs k (env.get k)) := by
    intro part
    induction part with
    | nil => simp
    | cons env part ih =>
        intro merged
        rw [List.foldl_cons, ih, getElem?_addAll (agreed envs), Option.or_assoc]
        congr 1
        by_cases member : k ∈ env
        · rw [getElem?_eq_get member]
          simp [member]
        · simp [member]
  rw [merge, rest, Std.ExtTreeMap.getElem?_empty, Option.none_or]

theorem mem_merge {envs : List Env} {k : Key} : k ∈ merge envs ↔ ∃ env ∈ envs, k ∈ env := by
  rw [Std.ExtTreeMap.mem_iff_isSome_getElem?, getElem?_merge, Option.isSome_map, List.find?_isSome]
  simp

theorem merge_known {envs : List Env} {k : Key} {v : Value} :
    (merge envs)[k]? = some (.known v) ↔ envs ≠ [] ∧ ∀ env ∈ envs, env[k]? = some (.known v) := by
  rw [getElem?_merge]
  constructor
  · intro merged
    obtain ⟨env, found, fact⟩ := Option.map_eq_some_iff.mp merged
    refine ⟨List.ne_nil_of_mem (List.mem_of_find?_eq_some found), fun other member => ?_⟩
    unfold agreed at fact
    split at fact
    · rename_i all
      rw [List.all_eq_true] at all
      rw [← get_eq_known, ← fact]
      simpa using all other member
    · cases fact
  · rintro ⟨nonempty, all⟩
    obtain ⟨first, rest, rfl⟩ := List.exists_cons_of_ne_nil nonempty
    have known : ∀ env ∈ first :: rest, env.get k = .known v := fun env member =>
      get_eq_known.mpr (all env member)
    have member : k ∈ first := mem_iff_entry.mpr ⟨_, all first List.mem_cons_self⟩
    rw [List.find?_cons_of_pos (by simpa using member), Option.map_some, known first List.mem_cons_self,
      agreed, if_pos]
    rw [List.all_eq_true]
    intro env among
    simpa using known env among

theorem merge_plain {envs : List Env} (plain : ∀ env ∈ envs, env.Plain) : (merge envs).Plain := by
  intro k fact merged
  rw [getElem?_merge] at merged
  obtain ⟨env, found, rfl⟩ := Option.map_eq_some_iff.mp merged
  unfold agreed
  split
  · have member : k ∈ env := by simpa using List.find?_some found
    exact plain env (List.mem_of_find?_eq_some found) k _ (getElem?_eq_get member)
  · exact .inl rfl

theorem merge_mono {xs ys : List Env} (up : ∀ x ∈ xs, ∃ y ∈ ys, Below x y)
    (down : ∀ y ∈ ys, ∃ x ∈ xs, Below x y) : Below (merge xs) (merge ys) := by
  constructor
  · intro k member
    obtain ⟨x, among, here⟩ := mem_merge.mp member
    obtain ⟨y, amongY, below⟩ := up x among
    exact mem_merge.mpr ⟨y, amongY, below.keys k here⟩
  · intro k v known
    obtain ⟨nonempty, all⟩ := merge_known.mp known
    obtain ⟨x, among⟩ := List.exists_mem_of_ne_nil xs nonempty
    obtain ⟨y, amongY, _⟩ := up x among
    refine merge_known.mpr ⟨List.ne_nil_of_mem amongY, fun y' among' => ?_⟩
    obtain ⟨x', amongX, below⟩ := down y' among'
    exact below.known k v (all x' amongX)

end Env

/-! ## Evaluating -/

/-- An expression without holes, all of whose operators have a meaning. -/
def Expr.Complete : Expr → Prop
  | .const _ | .var _ => True
  | .binary op left right => op.isKnown = true ∧ left.Complete ∧ right.Complete
  | .missing | .hollow _ | .foreign _ => False

namespace Expr

instance decideComplete : (e : Expr) → Decidable e.Complete
  | .const _ | .var _ => .isTrue trivial
  | .binary op left right =>
      have := decideComplete left
      have := decideComplete right
      inferInstanceAs (Decidable (op.isKnown = true ∧ left.Complete ∧ right.Complete))
  | .missing | .hollow _ | .foreign _ => .isFalse id

theorem exists_foldOp {op : BinOp} (known : op.isKnown = true) : ∃ f, op.foldOp = .ok f := by
  cases op with
  | unknown code => cases known
  | add | sub | mul | eq | ne | lt => exact ⟨_, rfl⟩

theorem evaluate_binary {env : Env} {op : BinOp} {left right : Expr} {fact : Fact} :
    (binary op left right).evaluate env = .ok fact ↔
      ∃ f l r, op.foldOp = .ok f ∧ left.evaluate env = .ok l ∧ right.evaluate env = .ok r ∧
        fact = match l, r with
          | .known a, .known b => ((f a b).map Fact.known).getD .nothing
          | _, _ => .nothing := by
  simp only [evaluate, except_bind_eq_ok]
  constructor
  · rintro ⟨f, meaning, l, leftOk, r, rightOk, same⟩
    refine ⟨f, l, r, meaning, leftOk, rightOk, ?_⟩
    cases l <;> cases r <;> cases same <;> rfl
  · rintro ⟨f, l, r, meaning, leftOk, rightOk, rfl⟩
    refine ⟨f, meaning, l, leftOk, r, rightOk, ?_⟩
    cases l <;> cases r <;> rfl

theorem evaluate_binary_known {env : Env} {op : BinOp} {left right : Expr} {v : Value} :
    (binary op left right).evaluate env = .ok (.known v) ↔
      ∃ f a b, op.foldOp = .ok f ∧ left.evaluate env = .ok (.known a) ∧
        right.evaluate env = .ok (.known b) ∧ f a b = some v := by
  rw [evaluate_binary]
  constructor
  · rintro ⟨f, l, r, meaning, leftOk, rightOk, same⟩
    cases l with
    | unknown => cases same
    | known a =>
        cases r with
        | unknown => cases same
        | known b =>
            refine ⟨f, a, b, meaning, leftOk, rightOk, ?_⟩
            cases result : f a b with
            | none => simp [result, Fact.nothing] at same
            | some w => simpa [result] using same.symm
  · rintro ⟨f, a, b, meaning, leftOk, rightOk, result⟩
    exact ⟨f, _, _, meaning, leftOk, rightOk, by simp [result]⟩

theorem evaluate_total {e : Expr} (complete : e.Complete) (env : Env) :
    ∃ fact, e.evaluate env = .ok fact := by
  induction e with
  | const v => exact ⟨_, rfl⟩
  | var name => exact ⟨_, rfl⟩
  | binary op left right ihl ihr =>
      obtain ⟨f, meaning⟩ := exists_foldOp complete.1
      obtain ⟨l, leftOk⟩ := ihl complete.2.1
      obtain ⟨r, rightOk⟩ := ihr complete.2.2
      exact ⟨_, evaluate_binary.mpr ⟨f, l, r, meaning, leftOk, rightOk, rfl⟩⟩
  | missing | hollow | foreign => exact complete.elim

/-- Whether an expression can be evaluated does not depend on what is known. -/
theorem complete_of_evaluate {e : Expr} {env : Env} {fact : Fact} (ok : e.evaluate env = .ok fact) :
    e.Complete := by
  induction e generalizing fact with
  | const | var => trivial
  | binary op left right ihl ihr =>
      obtain ⟨f, l, r, known, leftOk, rightOk, -⟩ := evaluate_binary.mp ok
      refine ⟨?_, ihl leftOk, ihr rightOk⟩
      cases op with
      | unknown code => cases known
      | add | sub | mul | eq | ne | lt => rfl
  | missing | hollow | foreign => cases ok

theorem evaluate_plain {e : Expr} {env : Env} (plain : env.Plain) {fact : Fact}
    (ok : e.evaluate env = .ok fact) : fact.Plain := by
  cases e with
  | const v =>
      cases ok
      exact .inr ⟨v, rfl⟩
  | var name =>
      cases ok
      by_cases member : Key.var name ∈ env
      · exact plain _ _ (Env.getElem?_eq_get member)
      · exact .inl (Std.ExtTreeMap.getD_eq_fallback member)
  | binary op left right =>
      obtain ⟨f, l, r, -, -, -, rfl⟩ := evaluate_binary.mp ok
      split
      · rename_i a b
        cases f a b with
        | none => exact .inl rfl
        | some v => exact .inr ⟨v, rfl⟩
      · exact .inl rfl
  | missing | hollow | foreign => cases ok

theorem evaluate_mono {a b : Env} (below : a.VarsBelow b) {e : Expr} {v : Value}
    (known : e.evaluate a = .ok (.known v)) : e.evaluate b = .ok (.known v) := by
  induction e generalizing v with
  | const w => exact known
  | var name =>
      have inA : a.get (.var name) = .known v := by simpa [evaluate] using known
      have inB := Env.get_eq_known.mpr (below _ _ (Env.get_eq_known.mp inA))
      simpa [evaluate] using inB
  | binary op left right ihl ihr =>
      obtain ⟨f, x, y, meaning, leftOk, rightOk, result⟩ := evaluate_binary_known.mp known
      exact evaluate_binary_known.mpr ⟨f, x, y, meaning, ihl leftOk, ihr rightOk, result⟩
  | missing | hollow | foreign => cases known

end Expr

/-! ## Leaving a node -/

namespace Node

/-- The key under which a node records its result; `quit` records none. -/
def key? (n : Node) : Option Key :=
  match n.instr with
  | .assign name _ _ => some (.var name)
  | .ret _ | .branch .. | .loop .. => some (.expr n.id)
  | .quit => none

def Complete (n : Node) : Prop := ∀ e, n.expression = some e → e.Complete

instance (n : Node) : Decidable n.Complete :=
  decidable_of_iff (∀ e ∈ n.expression, e.Complete) Iff.rfl

theorem transfer_eq_ok {n : Node} {env out : Env} :
    n.transfer env = .ok out ↔
      (n.instr = .quit ∧ out = env) ∨
      ∃ k e fact, n.key? = some k ∧ n.expression = some e ∧ e.evaluate env = .ok fact ∧
        out = env.insert k fact := by
  obtain ⟨id, instr⟩ := n
  cases instr with
  | quit =>
      simp only [transfer, key?, expression, Except.ok.injEq]
      exact ⟨fun same => .inl ⟨trivial, same.symm⟩, fun h => by
        rcases h with ⟨-, same⟩ | ⟨_, _, _, none, _⟩
        · exact same.symm
        · cases none⟩
  | assign | ret | branch | loop =>
      simp only [transfer, key?, expression, except_bind_eq_ok, pure, Except.pure, Except.ok.injEq,
        Option.some.injEq, reduceCtorEq, false_and, false_or]
      constructor
      · rintro ⟨fact, ok, rfl⟩
        exact ⟨_, _, fact, rfl, rfl, ok, rfl⟩
      · rintro ⟨_, _, fact, rfl, rfl, ok, rfl⟩
        exact ⟨fact, ok, rfl⟩

theorem transfer_total {n : Node} (complete : n.Complete) (env : Env) :
    ∃ out, n.transfer env = .ok out := by
  obtain ⟨id, instr⟩ := n
  cases instr with
  | quit => exact ⟨env, rfl⟩
  | assign _ e | ret e | branch e | loop e =>
      obtain ⟨fact, ok⟩ := Expr.evaluate_total (complete e rfl) env
      exact ⟨_, transfer_eq_ok.mpr (.inr ⟨_, e, fact, rfl, rfl, ok, rfl⟩)⟩

theorem complete_of_transfer {n : Node} {env out : Env} (ok : n.transfer env = .ok out) : n.Complete := by
  intro e has
  rcases transfer_eq_ok.mp ok with ⟨quit, -⟩ | ⟨k, e', fact, -, has', value, -⟩
  · rw [expression, quit] at has
    cases has
  · cases has.symm.trans has'
    exact Expr.complete_of_evaluate value

theorem transfer_plain {n : Node} {env out : Env} (plain : env.Plain)
    (ok : n.transfer env = .ok out) : out.Plain := by
  rcases transfer_eq_ok.mp ok with ⟨-, rfl⟩ | ⟨k, e, fact, -, -, value, rfl⟩
  · exact plain
  · intro other found here
    rw [Std.ExtTreeMap.getElem?_insert] at here
    split at here
    · cases here
      exact Expr.evaluate_plain plain value
    · exact plain other found here

theorem transfer_other {n : Node} {env out : Env} {k : Key} (left : n.transfer env = .ok out)
    (other : n.key? ≠ some k) : out[k]? = env[k]? := by
  rcases transfer_eq_ok.mp left with ⟨-, rfl⟩ | ⟨own, e, fact, hasKey, -, -, rfl⟩
  · rfl
  · have ne : own ≠ k := fun same => other (same ▸ hasKey)
    rw [Std.ExtTreeMap.getElem?_insert, if_neg (by simpa using ne)]

theorem transfer_mono {n : Node} {a b outA outB : Env} (below : a.Below b)
    (okA : n.transfer a = .ok outA) (okB : n.transfer b = .ok outB) : outA.Below outB := by
  rcases transfer_eq_ok.mp okA with ⟨quit, rfl⟩ | ⟨k, e, factA, hasKey, hasExpr, valueA, rfl⟩
  · rcases transfer_eq_ok.mp okB with ⟨-, rfl⟩ | ⟨_, _, _, hasKey, _⟩
    · exact below
    · simp [key?, quit] at hasKey
  · rcases transfer_eq_ok.mp okB with ⟨quit, -⟩ | ⟨k', e', factB, hasKey', hasExpr', valueB, rfl⟩
    · simp [key?, quit] at hasKey
    · obtain rfl : k' = k := by simpa [hasKey] using hasKey'.symm
      obtain rfl : e' = e := by simpa [hasExpr] using hasExpr'.symm
      constructor
      · intro other member
        rw [Std.ExtTreeMap.mem_insert] at member ⊢
        exact member.imp_right (below.keys other)
      · intro other v known
        rw [Std.ExtTreeMap.getElem?_insert] at known ⊢
        split at known
        · rename_i same
          obtain rfl : factA = .known v := by simpa using known
          rw [if_pos same]
          rw [Expr.evaluate_mono below.vars valueA] at valueB
          cases valueB
          rfl
        · rename_i other'
          rw [if_neg other']
          exact below.known other v known

end Node

end FlowFold
