import FlowFold.Proofs.Labels
import FlowFold.Proofs.Points

/-! # The value of a label

A label does not tell how the operations in it are grouped. If an expression has a value, the
label still tells what it is. Products are made of integers and can be grouped in any way.
Around products there are comparisons, and what they give are booleans, so that two neighbouring
integers are compared with each other and with nothing else. What is left are booleans joined by
`==` and `!=`, and these can be grouped in any way again.

A label is read from the left. The product at hand is handed over to the operation that is
pending if that has a result for it, and otherwise waits for an operand of its own. Reading the
label of an expression in this way gives the value of the expression, if it has one. So two
expressions with the same label do not differ in value.
-/

namespace FlowFold

/-- What an operator gives for two values, if anything. -/
def BinOp.result? (op : BinOp) (a b : Value) : Option Value :=
  op.runOp.toOption.bind fun f => f a b

/-- The operands of a row after the first, each with the operator before it. -/
abbrev Row := List (BinOp × Value)

/-- Read on in a row, with an operand at hand and an operation pending. -/
def readOn (pending : Value → Option Value) : Value → Row → Option Value
  | v, [] => pending v
  | v, (op, w) :: rest =>
      if op = .mul then
        (op.result? v w).bind fun product => readOn pending product rest
      else
        match pending v with
        | some before => readOn (op.result? before) w rest
        | none => readOn (fun x => (op.result? v x).bind pending) w rest

def readRow (row : Value × Row) : Option Value := readOn some row.1 row.2

mutual

def Operand.value (store : Store) : Operand → Option Value
  | .const v => some v
  | .var name => store[name]?
  | .sum op left right => do
      let l ← (left.row store).bind readRow
      let r ← (right.row store).bind readRow
      op.result? l r

/-- The values of the operands of a label, with the operators between them. -/
def Label.row (store : Store) : Label → Option (Value × Row)
  | .single operand => (operand.value store).map (·, [])
  | .join operand op rest => do
      let v ← operand.value store
      let (w, row) ← rest.row store
      return (v, (op, w) :: row)

end

def Label.value (store : Store) (label : Label) : Option Value := (label.row store).bind readRow

theorem Label.row_append {store : Store} {a b : Label} {op : BinOp} {v w : Value} {row row' : Row}
    (left : a.row store = some (v, row)) (right : b.row store = some (w, row')) :
    (a.append op b).row store = some (v, row ++ (op, w) :: row') := by
  cases a with
  | single operand =>
      obtain ⟨u, value, same⟩ := Option.map_eq_some_iff.mp left
      cases same
      simp [append, Label.row, value, right]
  | join operand op' rest =>
      simp only [Label.row, Option.bind_eq_bind, Option.bind_eq_some_iff, Prod.exists] at left
      obtain ⟨u, value, x, tail, others, same⟩ := left
      cases same
      have tails : (rest.append op b).row store = some (x, tail ++ (op, w) :: row') :=
        row_append others right
      simp [append, Label.row, value, tails]

/-! ## Results of operators -/

theorem Value.Plain.cases {v : Value} (plain : v.Plain) : (∃ n, v = .ofInt n) ∨ ∃ b, v = .ofBool b :=
  plain.imp (fun number => ⟨_, number⟩) (fun truth => ⟨_, truth⟩)

namespace BinOp

theorem result?_mul (m n : Int32) : mul.result? (.ofInt m) (.ofInt n) = some (.ofInt (m * n)) := rfl

/-- The operator joins booleans: it gives their parity, or the opposite, and takes no integer. -/
structure Joins (op : BinOp) (flip : Bool) : Prop where
  truth : ∀ p q, op.result? (.ofBool p) (.ofBool q) = some (.ofBool (p ^^ q ^^ flip))
  number : ∀ p n, op.result? (.ofBool p) (.ofInt n) = none
  loose : op ≠ .mul

theorem joins_eq : eq.Joins true := by
  refine ⟨fun p q => ?_, fun p n => rfl, by simp⟩
  cases p <;> cases q <;> rfl

theorem joins_ne : ne.Joins false := by
  refine ⟨fun p q => ?_, fun p n => rfl, by simp⟩
  cases p <;> cases q <;> rfl

variable {op : BinOp} {v : Value}

theorem joins_of_result {p q : Bool} (result : op.result? (.ofBool p) (.ofBool q) = some v) :
    ∃ flip, op.Joins flip := by
  cases op with
  | eq => exact ⟨true, joins_eq⟩
  | ne => exact ⟨false, joins_ne⟩
  | add | sub | mul | lt | unknown => cases result

/-- Two integers have a product, or they are compared, unless they are written in brackets. -/
theorem cases_of_result {m n : Int32} (loose : op.isBracketed = false)
    (result : op.result? (.ofInt m) (.ofInt n) = some v) :
    (op = .mul ∧ v = .ofInt (m * n)) ∨ (op ≠ .mul ∧ ∃ b, v = .ofBool b) := by
  cases op with
  | add | sub => cases loose
  | mul =>
      cases result
      exact .inl ⟨rfl, rfl⟩
  | eq | ne | lt =>
      cases result
      exact .inr ⟨by simp, _, rfl⟩
  | unknown => cases result

theorem result?_mixed (op : BinOp) (n : Int32) (b : Bool) :
    op.result? (.ofInt n) (.ofBool b) = none ∧ op.result? (.ofBool b) (.ofInt n) = none := by
  cases op <;> exact ⟨rfl, rfl⟩

theorem plain_of_result {a b : Value} (bracketed : op.isBracketed = true)
    (result : op.result? a b = some v) : ∃ n, v = .ofInt n := by
  cases op with
  | add | sub =>
      simp only [result?, runOp, Except.toOption, Option.bind_some, Value.add?, Value.sub?,
        Value.onInts] at result
      split at result
      · cases result
        exact ⟨_, rfl⟩
      · cases result
  | mul | eq | ne | lt | unknown => cases bracketed

end BinOp

/-! ## Products -/

/-- A row of integers with this product. -/
def IsProduct (v : Value) (row : Row) (n : Int32) : Prop :=
  ∃ (first : Int32) (factors : List Int32), v = .ofInt first ∧ row = factors.map (fun m => (.mul, .ofInt m)) ∧
    n = factors.foldl (· * ·) first

theorem IsProduct.single (n : Int32) : IsProduct (.ofInt n) [] n := ⟨n, [], rfl, rfl, rfl⟩

theorem IsProduct.mul {v w : Value} {row row' : Row} {m n : Int32} (left : IsProduct v row m)
    (right : IsProduct w row' n) : IsProduct v (row ++ (.mul, w) :: row') (m * n) := by
  obtain ⟨first, factors, rfl, rfl, rfl⟩ := left
  obtain ⟨first', factors', rfl, rfl, rfl⟩ := right
  refine ⟨first, factors ++ first' :: factors', rfl, by simp, ?_⟩
  rw [List.foldl_append, List.foldl_cons, List.foldl_assoc]

/-- A product is multiplied out before anything else happens. -/
theorem IsProduct.read {v : Value} {row : Row} {n : Int32} (product : IsProduct v row n)
    (pending : Value → Option Value) (rest : Row) :
    readOn pending v (row ++ rest) = readOn pending (.ofInt n) rest := by
  obtain ⟨first, factors, rfl, rfl, rfl⟩ := product
  induction factors generalizing first with
  | nil => rfl
  | cons m factors ih =>
      simp only [List.map_cons, List.cons_append, readOn, if_pos, BinOp.result?_mul,
        Option.bind_some, List.foldl_cons]
      exact ih (first * m)

/-! ## Truth values -/

/-- The row goes on with something else than a factor. -/
def Apart (rest : Row) : Prop := ∀ next ∈ rest.head?, next.1 ≠ .mul

/-- Before an operator other than a product, all that counts of what has been read is what it
    amounts to. -/
theorem readOn_congr {pending pending' : Value → Option Value} {v w before : Value} {rest : Row}
    (apart : Apart rest) (left : pending v = some before) (right : pending' w = some before) :
    readOn pending v rest = readOn pending' w rest := by
  cases rest with
  | nil => rw [readOn, readOn, left, right]
  | cons next rest =>
      obtain ⟨op, x⟩ := next
      have loose : op ≠ .mul := apart (op, x) rfl
      simp only [readOn, if_neg loose, left, right]

/-- The pending operation waits for a boolean, and keeps or inverts it. It has no result for an
    integer, unless nothing is pending at all. -/
structure AwaitsTruth (pending : Value → Option Value) : Prop where
  truth : ∃ flip, ∀ b, pending (.ofBool b) = some (.ofBool (b ^^ flip))
  number : pending = some ∨ ∀ n, pending (.ofInt n) = none

theorem AwaitsTruth.nothing : AwaitsTruth some := ⟨⟨false, fun b => by rw [Bool.xor_false]⟩, .inl rfl⟩

theorem AwaitsTruth.join {op : BinOp} {flip : Bool} (joins : op.Joins flip) (p : Bool) :
    AwaitsTruth (op.result? (.ofBool p)) := by
  refine ⟨⟨p ^^ flip, fun b => ?_⟩, .inr (joins.number p)⟩
  rw [joins.truth, Bool.xor_comm p b, Bool.xor_assoc]

/-- A row that can be replaced by the boolean wherever one is awaited. -/
def IsTruth (v : Value) (row : Row) (b : Bool) : Prop :=
  ∀ pending rest, AwaitsTruth pending → Apart rest →
    readOn pending v (row ++ rest) = readOn pending (.ofBool b) rest

theorem IsTruth.single (b : Bool) : IsTruth (.ofBool b) [] b := fun _ _ _ _ => rfl

theorem IsProduct.compare {v w : Value} {row row' : Row} {m n : Int32} {op : BinOp} {b : Bool}
    (left : IsProduct v row m) (right : IsProduct w row' n) (loose : op ≠ .mul)
    (result : op.result? (.ofInt m) (.ofInt n) = some (.ofBool b)) :
    IsTruth v (row ++ (op, w) :: row') b := by
  intro pending rest awaits apart
  rw [List.append_assoc, List.cons_append, left.read, readOn, if_neg loose]
  obtain ⟨flip, truth⟩ := awaits.truth
  rcases awaits.number with rfl | none
  · simp only
    rw [right.read]
    exact readOn_congr apart result rfl
  · -- The comparison waits for the second product, the pending operation for its outcome.
    simp only [none]
    rw [right.read]
    exact readOn_congr apart (by rw [result, Option.bind_some, truth]) (truth b)

/-- Two truth values that are joined. The pending operation applies to the first of them or to
    the outcome, which is all the same. -/
theorem IsTruth.join {v w : Value} {row row' : Row} {p q flip : Bool} {op : BinOp} (left : IsTruth v row p)
    (right : IsTruth w row' q) (joins : op.Joins flip) :
    IsTruth v (row ++ (op, w) :: row') (p ^^ q ^^ flip) := by
  intro pending rest awaits apart
  obtain ⟨inverts, truth⟩ := awaits.truth
  have apart' : Apart ((op, w) :: (row' ++ rest)) := by simpa [Apart] using joins.loose
  rw [List.append_assoc, List.cons_append, left pending _ awaits apart', readOn, if_neg joins.loose, truth p]
  simp only
  rw [right _ rest (.join joins _) apart]
  refine readOn_congr apart (joins.truth _ _) ?_
  rw [truth]
  cases p <;> cases q <;> cases flip <;> cases inverts <;> rfl

/-! ## The value of an expression -/

/-- The row has this value, however it is grouped. -/
def StandsFor (w : Value) (row : Row) (v : Value) : Prop :=
  (∃ n, v = .ofInt n ∧ IsProduct w row n) ∨ ∃ b, v = .ofBool b ∧ IsTruth w row b

namespace StandsFor

variable {w w' v a b : Value} {row row' : Row}

theorem single (plain : v.Plain) : StandsFor v [] v := by
  rcases plain.cases with ⟨n, rfl⟩ | ⟨b, rfl⟩
  · exact .inl ⟨n, rfl, .single n⟩
  · exact .inr ⟨b, rfl, .single b⟩

theorem readRow (stands : StandsFor w row v) : readRow (w, row) = some v := by
  rcases stands with ⟨n, rfl, product⟩ | ⟨b, rfl, truth⟩
  · have read := product.read some []
    rwa [List.append_nil] at read
  · have read := truth some [] .nothing (by simp [Apart])
    rwa [List.append_nil] at read

theorem binary {op : BinOp} (left : StandsFor w row a) (right : StandsFor w' row' b)
    (loose : op.isBracketed = false) (result : op.result? a b = some v) :
    StandsFor w (row ++ (op, w') :: row') v := by
  rcases left with ⟨m, rfl, left⟩ | ⟨p, rfl, left⟩
  · rcases right with ⟨n, rfl, right⟩ | ⟨q, rfl, right⟩
    · rcases BinOp.cases_of_result loose result with ⟨rfl, rfl⟩ | ⟨comparison, c, rfl⟩
      · exact .inl ⟨_, rfl, left.mul right⟩
      · exact .inr ⟨c, rfl, left.compare right comparison result⟩
    · rw [(op.result?_mixed m q).1] at result
      cases result
  · rcases right with ⟨n, rfl, right⟩ | ⟨q, rfl, right⟩
    · rw [(op.result?_mixed n p).2] at result
      cases result
    · obtain ⟨flip, joins⟩ := BinOp.joins_of_result result
      rw [joins.truth] at result
      cases result
      exact .inr ⟨_, rfl, left.join right joins⟩

end StandsFor

/-- The row of an expression's label has the value of the expression. -/
theorem Expr.Readable.standsFor {e : Expr} {store : Store} {v : Value} (readable : e.Readable)
    (plain : ∀ (x : String) (w : Value), store[x]? = some w → w.Plain) (value : e.eval store = .ok v) :
    ∃ w row, e.label.row store = some (w, row) ∧ StandsFor w row v := by
  induction e generalizing v with
  | const w =>
      cases value
      exact ⟨w, [], rfl, .single readable⟩
  | var name =>
      rw [eval] at value
      split at value <;> cases value
      rename_i found
      exact ⟨v, [], by simp [Expr.label, Label.row, Operand.value, found], .single (plain name v found)⟩
  | binary op left right ihl ihr =>
      obtain ⟨f, a, b, meaning, leftValue, rightValue, applied⟩ := eval_binary.mp value
      obtain ⟨w, row, leftRow, leftStands⟩ := ihl readable.2.1 leftValue
      obtain ⟨w', row', rightRow, rightStands⟩ := ihr readable.2.2 rightValue
      have result : op.result? a b = some v := by simpa [BinOp.result?, meaning, Except.toOption] using applied
      rw [Expr.label]
      split
      · rename_i bracketed
        obtain ⟨n, rfl⟩ := BinOp.plain_of_result bracketed result
        refine ⟨.ofInt n, [], ?_, .single (.inl rfl)⟩
        simp [Label.row, Operand.value, leftRow, rightRow, leftStands.readRow, rightStands.readRow, result]
      · rename_i loose
        exact ⟨w, _, Label.row_append leftRow rightRow,
          leftStands.binary rightStands (Bool.eq_false_iff.mpr loose) result⟩
  | missing | hollow | foreign => exact readable.elim

theorem Expr.Readable.label_value {e : Expr} {store : Store} {v : Value} (readable : e.Readable)
    (plain : ∀ (x : String) (w : Value), store[x]? = some w → w.Plain) (value : e.eval store = .ok v) :
    e.label.value store = some v := by
  obtain ⟨w, row, found, stands⟩ := readable.standsFor plain value
  rw [Label.value, found, Option.bind_some, stands.readRow]

/-- Two expressions with the same flat form do not differ in value. -/
theorem Expr.value_of_flatText {e e' : Expr} {store : Store} {v v' : Value} (readable : e.Readable)
    (readable' : e'.Readable) (names : ∀ name ∈ e.names, name ≠ "true" ∧ name ≠ "false")
    (names' : ∀ name ∈ e'.names, name ≠ "true" ∧ name ≠ "false")
    (plain : ∀ (x : String) (w : Value), store[x]? = some w → w.Plain) (same : e.flatText = e'.flatText)
    (value : e.eval store = .ok v) (value' : e'.eval store = .ok v') : v = v' := by
  have read := readable.label_value plain value
  have read' := readable'.label_value plain value'
  rw [readable.label_eq readable' names names' same, read'] at read
  exact (Option.some.inj read).symm

/-- `2*3*x==(y--1)==true!=b`, grouped to the left. -/
def Expr.toTheLeft : Expr :=
  .binary .ne
    (.binary .eq
      (.binary .eq (.binary .mul (.binary .mul (.int 2) (.int 3)) (.var "x")) (.binary .sub (.var "y") (.int (-1))))
      (.bool true))
    (.var "b")

/-- The same, grouped to the right. -/
def Expr.toTheRight : Expr :=
  .binary .eq
    (.binary .eq (.binary .mul (.int 2) (.binary .mul (.int 3) (.var "x"))) (.binary .sub (.var "y") (.int (-1))))
    (.binary .ne (.bool true) (.var "b"))

theorem Expr.value_of_flatText_toTheLeft :
    let store : Store := (((∅ : Store).insert "x" (.ofInt 3)).insert "y" (.ofInt 17)).insert "b" (.ofBool true)
    toTheLeft ≠ toTheRight ∧ toTheLeft.flatText = toTheRight.flatText ∧
      ∃ v, toTheLeft.eval store = .ok v ∧ toTheRight.eval store = .ok v := by
  intro store
  have plain : ∀ (x : String) (w : Value), store[x]? = some w → w.Plain := by
    intro x w found
    simp only [store, Std.ExtTreeMap.getElem?_insert, Std.ExtTreeMap.getElem?_empty] at found
    split_ifs at found <;> cases found <;> decide
  have same : toTheLeft.flatText = toTheRight.flatText := by rfl
  have value : toTheLeft.eval store = .ok (.ofBool false) := by rfl
  obtain ⟨v, value'⟩ : ∃ v, toTheRight.eval store = .ok v := ⟨.ofBool false, by rfl⟩
  refine ⟨by decide, same, v, ?_, value'⟩
  rw [← value_of_flatText (by decide) (by decide) (by decide) (by decide) plain same value value']
  exact value

end FlowFold
