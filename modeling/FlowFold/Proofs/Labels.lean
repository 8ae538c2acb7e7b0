import FlowFold.Proofs.Readable
import FlowFold.Proofs.Sites

/-! # Labels

The flat form of an expression brackets sums and differences only, so what can be read back from
it is less than the expression: a row of operands with the operators between them, where an
operand is a literal, a variable, or a sum or difference in brackets, of two such rows. A label
is such a row.

Operands and operators alternate. A minus where an operand has to stand belongs to a number, and
one after an operand is an operator, so that the text of a label can be read in one way only.
-/

namespace FlowFold

mutual

/-- What stands between the operators of a label. -/
inductive Operand where
  | const (value : Value)
  | var (name : String)
  /-- A sum or a difference, which is written in brackets. -/
  | sum (op : BinOp) (left right : Label)

/-- Operands, and between them operators that are written without brackets. -/
inductive Label where
  | single (operand : Operand)
  | join (operand : Operand) (op : BinOp) (rest : Label)

end

def Label.append : Label → BinOp → Label → Label
  | single operand, op, right => join operand op right
  | join operand op' rest, op, right => join operand op' (rest.append op right)

mutual

def Operand.text : Operand → List Char
  | .const v => (shown v.text).toList
  | .var name => name.toList
  | .sum op left right => '(' :: (left.text ++ (op.text.toList ++ (right.text ++ [')'])))

def Label.text : Label → List Char
  | .single operand => operand.text
  | .join operand op rest => operand.text ++ (op.text.toList ++ rest.text)

end

/-- An identifier that cannot be taken for a literal. -/
def Text.IsVariable (name : String) : Prop :=
  isIdentifier name = true ∧ name ≠ "true" ∧ name ≠ "false"

mutual

/-- Literals are plain, variables cannot be taken for literals, and brackets are around sums and
    differences. -/
def Operand.Readable : Operand → Prop
  | .const v => v.Plain
  | .var name => Text.IsVariable name
  | .sum op left right => op.isBracketed = true ∧ left.Readable ∧ right.Readable

def Label.Readable : Label → Prop
  | .single operand => operand.Readable
  | .join operand op rest =>
      operand.Readable ∧ (op.isKnown = true ∧ op.isBracketed = false) ∧ rest.Readable

end

namespace Text

/-- What may follow the first character of a literal or a variable. -/
def isWord (c : Char) : Bool := isLetter c || c.isDigit || c == '_'

/-- The text does not go on with a character of a word. -/
def Breaks (rest : List Char) : Prop := ∀ c ∈ rest.head?, ¬ isWord c = true

/-- A label is at its end: an operator follows that is written in brackets only, or the brackets
    end, or the text does. -/
def Closes (rest : List Char) : Prop := ∀ c ∈ rest.head?, c = '+' ∨ c = '-' ∨ c = ')'

theorem Closes.nil : Closes [] := by simp [Closes]

theorem Closes.bracket (rest : List Char) : Closes (')' :: rest) := by simp [Closes]

theorem Closes.breaks {rest : List Char} (closes : Closes rest) : Breaks rest := by
  intro c first
  rcases closes c first with rfl | rfl | rfl <;> decide

end Text

namespace BinOp

variable {op op' : BinOp} {rest rest' : List Char}

theorem closes_text (bracketed : op.isBracketed = true) (rest : List Char) :
    Text.Closes (op.text.toList ++ rest) := by
  cases op with
  | add | sub => simp [text, Text.Closes]
  | mul | eq | ne | lt | unknown => cases bracketed

theorem breaks_text (known : op.isKnown = true) (rest : List Char) :
    Text.Breaks (op.text.toList ++ rest) := by
  cases op with
  | add | sub | mul | eq | ne | lt =>
      rintro c ⟨⟩
      decide
  | unknown => cases known

theorem not_closes_text (known : op.isKnown = true) (loose : op.isBracketed = false) (rest : List Char) :
    ¬ Text.Closes (op.text.toList ++ rest) := by
  cases op with
  | mul | eq | ne | lt => simp [text, Text.Closes]
  | add | sub => cases loose
  | unknown => cases known

theorem text_unique (known : op.isKnown = true) (known' : op'.isKnown = true)
    (same : op.text.toList ++ rest = op'.text.toList ++ rest') : op = op' ∧ rest = rest' := by
  by_cases equal : op = op'
  · subst equal
    exact ⟨rfl, List.append_cancel_left same⟩
  · -- The first characters are all different.
    cases op with
    | unknown => cases known
    | add | sub | mul | eq | ne | lt =>
        cases op' with
        | unknown => cases known'
        | add | sub | mul | eq | ne | lt => simp [text] at same equal

theorem known_of_bracketed (bracketed : op.isBracketed = true) : op.isKnown = true := by
  cases op with
  | add | sub | mul | eq | ne | lt => rfl
  | unknown => cases bracketed

end BinOp

/-! ## Literals and variables -/

theorem Value.text_ofInt (n : Int32) : (shown (ofInt n).text).toList = (toString n.toInt).toList := rfl

theorem Value.text_ofBool (b : Bool) :
    (shown (ofBool b).text).toList = if b then ['t', 'r', 'u', 'e'] else ['f', 'a', 'l', 's', 'e'] := by
  cases b <;> rfl

theorem Text.head_int {n : Int} {c : Char} {rest : List Char} (text : (toString n).toList = c :: rest) :
    isLetter c = false := by
  obtain ⟨c', rest', text', head, -⟩ := toList_int n
  obtain ⟨rfl, -⟩ := List.cons.inj (text.symm.trans text')
  rcases head with digit | rfl
  · exact isLetter_of_isDigit digit
  · decide

namespace Value.Plain

theorem text_ne {v : Value} {name : String} (plain : v.Plain) (isVariable : Text.IsVariable name) :
    (shown v.text).toList ≠ name.toList := by
  intro same
  rcases plain with number | truth
  · obtain ⟨c, rest, text, letter, -⟩ := Text.toList_identifier isVariable.1
    rw [number, text_ofInt, text] at same
    rw [Text.head_int same] at letter
    cases letter
  · rw [truth, String.toList_inj] at same
    cases flag : v.flag <;> rw [flag] at same
    · exact isVariable.2.2 same.symm
    · exact isVariable.2.1 same.symm

theorem eq_of_text {v w : Value} (plain : v.Plain) (plain' : w.Plain)
    (same : (shown v.text).toList = (shown w.text).toList) : v = w := by
  rcases plain with number | truth <;> rcases plain' with number' | truth'
  · rw [number, number', text_ofInt, text_ofInt, String.toList_inj] at same
    rw [number, number', Int32.toInt_inj.mp (Text.toString_int_inj same)]
  · rw [number, truth', text_ofInt, text_ofBool] at same
    cases flag : w.flag <;> rw [flag] at same <;> exact absurd (Text.head_int same) (by decide)
  · rw [truth, number', text_ofInt, text_ofBool] at same
    cases flag : v.flag <;> rw [flag] at same <;> exact absurd (Text.head_int same.symm) (by decide)
  · rw [truth, truth', text_ofBool, text_ofBool] at same
    have flags : v.flag = w.flag := by
      cases flag : v.flag <;> cases flag' : w.flag <;> simp [flag, flag'] at same ⊢
    rw [truth, truth', flags]

end Value.Plain

namespace Operand

def isAtom : Operand → Bool
  | .sum .. => false
  | .const _ | .var _ => true

/-- A literal or variable begins with some character other than a bracket, and the rest of it is
    of one piece. -/
theorem Readable.atom_text {a : Operand} (readable : a.Readable) (atom : a.isAtom = true) :
    ∃ c rest, a.text = c :: rest ∧ c ≠ '(' ∧ ∀ d ∈ rest, Text.isWord d = true := by
  cases a with
  | sum => cases atom
  | var name =>
      obtain ⟨c, rest, text, letter, others⟩ := Text.toList_identifier readable.1
      refine ⟨c, rest, text, ?_, fun d member => ?_⟩
      · rintro rfl
        exact absurd letter (by decide)
      · rcases others d member with letter | digit | rfl
        · simp [Text.isWord, letter]
        · simp [Text.isWord, digit]
        · rfl
  | const v =>
      rcases readable with number | truth
      · rw [text, number, Value.text_ofInt]
        obtain ⟨c, rest, text, head, digits⟩ := Text.toList_int v.number.toInt
        refine ⟨c, rest, text, ?_, fun d member => by simp [Text.isWord, digits d member]⟩
        rintro rfl
        exact absurd head (by decide)
      · rw [text, truth, Value.text_ofBool]
        cases v.flag
        · exact ⟨'f', _, rfl, by decide, List.all_eq_true.mp rfl⟩
        · exact ⟨'t', _, rfl, by decide, List.all_eq_true.mp rfl⟩

theorem Readable.atom_inj {a b : Operand} (readable : a.Readable) (readable' : b.Readable)
    (atom : a.isAtom = true) (atom' : b.isAtom = true) (same : a.text = b.text) : a = b := by
  cases a with
  | sum => cases atom
  | var name =>
      cases b with
      | sum => cases atom'
      | var name' => rw [String.toList_inj.mp same]
      | const v => exact absurd same.symm (Value.Plain.text_ne readable' readable)
  | const v =>
      cases b with
      | sum => cases atom'
      | var name => exact absurd same (Value.Plain.text_ne readable readable')
      | const v' => rw [Value.Plain.eq_of_text readable readable' same]

theorem Readable.unique_atom {a b : Operand} {rest rest' : List Char} (readable : a.Readable)
    (readable' : b.Readable) (atom : a.isAtom = true) (atom' : b.isAtom = true) (breaks : Text.Breaks rest)
    (breaks' : Text.Breaks rest') (same : a.text ++ rest = b.text ++ rest') : a = b ∧ rest = rest' := by
  obtain ⟨c, tail, text, -, word⟩ := readable.atom_text atom
  obtain ⟨c', tail', text', -, word'⟩ := readable'.atom_text atom'
  rw [text, text', List.cons_append, List.cons_append, List.cons.injEq] at same
  obtain ⟨tails, rests⟩ := Text.append_unique (¬ Text.isWord · = true)
    (fun d member stop => stop (word d member)) (fun d member stop => stop (word' d member))
    breaks breaks' same.2
  exact ⟨readable.atom_inj readable' atom atom' (by rw [text, text', same.1, tails]), rests⟩

theorem Readable.atom_ne_sum {a : Operand} {op : BinOp} {left right : Label} {rest rest' : List Char}
    (readable : a.Readable) (atom : a.isAtom = true) : a.text ++ rest ≠ (sum op left right).text ++ rest' := by
  intro same
  obtain ⟨c, tail, text, bracket, -⟩ := readable.atom_text atom
  rw [text] at same
  exact bracket (List.cons.inj same).1

end Operand

/-! ## Labels can be read in one way only -/

mutual

theorem Operand.unique (a b : Operand) {rest rest' : List Char} (readable : a.Readable)
    (readable' : b.Readable) (breaks : Text.Breaks rest) (breaks' : Text.Breaks rest')
    (same : a.text ++ rest = b.text ++ rest') : a = b ∧ rest = rest' := by
  cases a with
  | const | var =>
      cases b with
      | const | var => exact readable.unique_atom readable' rfl rfl breaks breaks' same
      | sum => exact absurd same (readable.atom_ne_sum rfl)
  | sum op left right =>
      cases b with
      | const | var => exact absurd same.symm (readable'.atom_ne_sum rfl)
      | sum op' left' right' =>
          obtain ⟨bracketed, readableLeft, readableRight⟩ := readable
          obtain ⟨bracketed', readableLeft', readableRight'⟩ := readable'
          simp only [Operand.text, List.cons_append, List.append_assoc, List.cons.injEq, true_and,
            List.nil_append] at same
          obtain ⟨rfl, afterLeft⟩ := Label.unique left left' readableLeft readableLeft'
            (BinOp.closes_text bracketed _) (BinOp.closes_text bracketed' _) same
          obtain ⟨rfl, afterOp⟩ := BinOp.text_unique (BinOp.known_of_bracketed bracketed)
            (BinOp.known_of_bracketed bracketed') afterLeft
          obtain ⟨rfl, afterRight⟩ := Label.unique right right' readableRight readableRight'
            (.bracket _) (.bracket _) afterOp
          exact ⟨rfl, (List.cons.inj afterRight).2⟩

theorem Label.unique (a b : Label) {rest rest' : List Char} (readable : a.Readable) (readable' : b.Readable)
    (closes : Text.Closes rest) (closes' : Text.Closes rest') (same : a.text ++ rest = b.text ++ rest') :
    a = b ∧ rest = rest' := by
  cases a with
  | single operand =>
      cases b with
      | single operand' =>
          obtain ⟨rfl, rests⟩ := Operand.unique operand operand' readable readable' closes.breaks
            closes'.breaks same
          exact ⟨rfl, rests⟩
      | join operand' op' tail' =>
          obtain ⟨readableOperand', ⟨known', loose'⟩, -⟩ := readable'
          simp only [Label.text, List.append_assoc] at same
          obtain ⟨-, rfl⟩ := Operand.unique operand operand' readable readableOperand' closes.breaks
            (BinOp.breaks_text known' _) same
          exact absurd closes (BinOp.not_closes_text known' loose' _)
  | join operand op tail =>
      obtain ⟨readableOperand, ⟨known, loose⟩, readableTail⟩ := readable
      cases b with
      | single operand' =>
          simp only [Label.text, List.append_assoc] at same
          obtain ⟨-, rfl⟩ := Operand.unique operand operand' readableOperand readable'
            (BinOp.breaks_text known _) closes'.breaks same
          exact absurd closes' (BinOp.not_closes_text known loose _)
      | join operand' op' tail' =>
          obtain ⟨readableOperand', ⟨known', loose'⟩, readableTail'⟩ := readable'
          simp only [Label.text, List.append_assoc] at same
          obtain ⟨rfl, afterOperand⟩ := Operand.unique operand operand' readableOperand readableOperand'
            (BinOp.breaks_text known _) (BinOp.breaks_text known' _) same
          obtain ⟨rfl, afterOp⟩ := BinOp.text_unique known known' afterOperand
          obtain ⟨rfl, rests⟩ := Label.unique tail tail' readableTail readableTail' closes closes' afterOp
          exact ⟨rfl, rests⟩

end

/-! ## The labels of expressions -/

namespace Label

theorem text_append (a : Label) (op : BinOp) (b : Label) :
    (a.append op b).text = a.text ++ (op.text.toList ++ b.text) := by
  cases a with
  | single => rfl
  | join operand op' rest => simp [append, text, text_append rest]

theorem Readable.append {a : Label} {op : BinOp} {b : Label} (readable : a.Readable)
    (known : op.isKnown = true) (loose : op.isBracketed = false) (readable' : b.Readable) :
    (a.append op b).Readable := by
  cases a with
  | single => exact ⟨readable, ⟨known, loose⟩, readable'⟩
  | join operand op' rest =>
      exact ⟨readable.1, readable.2.1, Readable.append readable.2.2 known loose readable'⟩

end Label

namespace Expr

/-- The label of an expression: what the flat form leaves of it. Holes have none. -/
def label : Expr → Label
  | const v => .single (.const v)
  | var name => .single (.var name)
  | binary op left right =>
      if op.isBracketed then .single (.sum op left.label right.label)
      else left.label.append op right.label
  | missing | hollow _ | foreign _ => .single (.var "")

variable {e : Expr}

theorem Readable.label (readable : e.Readable) (names : ∀ name ∈ e.names, name ≠ "true" ∧ name ≠ "false") :
    e.label.Readable := by
  induction e with
  | const v => exact readable
  | var name => exact ⟨readable, names name (.head _)⟩
  | binary op left right ihl ihr =>
      obtain ⟨known, readableLeft, readableRight⟩ := readable
      obtain ⟨namesLeft, namesRight⟩ := List.forall_mem_append.mp names
      have labelLeft := ihl readableLeft namesLeft
      have labelRight := ihr readableRight namesRight
      rw [Expr.label]
      split
      · rename_i bracketed
        exact ⟨bracketed, labelLeft, labelRight⟩
      · rename_i loose
        exact labelLeft.append known (Bool.eq_false_iff.mpr loose) labelRight
  | missing | hollow | foreign => exact readable.elim

theorem Readable.flatText_label (readable : e.Readable) :
    ∃ text, e.flatText = .ok text ∧ text.toList = e.label.text := by
  induction e with
  | const v =>
      rcases readable with number | truth
      · rw [number]
        exact ⟨_, rfl, rfl⟩
      · rw [truth]
        exact ⟨_, rfl, rfl⟩
  | var name => exact ⟨name, rfl, rfl⟩
  | binary op left right ihl ihr =>
      obtain ⟨l, flatLeft, textLeft⟩ := ihl readable.2.1
      obtain ⟨r, flatRight, textRight⟩ := ihr readable.2.2
      refine ⟨_, by rw [flatText, flatLeft, flatRight]; rfl, ?_⟩
      rw [Expr.label]
      split
      · simp [Label.text, Operand.text, textLeft, textRight]
      · simp [Label.text_append, textLeft, textRight]
  | missing | hollow | foreign => exact readable.elim

theorem Readable.label_eq {e' : Expr} (readable : e.Readable) (readable' : e'.Readable)
    (names : ∀ name ∈ e.names, name ≠ "true" ∧ name ≠ "false")
    (names' : ∀ name ∈ e'.names, name ≠ "true" ∧ name ≠ "false") (same : e.flatText = e'.flatText) :
    e.label = e'.label := by
  obtain ⟨text, flat, written⟩ := readable.flatText_label
  obtain ⟨text', flat', written'⟩ := readable'.flatText_label
  rw [flat, flat', Except.ok.injEq] at same
  have texts : e.label.text ++ [] = e'.label.text ++ [] := by rw [← written, ← written', same]
  exact (Label.unique _ _ (readable.label names) (readable'.label names') .nil .nil texts).1

end Expr

end FlowFold
