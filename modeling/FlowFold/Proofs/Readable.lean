import Mathlib.Data.List.Basic
import Std.Data.String.ToInt
import FlowFold.Syntax.Expr

/-! # Texts that can be read in one way only

A token is a stretch of text without a delimiter. A token is followed by a delimiter or by
nothing, so a reader knows where it ends. Names, numbers, literals and the symbols of
operators are tokens.

The prefixed form of an expression is made of tokens, blanks and brackets, and its first
character tells what kind of expression it is. So whatever follows it, there is one way only
to read it, provided that names cannot be taken for anything else: they are identifiers.
-/

namespace FlowFold

namespace Text

/-- Two lists that begin with items which are no stops, and then have a stop or end, can be
    equal only part by part. -/
theorem append_unique {α : Type} (stop : α → Prop) {a b rest rest' : List α}
    (plain : ∀ x ∈ a, ¬ stop x) (plain' : ∀ x ∈ b, ¬ stop x) (ends : ∀ x ∈ rest.head?, stop x)
    (ends' : ∀ x ∈ rest'.head?, stop x) (same : a ++ rest = b ++ rest') : a = b ∧ rest = rest' := by
  induction a generalizing b with
  | nil =>
      cases b with
      | nil => exact ⟨rfl, same⟩
      | cons x b =>
          have stops : stop x := ends x (by simp [List.nil_append .. ▸ same])
          exact absurd stops (plain' x (.head _))
  | cons y a ih =>
      cases b with
      | nil =>
          have stops : stop y := ends' y (by simp [← List.nil_append rest' ▸ same])
          exact absurd stops (plain y (.head _))
      | cons x b =>
          obtain ⟨rfl, others⟩ := List.cons.inj same
          obtain ⟨rfl, rests⟩ := ih (fun z member => plain z (.tail _ member))
            (fun z member => plain' z (.tail _ member)) others
          exact ⟨rfl, rests⟩

/-- What ends a token. -/
def Delimits (c : Char) : Prop := c = ' ' ∨ c = ')' ∨ c = ';' ∨ c = '\n'

def Token (t : List Char) : Prop := ∀ c ∈ t, ¬ Delimits c

/-- The text has a delimiter first, or is at its end. -/
def Ends (rest : List Char) : Prop := ∀ c ∈ rest.head?, Delimits c

theorem Token.unique {a b rest rest' : List Char} (token : Token a) (token' : Token b) (ends : Ends rest)
    (ends' : Ends rest') (same : a ++ rest = b ++ rest') : a = b ∧ rest = rest' :=
  append_unique Delimits token token' ends ends' same

theorem Token.newline {t : List Char} (token : Token t) : '\n' ∉ t :=
  fun member => token '\n' member (.inr (.inr (.inr rfl)))

theorem Ends.nil : Ends [] := nofun

theorem Ends.blank (rest : List Char) : Ends (' ' :: rest) := by simp [Ends, Delimits]

theorem Ends.bracket (rest : List Char) : Ends (')' :: rest) := by simp [Ends, Delimits]

theorem join_lines_inj {lines lines' : List String} (plain : ∀ l ∈ lines, '\n' ∉ l.toList)
    (plain' : ∀ l ∈ lines', '\n' ∉ l.toList)
    (same : String.join (lines.map (· ++ "\n")) = String.join (lines'.map (· ++ "\n"))) : lines = lines' := by
  rw [← String.toList_inj, String.toList_join, String.toList_join] at same
  induction lines generalizing lines' with
  | nil =>
      cases lines' with
      | nil => rfl
      | cons l' lines' => simp at same
  | cons l lines ih =>
      cases lines' with
      | nil => simp at same
      | cons l' lines' =>
          simp only [List.map_cons, List.flatMap_cons, String.toList_append, List.append_assoc] at same
          obtain ⟨first, others⟩ := append_unique (· = '\n')
            (fun c member stop => plain l (.head _) (stop ▸ member))
            (fun c member stop => plain' l' (.head _) (stop ▸ member)) (by simp) (by simp) same
          rw [String.toList_inj.mp first, ih (fun m later => plain m (.tail _ later))
            (fun m later => plain' m (.tail _ later)) (List.append_cancel_left others)]

theorem map_zipIdx_inj {α β : Type} {f : α × Nat → β} {xs ys : List α}
    (inj : ∀ i, Function.Injective fun x => f (x, i)) (same : xs.zipIdx.map f = ys.zipIdx.map f) :
    xs = ys := by
  refine List.ext_getElem? fun i => Option.map_injective (inj i) ?_
  have at_i : (xs.zipIdx.map f)[i]? = (ys.zipIdx.map f)[i]? := by rw [same]
  simpa [List.getElem?_zipIdx, Function.comp_def] using at_i

/-! ## Numbers and names -/

theorem isDigit_of_mem_nat {n : Nat} {c : Char} (member : c ∈ (toString n).toList) : c.isDigit = true := by
  have digits : (toString n).toList = Nat.toDigits 10 n := Nat.toList_repr
  rw [digits] at member
  exact Nat.isDigit_of_mem_toDigits (by decide) (by decide) member

theorem toString_nat_inj {m n : Nat} (same : toString m = toString n) : m = n :=
  Nat.repr_inj.mp same

theorem not_delimits_of_isDigit {c : Char} (digit : c.isDigit = true) : ¬ Delimits c := by
  rintro (rfl | rfl | rfl | rfl) <;> exact absurd digit (by decide)

theorem Token.nat (n : Nat) : Token (toString n).toList :=
  fun _ member => not_delimits_of_isDigit (isDigit_of_mem_nat member)

theorem nat_unique {m n : Nat} {rest rest' : List Char} (ends : Ends rest) (ends' : Ends rest')
    (same : (toString m).toList ++ rest = (toString n).toList ++ rest') : m = n ∧ rest = rest' := by
  obtain ⟨numbers, rests⟩ := (Token.nat m).unique (.nat n) ends ends' same
  exact ⟨toString_nat_inj (String.toList_inj.mp numbers), rests⟩

theorem newline_toDigits (n : Nat) : '\n' ∉ Nat.toDigits 10 n := by
  simpa using (Token.nat n).newline

theorem toString_int_inj {m n : Int} (same : toString m = toString n) : m = n :=
  Int.repr_inj.mp same

/-- A number starts with a digit or a minus, and digits follow. -/
theorem toList_int (n : Int) : ∃ c rest, (toString n).toList = c :: rest ∧ (c.isDigit = true ∨ c = '-') ∧
    ∀ d ∈ rest, d.isDigit = true := by
  cases n with
  | ofNat m =>
      have text : toString (Int.ofNat m) = toString m := rfl
      cases digits : (toString m).toList with
      | nil => exact absurd (Nat.toList_repr.symm.trans digits) Nat.toDigits_ne_nil
      | cons c rest =>
          have all : ∀ d ∈ c :: rest, d.isDigit = true := fun d member => isDigit_of_mem_nat (digits ▸ member)
          exact ⟨c, rest, by rw [text, digits], .inl (all c (.head _)), fun d member => all d (.tail _ member)⟩
  | negSucc m =>
      have text : toString (Int.negSucc m) = "-" ++ toString (m + 1) := rfl
      exact ⟨'-', (toString (m + 1)).toList, by rw [text, String.toList_append]; rfl, .inr rfl,
        fun d => isDigit_of_mem_nat⟩

theorem Token.int (n : Int) : Token (toString n).toList := by
  obtain ⟨c, rest, text, head, digits⟩ := toList_int n
  rw [text]
  intro d member
  rcases List.mem_cons.mp member with rfl | later
  · rcases head with digit | rfl
    · exact not_delimits_of_isDigit digit
    · simp [Delimits]
  · exact not_delimits_of_isDigit (digits d later)

/-- A letter. All characters beyond ASCII count as letters here, so those of every script do. -/
def isLetter (c : Char) : Bool :=
  ('A' ≤ c && c ≤ 'Z') || ('a' ≤ c && c ≤ 'z') || 0x80 ≤ c.toNat

/-- A letter followed by letters, digits or underscores. -/
def isIdentifier (s : String) : Bool :=
  match s.toList with
  | [] => false
  | c :: rest => isLetter c && rest.all fun d => isLetter d || d.isDigit || d == '_'

theorem isLetter_of_isDigit {c : Char} (digit : c.isDigit = true) : isLetter c = false := by
  have bounds : 48 ≤ c.toNat ∧ c.toNat ≤ 57 := by
    simpa [Char.isDigit, UInt32.le_iff_toNat_le] using digit
  rw [Bool.eq_false_iff]
  intro letter
  have ranges : 65 ≤ c.toNat ∧ c.toNat ≤ 90 ∨ 97 ≤ c.toNat ∧ c.toNat ≤ 122 ∨ 128 ≤ c.toNat := by
    simpa [isLetter, Char.le_def, UInt32.le_iff_toNat_le, or_assoc] using letter
  omega

theorem not_delimits_of_isLetter {c : Char} (letter : isLetter c = true) : ¬ Delimits c := by
  rintro (rfl | rfl | rfl | rfl) <;> exact absurd letter (by decide)

theorem toList_identifier {s : String} (identifier : isIdentifier s = true) :
    ∃ c rest, s.toList = c :: rest ∧ isLetter c = true ∧
      ∀ d ∈ rest, isLetter d = true ∨ d.isDigit = true ∨ d = '_' := by
  unfold isIdentifier at identifier
  split at identifier
  · cases identifier
  · rename_i c rest text
    exact ⟨c, rest, text, by simpa [or_assoc] using identifier⟩

theorem Token.identifier {s : String} (identifier : isIdentifier s = true) : Token s.toList := by
  obtain ⟨c, rest, text, letter, others⟩ := toList_identifier identifier
  rw [text]
  intro d member
  rcases List.mem_cons.mp member with rfl | later
  · exact not_delimits_of_isLetter letter
  · rcases others d later with letter | digit | rfl
    · exact not_delimits_of_isLetter letter
    · exact not_delimits_of_isDigit digit
    · simp [Delimits]

end Text

/-! ## Expressions -/

/-- A value as the constructors make it: the payload that does not count is zero. -/
def Value.Plain (v : Value) : Prop := v = .ofInt v.number ∨ v = .ofBool v.flag

instance (v : Value) : Decidable v.Plain := inferInstanceAs (Decidable (_ ∨ _))

/-- An expression without holes, whose operators have a meaning, whose literals are plain and
    whose names are identifiers. -/
def Expr.Readable : Expr → Prop
  | .const v => v.Plain
  | .var name => Text.isIdentifier name = true
  | .binary op left right => op.isKnown = true ∧ left.Readable ∧ right.Readable
  | .missing | .hollow _ | .foreign _ => False

instance Expr.decideReadable : (e : Expr) → Decidable e.Readable
  | .const v => inferInstanceAs (Decidable v.Plain)
  | .var name => inferInstanceAs (Decidable (Text.isIdentifier name = true))
  | .binary op left right =>
      have := decideReadable left
      have := decideReadable right
      inferInstanceAs (Decidable (op.isKnown = true ∧ left.Readable ∧ right.Readable))
  | .missing | .hollow _ | .foreign _ => .isFalse id

theorem BinOp.text_token {op : BinOp} (known : op.isKnown = true) : Text.Token op.text.toList := by
  cases op with
  | unknown code => cases known
  | add | sub | mul | eq | ne | lt => simp [Text.Token, Text.Delimits, text]

theorem BinOp.text_inj {op op' : BinOp} (known : op.isKnown = true) (known' : op'.isKnown = true)
    (same : op.text.toList = op'.text.toList) : op = op' := by
  cases op with
  | unknown code => cases known
  | add | sub | mul | eq | ne | lt =>
      cases op' with
      | unknown code => cases known'
      | add | sub | mul | eq | ne | lt => simp [text] at same ⊢

namespace Expr

/-- What the first character of a text says about an expression. -/
inductive Form where
  | number
  | truth
  | name
  | operation
  deriving DecidableEq

def Form.ofChar (c : Char) : Form :=
  if c = '(' then operation else if c = '#' then truth else if Text.isLetter c then name else number

def form : Expr → Form
  | const v => if v.kind = .bool then .truth else .number
  | binary .. => .operation
  | _ => .name

theorem form_const_ne (v : Value) : (const v).form ≠ .operation := by
  simp only [form]
  split <;> simp

theorem inline_bool (b : Bool) : (bool b).inline.toList = ['#', if b then 't' else 'f'] := by
  cases b <;> rfl

theorem inline_binary (op : BinOp) (left right : Expr) :
    (binary op left right).inline.toList =
      '(' :: (op.text.toList ++ ' ' :: (left.inline.toList ++ ' ' :: (right.inline.toList ++ [')']))) := by
  simp [inline]

namespace Readable

variable {e e' : Expr} {rest rest' : List Char}

theorem of_form (readable : e.Readable) :
    match e.form with
    | .number => ∃ n, e = int n
    | .truth => ∃ b, e = bool b
    | .name => ∃ name, e = var name ∧ Text.isIdentifier name = true
    | .operation => ∃ op left right, e = binary op left right := by
  cases e with
  | const v =>
      rcases readable with number | truth
      · rw [number]
        exact ⟨v.number, rfl⟩
      · rw [truth]
        exact ⟨v.flag, rfl⟩
  | var name => exact ⟨name, rfl, readable⟩
  | binary op left right => exact ⟨op, left, right, rfl⟩
  | missing | hollow | foreign => exact readable.elim

theorem form_head (readable : e.Readable) :
    ∃ c tail, e.inline.toList = c :: tail ∧ Form.ofChar c = e.form := by
  have view := readable.of_form
  cases form : e.form <;> rw [form] at view
  case number =>
    obtain ⟨n, rfl⟩ := view
    obtain ⟨c, tail, text, head, -⟩ := Text.toList_int n.toInt
    have bracket : c ≠ '(' := by rintro rfl; exact absurd head (by decide)
    have hash : c ≠ '#' := by rintro rfl; exact absurd head (by decide)
    have letter : Text.isLetter c = false := by
      rcases head with digit | rfl
      · exact Text.isLetter_of_isDigit digit
      · decide
    exact ⟨c, tail, text, by simp [Form.ofChar, bracket, hash, letter]⟩
  case truth =>
    obtain ⟨b, rfl⟩ := view
    exact ⟨_, _, inline_bool b, rfl⟩
  case name =>
    obtain ⟨name, rfl, identifier⟩ := view
    obtain ⟨c, tail, text, letter, -⟩ := Text.toList_identifier identifier
    have bracket : c ≠ '(' := by rintro rfl; exact absurd letter (by decide)
    have hash : c ≠ '#' := by rintro rfl; exact absurd letter (by decide)
    exact ⟨c, tail, text, by simp [Form.ofChar, bracket, hash, letter]⟩
  case operation =>
    obtain ⟨op, left, right, rfl⟩ := view
    exact ⟨_, _, inline_binary op left right, rfl⟩

theorem form_eq (readable : e.Readable) (readable' : e'.Readable)
    (same : e.inline.toList ++ rest = e'.inline.toList ++ rest') : e.form = e'.form := by
  obtain ⟨c, tail, text, form⟩ := readable.form_head
  obtain ⟨c', tail', text', form'⟩ := readable'.form_head
  rw [text, text', List.cons_append, List.cons_append, List.cons.injEq] at same
  rw [← form, ← form', same.1]

theorem token (readable : e.Readable) (atom : e.form ≠ .operation) : Text.Token e.inline.toList := by
  have view := readable.of_form
  cases form : e.form <;> rw [form] at view
  case number =>
    obtain ⟨n, rfl⟩ := view
    exact Text.Token.int n.toInt
  case truth =>
    obtain ⟨b, rfl⟩ := view
    rw [inline_bool]
    cases b <;> simp [Text.Token, Text.Delimits]
  case name =>
    obtain ⟨name, rfl, identifier⟩ := view
    exact Text.Token.identifier identifier
  case operation => exact absurd form atom

theorem atom_inj (readable : e.Readable) (readable' : e'.Readable) (atom : e.form ≠ .operation)
    (same : e.inline.toList = e'.inline.toList) : e = e' := by
  have forms : e.form = e'.form := readable.form_eq readable' (congrArg (· ++ []) same)
  have view := readable.of_form
  have view' := readable'.of_form
  cases form : e.form <;> rw [form] at view <;> rw [← forms, form] at view'
  case number =>
    obtain ⟨n, rfl⟩ := view
    obtain ⟨n', rfl⟩ := view'
    have numbers : n = n' := Int32.toInt_inj.mp (Text.toString_int_inj (String.toList_inj.mp same))
    rw [numbers]
  case truth =>
    obtain ⟨b, rfl⟩ := view
    obtain ⟨b', rfl⟩ := view'
    rw [inline_bool, inline_bool] at same
    cases b <;> cases b' <;> simp at same ⊢
  case name =>
    obtain ⟨name, rfl, -⟩ := view
    obtain ⟨name', rfl, -⟩ := view'
    have names : name = name' := String.toList_inj.mp same
    rw [names]
  case operation => exact absurd form atom

theorem unique_atom (readable : e.Readable) (readable' : e'.Readable) (atom : e.form ≠ .operation)
    (ends : Text.Ends rest) (ends' : Text.Ends rest')
    (same : e.inline.toList ++ rest = e'.inline.toList ++ rest') : e = e' ∧ rest = rest' := by
  have atom' : e'.form ≠ .operation := form_eq readable readable' same ▸ atom
  obtain ⟨texts, rests⟩ := (readable.token atom).unique (readable'.token atom') ends ends' same
  exact ⟨readable.atom_inj readable' atom texts, rests⟩

/-- Whatever follows it, the text of an expression can be read in one way only. -/
theorem unique (readable : e.Readable) (readable' : e'.Readable) (ends : Text.Ends rest)
    (ends' : Text.Ends rest') (same : e.inline.toList ++ rest = e'.inline.toList ++ rest') :
    e = e' ∧ rest = rest' := by
  induction e generalizing e' rest rest' with
  | binary op left right ihl ihr =>
      have view' := readable'.of_form
      rw [← form_eq readable readable' same] at view'
      obtain ⟨op', left', right', rfl⟩ := view'
      obtain ⟨known, readableLeft, readableRight⟩ := readable
      obtain ⟨known', readableLeft', readableRight'⟩ := readable'
      simp only [inline_binary, List.cons_append, List.append_assoc, List.cons.injEq, true_and,
        List.nil_append] at same
      obtain ⟨ops, afterOp⟩ :=
        (BinOp.text_token known).unique (BinOp.text_token known') (.blank _) (.blank _) same
      obtain ⟨lefts, afterLeft⟩ :=
        ihl readableLeft readableLeft' (.blank _) (.blank _) (List.cons.inj afterOp).2
      obtain ⟨rights, afterRight⟩ :=
        ihr readableRight readableRight' (.bracket _) (.bracket _) (List.cons.inj afterLeft).2
      rw [BinOp.text_inj known known' ops, lefts, rights]
      exact ⟨rfl, (List.cons.inj afterRight).2⟩
  | const v => exact readable.unique_atom readable' (form_const_ne v) ends ends' same
  | var name => exact readable.unique_atom readable' (by simp [form]) ends ends' same
  | missing | hollow | foreign => exact readable.elim

theorem newline (readable : e.Readable) : '\n' ∉ e.inline.toList := by
  induction e with
  | binary op left right ihl ihr =>
      obtain ⟨known, readableLeft, readableRight⟩ := readable
      simp [inline_binary, (BinOp.text_token known).newline, ihl readableLeft, ihr readableRight]
  | const v => exact (readable.token (form_const_ne v)).newline
  | var name => exact (Text.Token.identifier readable).newline
  | missing | hollow | foreign => exact readable.elim

end Readable

end Expr

end FlowFold
