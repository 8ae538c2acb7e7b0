import Mathlib.Data.Nat.Digits.Defs
import FlowFold.Text.Numeral
import FlowFold.Text.Quoted

/-! # Reading quoted texts

Whatever follows it, the first character of a quoted text can be read back: it stands for
itself, or a backslash and a mark tell how many digits of its code follow. So a quoted text
can be read in one way only. It stays on its line, since a line feed is escaped.
-/

namespace FlowFold.Text

/-- How many digits of a code follow a mark. -/
def codeWidth : Char → Option Nat
  | 'x' => some 2
  | 'u' => some 4
  | 'U' => some 8
  | _ => none

/-- What a mark without a code stands for. -/
def escapedBy : Char → Char
  | 'a' => '\x07'
  | 'b' => '\x08'
  | 'f' => '\x0c'
  | 'n' => '\n'
  | 'r' => '\r'
  | 't' => '\t'
  | 'v' => '\x0b'
  | c => c

/-- The first character that a text in quotes stands for, and the rest of the text. -/
def readQuoted : List Char → Option (Char × List Char)
  | '\\' :: mark :: rest =>
      match codeWidth mark with
      | some width =>
          (readDigits 16 0 (rest.take width)).toOption.map fun code => (Char.ofNat code, rest.drop width)
      | none => some (escapedBy mark, rest)
  | '"' :: _ => none
  | c :: rest => some (c, rest)
  | [] => none

/-! ## Codes -/

theorem length_hexDigits (width n : Nat) : (hexDigits width n).length = width := by
  induction width generalizing n with
  | zero => rfl
  | succ width ih => rw [hexDigits, List.length_append, ih, List.length_singleton]

theorem digitChar_hex : ∀ d < 16, Nat.digitChar d ≠ '_' ∧ Nat.digitChar d ≠ '\n' ∧
    digitValue? (Nat.digitChar d) = some d := by decide

theorem newline_hexDigits (width n : Nat) : '\n' ∉ hexDigits width n := by
  induction width generalizing n with
  | zero => exact List.not_mem_nil
  | succ width ih =>
      have last := (digitChar_hex (n % 16) (Nat.mod_lt n (by decide))).2.1
      simp [hexDigits, ih, last.symm]

theorem readDigits_digitChar {n d : Nat} (digit : d < 16) (small : n * 16 + d < 0x10000000000000000)
    (rest : List Char) : readDigits 16 n (Nat.digitChar d :: rest) = readDigits 16 (n * 16 + d) rest := by
  obtain ⟨plain, -, value⟩ := digitChar_hex d digit
  rw [readDigits]
  · simp [value, Nat.not_le.mpr digit, Nat.not_le.mpr small]
  · exact plain

/-- Digits on the right extend the number that was read before. -/
theorem readDigits_hexDigits (width n m : Nat) (rest : List Char)
    (small : m * 16 ^ width + n % 16 ^ width < 0x10000000000000000) :
    readDigits 16 m (hexDigits width n ++ rest) = readDigits 16 (m * 16 ^ width + n % 16 ^ width) rest := by
  induction width generalizing n rest with
  | zero => simp [hexDigits, Nat.mod_one]
  | succ width ih =>
      have split : m * 16 ^ (width + 1) + n % 16 ^ (width + 1) =
          (m * 16 ^ width + n / 16 % 16 ^ width) * 16 + n % 16 := by
        rw [Nat.pow_succ', Nat.mod_mul]
        ring
      rw [split] at small ⊢
      rw [hexDigits, List.append_assoc, ih _ _ (by omega)]
      exact readDigits_digitChar (Nat.mod_lt n (by decide)) small rest

theorem readQuoted_code {c mark : Char} {width : Nat} (marks : codeWidth mark = some width) (short : width ≤ 8)
    (fits : c.toNat < 16 ^ width) (rest : List Char) :
    readQuoted ('\\' :: mark :: (hexDigits width c.toNat ++ rest)) = some (c, rest) := by
  have code : readDigits 16 0 (hexDigits width c.toNat) = .ok c.toNat := by
    have most : 16 ^ width ≤ 16 ^ 8 := Nat.pow_le_pow_right (by decide) short
    have small : 0 * 16 ^ width + c.toNat % 16 ^ width < 0x10000000000000000 := by
      rw [Nat.mod_eq_of_lt fits]
      omega
    have read := readDigits_hexDigits width c.toNat 0 [] small
    rw [List.append_nil, Nat.zero_mul, Nat.zero_add, Nat.mod_eq_of_lt fits] at read
    exact read
  have taken : (hexDigits width c.toNat ++ rest).take width = hexDigits width c.toNat :=
    List.take_left' (length_hexDigits ..)
  have dropped : (hexDigits width c.toNat ++ rest).drop width = rest := List.drop_left' (length_hexDigits ..)
  simp only [readQuoted, marks, taken, dropped, code]
  simp [Except.toOption, Char.ofNat_toNat]

/-! ## Characters -/

theorem quotedChar_cases (c : Char) :
    (quotedChar c = [c] ∧ c ≠ '\\' ∧ c ≠ '"' ∧ c ≠ '\n') ∨
    (∃ mark, quotedChar c = ['\\', mark] ∧ codeWidth mark = none ∧ escapedBy mark = c ∧ mark ≠ '\n') ∨
    ∃ mark width, quotedChar c = '\\' :: mark :: hexDigits width c.toNat ∧ codeWidth mark = some width ∧
      c.toNat < 16 ^ width := by
  have char : ∀ {code}, c.toNat = code → c = Char.ofNat code := by
    rintro code rfl
    exact (Char.ofNat_toNat c).symm
  unfold quotedChar
  split
  · rename_i marked
    rcases marked with rfl | rfl
    · exact .inr (.inl ⟨'"', by decide⟩)
    · exact .inr (.inl ⟨'\\', by decide⟩)
  rename_i unmarked
  split
  · rename_i printable
    have newline : c ≠ '\n' := by
      rintro rfl
      exact absurd printable (by decide +kernel)
    exact .inl ⟨rfl, fun same => unmarked (.inr same), fun same => unmarked (.inl same), newline⟩
  split
  case h_8 =>
    right; right
    split
    · exact ⟨'x', 2, rfl, rfl, by omega⟩
    split
    · exact ⟨'u', 4, rfl, rfl, by omega⟩
    · exact ⟨'U', 8, rfl, rfl, c.val.toNat_lt⟩
  all_goals
    rename_i code
    exact .inr (.inl ⟨_, rfl, rfl, (char code).symm, by decide⟩)

theorem codeWidth_le {mark : Char} {width : Nat} (marks : codeWidth mark = some width) :
    width ≤ 8 ∧ mark ≠ '\n' := by
  unfold codeWidth at marks
  split at marks <;> cases marks <;> decide

theorem readQuoted_quotedChar (c : Char) (rest : List Char) :
    readQuoted (quotedChar c ++ rest) = some (c, rest) := by
  rcases quotedChar_cases c with ⟨text, backslash, quote, -⟩ | ⟨mark, text, marks, letter, -⟩ |
    ⟨mark, width, text, marks, fits⟩
  · rw [text, List.singleton_append, readQuoted]
    · exact fun mark rest same _ => backslash same
    · exact quote
  · rw [text]
    simp [readQuoted, marks, letter]
  · rw [text]
    exact readQuoted_code marks (codeWidth_le marks).1 fits rest

theorem newline_quotedChar (c : Char) : '\n' ∉ quotedChar c := by
  rcases quotedChar_cases c with ⟨text, -, -, newline⟩ | ⟨mark, text, -, -, newline⟩ |
    ⟨mark, width, text, marks, -⟩
  · rw [text]
    simpa using newline.symm
  · rw [text]
    simpa using newline.symm
  · rw [text]
    simpa using ⟨(codeWidth_le marks).2.symm, newline_hexDigits width c.toNat⟩

/-! ## Texts -/

/-- A text in quotes ends where its quote stands, and stands for one text only. -/
theorem flatMap_quotedChar_unique {cs cs' rest rest' : List Char}
    (same : cs.flatMap quotedChar ++ '"' :: rest = cs'.flatMap quotedChar ++ '"' :: rest') :
    cs = cs' ∧ rest = rest' := by
  induction cs generalizing cs' with
  | nil =>
      cases cs' with
      | nil => exact ⟨rfl, (List.cons.inj same).2⟩
      | cons c' cs' =>
          have read := congrArg readQuoted same
          rw [List.flatMap_cons, List.append_assoc, readQuoted_quotedChar] at read
          cases read
  | cons c cs ih =>
      have read := congrArg readQuoted same
      rw [List.flatMap_cons, List.append_assoc, readQuoted_quotedChar] at read
      cases cs' with
      | nil => cases read
      | cons c' cs' =>
          rw [List.flatMap_cons, List.append_assoc, readQuoted_quotedChar, Option.some.injEq,
            Prod.mk.injEq] at read
          obtain ⟨rfl, others⟩ := read
          obtain ⟨rfl, rests⟩ := ih others
          exact ⟨rfl, rests⟩

theorem quoted_unique {s s' : String} {rest rest' : List Char}
    (same : (quoted s).toList ++ rest = (quoted s').toList ++ rest') : s = s' ∧ rest = rest' := by
  simp only [quoted, String.toList_ofList, List.cons_append, List.append_assoc, List.cons.injEq,
    true_and, List.nil_append] at same
  obtain ⟨texts, rests⟩ := flatMap_quotedChar_unique same
  exact ⟨String.toList_inj.mp texts, rests⟩

theorem newline_quoted (s : String) : '\n' ∉ (quoted s).toList := by
  simp [quoted, newline_quotedChar]

end FlowFold.Text
