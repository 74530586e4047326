import Mathlib.Data.Nat.Digits.Defs
import ScriptKernel.Number.Integer
import ScriptKernel.Text.Pieces
import ScriptKernel.Text.Quoted

/-!
Reading quoted and decimal texts back. The form of a character says where it
ends, so a quoted text is told apart from what follows it.
-/

namespace ScriptKernel.Text

def hexValue (digits : List Char) : Nat :=
  digits.foldl (fun n c => 16 * n + Integer.digitValue c) 0

theorem hexValue_append (digits : List Char) (c : Char) :
    hexValue (digits ++ [c]) = 16 * hexValue digits + Integer.digitValue c := by
  simp [hexValue]

theorem digitValue_digitChar {n : Nat} (small : n < 16) : Integer.digitValue n.digitChar = n := by
  have all : ∀ n < 16, Integer.digitValue (Nat.digitChar n) = n := by decide
  exact all n small

theorem hexValue_toDigits (n : Nat) : hexValue (Nat.toDigits 16 n) = n := by
  induction n using Nat.strongRecOn with
  | ind n ih =>
    rw [Nat.toDigits_eq_if (by decide)]
    split
    · next small => simpa [hexValue] using digitValue_digitChar small
    · next large =>
      rw [hexValue_append, ih (n / 16) (by omega), digitValue_digitChar (Nat.mod_lt n (by decide))]
      exact Nat.div_add_mod n 16

theorem hexValue_hexDigits (width n : Nat) : hexValue (hexDigits width n) = n := by
  have filled (zeros : Nat) (digits : List Char) :
      hexValue (List.replicate zeros '0' ++ digits) = hexValue digits := by
    induction zeros with
    | zero => rfl
    | succ zeros ih => exact ih
  rw [hexDigits, filled, hexValue_toDigits]

theorem length_hexDigits {width n : Nat} (some : 0 < width) (fits : n < 16 ^ width) :
    (hexDigits width n).length = width := by
  have short := Nat.toDigits_length 16 n width some fits
  rw [hexDigits, List.length_append, List.length_replicate]
  omega

def codeWidth? (kind : Char) : Option Nat :=
  if kind = 'x' then some 2 else if kind = 'u' then some 4 else if kind = 'U' then some 8 else none

def letterMeaning (letter : Char) : Char :=
  if letter = 'a' then '\x07'
  else if letter = 'b' then '\x08'
  else if letter = 'f' then '\x0c'
  else if letter = 'n' then '\n'
  else if letter = 'r' then '\r'
  else if letter = 't' then '\t'
  else if letter = 'v' then '\x0b'
  else letter

/-- Reads the character in front, and what is behind it. -/
def readChar : List Char → Option (Char × List Char)
  | '\\' :: kind :: rest =>
    match codeWidth? kind with
    | some width => some (Char.ofNat (hexValue (rest.take width)), rest.drop width)
    | none => some (letterMeaning kind, rest)
  | c :: rest => some (c, rest)
  | [] => none

theorem readChar_escaped (kind : Char) (rest : List Char) :
    readChar ('\\' :: kind :: rest) =
      match codeWidth? kind with
      | some width => some (Char.ofNat (hexValue (rest.take width)), rest.drop width)
      | none => some (letterMeaning kind, rest) := rfl

theorem readChar_plain {c : Char} (plain : c ≠ '\\') (rest : List Char) :
    readChar (c :: rest) = some (c, rest) := by
  unfold readChar
  split
  · next same => exact absurd (List.cons.inj same).1 plain
  · next same =>
    cases same
    rfl
  · next same => cases same

theorem readChar_code {kind : Char} {width : Nat} (known : codeWidth? kind = some width)
    (some : 0 < width) {c : Char} (fits : c.toNat < 16 ^ width) (rest : List Char) :
    readChar ('\\' :: kind :: (hexDigits width c.toNat ++ rest)) = .some (c, rest) := by
  have long := length_hexDigits some fits
  have digits : (hexDigits width c.toNat ++ rest).take width = hexDigits width c.toNat := by
    rw [List.take_left' long]
  have behind : (hexDigits width c.toNat ++ rest).drop width = rest := by
    rw [List.drop_left' long]
  simp only [readChar_escaped, known, digits, behind, hexValue_hexDigits, Char.ofNat_toNat]

theorem letterEscape?_meaning {c letter : Char} (known : letterEscape? c = some letter) :
    codeWidth? letter = none ∧ letterMeaning letter = c := by
  have small : c.toNat < 0x10 := by
    unfold letterEscape? at known
    split_ifs at known <;> first | omega | simp_all
  have all : ∀ n < 0x10, (letterEscape? (Char.ofNat n)).all fun letter =>
      codeWidth? letter = none ∧ letterMeaning letter = Char.ofNat n := by decide
  simpa [known] using all c.toNat small

theorem readChar_escapeChar (c : Char) (rest : List Char) :
    readChar (escapeChar c ++ rest) = some (c, rest) := by
  unfold escapeChar
  split
  · next special =>
    rcases special with rfl | rfl <;> rfl
  · next plain =>
    rw [not_or] at plain
    split
    · exact readChar_plain plain.2 rest
    · cases known : letterEscape? c with
      | some letter =>
        obtain ⟨single, meaning⟩ := letterEscape?_meaning known
        simp [readChar_escaped, single, meaning]
      | none =>
        dsimp only
        split
        · next small => exact readChar_code rfl (by decide) (by omega) rest
        split
        · next small => exact readChar_code rfl (by decide) (by omega) rest
        · have valid : c.toNat < 0x110000 := by
            rcases c.valid with low | high
            · exact lt_trans low (by decide)
            · exact high.2
          exact readChar_code rfl (by decide) (by omega) rest

theorem head?_escapeChar (c : Char) : (escapeChar c).head? ≠ some '"' := by
  unfold escapeChar
  split
  · simp
  · next plain =>
    rw [not_or] at plain
    split
    · simpa using plain.1
    · cases letterEscape? c with
      | some letter => simp
      | none =>
        dsimp only
        split
        · simp
        split <;> simp

theorem escaped_append_inj {left right : List Char} {behind other : List Char}
    (same : left.flatMap escapeChar ++ '"' :: behind = right.flatMap escapeChar ++ '"' :: other) :
    left = right ∧ behind = other := by
  have unfinished (c : Char) (text more rest : List Char)
      (clash : '"' :: rest = (c :: text).flatMap escapeChar ++ '"' :: more) : False := by
    refine head?_escapeChar c ?_
    have head := congrArg List.head? clash
    cases shape : escapeChar c with
    | nil =>
      have read := readChar_escapeChar c []
      rw [shape] at read
      cases read
    | cons first others => simpa [shape] using head.symm
  induction left generalizing right with
  | nil =>
    cases right with
    | nil => exact ⟨rfl, (List.cons.inj same).2⟩
    | cons d right => exact (unfinished d right other behind same).elim
  | cons c left ih =>
    cases right with
    | nil => exact (unfinished c left behind other same.symm).elim
    | cons d right =>
      simp only [List.flatMap_cons, List.append_assoc] at same
      have heads := congrArg readChar same
      rw [readChar_escapeChar, readChar_escapeChar, Option.some.injEq, Prod.mk.injEq] at heads
      obtain ⟨rfl, rests⟩ := heads
      obtain ⟨rfl, rfl⟩ := ih rests
      exact ⟨rfl, rfl⟩

theorem quote_append_inj {left right : String} {behind other : List Char}
    (same : (quote left).toList ++ behind = (quote right).toList ++ other) :
    left = right ∧ behind = other := by
  simp only [quote, quoteChars, String.toList_ofList, List.cons_append, List.append_assoc,
    List.nil_append, List.cons.injEq, true_and] at same
  obtain ⟨texts, rfl⟩ := escaped_append_inj same
  exact ⟨String.toList_inj.mp texts, rfl⟩

theorem toDigits_inj {m n : Nat} (same : Nat.toDigits 10 m = Nat.toDigits 10 n) : m = n := by
  have values := congrArg (Nat.ofDigitChars 10 · 0) same
  simpa only [Nat.ofDigitChars_ten_toDigits] using values

theorem minus_not_mem_toDigits (n : Nat) : '-' ∉ Nat.toDigits 10 n := by
  intro member
  have digit := Nat.isDigit_of_mem_toDigits (by decide) (by decide) member
  cases digit

theorem decimal_injective {m n : Int} (same : decimal m = decimal n) : m = n := by
  have texts := congrArg String.toList same
  cases m with
  | ofNat m =>
    cases n with
    | ofNat n =>
      simp only [decimal, String.toList_ofList] at texts
      rw [toDigits_inj texts]
    | negSucc n =>
      simp only [decimal, String.toList_ofList] at texts
      exact absurd (texts ▸ List.mem_cons_self) (minus_not_mem_toDigits m)
  | negSucc m =>
    cases n with
    | ofNat n =>
      simp only [decimal, String.toList_ofList] at texts
      exact absurd (texts ▸ List.mem_cons_self) (minus_not_mem_toDigits n)
    | negSucc n =>
      simp only [decimal, String.toList_ofList, List.cons.injEq, true_and] at texts
      have next := toDigits_inj texts
      rw [Nat.succ.inj next]

theorem mem_decimal {n : Int} {c : Char} (member : c ∈ (decimal n).toList) :
    c = '-' ∨ c.isDigit = true := by
  cases n with
  | ofNat n =>
    rw [decimal, String.toList_ofList] at member
    exact .inr (Nat.isDigit_of_mem_toDigits (by decide) (by decide) member)
  | negSucc n =>
    rw [decimal, String.toList_ofList, List.mem_cons] at member
    rcases member with rfl | member
    · exact .inl rfl
    · exact .inr (Nat.isDigit_of_mem_toDigits (by decide) (by decide) member)

end ScriptKernel.Text
