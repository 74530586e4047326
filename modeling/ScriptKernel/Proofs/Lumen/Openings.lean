import ScriptKernel.Proofs.Lumen.Expressions

/-!
How a statement is told by its first words. An expression starts with no word
of a statement, and with none that would make it another one together with
what follows.
-/

namespace ScriptKernel.Lumen

open Written

variable {ctx : Context}

def statementWords : List String :=
  ["let", "if", "elif", "else", "while", "until", "for", "break", "continue", "return", "fn"]

def openings : List (String × String) :=
  [("MEMOIZATION", "="), ("print", "("), ("write", "("), ("push", "(")]

theorem word_number {text : List Char} (plain : Decimal.NumberText text) (s : Rest) :
    Rest.word (letters text ++ s) ∉ statementWords ++ openings.map Prod.fst := by
  obtain ⟨c, rest, rfl, digit⟩ := numberText_head plain
  have head := word_letter (isWordChar_of_isDigit digit) (letters rest ++ s)
  have letter : ∀ word ∈ statementWords ++ openings.map Prod.fst, ∀ d ∈ word.toList,
      d.isDigit = false := by decide
  intro member
  rw [letter _ member c (List.mem_of_mem_head? head)] at digit
  cases digit

theorem Phrase.word_notMem {p : Precedence} {x : Expr} {shape : Rest} (phrase : Phrase p x shape)
    {s : Rest} (clear : Clear s) : Rest.word (shape ++ s) ∉ statementWords := by
  have empty : "" ∉ statementWords := by decide
  have symbol {text : String} (known : text ∈ symbols) (t : Rest) :
      Rest.word (.source text :: t) ∉ statementWords := by
    rw [word_symbol known]
    exact empty
  have keyword {text : List Char} (word : ∀ c ∈ text, Text.isWordChar c)
      (other : String.ofList text ∉ statementWords) {t : Rest} (clear : Clear t) :
      Rest.word (letters text ++ t) ∉ statementWords := by
    rwa [word_letters word clear]
  induction phrase generalizing s with
  | number plain read => exact fun member => word_number plain s (List.mem_append_left _ member)
  | bool b => cases b <;> exact keyword (by decide) (by decide) clear
  | none => exact keyword (by decide) (by decide) clear
  | string spelled => exact symbol (by decide) _
  | @var name valid =>
    refine keyword valid.wordChars ?_ clear
    have words : ∀ word ∈ statementWords, word ∈ reserved := by decide
    rw [String.ofList_toList]
    exact fun member => valid.free (words name member)
  | group phrase ih => exact symbol (by decide) _
  | between known leftBinds rightBinds left right ihLeft ihRight =>
    rw [List.append_assoc, List.cons_append]
    exact ihLeft (clear_symbol (by decide) (by decide) _)
  | not binds inner ih =>
    rw [List.append_assoc, List.cons_append]
    exact keyword (by decide) (by decide) (clear_symbol (by decide) (by decide) _)
  | negate binds inner ih => exact symbol (by decide) _
  | call binds callee ordinary each ihCallee ih =>
    rw [List.append_assoc]
    exact ihCallee (clear_symbol (by decide) (by decide) _)
  | hostCall parsed spelled each ih =>
    rw [List.append_assoc]
    exact keyword (by decide) (by decide) (clear_symbol (by decide) (by decide) _)
  | array each ih => exact symbol (by decide) _
  | index binds left inner ihLeft ihInner =>
    rw [List.append_assoc, List.cons_append]
    exact ihLeft (clear_symbol (by decide) (by decide) _)

theorem followedBy_of_word {word next : String} {s : Rest} (other : s.word ≠ word) :
    followedBy word next ctx s = false := by
  simp [followedBy, Rest.isKeyword, other]

theorem followedBy_letters (plain : Plain ctx) {word next : String}
    (wordlike : ∀ c ∈ word.toList, Text.isWordChar c) {s : Rest} (clear : Clear s) :
    followedBy word next ctx (letters word.toList ++ s) = Rest.isAt next (skipSpace s) := by
  rw [followedBy, Rest.isKeyword, word_letters wordlike clear, afterWord_letters wordlike clear,
    String.ofList_toList, plain.skipSpace]
  simp

theorem wordChars_opening {word next : String} (opening : (word, next) ∈ openings) :
    ∀ c ∈ word.toList, Text.isWordChar c := by
  have all : ∀ pair ∈ openings, ∀ c ∈ pair.1.toList, Text.isWordChar c := by decide
  exact all (word, next) opening

theorem Infix.isAt_lexemes {op : Infix} (known : op.Known) {word next : String}
    (opening : (word, next) ∈ openings) (s : Rest) : Rest.isAt next (op.lexemes ++ s) = false := by
  have plain : next = "=" ∨ next = "(" := by
    have all : ∀ pair ∈ openings, pair.2 = "=" ∨ pair.2 = "(" := by decide
    exact all (word, next) opening
  cases op with
  | compare op =>
    cases op with
    | other symbol => exact known.elim
    | _ => rcases plain with rfl | rfl <;> rfl
  | arith op =>
    cases op with
    | other symbol => exact known.elim
    | _ => rcases plain with rfl | rfl <;> rfl
  | _ => rcases plain with rfl | rfl <;> rfl

theorem Phrase.not_followedBy (plain : Plain ctx) {word next : String}
    (opening : (word, next) ∈ openings) {p : Precedence} {x : Expr} {shape : Rest}
    (phrase : Phrase p x shape) :
    shape = letters word.toList ∨ ∀ s, Clear s → followedBy word next ctx (shape ++ s) = false := by
  have wordlike := wordChars_opening opening
  have noSymbol {text : String} (known : text ∈ symbols) (s : Rest) :
      followedBy word next ctx (.source text :: s) = false := by
    refine followedBy_of_word ?_
    rw [word_symbol known]
    have some : ∀ pair ∈ openings, "" ≠ pair.1 := by decide
    exact some (word, next) opening
  have noKeyword {text : List Char} (letterlike : ∀ c ∈ text, Text.isWordChar c)
      (other : String.ofList text ≠ word) {s : Rest} (clear : Clear s) :
      followedBy word next ctx (letters text ++ s) = false := by
    refine followedBy_of_word ?_
    rwa [word_letters letterlike clear]
  have keywords : ∀ text ∈ ["true", "false", "none", "not", "extern"], text ≠ word := by
    have all : ∀ pair ∈ openings, ∀ text ∈ ["true", "false", "none", "not", "extern"], text ≠ pair.1 := by
      decide
    exact all (word, next) opening
  -- What is behind the word when the word is all that stands before it.
  have behind {first : Rest} {tail : Rest}
      (alone : first = letters word.toList ∨ ∀ s, Clear s → followedBy word next ctx (first ++ s) = false)
      (clear : ∀ s, Clear (tail ++ s))
      (noNext : first = letters word.toList → ∀ s, Rest.isAt next (skipSpace (tail ++ s)) = false) :
      ∀ s, Clear s → followedBy word next ctx (first ++ tail ++ s) = false := by
    intro s _
    rw [List.append_assoc]
    rcases alone with same | never
    · have none := noNext same s
      rw [same, followedBy_letters plain wordlike (clear s), none]
    · exact never _ (clear s)
  have solid : next ≠ "[" ∧ (word ∈ outputWords ∨ next ≠ "(") := by
    have all : ∀ pair ∈ openings, pair.2 ≠ "[" ∧ (pair.1 ∈ outputWords ∨ pair.2 ≠ "(") := by decide
    exact all (word, next) opening
  induction phrase with
  | number digits read =>
    refine Or.inr fun s _ => followedBy_of_word ?_
    rintro rfl
    exact word_number digits s (List.mem_append_right _ (List.mem_map_of_mem opening))
  | bool b =>
    refine Or.inr fun s clear => ?_
    cases b with
    | false => exact noKeyword (by decide) (keywords "false" (by decide)) clear
    | true => exact noKeyword (by decide) (keywords "true" (by decide)) clear
  | none => exact Or.inr fun s clear => noKeyword (by decide) (keywords "none" (by decide)) clear
  | string spelled => exact Or.inr fun s _ => noSymbol (by decide) _
  | @var name valid =>
    by_cases same : name = word
    · exact Or.inl (by rw [same])
    · refine Or.inr fun s clear => noKeyword valid.wordChars ?_ clear
      rwa [String.ofList_toList]
  | group phrase ih => exact Or.inr fun s _ => noSymbol (by decide) _
  | between known leftBinds rightBinds left right ihLeft ihRight =>
    refine Or.inr (behind ihLeft (fun s => clear_symbol (by decide) (by decide) _) fun _ s => ?_)
    rw [List.cons_append, skipSpace_blank, List.append_assoc, Infix.skipSpace_lexemes known]
    exact Infix.isAt_lexemes known opening _
  | not binds inner ih =>
    refine Or.inr fun s _ => ?_
    rw [List.append_assoc, List.cons_append]
    exact noKeyword (by decide) (keywords "not" (by decide)) (clear_symbol (by decide) (by decide) _)
  | negate binds inner ih => exact Or.inr fun s _ => noSymbol (by decide) _
  | call binds callee ordinary each ihCallee ih =>
    refine Or.inr (behind ihCallee (fun s => clear_symbol (by decide) (by decide) _) fun same s => ?_)
    rcases solid.2 with output | other
    · exact absurd same (ordinary word output)
    · rw [enclosed, List.cons_append, skipSpace_symbol (by decide) (by decide)]
      simpa using Ne.symm other
  | hostCall parsed spelled each ih =>
    refine Or.inr fun s _ => ?_
    rw [List.append_assoc]
    exact noKeyword (by decide) (keywords "extern" (by decide)) (clear_symbol (by decide) (by decide) _)
  | array each ih => exact Or.inr fun s _ => noSymbol (by decide) _
  | index binds left inner ihLeft ihInner =>
    refine Or.inr (behind ihLeft (fun s => clear_symbol (by decide) (by decide) _) fun _ s => ?_)
    rw [List.cons_append, skipSpace_symbol (by decide) (by decide)]
    simpa using Ne.symm solid.1

theorem find_keyword (s : Rest) :
    (s.word = "let" → grammar.statements.find? (·.applies ctx s) = some letRule) ∧
    (s.word = "if" → grammar.statements.find? (·.applies ctx s) = some ifRule) ∧
    (s.word ∈ ["while", "until"] → grammar.statements.find? (·.applies ctx s) = some whileRule) ∧
    (s.word = "for" → grammar.statements.find? (·.applies ctx s) = some forRule) ∧
    (s.word = "break" → grammar.statements.find? (·.applies ctx s) = some (wordRule "break" .breakLoop)) ∧
    (s.word = "continue" →
      grammar.statements.find? (·.applies ctx s) = some (wordRule "continue" .continueLoop)) ∧
    (s.word = "return" → grammar.statements.find? (·.applies ctx s) = some returnRule) ∧
    (s.word = "fn" → grammar.statements.find? (·.applies ctx s) = some fnRule) := by
  refine ⟨?_, ?_, ?_, ?_, ?_, ?_, ?_, ?_⟩
  case refine_3 =>
    intro seen
    rcases List.mem_pair.mp seen with seen | seen
    all_goals
      simp [grammar, memoizationRule, letRule, ifRule, whileRule, followedBy, Rest.isKeyword,
        Rest.isAnyKeyword, seen]
  all_goals
    intro seen
    simp [grammar, memoizationRule, letRule, ifRule, whileRule, forRule, wordRule, returnRule, fnRule,
      followedBy, Rest.isKeyword, Rest.isAnyKeyword, seen]

theorem find_memoization {s : Rest} (here : followedBy "MEMOIZATION" "=" ctx s) :
    grammar.statements.find? (·.applies ctx s) = some memoizationRule :=
  List.find?_cons_of_pos here

theorem find_push {s : Rest} (here : followedBy "push" "(" ctx s) :
    grammar.statements.find? (·.applies ctx s) = some pushRule := by
  have seen : s.word = "push" := by
    simp only [followedBy, Rest.isKeyword, Bool.and_eq_true, beq_iff_eq] at here
    exact here.1
  have other (word next : String) (differs : "push" ≠ word) : followedBy word next ctx s = false :=
    followedBy_of_word (by rwa [seen])
  simp [grammar, memoizationRule, letRule, ifRule, whileRule, forRule, wordRule, returnRule, fnRule,
    outputRule, pushRule, Rest.isKeyword, Rest.isAnyKeyword, seen, here, other]

theorem find_assign {s : Rest} (opens : Opens s) (noWord : s.word ∉ statementWords)
    (ordinary : ∀ pair ∈ openings, followedBy pair.1 pair.2 ctx s = false) :
    grammar.statements.find? (·.applies ctx s) = some assignRule := by
  obtain ⟨l, rest, rfl, begins⟩ := opens
  have source := begins.source
  simp only [statementWords, List.mem_cons, List.not_mem_nil, or_false, not_or] at noWord
  simp only [openings, List.mem_cons, List.not_mem_nil, or_false, forall_eq_or_imp, forall_eq] at ordinary
  obtain ⟨memoization, print, write, push⟩ := ordinary
  simp [grammar, memoizationRule, letRule, ifRule, whileRule, forRule, wordRule, returnRule, fnRule,
    outputRule, pushRule, assignRule, Rest.isKeyword, Rest.isAnyKeyword, noWord, memoization, print, write,
    push, Context.atEnd, Context.peek, source]

end ScriptKernel.Lumen
