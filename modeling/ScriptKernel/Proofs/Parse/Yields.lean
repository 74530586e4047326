import ScriptKernel.Capability.Key
import ScriptKernel.Proofs.Number.Texts
import ScriptKernel.Proofs.Parse.Operators

/-!
What parsers give. A property that every rule of a grammar hands on from its
parts to its result holds of all that the grammar parses: of expressions
through the operator loop, of statements through blocks, at every depth.
-/

namespace ScriptKernel

namespace Parser

variable {α β : Type} {ctx : Context}

/-- Whatever the parser gives at this point has the property. -/
def Yields (p : Parser α) (ctx : Context) (rest : Rest) (P : α → Prop) : Prop :=
  ∀ a reached, p ctx rest = .ok a reached → P a

/-- Wherever it starts. -/
def Gives (p : Parser α) (ctx : Context) (P : α → Prop) : Prop :=
  ∀ rest, Yields p ctx rest P

variable {P : α → Prop} {Q : β → Prop} {rest : Rest}

theorem Yields.bind {p : Parser α} {f : α → Parser β} (first : Yields p ctx rest P)
    (next : ∀ a, P a → Gives (f a) ctx Q) : Yields (p >>= f) ctx rest Q := by
  intro b final done
  obtain ⟨a, reached, parsed, continued⟩ := bind_eq_ok done
  exact next a (first a reached parsed) reached b final continued

theorem Yields.advance {next : Lexeme → Parser β} (then_ : Gives (next (ctx.peek rest)) ctx Q) :
    Yields (Parser.advance >>= next) ctx rest Q := by
  intro b final done
  exact then_ rest.tail b final done

namespace Gives

theorem pure {a : α} (holds : P a) : Gives (Pure.pure a) ctx P := by
  rintro rest _ _ ⟨⟩
  exact holds

theorem fail (fault : ParseFault) : Gives (Parser.fail fault) ctx P := by
  rintro rest _ _ ⟨⟩

theorem failAt (location : Location) (fault : ParseFault) : Gives (Parser.failAt location fault) ctx P := by
  rintro rest _ _ ⟨⟩

theorem bind {p : Parser α} {f : α → Parser β} (first : Gives p ctx P) (next : ∀ a, P a → Gives (f a) ctx Q) :
    Gives (p >>= f) ctx Q :=
  fun rest => Yields.bind (first rest) next

theorem skip (p : Parser α) {f : α → Parser β} (next : ∀ {a}, Gives (f a) ctx Q) : Gives (p >>= f) ctx Q :=
  bind (P := fun _ => True) (fun _ _ _ _ => trivial) fun _ _ => next

theorem ite {p q : Parser α} {condition : Prop} [Decidable condition] (yes : condition → Gives p ctx P)
    (no : ¬condition → Gives q ctx P) : Gives (if condition then p else q) ctx P := by
  split
  next holds => exact yes holds
  next fails => exact no fails

theorem optionally {p after : Parser α} {condition : Bool} (step : Gives after ctx P → Gives p ctx P)
    (then_ : Gives after ctx P) : Gives (if condition then p else after) ctx P :=
  ite (fun _ => step then_) fun _ => then_

theorem look {f : Context → Rest → α} {next : α → Parser β} (then_ : ∀ rest, Gives (next (f ctx rest)) ctx Q) :
    Gives (Parser.look f >>= next) ctx Q := by
  intro rest b final done
  exact then_ rest rest b final done

theorem items {separator close : String} {item : List α → Parser α} {I : List α → Prop}
    (each : ∀ done, I done → Gives (item done) ctx fun x => I (done ++ [x])) (fuel : Nat)
    {done : List α} (before : I done) :
    Gives (Parser.items separator close item fuel done) ctx fun result => I result.1 := by
  induction fuel generalizing done with
  | zero =>
    rintro rest _ _ ⟨⟩
    exact before
  | succ fuel ih =>
    intro rest result reached parsed
    simp only [Parser.items] at parsed
    split at parsed
    · cases parsed
      exact before
    · split at parsed
      next => cases parsed; exact before
      next x after read =>
        have longer := each done before _ x after read
        split at parsed
        · exact ih longer _ result reached parsed
        · split at parsed <;> cases parsed <;> exact longer

theorem list {separator close : String} {item : List α → Parser α} {I : List α → Prop} (empty : I [])
    (each : ∀ done, I done → Gives (item done) ctx fun x => I (done ++ [x])) :
    Gives (Parser.list separator close item) ctx I := by
  intro rest found reached parsed
  simp only [Parser.list, Parser.listed] at parsed
  split at parsed
  next done after read =>
    cases parsed
    exact items each (rest.length + 1) empty rest _ _ read
  next => contradiction
  next => contradiction

theorem listOf {separator close : String} {item : Parser α} (each : Gives item ctx P) :
    Gives (Parser.list separator close fun _ => item) ctx fun found => ∀ x ∈ found, P x := by
  refine list (List.forall_mem_nil P) fun done before rest x reached read => ?_
  exact List.forall_mem_append.2 ⟨before, List.forall_mem_singleton.2 (each rest x reached read)⟩

theorem distinct {separator close : String} {item : List α → Parser α}
    (each : ∀ done, Gives (item done) ctx fun x => P x ∧ x ∉ done) :
    Gives (Parser.list separator close item) ctx fun found => (∀ x ∈ found, P x) ∧ found.Nodup := by
  refine list ⟨List.forall_mem_nil P, List.nodup_nil⟩ fun done before rest x reached read => ?_
  obtain ⟨valid, fresh⟩ := each done rest x reached read
  refine ⟨List.forall_mem_append.2 ⟨before.1, List.forall_mem_singleton.2 valid⟩, ?_⟩
  exact List.nodup_append_comm.2 (List.nodup_cons.2 ⟨fresh, before.2⟩)

end Gives

theorem peek_mem {rest : Rest} {texts : List String} (found : rest.isAtAny texts) : (ctx.peek rest).text ∈ texts := by
  simp only [Rest.isAtAny, List.any_eq_true] at found
  obtain ⟨text, member, here⟩ := found
  cases rest with
  | nil => cases here
  | cons l rest =>
    simp only [Rest.isAt, Bool.and_eq_true, beq_iff_eq] at here
    exact here.2 ▸ member

theorem toList_text (lexemes : List Lexeme) : (Rest.text lexemes).toList = lexemes.flatMap (·.text.toList) := by
  rw [Rest.text, String.toList_join, List.flatMap_map]

theorem text_all {lexemes : List Lexeme} {p : Char → Bool} (each : ∀ l ∈ lexemes, l.text.toList.all p) :
    ∀ c ∈ (Rest.text lexemes).toList, p c := by
  intro c member
  rw [toList_text, List.mem_flatMap] at member
  obtain ⟨l, inside, char⟩ := member
  exact List.all_eq_true.1 (each l inside) c char

theorem isWord_chars {l : Lexeme} (isWord : l.isWord) : l.text.toList.all Text.isWordChar := by
  simp only [Lexeme.isWord, isWordText, Bool.and_eq_true] at isWord
  exact isWord.2.2

theorem isDigits_chars {l : Lexeme} (isDigits : l.isDigits) : l.text.toList ≠ [] ∧ l.text.toList.all Char.isDigit := by
  simp only [Lexeme.isDigits, isDigitText, Bool.and_eq_true, Bool.not_eq_true', String.isEmpty_eq_false_iff] at isDigits
  refine ⟨fun empty => isDigits.2.1 (String.toList_eq_nil_iff.1 empty), isDigits.2.2⟩

theorem isName_word {rest : Rest} (start : rest.isNameStart) : Selector.isName rest.word.toList := by
  match rest, start with
  | l :: more, start =>
    simp only [Rest.isNameStart, Bool.and_eq_true] at start
    obtain ⟨isWord, opens⟩ := start
    have chars := @text_all ((l :: more).takeWhile (·.isWord)) Text.isWordChar fun k member =>
      isWord_chars (List.mem_takeWhile_imp member)
    rw [← Rest.word] at chars
    have shape : (Rest.word (l :: more)).toList = l.text.toList ++ (Rest.word more).toList := by
      rw [Rest.word, toList_text, List.takeWhile_cons, if_pos isWord, List.flatMap_cons, Rest.word, toList_text]
    rw [shape] at chars ⊢
    cases first : l.text.toList with
    | nil => simp [first] at opens
    | cons c cs =>
      rw [first, List.head?_cons, Option.any_some] at opens
      rw [first] at chars
      rw [List.cons_append, Selector.isName, opens, Bool.true_and, List.all_eq_true]
      exact fun d member => chars d (List.mem_cons_of_mem c member)

theorem name_gives (reserved : List String) (ctx : Context) :
    Gives (name reserved) ctx fun text => Selector.isName text.toList ∧ text ∉ reserved := by
  intro rest text reached parsed
  rw [name] at parsed
  split at parsed
  next => contradiction
  next start =>
    split at parsed
    next => contradiction
    next free =>
      cases parsed
      rw [Bool.not_eq_true, Bool.not_eq_false'] at start
      exact ⟨isName_word start, fun member => free (List.contains_iff_mem.2 member)⟩

theorem text_digits {l : Lexeme} {read : List Lexeme} (all : ∀ k ∈ l :: read, k.isDigits) :
    (Rest.text (l :: read)).toList ≠ [] ∧ ∀ c ∈ (Rest.text (l :: read)).toList, c.isDigit := by
  refine ⟨fun empty => ?_, text_all fun k member => (isDigits_chars (all k member)).2⟩
  rw [toList_text, List.flatMap_cons, List.append_eq_nil_iff] at empty
  exact (isDigits_chars (all l List.mem_cons_self)).1 empty.1

theorem spanNumber_text (fraction : Bool) {rest : Rest} (start : rest.isDigitStart) :
    Rest.text (spanNumber fraction rest).1 = "" ∨
      Decimal.NumberText (Rest.text (spanNumber fraction rest).1).toList := by
  have whole : Rest.text (rest.takeWhile (·.isDigits)) = "" ∨
      Decimal.NumberText (Rest.text (rest.takeWhile (·.isDigits))).toList := by
    cases taken : rest.takeWhile (·.isDigits) with
    | nil => exact Or.inl rfl
    | cons l read =>
      obtain ⟨some, each⟩ := text_digits fun k member => List.mem_takeWhile_imp (taken ▸ member)
      exact Or.inr (.whole some each)
  unfold spanNumber
  simp only
  split
  next point digit more after =>
    split
    next isFraction =>
      simp only [after, Bool.and_eq_true, Rest.isAt, beq_iff_eq] at isFraction
      obtain ⟨⟨-, -, isPoint⟩, isDigit⟩ := isFraction
      right
      cases taken : rest.takeWhile (·.isDigits) with
      | nil =>
        -- The point would be where a digit stands.
        have same : rest = point :: digit :: more := by
          rw [← List.takeWhile_append_dropWhile (p := Lexeme.isDigits) (l := rest), taken, after, List.nil_append]
        rw [same, Rest.isDigitStart, isPoint] at start
        simp at start
      | cons l read =>
        obtain ⟨some, each⟩ := text_digits fun k member => List.mem_takeWhile_imp (taken ▸ member)
        have behind : (digit :: more).takeWhile (·.isDigits) = digit :: more.takeWhile (·.isDigits) := by
          rw [List.takeWhile_cons, if_pos isDigit]
        obtain ⟨someMore, eachMore⟩ := text_digits fun k member => List.mem_takeWhile_imp (behind ▸ member)
        have text : (Rest.text (l :: read ++ point :: digit :: more.takeWhile (·.isDigits))).toList =
            (Rest.text (l :: read)).toList ++ '.' :: (Rest.text (digit :: more.takeWhile (·.isDigits))).toList := by
          rw [toList_text, List.flatMap_append, ← toList_text, List.flatMap_cons, isPoint, ← toList_text]
          rfl
        rw [behind, text]
        exact .fraction some each someMore eachMore
    next => exact whole
  next => exact whole

theorem number_yields (fraction : Bool) {ctx : Context} {rest : Rest} (start : rest.isDigitStart) :
    Yields (number fraction) ctx rest fun text => text = "" ∨ Decimal.NumberText text.toList := by
  rintro text reached ⟨⟩
  exact spanNumber_text fraction start

end Parser

namespace Grammar

open ScriptKernel.Parser (Yields Gives)

variable {ε σ : Type} {g : Grammar ε σ} {ctx : Context} {E : ε → Prop} {S : σ → Prop}

structure NestedGives (ctx : Context) (nested : Nested ε σ) (E : ε → Prop) (S : σ → Prop) : Prop where
  expr : ∀ least, Gives (nested.expr least) ctx E
  statement : Gives nested.statement ctx S

/-- Rules that hand a property on from their parts to their result. -/
structure Preserves (g : Grammar ε σ) (ctx : Context) (E : ε → Prop) (S : σ → Prop) : Prop where
  operand : ∀ rule ∈ g.operands, ∀ nested, NestedGives ctx nested E S → ∀ rest, rule.applies ctx rest →
    Yields (rule.parse nested) ctx rest E
  operator : ∀ rule ∈ g.operators, ∀ nested, NestedGives ctx nested E S → ∀ left, E left → ∀ rest,
    rule.applies ctx rest → Yields (rule.parse nested left) ctx rest E
  statement : ∀ rule ∈ g.statements, ∀ nested, NestedGives ctx nested E S → Gives (rule.parse nested) ctx S

namespace Preserves

variable {nested : Nested ε σ}

theorem operatorsFrom (preserves : g.Preserves ctx E S) (parts : NestedGives ctx nested E S) (least : Precedence)
    (fuel : Nat) {left : ε} (formed : E left) : Gives (g.operatorsFrom nested least fuel left) ctx E := by
  induction fuel generalizing left with
  | zero => exact .fail _
  | succ fuel ih =>
    intro rest x reached parsed
    simp only [Grammar.operatorsFrom] at parsed
    split at parsed
    next =>
      cases parsed
      exact formed
    next rule found =>
      split at parsed
      · cases parsed
        exact formed
      · split at parsed
        next next after read =>
          have applies := List.find?_some found
          have member := List.mem_of_find?_eq_some found
          have longer := preserves.operator rule member nested parts left formed _ applies next after read
          exact ih longer after x reached parsed
        next => contradiction

theorem exprWith (preserves : g.Preserves ctx E S) (parts : NestedGives ctx nested E S) (least : Precedence) :
    Gives (g.exprWith nested least) ctx E := by
  intro rest x reached parsed
  simp only [Grammar.exprWith] at parsed
  split at parsed
  next => contradiction
  next rule found =>
    split at parsed
    next left after read =>
      have applies := List.find?_some found
      have member := List.mem_of_find?_eq_some found
      have formed := preserves.operand rule member nested parts _ applies left after read
      exact preserves.operatorsFrom parts least _ formed after x reached parsed
    next => contradiction

theorem statementWith (preserves : g.Preserves ctx E S) (parts : NestedGives ctx nested E S) :
    Gives (g.statementWith nested) ctx S := by
  intro rest s reached parsed
  simp only [Grammar.statementWith] at parsed
  split at parsed
  next => contradiction
  next rule found =>
    have member := List.mem_of_find?_eq_some found
    exact preserves.statement rule member nested parts rest s reached parsed

theorem guarded {α : Type} {P : α → Prop} {p : Parser α} (depth : Nat) (inner : Gives p ctx P) :
    Gives (Grammar.guarded depth p) ctx P := by
  intro rest a reached parsed
  simp only [Grammar.guarded] at parsed
  split at parsed
  · contradiction
  · exact inner rest a reached parsed

theorem nestedAt (preserves : g.Preserves ctx E S) (fuel depth : Nat) :
    NestedGives ctx (g.nestedAt fuel depth) E S := by
  induction fuel generalizing depth with
  | zero => exact ⟨fun _ => .fail _, .fail _⟩
  | succ fuel ih =>
    exact ⟨fun least => guarded _ (preserves.exprWith (ih _) least), guarded _ (preserves.statementWith (ih _))⟩

end Preserves

theorem blockFrom_gives {statement : Parser σ} {stop : Context → Rest → Bool} (each : Gives statement ctx S)
    (fuel : Nat) {done : List σ} (before : ∀ s ∈ done, S s) :
    Gives (blockFrom statement stop fuel done) ctx fun body => ∀ s ∈ body, S s := by
  induction fuel generalizing done with
  | zero => exact .fail _
  | succ fuel ih =>
    intro rest body reached parsed
    simp only [blockFrom, step] at parsed
    split at parsed
    · cases parsed
      intro s member
      exact before s (List.mem_reverse.1 member)
    split at parsed
    · contradiction
    split at parsed
    next s after read =>
      refine ih ?_ after body reached parsed
      intro t member
      rcases List.mem_cons.1 member with rfl | earlier
      · split at read
        next => contradiction
        next found reached' parsed' =>
          split at read
          · contradiction
          · cases read
            exact each _ _ _ parsed'
      · exact before t earlier
    next => contradiction

theorem block_gives {nested : Nested ε σ} (parts : NestedGives ctx nested E S) (stop : Context → Rest → Bool) :
    Gives (block nested stop) ctx fun body => ∀ s ∈ body, S s :=
  fun rest => blockFrom_gives parts.statement (rest.length + 1) (List.forall_mem_nil S) rest

theorem program_gives (preserves : g.Preserves ctx E S) :
    Gives g.program ctx fun program => ∀ s ∈ program, S s := by
  intro rest body reached parsed
  rw [program] at parsed
  have parts := preserves.nestedAt (2 * rest.length + 4) 0
  exact blockFrom_gives parts.statement _ (List.forall_mem_nil S) rest body reached parsed

theorem parse_gives (preserves : g.Preserves ctx E S) {tokens : List Lexeme} {program : List σ}
    (parsed : g.parse ctx tokens = .ok program) : ∀ s ∈ program, S s := by
  rw [parse] at parsed
  split at parsed
  next found reached read =>
    cases parsed
    exact program_gives preserves tokens _ reached read
  next => contradiction

end Grammar

end ScriptKernel
