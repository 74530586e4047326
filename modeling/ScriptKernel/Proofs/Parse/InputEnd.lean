import ScriptKernel.Proofs.Parse.Progress

/-!
Faults where the input is used up. A parser that fails there names the end of
the input in its fault, save for the faults of strings and of nesting, which
say nothing of where they were met. The statement is carried along the parsers,
with what is known of the cursor behind those that succeed.
-/

namespace ScriptKernel

def ParseFault.namesEnd : ParseFault → Bool
  | .expected _ got => got == ""
  | .unknownStatement sight => sight == .endOfInput
  | .unknownExpression sight => sight == .endOfInput
  | .nothingConsumed sight => sight == .endOfInput
  | .expectedBlock sight => sight == .endOfInput
  | .expectedEnd sight => sight == .endOfInput
  | .memoizationValue sight => sight == .endOfInput
  | .unfinishedBlock => true
  | _ => false

/-- Faults whose messages never say what stands at the cursor, although they
may be met at the end. -/
def ParseFault.isMute : ParseFault → Bool
  | .nestedTooDeeply => true
  | .unterminatedString => true
  | .unknownEscape _ => true
  | _ => false

/-- A fault with which a parser may fail at the end of the input. -/
def ParseFault.Telling (fault : ParseFault) : Prop :=
  fault.namesEnd = true ∨ fault.isMute = true

/-- A stream whose end does not come directly behind a source lexeme other than
a line end, and a context that skips lexemes from the front. -/
structure Context.Bounded (ctx : Context) (base : Rest) : Prop where
  more : ∀ l reached, l :: reached <:+ base → l.synthetic = false → l.text ≠ "\n" → ctx.atEnd reached = false
  space : ∀ rest, ctx.skipSpace rest <:+ rest
  trivia : ∀ rest, ctx.skipTrivia rest <:+ rest

namespace Context

variable {ctx : Context} {base rest : Rest}

def Open (ctx : Context) (rest : Rest) : Prop :=
  ctx.atEnd rest = false

theorem open_of_source {l : Lexeme} (source : l.synthetic = false) : ctx.Open (l :: rest) := by
  rw [Open, atEnd, source, Bool.false_and]

theorem sight_of_atEnd (ended : ctx.atEnd rest = true) : ctx.sight rest = .endOfInput :=
  if_pos ended

theorem got_of_atEnd (ended : ctx.atEnd rest = true) : ctx.got rest = "" :=
  if_pos ended

theorem Bounded.open_behind (bounded : ctx.Bounded base) (within : rest <:+ base) (start : ctx.Open rest)
    {eaten reached : Rest} (split : rest = eaten ++ reached)
    (plain : ∀ l ∈ eaten, l.synthetic = false ∧ l.text ≠ "\n") : ctx.Open reached := by
  rcases List.eq_nil_or_concat eaten with rfl | ⟨before, l, rfl⟩
  · rw [List.nil_append] at split
    rwa [← split]
  · obtain ⟨source, notLine⟩ := plain l (by simp)
    refine bounded.more l reached (.trans ⟨before, ?_⟩ within) source notLine
    rw [split, List.concat_eq_append, List.append_assoc, List.singleton_append]

end Context

namespace Parser

variable {α β : Type} {ctx : Context} {base rest : Rest} {P R : Rest → Prop}

/-- The outcome of a parser: a point of the stream with the property, or a fault
that is telling where the input is used up. -/
def Told (ctx : Context) (base : Rest) (P : Rest → Prop) : EStateM.Result ParseError Rest α → Prop
  | .ok _ reached => reached <:+ base ∧ P reached
  | .error e reached => ctx.atEnd reached = true → e.fault.Telling

/-- From this point of the stream the parser tells of the end. -/
def Tells (ctx : Context) (base : Rest) (P : Rest → Prop) (p : Parser α) (rest : Rest) : Prop :=
  rest <:+ base → Told ctx base P (p ctx rest)

namespace Tells

variable {p : Parser α} {f : α → Parser β}

theorem weaken (tells : Tells ctx base P p rest) (implies : ∀ reached, P reached → R reached) : Tells ctx base R p rest := by
  intro within
  have outcome := tells within
  cases result : p ctx rest with
  | ok x reached =>
    rw [result] at outcome
    exact ⟨outcome.1, implies reached outcome.2⟩
  | error e reached =>
    rw [result] at outcome
    exact outcome

theorem anywhere (tells : Tells ctx base P p rest) : Tells ctx base (fun _ => True) p rest :=
  tells.weaken fun _ _ => trivial

theorem pure (x : α) (holds : P rest) : Tells ctx base P (Pure.pure x) rest :=
  fun within => ⟨within, holds⟩

theorem done (x : α) : Tells ctx base (fun _ => True) (Pure.pure x) rest :=
  pure x trivial

theorem fail {fault : ParseFault} (telling : ctx.atEnd rest = true → fault.Telling) :
    Tells ctx base P (Parser.fail fault : Parser α) rest :=
  fun _ => telling

theorem failAt {location : Location} {fault : ParseFault} (telling : ctx.atEnd rest = true → fault.Telling) :
    Tells ctx base P (Parser.failAt location fault : Parser α) rest :=
  fun _ => telling

theorem never {fault : ParseFault} (started : ctx.Open rest) : ctx.atEnd rest = true → fault.Telling :=
  fun ended => absurd ended (by rw [started]; exact Bool.false_ne_true)

theorem bind (first : Tells ctx base P p rest)
    (next : ∀ x reached, p ctx rest = .ok x reached → P reached → Tells ctx base R (f x) reached) :
    Tells ctx base R (p >>= f) rest := by
  intro within
  have outcome := first within
  rw [Parser.bind_apply]
  cases result : p ctx rest with
  | error e reached =>
    rw [result] at outcome
    exact outcome
  | ok x mid =>
    rw [result] at outcome
    exact next x mid result outcome.2 outcome.1

theorem ite {q : Parser α} {condition : Prop} [Decidable condition] (yes : condition → Tells ctx base P p rest)
    (no : ¬condition → Tells ctx base P q rest) : Tells ctx base P (if condition then p else q) rest := by
  split
  next holds => exact yes holds
  next fails => exact no fails

theorem optionally {after : Parser α} {condition : Bool} (then_ : ∀ reached, Tells ctx base P after reached)
    (step : condition = true → (∀ reached, Tells ctx base P after reached) → Tells ctx base P p rest) :
    Tells ctx base P (if condition then p else after) rest :=
  ite (fun holds => step holds then_) fun _ => then_ rest

theorem look {g : Context → Rest → α} (next : Tells ctx base P (f (g ctx rest)) rest) :
    Tells ctx base P (Parser.look g >>= f) rest :=
  next

theorem isAt {text : String} {f : Bool → Parser β} (next : Tells ctx base P (f (Rest.isAt text rest)) rest) :
    Tells ctx base P (Parser.isAt text >>= f) rest :=
  next

theorem location {f : Location → Parser β} (next : Tells ctx base P (f (ctx.location rest)) rest) :
    Tells ctx base P (Parser.location >>= f) rest :=
  next

theorem space (bounded : ctx.Bounded base) {f : Unit → Parser β} (next : Tells ctx base P (f ()) (ctx.skipSpace rest)) :
    Tells ctx base P (Parser.skipSpace >>= f) rest :=
  fun within => next ((bounded.space rest).trans within)

theorem tail (rest : Rest) : Tells ctx base (fun _ => True) Parser.advance rest :=
  fun within => ⟨(List.tail_suffix rest).trans within, trivial⟩

theorem advance (bounded : ctx.Bounded base) {texts : List String} (plain : "\n" ∉ texts) (here : rest.isAtAny texts = true) :
    Tells ctx base ctx.Open Parser.advance rest := by
  intro within
  obtain ⟨text, member, at_⟩ := List.any_eq_true.1 here
  cases rest with
  | nil => cases at_
  | cons l rest =>
    rw [Rest.isAt, Bool.and_eq_true, Bool.not_eq_true', beq_iff_eq] at at_
    refine ⟨(List.suffix_cons l rest).trans within, bounded.more l rest within at_.1 fun line => ?_⟩
    rw [at_.2] at line
    exact plain (line ▸ member)

theorem expected (texts : List String) : Tells ctx base P (Parser.fail (.expected texts (ctx.got rest)) : Parser α) rest :=
  fail fun ended => Or.inl (by rw [Context.got_of_atEnd ended]; rfl)

theorem expect (bounded : ctx.Bounded base) {texts : List String} (plain : "\n" ∉ texts) :
    Tells ctx base ctx.Open (Parser.expect texts) rest := by
  intro within
  unfold Parser.expect
  by_cases here : Rest.isAtAny texts rest = true
  · rw [if_pos here]
    exact advance bounded plain here within
  · rw [if_neg here]
    exact expected texts within

theorem isWord_plain {l : Lexeme} (word : l.isWord = true) : l.synthetic = false ∧ l.text ≠ "\n" := by
  rw [Lexeme.isWord, Bool.and_eq_true, Bool.not_eq_true'] at word
  refine ⟨word.1, fun line => ?_⟩
  rw [line] at word
  exact absurd word.2 (by decide)

theorem isDigits_plain {l : Lexeme} (digits : l.isDigits = true) : l.synthetic = false ∧ l.text ≠ "\n" := by
  rw [Lexeme.isDigits, Bool.and_eq_true, Bool.not_eq_true'] at digits
  refine ⟨digits.1, fun line => ?_⟩
  rw [line] at digits
  exact absurd digits.2 (by decide)

theorem takeWhile_plain {q : Lexeme → Bool} (plain : ∀ l, q l = true → l.synthetic = false ∧ l.text ≠ "\n") (rest : Rest) :
    ∀ l ∈ rest.takeWhile q, l.synthetic = false ∧ l.text ≠ "\n" :=
  fun l member => plain l (List.mem_takeWhile_imp member)

theorem open_of_word (found : rest.word ≠ "") : ctx.Open rest := by
  have some := Walk.Moves.takeWhile_isWord_ne_nil found
  cases rest with
  | nil => exact absurd rfl some
  | cons l rest =>
    by_cases word : l.isWord = true
    · exact Context.open_of_source (isWord_plain word).1
    · rw [List.takeWhile_cons, if_neg word] at some
      exact absurd rfl some

theorem word (rest : Rest) : Tells ctx base (fun _ => True) Parser.word rest :=
  fun within => ⟨(List.dropWhile_suffix _).trans within, trivial⟩

theorem wordSome (bounded : ctx.Bounded base) (found : rest.word ≠ "") : Tells ctx base ctx.Open Parser.word rest := by
  intro within
  refine ⟨(List.dropWhile_suffix _).trans within, ?_⟩
  exact bounded.open_behind within (open_of_word found) (Walk.Moves.afterWord_split rest)
    (takeWhile_plain (fun _ => isWord_plain) rest)

theorem anyKeyword (bounded : ctx.Bounded base) {texts : List String} (known : "" ∉ texts)
    (found : rest.isAnyKeyword texts = true) : Tells ctx base ctx.Open Parser.word rest := by
  apply wordSome bounded
  intro none
  rw [Rest.isAnyKeyword, none, List.contains_iff_mem] at found
  exact known found

theorem name (bounded : ctx.Bounded base) (reserved : List String) : Tells ctx base ctx.Open (Parser.name reserved) rest := by
  intro within
  unfold Parser.name
  by_cases start : rest.isNameStart = true
  · have found := Walk.Moves.word_ne_of_isNameStart start
    rw [if_neg (by simp [start])]
    by_cases taken : reserved.contains rest.word = true
    · rw [if_pos taken]
      exact fail (never (open_of_word found)) within
    · rw [if_neg taken]
      exact wordSome bounded found within
  · rw [if_pos (by simpa using start)]
    exact expected ["identifier"] within

theorem expectKeyword (bounded : ctx.Bounded base) {text : String} (plain : text ≠ "\n") :
    Tells ctx base (fun _ => True) (Parser.expectKeyword text) rest := by
  intro within
  unfold Parser.expectKeyword
  by_cases found : rest.isKeyword text = true
  · rw [if_pos found]
    exact ⟨(List.dropWhile_suffix _).trans within, trivial⟩
  · rw [if_neg found]
    have absent : "\n" ∉ [text] := by simpa using plain.symm
    have outcome := expect bounded absent within
    cases result : Parser.expect [text] ctx rest with
    | error e reached =>
      rw [result] at outcome
      exact outcome
    | ok l reached =>
      rw [result] at outcome
      exact ⟨outcome.1, trivial⟩

theorem open_of_isDigitStart (start : rest.isDigitStart = true) : ctx.Open rest := by
  cases rest with
  | nil => cases start
  | cons l rest =>
    rw [Rest.isDigitStart, Bool.and_eq_true, Bool.not_eq_true'] at start
    exact Context.open_of_source start.1

theorem spanNumber_plain (fraction : Bool) (rest : Rest) :
    rest = (Parser.spanNumber fraction rest).1 ++ (Parser.spanNumber fraction rest).2 ∧
      ∀ l ∈ (Parser.spanNumber fraction rest).1, l.synthetic = false ∧ l.text ≠ "\n" := by
  have digits := takeWhile_plain (fun _ => isDigits_plain)
  have split : rest = rest.takeWhile (·.isDigits) ++ rest.dropWhile (·.isDigits) :=
    List.takeWhile_append_dropWhile.symm
  unfold Parser.spanNumber
  dsimp only
  split
  next point digit more behind =>
    rw [behind] at split ⊢
    by_cases both : (fraction && Rest.isAt "." (point :: digit :: more) && digit.isDigits) = true
    · rw [if_pos both]
      simp only [Bool.and_eq_true, Rest.isAt, Bool.not_eq_true', beq_iff_eq] at both
      refine ⟨?_, ?_⟩
      · rw [List.append_assoc, List.cons_append, List.takeWhile_append_dropWhile]
        exact split
      · intro l member
        rcases List.mem_append.1 member with whole | behind
        · exact digits rest l whole
        · rcases List.mem_cons.1 behind with rfl | later
          · exact ⟨both.1.2.1, by rw [both.1.2.2]; decide⟩
          · exact digits _ l later
    · rw [if_neg both]
      exact ⟨split, digits rest⟩
  next => exact ⟨split, digits rest⟩

theorem number (bounded : ctx.Bounded base) (fraction : Bool) (start : rest.isDigitStart = true) :
    Tells ctx base ctx.Open (Parser.number fraction) rest := by
  intro within
  obtain ⟨split, plain⟩ := spanNumber_plain fraction rest
  refine ⟨.trans ⟨_, split.symm⟩ within, ?_⟩
  exact bounded.open_behind within (open_of_isDigitStart start) split plain

theorem stringBody_tells (bounded : ctx.Bounded base) {quote : String} (plain : quote ≠ "\n") (read : String) {rest : Rest}
    (within : rest <:+ base) : Told ctx base ctx.Open (Parser.stringBody ctx quote read rest) := by
  fun_induction Parser.stringBody ctx quote read rest with
  | case1 => exact fun _ => Or.inr rfl
  | case2 read l rest marker => exact fun _ => Or.inr rfl
  | case3 read l rest source ends =>
    refine ⟨(List.suffix_cons l rest).trans within, bounded.more l rest within (by simpa using source) ?_⟩
    rwa [ends]
  | case4 read l source inside escapes => exact fun _ => Or.inr rfl
  | case5 read l source inside escapes escaped rest marker => exact fun _ => Or.inr rfl
  | case6 read l source inside escapes escaped rest behind text known ih =>
    exact ih ((List.suffix_append [l, escaped] rest).trans within)
  | case7 read l source inside escapes escaped rest behind unknown => exact fun _ => Or.inr rfl
  | case8 read l rest source inside plain ih => exact ih ((List.suffix_cons l rest).trans within)

theorem string (bounded : ctx.Bounded base) {quote : String} (plain : quote ≠ "\n") :
    Tells ctx base ctx.Open (Parser.string quote) rest := by
  unfold Parser.string
  apply (expect bounded (by simpa using plain.symm)).bind
  exact fun _ reached _ _ within => stringBody_tells bounded plain "" within

theorem isAt_tail (bounded : ctx.Bounded base) {text : String} (plain : text ≠ "\n") (within : rest <:+ base)
    (here : rest.isAt text = true) : rest.tail <:+ base ∧ ctx.Open rest.tail := by
  have absent : "\n" ∉ [text] := by simpa using plain.symm
  exact advance bounded absent (by simpa [Rest.isAtAny] using here) within

theorem items (bounded : ctx.Bounded base) {separator close : String} (divides : separator ≠ "\n") (closes : close ≠ "\n")
    {item : List α → Parser α} (each : ∀ done rest, Tells ctx base (fun _ => True) (item done) rest) (fuel : Nat)
    (done : List α) {rest : Rest} (within : rest <:+ base) :
    (∃ found reached, Parser.items separator close item fuel done ctx rest = .ok (found, none) reached ∧
      reached <:+ base ∧ ctx.Open reached) ∨
    ∃ found e reached, Parser.items separator close item fuel done ctx rest = .ok (found, some e) reached ∧
      (ctx.atEnd reached = true → e.fault.Telling) := by
  induction fuel generalizing done rest with
  | zero => exact Or.inr ⟨_, _, _, rfl, fun _ => Or.inr rfl⟩
  | succ fuel ih =>
    have inside := (bounded.space rest).trans within
    unfold Parser.items
    dsimp only
    by_cases closed : Rest.isAt close (ctx.skipSpace rest) = true
    · rw [if_pos closed]
      exact Or.inl ⟨_, _, rfl, isAt_tail bounded closes inside closed⟩
    rw [if_neg closed]
    have outcome := each done (ctx.skipSpace rest) inside
    cases result : item done ctx (ctx.skipSpace rest) with
    | error e reached =>
      rw [result] at outcome
      exact Or.inr ⟨_, e, reached, rfl, outcome⟩
    | ok x mid =>
      rw [result] at outcome
      have inside' := (bounded.space mid).trans outcome.1
      dsimp only
      by_cases divided : Rest.isAt separator (ctx.skipSpace mid) = true
      · rw [if_pos divided]
        exact ih (done ++ [x]) (isAt_tail bounded divides inside' divided).1
      rw [if_neg divided]
      by_cases closed' : Rest.isAt close (ctx.skipSpace mid) = true
      · rw [if_pos closed']
        exact Or.inl ⟨_, _, rfl, isAt_tail bounded closes inside' closed'⟩
      · rw [if_neg closed']
        refine Or.inr ⟨_, _, _, rfl, ?_⟩
        exact fun ended => Or.inl (by rw [Context.got_of_atEnd ended]; rfl)

theorem list (bounded : ctx.Bounded base) {separator close : String} (divides : separator ≠ "\n") (closes : close ≠ "\n")
    {item : List α → Parser α} (each : ∀ done rest, Tells ctx base (fun _ => True) (item done) rest) :
    Tells ctx base ctx.Open (Parser.list separator close item) rest := by
  intro within
  unfold Parser.list Parser.listed
  rcases items bounded divides closes each (rest.length + 1) [] within with
    ⟨found, reached, listed, left⟩ | ⟨found, e, reached, listed, telling⟩
  · rw [listed]
    exact left
  · rw [listed]
    exact telling

end Tells

end Parser

namespace Grammar

open ScriptKernel.Parser (Tells Told)

variable {ε σ : Type} {g : Grammar ε σ} {ctx : Context} {base rest : Rest} {behind P : Rest → Prop} {nested : Nested ε σ}

structure NestedTells (ctx : Context) (base : Rest) (behind : Rest → Prop) (nested : Nested ε σ) : Prop where
  expr : ∀ least rest, Tells ctx base behind (nested.expr least) rest
  statement : ∀ rest, Tells ctx base (fun _ => True) nested.statement rest

/-- Rules that tell of the end wherever they apply, and blanks that change
nothing of what is known behind an expression. -/
structure Telling (g : Grammar ε σ) (ctx : Context) (base : Rest) (behind : Rest → Prop) : Prop where
  space : ∀ rest, rest <:+ base → behind rest → behind (ctx.skipSpace rest)
  operand : ∀ rule ∈ g.operands, ∀ nested, NestedTells ctx base behind nested → ∀ rest,
    rule.applies ctx rest = true → Tells ctx base behind (rule.parse nested) rest
  operator : ∀ rule ∈ g.operators, ∀ nested, NestedTells ctx base behind nested → ∀ left rest,
    rule.applies ctx rest = true → Tells ctx base behind (rule.parse nested left) rest
  statement : ∀ rule ∈ g.statements, ∀ nested, NestedTells ctx base behind nested → ∀ rest,
    rule.applies ctx rest = true → Tells ctx base (fun _ => True) (rule.parse nested) rest

theorem operatorsFrom_tells (bounded : ctx.Bounded base) (telling : g.Telling ctx base behind)
    (parts : NestedTells ctx base behind nested) (least : Precedence) (fuel : Nat) (left : ε) {rest : Rest}
    (known : behind rest) : Tells ctx base behind (g.operatorsFrom nested least fuel left) rest := by
  induction fuel generalizing left rest with
  | zero => exact Tells.fail fun _ => Or.inr rfl
  | succ fuel ih =>
    intro within
    have inside := (bounded.space rest).trans within
    have known' := telling.space rest within known
    unfold operatorsFrom
    dsimp only
    cases found : g.operators.find? (·.applies ctx (ctx.skipSpace rest)) with
    | none => exact ⟨inside, known'⟩
    | some rule =>
      dsimp only
      by_cases weaker : rule.precedence < least
      · rw [if_pos weaker]
        exact ⟨inside, known'⟩
      · rw [if_neg weaker]
        have applies := List.find?_some found
        have outcome := telling.operator rule (List.mem_of_find?_eq_some found) nested parts left _ applies inside
        cases read : rule.parse nested left ctx (ctx.skipSpace rest) with
        | error e reached =>
          rw [read] at outcome
          exact outcome
        | ok next reached =>
          rw [read] at outcome
          exact ih next outcome.2 outcome.1

theorem exprWith_tells (bounded : ctx.Bounded base) (telling : g.Telling ctx base behind)
    (parts : NestedTells ctx base behind nested) (least : Precedence) (rest : Rest) :
    Tells ctx base behind (g.exprWith nested least) rest := by
  intro within
  have inside := (bounded.space rest).trans within
  unfold exprWith
  dsimp only
  cases found : g.operands.find? (·.applies ctx (ctx.skipSpace rest)) with
  | none => exact fun ended => Or.inl (by rw [Context.sight_of_atEnd ended]; rfl)
  | some rule =>
    have applies := List.find?_some found
    have outcome := telling.operand rule (List.mem_of_find?_eq_some found) nested parts _ applies inside
    dsimp only
    cases read : rule.parse nested ctx (ctx.skipSpace rest) with
    | error e reached =>
      rw [read] at outcome
      exact outcome
    | ok left reached =>
      rw [read] at outcome
      exact operatorsFrom_tells bounded telling parts least _ left outcome.2 outcome.1

theorem statementWith_tells (telling : g.Telling ctx base behind) (parts : NestedTells ctx base behind nested) (rest : Rest) :
    Tells ctx base (fun _ => True) (g.statementWith nested) rest := by
  intro within
  unfold statementWith
  cases found : g.statements.find? (·.applies ctx rest) with
  | none => exact fun ended => Or.inl (by rw [Context.sight_of_atEnd ended]; rfl)
  | some rule =>
    have applies := List.find?_some found
    exact telling.statement rule (List.mem_of_find?_eq_some found) nested parts rest applies within

theorem guarded_tells {α : Type} {p : Parser α} {depth : Nat} (tells : Tells ctx base P p rest) :
    Tells ctx base P (guarded depth p) rest := by
  intro within
  unfold guarded
  split
  · exact fun _ => Or.inr rfl
  · exact tells within

theorem nestedAt_tells (bounded : ctx.Bounded base) (telling : g.Telling ctx base behind) (fuel depth : Nat) :
    NestedTells ctx base behind (g.nestedAt fuel depth) := by
  induction fuel generalizing depth with
  | zero => exact ⟨fun _ _ => Tells.fail fun _ => Or.inr rfl, fun _ => Tells.fail fun _ => Or.inr rfl⟩
  | succ fuel ih =>
    have parts := ih (depth + 1)
    exact ⟨fun least rest => guarded_tells (exprWith_tells bounded telling parts least rest),
      fun rest => guarded_tells (statementWith_tells telling parts rest)⟩

theorem step_tells {statement : Parser σ} (tells : Tells ctx base (fun _ => True) statement rest) :
    Tells ctx base (fun _ => True) (step statement) rest := by
  intro within
  have outcome := tells within
  unfold step
  cases result : statement ctx rest with
  | error e reached =>
    rw [result] at outcome
    exact outcome
  | ok s reached =>
    rw [result] at outcome
    dsimp only
    split
    · exact fun ended => Or.inl (by rw [Context.sight_of_atEnd ended]; rfl)
    · exact outcome

theorem blockFrom_tells (bounded : ctx.Bounded base) {statement : Parser σ}
    (each : ∀ rest, Tells ctx base (fun _ => True) statement rest) (stop : Context → Rest → Bool) (fuel : Nat)
    (done : List σ) (rest : Rest) : Tells ctx base (fun _ => True) (blockFrom statement stop fuel done) rest := by
  induction fuel generalizing done rest with
  | zero => exact Tells.fail fun _ => Or.inr rfl
  | succ fuel ih =>
    intro within
    have inside := (bounded.trivia rest).trans within
    simp only [blockFrom]
    by_cases stopped : stop ctx (ctx.skipTrivia rest) = true
    · rw [if_pos stopped]
      exact ⟨inside, trivial⟩
    rw [if_neg stopped]
    by_cases ended : ctx.atEnd (ctx.skipTrivia rest) = true
    · rw [if_pos ended]
      exact fun _ => Or.inl rfl
    rw [if_neg ended]
    have outcome := step_tells (each (ctx.skipTrivia rest)) inside
    cases result : step statement ctx (ctx.skipTrivia rest) with
    | error e reached =>
      rw [result] at outcome
      exact outcome
    | ok s mid =>
      rw [result] at outcome
      exact ih (s :: done) mid outcome.1

theorem block_tells (bounded : ctx.Bounded base) (statements : ∀ rest, Tells ctx base (fun _ => True) nested.statement rest)
    (stop : Context → Rest → Bool) (rest : Rest) : Tells ctx base (fun _ => True) (block nested stop) rest :=
  blockFrom_tells bounded statements stop (rest.length + 1) [] rest

theorem program_tells (bounded : ctx.Bounded base) (telling : g.Telling ctx base behind) (rest : Rest) :
    Tells ctx base (fun _ => True) g.program rest := by
  intro within
  rw [program]
  have parts := nestedAt_tells bounded telling (2 * rest.length + 4) 0
  exact blockFrom_tells bounded parts.statement Context.atEnd (rest.length + 1) [] rest within

end Grammar

end ScriptKernel
