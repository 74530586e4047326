import Mathlib.Data.List.Find
import ScriptKernel.Proofs.Parse.Operators

/-!
The depth bound only ever rejects. Two runs of one parser under contexts that
differ in the bound alone give the same result, unless the run under the
tighter bound reports it. The statement is carried through sequencing, lists
and the loops of a grammar, so that of a language only its rules are left.
-/

namespace ScriptKernel

def Context.bounded (ctx : Context) (bound : Int) : Context :=
  { ctx with maxDepth := bound }

namespace Parser

variable {α β : Type}

def TooDeep : EStateM.Result ParseError Rest α → Prop
  | .ok _ _ => False
  | .error e _ => e.fault = .nestedTooDeeply

/-- Under `ctx` the first parser gives what the second gives under the bound
`loose`, or reports the depth bound. -/
def UpToDepth (ctx : Context) (loose : Int) (p q : Parser α) : Prop :=
  ∀ rest, p ctx rest = q (ctx.bounded loose) rest ∨ TooDeep (p ctx rest)

namespace UpToDepth

variable {ctx : Context} {loose : Int}

theorem same {p : Parser α} (unaware : p (ctx.bounded loose) = p ctx) : UpToDepth ctx loose p p :=
  fun rest => Or.inl (by rw [unaware])

theorem bind {p q : Parser α} {f g : α → Parser β} (first : UpToDepth ctx loose p q)
    (next : ∀ a, UpToDepth ctx loose (f a) (g a)) : UpToDepth ctx loose (p >>= f) (q >>= g) := by
  intro rest
  rw [bind_apply, bind_apply]
  rcases first rest with equal | deep
  · rw [← equal]
    cases p ctx rest with
    | ok a reached => exact next a reached
    | error e reached => exact Or.inl rfl
  · right
    cases result : p ctx rest with
    | ok a reached => simp [result, TooDeep] at deep
    | error e reached => simpa [result, TooDeep] using deep

theorem skip (p : Parser α) {f g : α → Parser β} (unaware : p (ctx.bounded loose) = p ctx)
    (next : ∀ {a}, UpToDepth ctx loose (f a) (g a)) : UpToDepth ctx loose (p >>= f) (p >>= g) :=
  bind (same unaware) fun _ => next

theorem ite {p q : Parser α} {p' q' : Parser α} (condition : Prop) [Decidable condition]
    (yes : UpToDepth ctx loose p q) (no : UpToDepth ctx loose p' q') :
    UpToDepth ctx loose (if condition then p else p') (if condition then q else q') := by
  split
  · exact yes
  · exact no

theorem optionally {p q next next' : Parser α} {condition : Bool} (then_ : UpToDepth ctx loose next next')
    (step : UpToDepth ctx loose next next' → UpToDepth ctx loose p q) :
    UpToDepth ctx loose (if condition then p else next) (if condition then q else next') :=
  ite _ (step then_) then_

theorem items (separator close : String) {item item' : List α → Parser α}
    (each : ∀ done, UpToDepth ctx loose (item done) (item' done)) (fuel : Nat) (done : List α)
    (rest : Rest) :
    Parser.items separator close item fuel done ctx rest =
        Parser.items separator close item' fuel done (ctx.bounded loose) rest ∨
      ∃ found e reached, Parser.items separator close item fuel done ctx rest =
        .ok (found, some e) reached ∧ e.fault = .nestedTooDeeply := by
  induction fuel generalizing done rest with
  | zero => exact Or.inl rfl
  | succ fuel ih =>
    simp only [Parser.items]
    have sameSkip : (ctx.bounded loose).skipSpace = ctx.skipSpace := rfl
    rw [sameSkip]
    split
    · exact Or.inl rfl
    · rcases each done (ctx.skipSpace rest) with equal | deep
      · rw [← equal]
        cases item done ctx (ctx.skipSpace rest) with
        | error e reached => exact Or.inl rfl
        | ok x reached =>
          simp only
          split
          · exact ih _ _
          · exact Or.inl rfl
      · right
        cases result : item done ctx (ctx.skipSpace rest) with
        | ok x reached => simp [result, TooDeep] at deep
        | error e reached => exact ⟨done, e, reached, rfl, by simpa [result, TooDeep] using deep⟩

theorem list {separator close : String} {item item' : List α → Parser α}
    (each : ∀ done, UpToDepth ctx loose (item done) (item' done)) :
    UpToDepth ctx loose (Parser.list separator close item) (Parser.list separator close item') := by
  intro rest
  simp only [Parser.list, Parser.listed]
  rcases items separator close each (rest.length + 1) [] rest with
    equal | ⟨found, e, reached, result, deep⟩
  · rw [← equal]
    exact Or.inl rfl
  · rw [result]
    exact Or.inr deep

end UpToDepth

theorem stringBody_unaware (ctx : Context) (loose : Int) (quote read : String) (rest : Rest) :
    stringBody (ctx.bounded loose) quote read rest = stringBody ctx quote read rest := by
  fun_induction stringBody ctx quote read rest with
  | case1 => rfl
  | case2 read lexeme rest marker =>
    rw [stringBody.eq_def]
    simp only [if_pos marker]
    rfl
  | case3 read lexeme rest plain closing =>
    rw [stringBody.eq_def]
    simp only [if_neg plain, if_pos closing]
  | case4 read lexeme plain inside escape =>
    rw [stringBody.eq_def]
    simp only [if_neg plain, if_neg inside, if_pos escape]
    rfl
  | case5 read lexeme plain inside escape escaped rest marker =>
    rw [stringBody.eq_def]
    simp only [if_neg plain, if_neg inside, if_pos escape, if_pos marker]
    rfl
  | case6 read lexeme plain inside escape escaped rest source text known ih =>
    rw [stringBody.eq_def]
    simp only [if_neg plain, if_neg inside, if_pos escape, if_neg source, known, ih]
  | case7 read lexeme plain inside escape escaped rest source unknown =>
    rw [stringBody.eq_def]
    simp only [if_neg plain, if_neg inside, if_pos escape, if_neg source, unknown]
    rfl
  | case8 read lexeme rest plain inside other ih =>
    rw [stringBody.eq_def]
    simp only [if_neg plain, if_neg inside, if_neg other, ih]

theorem string_upToDepth (ctx : Context) (loose : Int) (quote : String) :
    UpToDepth ctx loose (string quote) (string quote) :=
  .skip (expect [quote]) rfl fun rest => Or.inl (stringBody_unaware ctx loose quote "" rest).symm

end Parser

/-- Whatever depth the second bound refuses, the first refuses too. -/
def Tighter (tight loose : Int) : Prop :=
  ∀ depth : Nat, 0 < loose ∧ loose < depth → 0 < tight ∧ tight < depth

theorem tighter_of_le {tight loose : Int} (positive : 0 < tight) (le : tight ≤ loose) :
    Tighter tight loose :=
  fun _ refused => ⟨positive, by omega⟩

theorem tighter_of_nonpos {tight loose : Int} (unbounded : loose ≤ 0) : Tighter tight loose :=
  fun _ refused => absurd refused.1 (by omega)

namespace Grammar

open ScriptKernel.Parser (UpToDepth TooDeep)

variable {ε σ : Type}

structure NestedUpToDepth (ctx : Context) (loose : Int) (n n' : Nested ε σ) : Prop where
  expr : ∀ least, UpToDepth ctx loose (n.expr least) (n'.expr least)
  statement : UpToDepth ctx loose n.statement n'.statement

/-- Rules that see the depth bound through nested parsers only. -/
structure Uniform (g : Grammar ε σ) : Prop where
  operandApplies : ∀ rule ∈ g.operands, ∀ ctx loose,
    rule.applies (Context.bounded ctx loose) = rule.applies ctx
  operand : ∀ rule ∈ g.operands, ∀ ctx loose n n', NestedUpToDepth ctx loose n n' →
    UpToDepth ctx loose (rule.parse n) (rule.parse n')
  operatorApplies : ∀ rule ∈ g.operators, ∀ ctx loose,
    rule.applies (Context.bounded ctx loose) = rule.applies ctx
  operator : ∀ rule ∈ g.operators, ∀ ctx loose n n' left, NestedUpToDepth ctx loose n n' →
    UpToDepth ctx loose (rule.parse n left) (rule.parse n' left)
  statementApplies : ∀ rule ∈ g.statements, ∀ ctx loose,
    rule.applies (Context.bounded ctx loose) = rule.applies ctx
  statement : ∀ rule ∈ g.statements, ∀ ctx loose n n', NestedUpToDepth ctx loose n n' →
    UpToDepth ctx loose (rule.parse n) (rule.parse n')

variable {g : Grammar ε σ} {ctx : Context} {loose : Int}

theorem operatorsFrom_upToDepth (uniform : g.Uniform) {n n' : Nested ε σ}
    (nested : NestedUpToDepth ctx loose n n') (least : Precedence) (fuel : Nat) (left : ε) :
    UpToDepth ctx loose (g.operatorsFrom n least fuel left) (g.operatorsFrom n' least fuel left) := by
  induction fuel generalizing left with
  | zero => exact .same rfl
  | succ fuel ih =>
    intro rest
    have sameRule : g.operators.find? (·.applies (ctx.bounded loose) (ctx.skipSpace rest)) =
        g.operators.find? (·.applies ctx (ctx.skipSpace rest)) :=
      List.find?_congr fun rule member => by rw [uniform.operatorApplies rule member]
    have sameSkip : (ctx.bounded loose).skipSpace = ctx.skipSpace := rfl
    simp only [operatorsFrom, sameSkip, sameRule]
    cases found : g.operators.find? (·.applies ctx (ctx.skipSpace rest)) with
    | none => exact Or.inl rfl
    | some rule =>
      simp only
      by_cases weaker : rule.precedence < least
      · simp [weaker]
      · simp only [weaker, if_false]
        rcases uniform.operator rule (List.mem_of_find?_eq_some found) ctx loose n n' left nested
          (ctx.skipSpace rest) with equal | deep
        · rw [← equal]
          cases rule.parse n left ctx (ctx.skipSpace rest) with
          | ok left reached => exact ih left reached
          | error e reached => exact Or.inl rfl
        · right
          cases result : rule.parse n left ctx (ctx.skipSpace rest) with
          | ok left reached => simp [result, TooDeep] at deep
          | error e reached => simpa [result, TooDeep] using deep

theorem exprWith_upToDepth (uniform : g.Uniform) {n n' : Nested ε σ}
    (nested : NestedUpToDepth ctx loose n n') (least : Precedence) :
    UpToDepth ctx loose (g.exprWith n least) (g.exprWith n' least) := by
  intro rest
  have sameRule : g.operands.find? (·.applies (ctx.bounded loose) (ctx.skipSpace rest)) =
      g.operands.find? (·.applies ctx (ctx.skipSpace rest)) :=
    List.find?_congr fun rule member => by rw [uniform.operandApplies rule member]
  have sameSkip : (ctx.bounded loose).skipSpace = ctx.skipSpace := rfl
  simp only [exprWith, sameSkip, sameRule]
  cases found : g.operands.find? (·.applies ctx (ctx.skipSpace rest)) with
  | none => exact Or.inl rfl
  | some rule =>
    simp only
    rcases uniform.operand rule (List.mem_of_find?_eq_some found) ctx loose n n' nested
      (ctx.skipSpace rest) with equal | deep
    · rw [← equal]
      cases rule.parse n ctx (ctx.skipSpace rest) with
      | ok left reached => exact operatorsFrom_upToDepth uniform nested least _ left reached
      | error e reached => exact Or.inl rfl
    · right
      cases result : rule.parse n ctx (ctx.skipSpace rest) with
      | ok left reached => simp [result, TooDeep] at deep
      | error e reached => simpa [result, TooDeep] using deep

theorem statementWith_upToDepth (uniform : g.Uniform) {n n' : Nested ε σ}
    (nested : NestedUpToDepth ctx loose n n') :
    UpToDepth ctx loose (g.statementWith n) (g.statementWith n') := by
  intro rest
  have sameRule : g.statements.find? (·.applies (ctx.bounded loose) rest) =
      g.statements.find? (·.applies ctx rest) :=
    List.find?_congr fun rule member => by rw [uniform.statementApplies rule member]
  simp only [statementWith, sameRule]
  cases found : g.statements.find? (·.applies ctx rest) with
  | none => exact Or.inl rfl
  | some rule =>
    exact uniform.statement rule (List.mem_of_find?_eq_some found) ctx loose n n' nested rest

theorem guarded_upToDepth {α : Type} (tighter : Tighter ctx.maxDepth loose) (depth : Nat)
    {p q : Parser α} (inner : UpToDepth ctx loose p q) :
    UpToDepth ctx loose (guarded depth p) (guarded depth q) := by
  intro rest
  by_cases refused : 0 < ctx.maxDepth ∧ ctx.maxDepth < depth
  · right
    rw [guarded, if_pos refused]
    rfl
  · have allowed : ¬(0 < loose ∧ loose < depth) := fun h => refused (tighter depth h)
    have sameBound : (ctx.bounded loose).maxDepth = loose := rfl
    rw [guarded, if_neg refused, guarded, sameBound, if_neg allowed]
    exact inner rest

theorem nestedAt_upToDepth (uniform : g.Uniform) (tighter : Tighter ctx.maxDepth loose)
    (fuel depth : Nat) :
    NestedUpToDepth ctx loose (g.nestedAt fuel depth) (g.nestedAt fuel depth) := by
  induction fuel generalizing depth with
  | zero => exact ⟨fun _ => .same rfl, .same rfl⟩
  | succ fuel ih =>
    exact ⟨fun least => guarded_upToDepth tighter _ (exprWith_upToDepth uniform (ih _) least),
      guarded_upToDepth tighter _ (statementWith_upToDepth uniform (ih _))⟩

theorem blockFrom_upToDepth {statement statement' : Parser σ} {stop : Context → Rest → Bool}
    (each : UpToDepth ctx loose statement statement')
    (unaware : stop (ctx.bounded loose) = stop ctx) (fuel : Nat) (done : List σ) :
    UpToDepth ctx loose (blockFrom statement stop fuel done)
      (blockFrom statement' stop fuel done) := by
  induction fuel generalizing done with
  | zero => exact .same rfl
  | succ fuel ih =>
    intro rest
    have sameSkip : (ctx.bounded loose).skipTrivia = ctx.skipTrivia := rfl
    have sameEnd : (ctx.bounded loose).atEnd = ctx.atEnd := rfl
    simp only [blockFrom, sameSkip, sameEnd, unaware]
    split
    · exact Or.inl rfl
    split
    · exact Or.inl rfl
    rcases each (ctx.skipTrivia rest) with equal | deep
    · simp only [step, ← equal]
      cases statement ctx (ctx.skipTrivia rest) with
      | error e reached => exact Or.inl rfl
      | ok s reached =>
        by_cases idle : reached.length = (ctx.skipTrivia rest).length
        · simp only [idle, if_true]
          exact Or.inl rfl
        · simp only [idle, if_false]
          exact ih (s :: done) reached
    · right
      cases result : statement ctx (ctx.skipTrivia rest) with
      | ok s reached => simp [result, TooDeep] at deep
      | error e reached => simpa [step, result, TooDeep] using deep

theorem block_upToDepth {n n' : Nested ε σ} {stop : Context → Rest → Bool}
    (nested : NestedUpToDepth ctx loose n n') (unaware : stop (ctx.bounded loose) = stop ctx) :
    UpToDepth ctx loose (block n stop) (block n' stop) :=
  fun rest => blockFrom_upToDepth nested.statement unaware (rest.length + 1) [] rest

theorem program_upToDepth (uniform : g.Uniform) (tighter : Tighter ctx.maxDepth loose) :
    UpToDepth ctx loose g.program g.program :=
  fun rest => blockFrom_upToDepth (nestedAt_upToDepth uniform tighter _ _).statement rfl _ _ rest

end Grammar

end ScriptKernel
