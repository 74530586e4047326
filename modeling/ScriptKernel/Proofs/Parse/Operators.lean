import ScriptKernel.Parse.Grammar

/-!
Running a parser step by step: what sequencing does, and what one round of the
operator loop does. An expression is read by its operand rule and then by the
loop; the loop stops where no operator of enough precedence follows.
-/

namespace ScriptKernel

namespace Parser

variable {α β : Type}

@[simp] theorem pure_apply (a : α) (ctx : Context) (rest : Rest) :
    (pure a : Parser α) ctx rest = .ok a rest := rfl

theorem bind_apply (p : Parser α) (f : α → Parser β) (ctx : Context) (rest : Rest) :
    (p >>= f) ctx rest =
      match p ctx rest with
      | .ok a rest => f a ctx rest
      | .error e rest => .error e rest := by
  simp only [bind, ReaderT.bind, EStateM.bind]
  cases p ctx rest <;> rfl

theorem bind_ok {p : Parser α} {f : α → Parser β} {ctx : Context} {rest reached : Rest} {a : α}
    (done : p ctx rest = .ok a reached) : (p >>= f) ctx rest = f a ctx reached := by
  rw [bind_apply, done]

theorem bind_eq_ok {p : Parser α} {f : α → Parser β} {ctx : Context} {rest final : Rest} {b : β}
    (done : (p >>= f) ctx rest = .ok b final) :
    ∃ a reached, p ctx rest = .ok a reached ∧ f a ctx reached = .ok b final := by
  rw [bind_apply] at done
  cases first : p ctx rest with
  | ok a reached =>
    rw [first] at done
    exact ⟨a, reached, rfl, done⟩
  | error e reached => simp [first] at done

end Parser

namespace Grammar

variable {ε σ : Type} (g : Grammar ε σ)

/-- No operator that binds at least as tightly as `least` follows. -/
def Stops (ctx : Context) (least : Precedence) (rest : Rest) : Prop :=
  ∀ rule, g.operators.find? (·.applies ctx (ctx.skipSpace rest)) = some rule →
    rule.precedence < least

theorem Stops.mono {g : Grammar ε σ} {ctx : Context} {least more : Precedence} {rest : Rest}
    (stops : g.Stops ctx least rest) (le : least ≤ more) : g.Stops ctx more rest :=
  fun rule found => Int.lt_of_lt_of_le (stops rule found) le

def exprFrom (nested : Nested ε σ) (least : Precedence) : Parser ε := fun ctx rest =>
  match g.operands.find? (·.applies ctx rest) with
  | none => Parser.fail (.unknownExpression (ctx.sight rest)) ctx rest
  | some rule =>
    match rule.parse nested ctx rest with
    | .ok left rest => g.operatorsFrom nested least (rest.length + 1) left ctx rest
    | .error e rest => .error e rest

theorem exprWith_eq_exprFrom (nested : Nested ε σ) (least : Precedence) (ctx : Context)
    (rest : Rest) :
    g.exprWith nested least ctx rest = g.exprFrom nested least ctx (ctx.skipSpace rest) := rfl

theorem exprFrom_operand {nested : Nested ε σ} {least : Precedence} {ctx : Context}
    {rest reached : Rest} {rule : OperandRule ε σ} {left : ε}
    (found : g.operands.find? (·.applies ctx rest) = some rule)
    (parsed : rule.parse nested ctx rest = .ok left reached) :
    g.exprFrom nested least ctx rest =
      g.operatorsFrom nested least (reached.length + 1) left ctx reached := by
  simp only [exprFrom, found, parsed]

theorem operatorsFrom_succ (nested : Nested ε σ) (least : Precedence) (fuel : Nat) (left : ε)
    (ctx : Context) (rest : Rest) :
    g.operatorsFrom nested least (fuel + 1) left ctx rest =
      match g.operators.find? (·.applies ctx (ctx.skipSpace rest)) with
      | none => .ok left (ctx.skipSpace rest)
      | some rule =>
        if rule.precedence < least then .ok left (ctx.skipSpace rest)
        else match rule.parse nested left ctx (ctx.skipSpace rest) with
          | .ok left rest => g.operatorsFrom nested least fuel left ctx rest
          | .error e rest => .error e rest := rfl

theorem operatorsFrom_stop {nested : Nested ε σ} {least : Precedence} {fuel : Nat} {left : ε}
    {ctx : Context} {rest : Rest} (stops : g.Stops ctx least rest) (fueled : 0 < fuel) :
    g.operatorsFrom nested least fuel left ctx rest = .ok left (ctx.skipSpace rest) := by
  obtain ⟨fuel, rfl⟩ := Nat.exists_eq_succ_of_ne_zero (Nat.ne_of_gt fueled)
  rw [operatorsFrom_succ]
  cases found : g.operators.find? (·.applies ctx (ctx.skipSpace rest)) with
  | none => rfl
  | some rule => simp only [if_pos (stops rule found)]

theorem operatorsFrom_step {nested : Nested ε σ} {least : Precedence} {fuel : Nat}
    {left next : ε} {ctx : Context} {rest reached : Rest} {rule : OperatorRule ε σ}
    (found : g.operators.find? (·.applies ctx (ctx.skipSpace rest)) = some rule)
    (binds : least ≤ rule.precedence)
    (parsed : rule.parse nested left ctx (ctx.skipSpace rest) = .ok next reached) :
    g.operatorsFrom nested least (fuel + 1) left ctx rest =
      g.operatorsFrom nested least fuel next ctx reached := by
  have notWeaker : ¬rule.precedence < least := Int.not_lt.2 binds
  simp only [operatorsFrom_succ, found, if_neg notWeaker, parsed]

theorem operatorsFrom_skipSpace (nested : Nested ε σ) (least : Precedence) (fuel : Nat) (left : ε)
    (ctx : Context) (rest : Rest)
    (twice : ctx.skipSpace (ctx.skipSpace rest) = ctx.skipSpace rest) :
    g.operatorsFrom nested least fuel left ctx (ctx.skipSpace rest) =
        g.operatorsFrom nested least fuel left ctx rest ∨ fuel = 0 := by
  cases fuel with
  | zero => exact Or.inr rfl
  | succ fuel => simp only [operatorsFrom_succ, twice, true_or]

theorem nestedAt_expr {ctx : Context} (unbounded : ctx.maxDepth ≤ 0) (fuel depth : Nat)
    (least : Precedence) (rest : Rest) :
    (g.nestedAt (fuel + 1) depth).expr least ctx rest =
      g.exprFrom (g.nestedAt fuel (depth + 1)) least ctx (ctx.skipSpace rest) := by
  have allowed : ¬(0 < ctx.maxDepth ∧ ctx.maxDepth < (depth + 1 : Nat)) := by omega
  simp only [nestedAt, guarded, if_neg allowed, exprWith_eq_exprFrom]

theorem nestedAt_statement {ctx : Context} (unbounded : ctx.maxDepth ≤ 0) (fuel depth : Nat)
    (rest : Rest) :
    (g.nestedAt (fuel + 1) depth).statement ctx rest =
      g.statementWith (g.nestedAt fuel (depth + 1)) ctx rest := by
  have allowed : ¬(0 < ctx.maxDepth ∧ ctx.maxDepth < (depth + 1 : Nat)) := by omega
  simp only [nestedAt, guarded, if_neg allowed]

end Grammar

end ScriptKernel
