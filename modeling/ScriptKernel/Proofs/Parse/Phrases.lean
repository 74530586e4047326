import ScriptKernel.Proofs.Parse.Reads

/-!
Phrases of any grammar. Lexemes can be read as an expression of some level when
they are read as it wherever the parser asks for no more than that level, and
the operator loop goes on behind them. Operands of a rule are such phrases, and
so is a phrase that an operator extends.
-/

namespace ScriptKernel.Grammar

open ScriptKernel.Parser (Reads)

variable {ε σ : Type}

/-- How phrases stand in a text. -/
structure Manner where
  /-- Skips the blanks before a lexeme. -/
  skip : Rest → Rest
  /-- An operator that binds less tightly than this ends a phrase of the given
  level. -/
  edge : Precedence → Precedence
  /-- Whether what follows leaves the last word of a phrase whole. -/
  clear : Rest → Prop

structure Manner.Suits (m : Manner) (g : Grammar ε σ) (ctx : Context) : Prop where
  placeless : g.Placeless ctx
  skipSpace : ctx.skipSpace = m.skip
  skip_idem : ∀ s, m.skip (m.skip s) = m.skip s
  length_skip_le : ∀ s, (m.skip s).length ≤ s.length
  le_edge : ∀ p, p ≤ m.edge p
  unbounded : ctx.maxDepth ≤ 0

variable {g : Grammar ε σ} {ctx : Context} {m : Manner}

theorem Manner.Suits.skip_bare (suits : m.Suits g ctx) (rest : Rest) : m.skip rest.bare = (m.skip rest).bare := by
  rw [← suits.skipSpace]
  exact suits.placeless.skipSpace rest

/-- However much fuel there is, the loop goes on behind `x` to the result. -/
def Follows (g : Grammar ε σ) (ctx : Context) (m : Manner) (nested : Nested ε σ) (least : Precedence)
    (x : ε) (s : Rest) (result : ε) (t : Rest) : Prop :=
  ∀ fuel, (m.skip s).length < fuel →
    Reads (g.operatorsFrom nested least fuel x) ctx (m.skip s) result t

/-- The lexemes are read as the expression wherever they stand, and reading
goes on behind them. -/
def Readable (g : Grammar ε σ) (ctx : Context) (m : Manner) (p : Precedence) (x : ε) (shape : Rest) : Prop :=
  ∀ (fuel depth : Nat) (least : Precedence) (s : Rest) (result : ε) (t : Rest),
    shape.length ≤ fuel → least ≤ p → m.clear s → g.Stops ctx (m.edge p) s →
    Follows g ctx m (g.nestedAt fuel depth) least x s result t →
    Reads (g.exprWith (g.nestedAt fuel depth) least) ctx (shape ++ s) result t

theorem Follows.from (suits : m.Suits g ctx) {nested : Nested ε σ} {least : Precedence} {x result : ε}
    {s t u : Rest} (follows : Follows g ctx m nested least x s result t) (same : m.skip u = m.skip s)
    {fuel : Nat} (enough : (m.skip s).length < fuel) :
    Reads (g.operatorsFrom nested least fuel x) ctx u result t := by
  rintro rest rfl
  have loop := follows fuel enough
  rw [← same, suits.skip_bare] at loop
  obtain ⟨reached, read, left⟩ := loop (m.skip rest) rfl
  refine ⟨reached, ?_, left⟩
  have twice : ctx.skipSpace (ctx.skipSpace rest) = ctx.skipSpace rest := by
    rw [suits.skipSpace, suits.skip_idem]
  have skipped := g.operatorsFrom_skipSpace nested least fuel x ctx rest twice
  rw [suits.skipSpace] at skipped
  rcases skipped with equal | zero
  · rwa [← equal]
  · exact absurd enough (by rw [zero]; exact Nat.not_lt_zero _)

theorem stops_skip (suits : m.Suits g ctx) {least : Precedence} {s : Rest} (stops : g.Stops ctx least s) :
    g.Stops ctx least (m.skip s) := by
  intro rule found
  rw [suits.skipSpace, suits.skip_idem, ← suits.skipSpace] at found
  exact stops rule found

theorem follows_stop (suits : m.Suits g ctx) {nested : Nested ε σ} {least : Precedence} (x : ε) {s : Rest}
    (stops : g.Stops ctx least s) : Follows g ctx m nested least x s x (m.skip s) := by
  intro fuel enough
  have read : Reads (g.operatorsFrom nested least fuel x) ctx (m.skip s) x (ctx.skipSpace (m.skip s)) :=
    reads_operators_stop suits.placeless x (stops_skip suits stops) (Nat.zero_lt_of_lt enough)
  rwa [suits.skipSpace, suits.skip_idem] at read

theorem readable_operand (suits : m.Suits g ctx) {rule : OperandRule ε σ} {p : Precedence} {x : ε} {shape : Rest}
    (solid : ∀ s, m.skip (shape ++ s) = shape ++ s)
    (found : ∀ s, m.clear s → g.operands.find? (·.applies ctx (shape ++ s)) = some rule)
    (parsed : ∀ fuel depth s, shape.length ≤ fuel → m.clear s → g.Stops ctx (m.edge p) s →
      ∃ t, m.skip t = m.skip s ∧ (m.skip s).length ≤ t.length ∧
        Reads (rule.parse (g.nestedAt fuel depth)) ctx (shape ++ s) x t) :
    Readable g ctx m p x shape := by
  intro fuel depth least s result t fueled binds clear stops follows
  have here : ctx.skipSpace (shape ++ s) = shape ++ s := by rw [suits.skipSpace, solid]
  obtain ⟨u, same, longer, read⟩ := parsed fuel depth s fueled clear stops
  have foundHere : g.operands.find? (·.applies ctx (ctx.skipSpace (shape ++ s))) = some rule := by
    rw [here]
    exact found s clear
  refine reads_expr suits.placeless foundHere ?_ (follows.from suits same (Nat.lt_succ_of_le longer))
  rw [here]
  exact read

theorem Readable.extended (suits : m.Suits g ctx) {rule : OperatorRule ε σ} {p q : Precedence} {x y : ε}
    {shape : Rest} (readable : Readable g ctx m p x shape) (gap tail : Rest) (level : rule.precedence = q)
    (above : q ≤ p) (beyond : q < m.edge p) (clear : ∀ s, m.clear (gap ++ (tail ++ s)))
    (solid : ∀ s, m.skip (gap ++ (tail ++ s)) = tail ++ s) (nonempty : tail ≠ [])
    (found : ∀ s, g.operators.find? (·.applies ctx (tail ++ s)) = some rule)
    (parsed : ∀ fuel depth s, tail.length ≤ fuel → m.clear s → g.Stops ctx (m.edge q) s →
      ∃ t, m.skip t = m.skip s ∧ Reads (rule.parse (g.nestedAt fuel depth) x) ctx (tail ++ s) y t) :
    Readable g ctx m q y (shape ++ (gap ++ tail)) := by
  intro fuel depth least s result t fueled binds clearBehind stops follows
  have ends : g.Stops ctx (m.edge p) (gap ++ (tail ++ s)) := by
    intro other foundOther
    rw [suits.skipSpace, solid, found] at foundOther
    cases foundOther
    rw [level]
    exact beyond
  simp only [List.length_append] at fueled
  rw [List.append_assoc, List.append_assoc]
  refine readable fuel depth least _ result t (by omega) (Int.le_trans binds above) (clear s) ends ?_
  -- The loop that read the phrase goes on with the operator.
  intro more enough
  have again : m.skip (tail ++ s) = tail ++ s := by
    have twice := suits.skip_idem (gap ++ (tail ++ s))
    rwa [solid] at twice
  rw [solid] at enough ⊢
  obtain ⟨more, rfl⟩ : ∃ fewer, more = fewer + 1 := ⟨more - 1, by omega⟩
  have shorter : (m.skip s).length < more := by
    have skipped := suits.length_skip_le s
    have positive := List.length_pos_iff.2 nonempty
    simp only [List.length_append] at enough
    omega
  obtain ⟨u, same, read⟩ := parsed fuel depth s (by omega) clearBehind stops
  have here : ctx.skipSpace (tail ++ s) = tail ++ s := by rw [suits.skipSpace, again]
  refine reads_operators_step suits.placeless (by rw [here]; exact found s) (by rw [level]; exact binds) ?_
    (follows.from suits same shorter)
  rw [here]
  exact read

theorem Readable.nested (suits : m.Suits g ctx) {p : Precedence} {x : ε} {shape : Rest}
    (readable : Readable g ctx m p x shape) {fuel depth : Nat} {least : Precedence} {u s : Rest}
    (fueled : shape.length < fuel) (binds : least ≤ p) (clear : m.clear s) (stops : g.Stops ctx least s)
    (written : m.skip u = shape ++ s) : Reads ((g.nestedAt fuel depth).expr least) ctx u x (m.skip s) := by
  obtain ⟨fuel, rfl⟩ : ∃ more, fuel = more + 1 := ⟨fuel - 1, by omega⟩
  have whole := readable fuel (depth + 1) least s x (m.skip s) (Nat.le_of_lt_succ fueled) binds clear
    (stops.mono (Int.le_trans binds (suits.le_edge p))) (follows_stop suits x stops)
  rintro rest rfl
  rw [suits.skip_bare] at written
  obtain ⟨reached, read, left⟩ := whole (m.skip rest) written
  refine ⟨reached, ?_, left⟩
  rw [g.nestedAt_expr suits.unbounded, suits.skipSpace]
  rwa [exprWith_eq_exprFrom, suits.skipSpace, suits.skip_idem] at read

end ScriptKernel.Grammar
