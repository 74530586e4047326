import ScriptKernel.Proofs.Lumen.Operands

/-!
Reading whole expressions: the parts of calls, the operators between operands
and, by induction on the phrase, every phrase.
-/

namespace ScriptKernel.Lumen

open Written

open ScriptKernel.Parser (Reads)

variable {ctx : Context}

theorem skipSpace_listed {close : String} (closing : close ∈ [")", "]"]) {args : List Expr}
    {levels : Expr → Precedence} {parts : Expr → Rest}
    (phrases : ∀ x ∈ args, Phrase (levels x) x (parts x)) (s : Rest) :
    skipSpace (listed (args.map parts) ++ .source close :: s) =
      listed (args.map parts) ++ .source close :: s := by
  match args with
  | [] =>
    have symbol : ∀ text ∈ [")", "]"], text ∈ symbols ∧ text ≠ " " := by decide
    exact skipSpace_symbol (symbol close closing).1 (symbol close closing).2 s
  | [x] => exact ((phrases x (by simp)).opens.append _).skipSpace
  | x :: y :: more =>
    simp only [listed, List.map_cons, Rest.joined, List.append_assoc]
    exact ((phrases x (by simp)).opens.append _).skipSpace

theorem reads_arguments (plain : Plain ctx) {args : List Expr} {levels : Expr → Precedence}
    {parts : Expr → Rest} (phrases : ∀ x ∈ args, Phrase (levels x) x (parts x))
    (readable : ∀ x ∈ args, Readable ctx (levels x) x (parts x)) {fuel depth : Nat}
    {close : String} (closing : close ∈ [")", "]"]) {u s : Rest}
    (fueled : (listed (args.map parts)).length < fuel)
    (written : skipSpace u = listed (args.map parts) ++ .source close :: s) :
    Reads (arguments (grammar.nestedAt fuel depth) close) ctx u args s := by
  have closer : close ∈ closers ∧ isWordText close = false ∧ close ∉ ["(", "[", "-", "\""] ∧
      "," ≠ close ∧ close ≠ " " ∧ close ∈ symbols := by
    have all : ∀ text ∈ [")", "]"], text ∈ closers ∧ isWordText text = false ∧
        text ∉ ["(", "[", "-", "\""] ∧ "," ≠ text ∧ text ≠ " " ∧ text ∈ symbols := by decide +kernel
    exact all close closing
  obtain ⟨isCloser, noWord, notOpening, differ, solid, symbol⟩ := closer
  have form : Parser.ListForm ctx "," close
      (fun _ => (grammar.nestedAt fuel depth).expr lowest) parts [] args := by
    constructor
    · intro x member t
      have opens := (phrases x member).opens.append t
      rw [plain.skipSpace]
      exact ⟨opens.skipSpace, opens.isAt_eq_false noWord notOpening⟩
    · intro before x after t split _ here
      have member : x ∈ args := by
        rw [List.nil_append] at split
        simp [split]
      have ends : Ends ctx t := by
        rcases here with comma | closed
        · exact ends_closer plain (by decide) comma
        · exact ends_closer plain isCloser closed
      have shorter : (parts x).length < fuel :=
        Nat.lt_of_le_of_lt (length_parts_le (List.mem_map_of_mem member)) fueled
      exact (readable x member).whole plain (phrases x member) shorter ends
        ((phrases x member).opens.append t).skipSpace
  have gap (t : Rest) : ctx.skipSpace (.source " " :: t) = ctx.skipSpace t := by
    rw [plain.skipSpace]
    rfl
  have still : ∀ text ∈ [",", close], ∀ t, ctx.skipSpace (.source text :: t) = .source text :: t := by
    intro text member t
    rw [plain.skipSpace]
    rcases List.mem_pair.mp member with rfl | rfl
    · exact skipSpace_symbol (by decide) (by decide) t
    · exact skipSpace_symbol symbol solid t
  have shorter : args.length ≤ u.length := by
    have total := congrArg List.length written
    have fewer := Rest.length_joined [.source ",", .source " "] (args.map parts) (by decide)
    have skipped := length_skipSpace_le u
    simp only [listed, List.length_append, List.length_cons, List.length_map] at total fewer
    omega
  rw [← plain.skipSpace] at written
  exact Parser.reads_list plain.placeless.toPlaceless differ gap still args form u s shorter written

theorem readable_array (plain : Plain ctx) {items : List Expr} {levels : Expr → Precedence}
    {parts : Expr → Rest} (phrases : ∀ x ∈ items, Phrase (levels x) x (parts x))
    (readable : ∀ x ∈ items, Readable ctx (levels x) x (parts x)) :
    Readable ctx callLevel (.array items) (.source "[" :: (listed (items.map parts) ++ [.source "]"])) := by
  refine readable_operand plain (Phrase.array phrases).opens (fun s _ => (find_symbol _).2.2.2) ?_
  intro fuel depth s fueled clear
  have shorter : (listed (items.map parts)).length < fuel := by simp at fueled; omega
  have whole : (.source "[" :: (listed (items.map parts) ++ [.source "]"])) ++ s =
      .source "[" :: (listed (items.map parts) ++ .source "]" :: s) := by simp
  rw [whole]
  refine Reads.advance fun _ _ => ?_
  have solid : skipSpace (_ ++ .source "]" :: s) = _ := skipSpace_listed (by decide) phrases s
  exact (reads_arguments plain phrases readable (by decide) shorter solid).bind (Reads.pure _ s)

/-- The part of a call of the host behind its selector. -/
def afterSelector (nested : Nested) (selector : String) (keys : List Key) : Parser Expr := do
  Parser.skipSpace
  if ← Parser.isAt "," then
    let _ ← Parser.advance
    let args ← arguments nested ")"
    return .hostCall selector keys args
  let _ ← Parser.expect [")"]
  return .hostCall selector keys []

theorem reads_afterSelector (plain : Plain ctx) {args : List Expr} {levels : Expr → Precedence}
    {parts : Expr → Rest} (phrases : ∀ x ∈ args, Phrase (levels x) x (parts x))
    (readable : ∀ x ∈ args, Readable ctx (levels x) x (parts x)) (selector : String) (keys : List Key)
    (quote : Rest) {fuel depth : Nat} {s : Rest}
    (fueled : (listed (quote :: args.map parts)).length < fuel) :
    ∃ more, listed (quote :: args.map parts) ++ .source ")" :: s = quote ++ more ∧
      Reads (afterSelector (grammar.nestedAt fuel depth) selector keys) ctx more
        (.hostCall selector keys args) s := by
  cases args with
  | nil =>
    refine ⟨.source ")" :: s, rfl, ?_⟩
    have ends : Ends ctx (.source ")" :: s) := ends_closer plain (by decide : ")" ∈ closers) rfl
    refine (ends.reads_skipSpace plain).bind ((Reads.isAt "," _).bind ?_)
    exact Reads.expect (isAtAny_singleton ")" s) fun _ _ => Reads.pure _ s
  | cons x xs =>
    have parted : listed (quote :: (x :: xs).map parts) =
        quote ++ .source "," :: .source " " :: listed ((x :: xs).map parts) := by
      simp [listed, Rest.joined]
    rw [parted] at fueled ⊢
    refine ⟨.source "," :: .source " " :: (listed ((x :: xs).map parts) ++ .source ")" :: s),
      by simp, ?_⟩
    have shorter : (listed ((x :: xs).map parts)).length < fuel := by
      simp only [List.length_append, List.length_cons] at fueled
      omega
    have ends (t : Rest) : Ends ctx (.source "," :: t) := ends_closer plain (by decide : "," ∈ closers) rfl
    have solid : skipSpace (.source " " :: (_ ++ .source ")" :: s)) = _ :=
      skipSpace_listed (by decide) phrases s
    refine ((ends _).reads_skipSpace plain).bind ((Reads.isAt "," _).bind ?_)
    refine Reads.advance fun _ _ => ?_
    exact (reads_arguments plain phrases readable (by decide) shorter solid).bind (Reads.pure _ s)

theorem readable_hostCall (plain : Plain ctx) {selector : String} {keys : List Key} {contents : Rest}
    {args : List Expr} {levels : Expr → Precedence} {parts : Expr → Rest}
    (parsed : Selector.parse selector = .ok keys) (spelled : Parser.Contents "\"" contents selector)
    (phrases : ∀ x ∈ args, Phrase (levels x) x (parts x))
    (readable : ∀ x ∈ args, Readable ctx (levels x) x (parts x)) :
    Readable ctx callLevel (.hostCall selector keys args)
      (letters "extern".toList ++ enclosed (listed (quotedLexemes contents :: args.map parts))) := by
  have opening (s : Rest) : Clear (.source "(" :: s) := clear_symbol (by decide) (by decide) s
  have found (s : Rest) (_ : Clear s) : grammar.operands.find? (·.applies ctx
      (letters "extern".toList ++ enclosed (listed (quotedLexemes contents :: args.map parts)) ++ s)) =
        some externRule := by
    rw [List.append_assoc]
    exact (@find_word ctx 'e' ['x', 't', 'e', 'r', 'n'] (by decide) (by decide) _ (opening _)).trans rfl
  refine readable_operand plain (Phrase.hostCall parsed spelled phrases).opens found ?_
  intro fuel depth s fueled clear
  have shorter : (listed (quotedLexemes contents :: args.map parts)).length < fuel := by
    simp only [enclosed, List.length_append, List.length_cons] at fueled
    omega
  obtain ⟨more, behind, read⟩ :=
    @reads_afterSelector ctx plain args levels parts phrases readable selector keys _ fuel depth s shorter
  have whole : letters "extern".toList ++ enclosed (listed (quotedLexemes contents :: args.map parts)) ++ s =
      letters "extern".toList ++ .source "(" :: .source "\"" :: (contents ++ .source "\"" :: more) := by
    simp only [enclosed, List.append_assoc, List.cons_append, List.nil_append, behind]
    simp only [quotedLexemes, List.append_assoc, List.cons_append, List.nil_append]
  rw [whole]
  refine (reads_letters (by decide) (opening _)).bind ?_
  refine (reads_skipSpace plain _).bind ?_
  refine Reads.expect (isAtAny_singleton "(" _) fun _ _ => ?_
  refine (reads_skipSpace plain _).bind ?_
  refine (Reads.isAt "\"" _).bind ?_
  refine Reads.location fun place => ?_
  refine (Parser.reads_string (by decide) spelled more).bind ?_
  rw [parsed]
  exact read

theorem callLevel_lt_edge {p : Precedence} (binds : callLevel ≤ p) : callLevel < edge p := by
  rcases Int.lt_or_eq_of_le binds with lower | rfl
  · exact Int.lt_of_lt_of_le lower (le_edge p)
  · decide

theorem readable_behind (plain : Plain ctx) {p : Precedence} {x y : Expr} {shape tail : Rest}
    {symbol : String} {rule : Operator} (readable : Readable ctx p x shape) (binds : callLevel ≤ p)
    (opening : symbol ∈ ["(", "["]) (level : rule.precedence = callLevel)
    (found : ∀ s, grammar.operators.find? (·.applies ctx (.source symbol :: s)) = some rule)
    (parsed : ∀ fuel depth s, (Lexeme.source symbol :: tail).length ≤ fuel →
      Reads (rule.parse (grammar.nestedAt fuel depth) x) ctx (.source symbol :: (tail ++ s)) y s) :
    Readable ctx callLevel y (shape ++ .source symbol :: tail) := by
  have known : ∀ text ∈ ["(", "["], text ∈ symbols ∧ text ≠ "." ∧ text ≠ " " := by decide
  obtain ⟨member, notPoint, notBlank⟩ := known symbol opening
  refine Grammar.Readable.extended plain.suits readable [] (.source symbol :: tail) level binds
    (callLevel_lt_edge binds) (fun s => clear_symbol member notPoint _) (fun s => skipSpace_symbol member notBlank _)
    (List.cons_ne_nil _ _) (fun s => found _) ?_
  intro fuel depth s fueled clear stops
  exact ⟨s, rfl, parsed fuel depth s fueled⟩

theorem readable_call (plain : Plain ctx) {f : Expr} {p : Precedence} {callee : Rest}
    {args : List Expr} {levels : Expr → Precedence} {parts : Expr → Rest} (binds : callLevel ≤ p)
    (callable : Readable ctx p f callee) (phrases : ∀ x ∈ args, Phrase (levels x) x (parts x))
    (readable : ∀ x ∈ args, Readable ctx (levels x) x (parts x)) :
    Readable ctx callLevel (.call f args) (callee ++ enclosed (listed (args.map parts))) := by
  have found (s : Rest) : grammar.operators.find? (·.applies ctx (.source "(" :: s)) = some callRule :=
    (find_symbol_operator (by decide) s).trans rfl
  refine readable_behind plain callable binds (by decide) rfl found ?_
  intro fuel depth s fueled
  have shorter : (listed (args.map parts)).length < fuel := by
    simp only [List.length_append, List.length_cons] at fueled
    omega
  rw [List.append_assoc, List.singleton_append]
  refine Reads.advance fun _ _ => ?_
  have solid : skipSpace (_ ++ .source ")" :: s) = _ := skipSpace_listed (by decide) phrases s
  exact (reads_arguments plain phrases readable (by decide) shorter solid).bind (Reads.pure _ s)

theorem readable_index (plain : Plain ctx) {x position : Expr} {p q : Precedence} {left inner : Rest}
    (binds : callLevel ≤ p) (indexed : Readable ctx p x left) (phrase : Phrase q position inner)
    (readable : Readable ctx q position inner) :
    Readable ctx callLevel (.index x position) (left ++ .source "[" :: (inner ++ [.source "]"])) := by
  have found (s : Rest) : grammar.operators.find? (·.applies ctx (.source "[" :: s)) = some indexRule :=
    (find_symbol_operator (by decide) s).trans rfl
  refine readable_behind plain indexed binds (by decide) rfl found ?_
  intro fuel depth s fueled
  have shorter : inner.length < fuel := by
    simp only [List.length_append, List.length_cons] at fueled
    omega
  have ends : Ends ctx (.source "]" :: s) := ends_closer plain (by decide : "]" ∈ closers) rfl
  rw [List.append_assoc, List.singleton_append]
  refine Reads.advance fun _ _ => ?_
  refine (readable.whole plain phrase shorter ends (phrase.opens.append _).skipSpace).bind ?_
  refine (ends.reads_skipSpace plain).bind ?_
  exact Reads.expect (isAtAny_singleton "]" s) fun _ _ => Reads.pure _ s

theorem Infix.skipSpace_lexemes {op : Infix} (known : op.Known) (s : Rest) :
    skipSpace (op.lexemes ++ s) = op.lexemes ++ s := by
  cases op with
  | or | and => exact ((opens_letters (by decide) (by decide)).append s).skipSpace
  | pipe | range => exact skipSpace_symbol (by decide) (by decide) s
  | compare op =>
    cases op with
    | other symbol => exact known.elim
    | _ => exact skipSpace_symbol (by decide) (by decide) s
  | arith op =>
    cases op with
    | other symbol => exact known.elim
    | _ => exact skipSpace_symbol (by decide) (by decide) s

theorem isAtAny_comparisons (plain : Plain ctx) {s : Rest}
    (stops : grammar.Stops ctx comparisonLevel s) : Rest.isAtAny comparisons (skipSpace s) = false := by
  by_contra chained
  rw [Bool.not_eq_false] at chained
  cases here : skipSpace s with
  | nil =>
    rw [here] at chained
    cases chained
  | cons l t =>
    rw [here, Rest.isAtAny, List.any_eq_true] at chained
    obtain ⟨text, member, at_⟩ := chained
    simp only [Rest.isAt, Bool.and_eq_true, Bool.not_eq_true', beq_iff_eq] at at_
    have bare : l.bare = .source text := by
      rw [Lexeme.bare, at_.1, at_.2]
      rfl
    have found : grammar.operators.find? (·.applies ctx (ctx.skipSpace s)) = some compareRule := by
      have all : ∀ text ∈ comparisons, ∀ t,
          grammar.operators.find? (·.applies ctx (.source text :: t)) = some compareRule := by
        intro text member t
        simp only [comparisons, List.mem_cons, List.not_mem_nil, or_false] at member
        rcases member with rfl | rfl | rfl | rfl | rfl | rfl
        all_goals exact (find_symbol_operator (by decide) t).trans rfl
      rw [plain.skipSpace, here, plain.placeless.findOperator, Rest.bare_cons, bare]
      exact all text member _
    exact absurd (stops _ found) (Int.lt_irrefl _)

theorem reads_infix (plain : Plain ctx) {op : Infix} (known : op.Known) {l r : Expr} {q : Precedence}
    {right : Rest} (binds : op.right ≤ q) (phrase : Phrase q r right) (readable : Readable ctx q r right)
    {fuel depth : Nat} {s : Rest} (fueled : right.length < fuel) (clear : Clear s)
    (stops : grammar.Stops ctx (edge op.level) s) :
    Reads (op.rule.parse (grammar.nestedAt fuel depth) l) ctx
      (op.lexemes ++ .source " " :: (right ++ s)) (op.tree l r) (skipSpace s) := by
  have blank : Clear (.source " " :: (right ++ s)) := clear_symbol (by decide) (by decide) _
  have written : skipSpace (.source " " :: (right ++ s)) = right ++ s :=
    (phrase.opens.append s).skipSpace
  have operand : Reads ((grammar.nestedAt fuel depth).expr op.right) ctx
      (.source " " :: (right ++ s)) r (skipSpace s) :=
    readable.nested plain fueled binds clear (stops.mono op.edge_le_right) written
  cases op with
  | pipe => exact Reads.advance fun _ _ => operand.bind (Reads.pure _ _)
  | range => exact Reads.advance fun _ _ => operand.bind (Reads.pure _ _)
  | or => exact (reads_letters (by decide) blank).bind (operand.bind (Reads.pure _ _))
  | and => exact (reads_letters (by decide) blank).bind (operand.bind (Reads.pure _ _))
  | compare op =>
    have sameOp : CompareOp.ofSymbol op.symbol = op := by
      cases op with
      | other symbol => exact known.elim
      | _ => rfl
    refine Reads.advance fun found text => operand.bind ((reads_skipSpace plain _).bind ?_)
    have single := isAtAny_comparisons plain stops
    have unchained : Reads (Parser.look fun _ rest => rest.isAtAny comparisons) ctx
        (skipSpace (skipSpace s)) false (skipSpace s) := by
      rw [skipSpace_idem, ← single]
      exact Reads.look (Rest.isAtAny_bare comparisons)
    refine unchained.bind ?_
    rw [text]
    change Reads (Pure.pure (Expr.compare (CompareOp.ofSymbol op.symbol) l r)) ctx _ _ _
    rw [sameOp]
    exact Reads.pure _ _
  | arith op =>
    have sameOp : ArithOp.ofSymbol op.symbol = op := by
      cases op with
      | other symbol => exact known.elim
      | _ => rfl
    have read (symbols : List String) (level : Precedence) :
        Reads ((arithmeticRule symbols level (Infix.arith op).right).parse (grammar.nestedAt fuel depth) l)
          ctx (.source op.symbol :: .source " " :: (right ++ s)) (.binary op l r) (skipSpace s) := by
      refine Reads.advance fun found text => operand.bind ?_
      rw [text]
      change Reads (Pure.pure (Expr.binary (ArithOp.ofSymbol op.symbol) l r)) ctx _ _ _
      rw [sameOp]
      exact Reads.pure _ _
    cases op with
    | other symbol => exact known.elim
    | _ => exact read _ _

theorem Infix.lexemes_ne_nil (op : Infix) : 0 < op.lexemes.length := by
  cases op <;> exact Nat.zero_lt_succ _

theorem readable_between (plain : Plain ctx) {op : Infix} (known : op.Known) {l r : Expr}
    {p q : Precedence} {left right : Rest} (leftBinds : op.left ≤ p) (rightBinds : op.right ≤ q)
    (leftReadable : Readable ctx p l left) (phrase : Phrase q r right)
    (readable : Readable ctx q r right) :
    Readable ctx op.level (op.tree l r) (left ++ .source " " :: (op.lexemes ++ .source " " :: right)) := by
  have above : op.level ≤ p := Int.le_trans op.level_le_left.1 leftBinds
  have shape (s : Rest) : op.lexemes ++ .source " " :: right ++ s = op.lexemes ++ .source " " :: (right ++ s) := by
    simp
  refine Grammar.Readable.extended plain.suits leftReadable [.source " "]
    (op.lexemes ++ .source " " :: right) op.precedence_rule above (op.level_lt_edge leftBinds)
    (fun s => clear_symbol (by decide) (by decide) _) (fun s => ?_) (by simp) (fun s => ?_) ?_
  · rw [shape]
    exact op.skipSpace_lexemes known _
  · rw [shape]
    exact find_between known _
  intro fuel depth s fueled clear stops
  have some := op.lexemes_ne_nil
  simp only [List.length_append, List.length_cons] at fueled
  refine ⟨skipSpace s, skipSpace_idem s, ?_⟩
  rw [shape]
  exact reads_infix plain known rightBinds phrase readable (by omega) clear stops

theorem Phrase.readable (plain : Plain ctx) {p : Precedence} {x : Expr} {shape : Rest}
    (phrase : Phrase p x shape) : Readable ctx p x shape := by
  induction phrase with
  | number digits read => exact readable_number plain digits read
  | bool b => cases b <;> exact readable_constant plain (by decide) (by decide) (by decide)
  | none => exact readable_constant plain (by decide) (by decide) (by decide)
  | string spelled => exact readable_string plain spelled
  | var valid => exact readable_var plain valid
  | group inner ih => exact readable_group plain inner ih
  | between known leftBinds rightBinds left right ihLeft ihRight =>
    exact readable_between plain known leftBinds rightBinds ihLeft right ihRight
  | not binds inner ih => exact readable_not plain binds inner ih
  | negate binds inner ih => exact readable_negate plain binds inner ih
  | call binds callee ordinary each ihCallee ih => exact readable_call plain binds ihCallee each ih
  | hostCall parsed spelled each ih => exact readable_hostCall plain parsed spelled each ih
  | array each ih => exact readable_array plain each ih
  | index binds left inner ihLeft ihInner => exact readable_index plain binds ihLeft inner ihInner

theorem FormedExpr.reads (plain : Plain ctx) {x : Expr} (formed : FormedExpr x) {fuel depth : Nat}
    {u s : Rest} (fueled : (lexed (spell x)).length < fuel) (ends : Ends ctx s)
    (written : skipSpace u = lexed (spell x) ++ s) :
    Reads ((grammar.nestedAt fuel depth).expr lowest) ctx u x s :=
  (formed.phrase.readable plain).whole plain formed.phrase fueled ends written

end ScriptKernel.Lumen
