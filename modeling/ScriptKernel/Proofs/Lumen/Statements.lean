import ScriptKernel.Proofs.Lumen.Lines

/-!
Reading statements. The lines of a well-formed statement are read as that
statement, up to the lines that follow it, and so are the lines of a block. A
block ends at the marker that closes it, other statements before the end of
their line.
-/

namespace ScriptKernel.Lumen

open Written

open ScriptKernel.Parser (Reads)

variable {ctx : Context}

theorem isStructural_sign (plain : Plain ctx) (kind : Structural) (marker : kind.isMarker = true)
    (text : String) (s : Rest) :
    ctx.isStructural kind (.sign text :: s) = (text == ({} : Aliases).text kind) := by
  simp [Context.isStructural, Context.peek, plain.aliases, marker]

theorem isStructural_opens {kind : Structural} (marker : kind.isMarker = true) {s : Rest}
    (opens : Opens s) : ctx.isStructural kind s = false := by
  obtain ⟨l, rest, rfl, begins⟩ := opens
  simp [Context.isStructural, Context.peek, begins.source, marker]

theorem atEnd_opens {s : Rest} (opens : Opens s) : ctx.atEnd s = false := by
  obtain ⟨l, rest, rfl, begins⟩ := opens
  simp [Context.atEnd, begins.source]

theorem endStatement_apply (ctx : Context) (rest : Rest) :
    endStatement ctx rest =
      if Rest.isAt ";" (ctx.skipSpace rest) || ctx.isStructural .newline (ctx.skipSpace rest) ||
          ctx.isStructural .dedent (ctx.skipSpace rest) || ctx.atEnd (ctx.skipSpace rest) then
        .ok () (ctx.skipSpace rest)
      else Parser.fail (.expectedEnd (sight ctx (ctx.skipSpace rest))) ctx (ctx.skipSpace rest) := rfl

theorem reads_endStatement (plain : Plain ctx) (s : Rest) :
    Reads endStatement ctx (.sign "NEWLINE" :: s) () (.sign "NEWLINE" :: s) := by
  refine ((ends_sign plain "NEWLINE" s).reads_skipSpace plain).bind ?_
  intro rest same
  have newline : ctx.isStructural .newline rest := by
    rw [← Context.isStructural_bare, same, isStructural_sign plain .newline rfl]
    rfl
  exact ⟨rest, by simp [newline], same⟩

theorem reads_rule (plain : Plain ctx) {rule : Statement} {fuel depth : Nat} {s t : Rest} {x : Stmt}
    (found : grammar.statements.find? (·.applies ctx s) = some rule)
    (parsed : Reads (rule.parse (grammar.nestedAt fuel (depth + 1))) ctx s x t) :
    Reads ((grammar.nestedAt (fuel + 1) depth).statement) ctx s x t := by
  intro rest same
  rw [grammar.nestedAt_statement plain.unbounded]
  exact Grammar.reads_statement plain.placeless found parsed rest same

theorem FormedExpr.skipSpace_spell {x : Expr} (formed : FormedExpr x) (s : Rest) :
    skipSpace (lexed (spell x) ++ s) = lexed (spell x) ++ s :=
  (formed.phrase.opens.append s).skipSpace

theorem FormedExpr.reads_line (plain : Plain ctx) {x : Expr} (formed : FormedExpr x)
    {fuel depth : Nat} {s : Rest} (fueled : (lexed (spell x)).length < fuel) :
    Reads ((grammar.nestedAt fuel depth).expr lowest) ctx (lexed (spell x) ++ .sign "NEWLINE" :: s) x
      (.sign "NEWLINE" :: s) :=
  formed.reads plain fueled (ends_sign plain "NEWLINE" s) (formed.skipSpace_spell _)

theorem FormedExpr.reads_behind (plain : Plain ctx) {x : Expr} (formed : FormedExpr x)
    {fuel depth : Nat} {s : Rest} (fueled : (lexed (spell x)).length < fuel) :
    Reads ((grammar.nestedAt fuel depth).expr lowest) ctx
      (.source " " :: (lexed (spell x) ++ .sign "NEWLINE" :: s)) x (.sign "NEWLINE" :: s) :=
  formed.reads plain fueled (ends_sign plain "NEWLINE" s) (formed.skipSpace_spell _)

theorem Phrase.reads_target (plain : Plain ctx) {p : Precedence} {x : Expr} {shape : Rest}
    (phrase : Phrase p x shape) {fuel depth : Nat} {s : Rest} (fueled : shape.length < fuel) :
    Reads ((grammar.nestedAt fuel depth).expr lowest) ctx (shape ++ .source " " :: .source "=" :: s) x
      (.source "=" :: s) := by
  have ends : Ends ctx (.source "=" :: s) := ends_closer plain (by decide : "=" ∈ closers) rfl
  have solid : skipSpace (.source " " :: .source "=" :: s) = .source "=" :: s := ends.solid
  have stops : grammar.Stops ctx lowest (.source " " :: .source "=" :: s) := by
    have here := ends.stops lowest
    simp only [Grammar.Stops, plain.skipSpace, skipSpace_blank] at here ⊢
    exact here
  have read : Reads ((grammar.nestedAt fuel depth).expr lowest) ctx _ _ _ :=
    (phrase.readable plain).nested plain fueled phrase.lowest_le
      (clear_symbol (by decide) (by decide) _) stops (phrase.opens.append _).skipSpace
  rwa [solid] at read

theorem reads_expression (plain : Plain ctx) {x : Expr} (formed : FormedExpr x) {fuel depth : Nat}
    {s : Rest} (fueled : (lexed (spell x)).length < fuel) :
    Reads (assignRule.parse (grammar.nestedAt fuel depth)) ctx (lexed (spell x) ++ .sign "NEWLINE" :: s)
      (.expr x) (.sign "NEWLINE" :: s) := by
  refine Reads.location fun place => ?_
  refine (formed.reads_line plain fueled).bind ?_
  refine ((ends_sign plain "NEWLINE" s).reads_skipSpace plain).bind ?_
  refine (Reads.isAt "=" _).bind ?_
  exact (reads_endStatement plain s).bind (Reads.pure _ _)

theorem reads_assignment (plain : Plain ctx) {p : Precedence} {left x : Expr} {shape : Rest}
    {statement : Stmt} (phrase : Phrase p left shape) (formed : FormedExpr x)
    (assigns : assignment? left x = some statement) {fuel depth : Nat} {s : Rest}
    (leftFueled : shape.length < fuel) (fueled : (lexed (spell x)).length < fuel) :
    Reads (assignRule.parse (grammar.nestedAt fuel depth)) ctx
      (shape ++ .source " " :: .source "=" :: .source " " :: (lexed (spell x) ++ .sign "NEWLINE" :: s))
      statement (.sign "NEWLINE" :: s) := by
  refine Reads.location fun place => ?_
  refine (phrase.reads_target plain leftFueled).bind ?_
  have ends (t : Rest) : Ends ctx (.source "=" :: t) := ends_closer plain (by decide : "=" ∈ closers) rfl
  refine ((ends _).reads_skipSpace plain).bind ?_
  refine (Reads.isAt "=" _).bind ?_
  refine Reads.advance fun _ _ => ?_
  refine (formed.reads_behind plain fueled).bind ?_
  rw [assigns]
  exact (reads_endStatement plain s).bind (Reads.pure _ _)

theorem reads_define (plain : Plain ctx) {name : String} {x : Expr} (valid : IsName name)
    (formed : FormedExpr x) {fuel depth : Nat} {s : Rest} (fueled : (lexed (spell x)).length < fuel) :
    Reads (letRule.parse (grammar.nestedAt fuel depth)) ctx
      (letters "let".toList ++ .source " " :: (letters name.toList ++
        .source " " :: .source "=" :: .source " " :: (lexed (spell x) ++ .sign "NEWLINE" :: s)))
      (.define name x) (.sign "NEWLINE" :: s) := by
  have blank (t : Rest) : Clear (.source " " :: t) := clear_symbol (by decide) (by decide) t
  have opens (t : Rest) : skipSpace (.source " " :: (letters name.toList ++ t)) = letters name.toList ++ t :=
    ((opens_letters valid.ne_nil valid.wordChars).append t).skipSpace
  have ends (t : Rest) : Ends ctx (.source "=" :: t) := ends_closer plain (by decide : "=" ∈ closers) rfl
  have notMut (t : Rest) (clear : Clear t) : Rest.isKeyword "mut" (letters name.toList ++ t) = false := by
    have free := valid.free
    rw [Rest.isKeyword, word_letters valid.wordChars clear, String.ofList_toList, beq_eq_false_iff_ne]
    rintro rfl
    exact free (by decide)
  refine (reads_letters (by decide) (blank _)).bind ?_
  refine (reads_skipSpace plain _).bind ?_
  rw [opens]
  refine (Reads.look (Rest.isKeyword_bare "mut")).bind ?_
  rw [notMut _ (blank _)]
  refine (reads_name valid (blank _)).bind ?_
  refine (reads_skipSpace plain _).bind ?_
  rw [skipSpace_blank, (ends _).solid]
  refine (Reads.isAt ":" _).bind ?_
  refine Reads.expect (isAtAny_singleton "=" _) fun _ _ => ?_
  refine (formed.reads_behind plain fueled).bind ?_
  exact (reads_endStatement plain s).bind (Reads.pure _ _)

theorem reads_word (plain : Plain ctx) {word : String} (wordlike : ∀ c ∈ word.toList, Text.isWordChar c)
    (statement : Stmt) {fuel depth : Nat} {s : Rest} :
    Reads ((wordRule word statement).parse (grammar.nestedAt fuel depth)) ctx
      (letters word.toList ++ .sign "NEWLINE" :: s) statement (.sign "NEWLINE" :: s) := by
  refine (reads_letters wordlike (clear_sign "NEWLINE" s)).bind ?_
  exact (reads_endStatement plain s).bind (Reads.pure _ _)

theorem reads_memoize (plain : Plain ctx) (on : Bool) {fuel depth : Nat} {s : Rest} :
    Reads (memoizationRule.parse (grammar.nestedAt fuel depth)) ctx
      (letters "MEMOIZATION".toList ++ .source " " :: .source "=" :: .source " " ::
        (letters (Value.boolText on).toList ++ .sign "NEWLINE" :: s))
      (.memoize on) (.sign "NEWLINE" :: s) := by
  have wordlike : ∀ c ∈ (Value.boolText on).toList, Text.isWordChar c := by cases on <;> decide
  have some : (Value.boolText on).toList ≠ [] := by cases on <;> decide
  have solid := ((opens_letters some wordlike).append (.sign "NEWLINE" :: s)).skipSpace
  have seen : Rest.word (letters (Value.boolText on).toList ++ .sign "NEWLINE" :: s) = Value.boolText on := by
    rw [word_letters wordlike (clear_sign "NEWLINE" s), String.ofList_toList]
  have known : Rest.isAnyKeyword ["true", "false"]
      (letters (Value.boolText on).toList ++ .sign "NEWLINE" :: s) = true := by
    rw [Rest.isAnyKeyword, seen]
    cases on <;> decide
  have value : (String.ofList (Value.boolText on).toList == "true") = on := by cases on <;> decide
  refine (reads_letters (by decide) (clear_symbol (by decide) (by decide) _)).bind ?_
  refine (reads_skipSpace plain _).bind ?_
  refine Reads.advance fun _ _ => ?_
  refine (reads_skipSpace plain _).bind ?_
  rw [skipSpace_blank, solid]
  refine (Reads.look (Rest.isAnyKeyword_bare ["true", "false"])).bind ?_
  rw [known]
  refine (reads_letters wordlike (clear_sign "NEWLINE" s)).bind ?_
  refine (reads_endStatement plain s).bind ?_
  rw [value]
  exact Reads.pure _ _

/-- Whether a statement could end here, without consuming anything. -/
def endsHere : Parser Bool := fun ctx rest =>
  match endStatement ctx rest with
  | .ok _ _ => .ok true rest
  | .error _ _ => .ok false rest

theorem reads_endsHere_newline (plain : Plain ctx) (s : Rest) :
    Reads endsHere ctx (.sign "NEWLINE" :: s) true (.sign "NEWLINE" :: s) := by
  intro rest same
  obtain ⟨reached, ended, -⟩ := reads_endStatement plain s rest same
  exact ⟨rest, by simp [endsHere, ended], same⟩

theorem reads_endsHere_opens (plain : Plain ctx) {s : Rest} (opens : Opens s) :
    Reads endsHere ctx s false s := by
  rintro rest rfl
  have solid : (skipSpace rest).bare = rest.bare := by rw [← skipSpace_bare, opens.skipSpace]
  have unseen (kind : Structural) (marker : kind.isMarker = true) :
      ctx.isStructural kind (skipSpace rest) = false := by
    rw [← Context.isStructural_bare, solid, isStructural_opens marker opens]
  have noSemicolon : Rest.isAt ";" (skipSpace rest) = false := by
    rw [← Rest.isAt_bare, solid]
    exact opens.isAt_eq_false (by decide) (by decide)
  have inside : ctx.atEnd (skipSpace rest) = false := by
    rw [← Context.atEnd_bare, solid, atEnd_opens opens]
  refine ⟨rest, ?_, rfl⟩
  have goesOn : endStatement ctx rest =
      Parser.fail (.expectedEnd (sight ctx (skipSpace rest))) ctx (skipSpace rest) := by
    rw [endStatement_apply, plain.skipSpace]
    simp [noSemicolon, unseen .newline rfl, unseen .dedent rfl, inside]
  rw [endsHere, goesOn]
  rfl

theorem reads_returnNone (plain : Plain ctx) {fuel depth : Nat} {s : Rest} :
    Reads (returnRule.parse (grammar.nestedAt fuel depth)) ctx
      (letters "return".toList ++ .sign "NEWLINE" :: s) (.returnWith none) (.sign "NEWLINE" :: s) := by
  refine (reads_letters (by decide) (clear_sign "NEWLINE" s)).bind ?_
  refine ((ends_sign plain "NEWLINE" s).reads_skipSpace plain).bind ?_
  exact (reads_endsHere_newline plain s).bind (Reads.pure _ _)

theorem reads_returnSome (plain : Plain ctx) {x : Expr} (formed : FormedExpr x) {fuel depth : Nat}
    {s : Rest} (fueled : (lexed (spell x)).length < fuel) :
    Reads (returnRule.parse (grammar.nestedAt fuel depth)) ctx
      (letters "return".toList ++ .source " " :: (lexed (spell x) ++ .sign "NEWLINE" :: s))
      (.returnWith (some x)) (.sign "NEWLINE" :: s) := by
  refine (reads_letters (by decide) (clear_symbol (by decide) (by decide) _)).bind ?_
  refine (reads_skipSpace plain _).bind ?_
  rw [skipSpace_blank, formed.skipSpace_spell]
  refine (reads_endsHere_opens plain (formed.phrase.opens.append _)).bind ?_
  refine (formed.reads_line plain fueled).bind ?_
  exact (reads_endStatement plain s).bind (Reads.pure _ _)

theorem reads_push (plain : Plain ctx) {array x : Expr} (first : FormedExpr array)
    (second : FormedExpr x) {fuel depth : Nat} {s : Rest}
    (fueled : (listed [lexed (spell array), lexed (spell x)]).length < fuel) :
    Reads (pushRule.parse (grammar.nestedAt fuel depth)) ctx
      (letters "push".toList ++ .source "(" ::
        (listed [lexed (spell array), lexed (spell x)] ++ .source ")" :: .sign "NEWLINE" :: s))
      (.push array x) (.sign "NEWLINE" :: s) := by
  have phrases : ∀ y ∈ [array, x], Phrase (level y) y (lexed (spell y)) := by
    intro y member
    rcases List.mem_pair.mp member with rfl | rfl
    · exact first.phrase
    · exact second.phrase
  have solid : skipSpace (_ ++ .source ")" :: .sign "NEWLINE" :: s) = _ :=
    skipSpace_listed (by decide) phrases _
  refine (reads_letters (by decide) (clear_symbol (by decide) (by decide) _)).bind ?_
  refine (reads_skipSpace plain _).bind ?_
  refine Reads.location fun place => ?_
  refine Reads.advance fun _ _ => ?_
  refine (reads_arguments plain phrases (fun y member => (phrases y member).readable plain) (by decide)
    fueled solid).bind ?_
  exact (reads_endStatement plain s).bind (Reads.pure _ _)

theorem reads_block (plain : Plain ctx) {fuel depth : Nat} {s t : Rest} {body : List Stmt}
    (inside : Reads (Grammar.block (grammar.nestedAt fuel depth) fun ctx rest => ctx.isStructural .dedent rest)
      ctx s body (.sign "DEDENT" :: t)) :
    Reads (block (grammar.nestedAt fuel depth)) ctx (.sign "NEWLINE" :: .sign "INDENT" :: s) body t := by
  have newline (u : Rest) : (!ctx.isStructural .newline (.sign "NEWLINE" :: u)) = false := by
    rw [isStructural_sign plain .newline rfl]
    rfl
  have indent (u : Rest) : (!ctx.isStructural .indent (.sign "INDENT" :: u)) = false := by
    rw [isStructural_sign plain .indent rfl]
    rfl
  refine ((ends_sign plain "NEWLINE" _).reads_skipSpace plain).bind ?_
  refine (Reads.isAt ":" _).bind ?_
  refine (Reads.look (f := fun ctx rest => !ctx.isStructural .newline rest) (by simp)).bind ?_
  rw [newline]
  refine Reads.advance fun _ _ => ?_
  refine (Reads.look (f := fun ctx rest => !ctx.isStructural .indent rest) (by simp)).bind ?_
  rw [indent]
  refine Reads.advance fun _ _ => ?_
  refine inside.bind ?_
  exact Reads.advance fun _ _ => Reads.pure _ _

end ScriptKernel.Lumen
