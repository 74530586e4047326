import ScriptKernel.Lumen.Grammar
import ScriptKernel.Proofs.Parse.Progress

/-!
Lumen's rules make progress. Each consumes lexemes that keep the books wherever
it applies, closing the brackets and the strings that it opens, and each asks
for nested parts behind what it has consumed.
-/

namespace ScriptKernel.Lumen

open ScriptKernel.Walk (Moves)
open ScriptKernel.Grammar (ExprMoves StatementMoves)

def bracketing : List String :=
  ["\"", "(", "[", ")", "]"]

/-- Books that count the open brackets. -/
structure Counting (w : Walk) : Prop extends w.Sound where
  plain : ∀ text ∉ bracketing, ∀ a l, Rest.isAt text [l] = true → w.books a a [l]
  opening : ∀ text ∈ ["(", "["], ∀ a l, Rest.isAt text [l] = true → w.books a (a + 1) [l]
  closing : ∀ text ∈ [")", "]"], ∀ a l, Rest.isAt text [l] = true → w.books (a + 1) a [l]
  string : ∀ a l body, Rest.isAt "\"" [l] = true → Walk.Quoted "\"" body → w.books a a (l :: body)

variable {w : Walk} {room a b : Nat} {rest : Rest} {nested : Nested} {α : Type}

theorem expect_moves (counting : Counting w) {text : String} (plain : text ∉ bracketing) :
    w.Moves room (w.Eats a a) (Parser.expect [text]) rest := by
  apply Moves.expect
  intro other member l here
  rw [List.mem_singleton.1 member] at here
  exact counting.plain text plain a l here

theorem expect_opening (counting : Counting w) {text : String} (opening : text ∈ ["(", "["]) :
    w.Moves room (w.Eats a (a + 1)) (Parser.expect [text]) rest := by
  apply Moves.expect
  intro other member l here
  rw [List.mem_singleton.1 member] at here
  exact counting.opening text opening a l here

theorem expect_closing (counting : Counting w) {text : String} (closing : text ∈ [")", "]"]) :
    w.Moves room (w.Eats (a + 1) a) (Parser.expect [text]) rest := by
  apply Moves.expect
  intro other member l here
  rw [List.mem_singleton.1 member] at here
  exact counting.closing text closing a l here

theorem advance_moves (counting : Counting w) {text : String} (plain : text ∉ bracketing)
    (here : rest.isAt text = true) : w.Moves room (w.Eats a a) Parser.advance rest :=
  Moves.advance here (counting.plain text plain a)

theorem advance_opening (counting : Counting w) {text : String} (opening : text ∈ ["(", "["])
    (here : rest.isAt text = true) : w.Moves room (w.Eats a (a + 1)) Parser.advance rest :=
  Moves.advance here (counting.opening text opening a)

theorem advanceAny_moves (counting : Counting w) {texts : List String} (plain : ∀ text ∈ texts, text ∉ bracketing)
    (here : rest.isAtAny texts = true) : w.Moves room (w.Eats a a) Parser.advance rest :=
  Moves.advanceAny here fun text member => counting.plain text (plain text member) a

theorem list_moves (counting : Counting w) {close : String} (closing : close ∈ [")", "]"])
    {item : List α → Parser α} (each : ∀ done rest, w.Moves room (w.books (a + 1) (a + 1)) (item done) rest) :
    w.Moves room (w.Eats (a + 1) a) (Parser.list "," close item) rest :=
  Moves.list counting.toSound each (counting.plain "," (by decide) (a + 1)) (counting.closing close closing a)

theorem arguments_moves (counting : Counting w) (exprs : ExprMoves w room nested) {close : String}
    (closing : close ∈ [")", "]"]) : w.Moves room (w.Eats (a + 1) a) (arguments nested close) rest :=
  list_moves counting closing fun _ rest => (exprs (a + 1) lowest rest).loosen

theorem endStatement_moves (sound : w.Sound) : w.Moves room (w.books a a) endStatement rest := by
  apply Moves.space sound
  intro within
  dsimp only
  split
  · exact ⟨[], rfl, sound.nil a⟩
  · exact .at within rfl rfl

theorem block_moves (counting : Counting w) (statements : StatementMoves w room nested) :
    w.Moves room (w.books a a) (block nested) rest := by
  have sound := counting.toSound
  apply Moves.space sound
  apply Moves.isAt
  apply Moves.optionally
  case step =>
    intro colon more
    apply (advance_moves counting (by decide) colon).loosen.bind sound
    intro _ reached _ _
    exact Moves.space sound (more _)
  intro rest
  apply Moves.look
  apply Moves.ite
  · intro _
    apply (statements a rest).loosen.bind sound
    exact fun statement reached _ _ => Moves.pure _ (sound.nil a)
  · intro newline
    apply (Moves.advanceMarker sound rfl (by simpa using newline)).bind sound
    intro _ rest _ _
    apply Moves.look
    by_cases indented : w.ctx.isStructural .indent rest = true
    · rw [if_neg (by simp [indented])]
      apply (Moves.advanceMarker sound rfl indented).bind sound
      intro _ rest _ _
      apply (Grammar.block_moves sound (statements a) _ rest).bind sound
      intro body reached parsed _
      apply (Moves.advanceMarker sound rfl (Grammar.blockFrom_stops _ parsed)).bind sound
      exact fun _ reached _ _ => Moves.pure _ (sound.nil a)
    · rw [if_pos (by simpa using indented)]
      exact Moves.fail rfl

theorem numberRule_moves (sound : w.Sound) (applies : numberRule.applies w.ctx rest = true) :
    w.Moves room (w.Eats a a) (numberRule.parse nested) rest := by
  apply (Moves.number sound true applies).lead sound
  intro text reached _
  split
  · exact Moves.pure _ (sound.nil a)
  · exact Moves.fail rfl

theorem stringRule_moves (counting : Counting w) : w.Moves room (w.Eats a a) (stringRule.parse nested) rest := by
  apply (Moves.string (counting.string a)).lead counting.toSound
  exact fun text reached _ => Moves.pure _ (counting.nil a)

theorem constantRule_moves (sound : w.Sound) (applies : constantRule.applies w.ctx rest = true) :
    w.Moves room (w.Eats a a) (constantRule.parse nested) rest := by
  apply (Moves.anyKeyword sound (by decide) applies).lead sound
  intro word reached _
  exact Moves.ite (fun _ => Moves.pure _ (sound.nil a)) fun _ =>
    Moves.ite (fun _ => Moves.pure _ (sound.nil a)) fun _ => Moves.pure _ (sound.nil a)

theorem externRule_moves (counting : Counting w) (exprs : ExprMoves w room nested)
    (applies : externRule.applies w.ctx rest = true) :
    w.Moves (room + 1) (w.Eats a a) (externRule.parse nested) rest := by
  have sound := counting.toSound
  apply (Moves.keyword sound (by decide) applies).start sound
  intro _ reached _ _
  apply Moves.space sound
  apply (expect_opening counting (by decide)).loosen.bind sound
  intro _ reached _ _
  apply Moves.space sound
  apply Moves.isAt
  apply Moves.ite
  · intro _
    exact Moves.fail rfl
  · intro _
    apply Moves.location
    intro inside
    apply (Moves.string (counting.string (a + 1))).loosen.bind sound
    intro selector reached _ _
    split
    · exact Moves.failAt inside rfl
    · apply Moves.space sound
      apply Moves.isAt
      apply Moves.ite
      · intro comma
        apply (advance_moves counting (by decide) comma).loosen.bind sound
        intro _ reached _ _
        apply (arguments_moves counting exprs (by decide)).loosen.bind sound
        exact fun args reached _ _ => Moves.pure _ (sound.nil a)
      · intro _
        apply (expect_closing counting (by decide)).loosen.bind sound
        exact fun _ reached _ _ => Moves.pure _ (sound.nil a)

theorem notRule_moves (sound : w.Sound) (exprs : ExprMoves w room nested)
    (applies : notRule.applies w.ctx rest = true) :
    w.Moves (room + 1) (w.Eats a a) (notRule.parse nested) rest := by
  apply (Moves.keyword sound (by decide) applies).start sound
  intro _ reached _ _
  apply (exprs a _ reached).loosen.bind sound
  exact fun x reached _ _ => Moves.pure _ (sound.nil a)

theorem groupRule_moves (counting : Counting w) (exprs : ExprMoves w room nested)
    (applies : groupRule.applies w.ctx rest = true) :
    w.Moves (room + 1) (w.Eats a a) (groupRule.parse nested) rest := by
  have sound := counting.toSound
  apply (advance_opening counting (by decide) applies).start sound
  intro _ reached _ _
  apply (exprs (a + 1) _ reached).loosen.bind sound
  intro x reached _ _
  apply Moves.space sound
  apply (expect_closing counting (by decide)).loosen.bind sound
  exact fun _ reached _ _ => Moves.pure _ (sound.nil a)

theorem arrayRule_moves (counting : Counting w) (exprs : ExprMoves w room nested)
    (applies : arrayRule.applies w.ctx rest = true) :
    w.Moves (room + 1) (w.Eats a a) (arrayRule.parse nested) rest := by
  apply (advance_opening counting (by decide) applies).start counting.toSound
  intro _ reached _ _
  apply (arguments_moves counting exprs (by decide)).loosen.bind counting.toSound
  exact fun items reached _ _ => Moves.pure _ (counting.nil a)

theorem variableRule_moves (sound : w.Sound) : w.Moves room (w.Eats a a) (variableRule.parse nested) rest := by
  apply (Moves.name sound reserved).lead sound
  exact fun text reached _ => Moves.pure _ (sound.nil a)

theorem signed_moves (counting : Counting w) (exprs : ExprMoves w room nested) {texts : List String}
    (plain : ∀ text ∈ texts, text ∉ bracketing) (here : rest.isAtAny texts = true) {least : Precedence}
    {f : Lexeme → Expr → Expr} :
    w.Moves (room + 1) (w.Eats a a) (do
      let op ← Parser.advance
      let right ← nested.expr least
      return f op right) rest := by
  apply (advanceAny_moves counting plain here).start counting.toSound
  intro op reached _ _
  apply (exprs a least reached).loosen.bind counting.toSound
  exact fun right reached _ _ => Moves.pure _ (counting.nil a)

theorem sign_moves (counting : Counting w) (exprs : ExprMoves w room nested) {text : String}
    (plain : text ∉ bracketing) (here : rest.isAt text = true) {least : Precedence} {f : Expr → Expr} :
    w.Moves (room + 1) (w.Eats a a) (do
      let _ ← Parser.advance
      let right ← nested.expr least
      return f right) rest := by
  have every : ∀ other ∈ [text], other ∉ bracketing := by
    intro other member
    rwa [List.mem_singleton.1 member]
  exact signed_moves counting exprs (f := fun _ => f) every (by simpa [Rest.isAtAny] using here)

theorem worded_moves (sound : w.Sound) (exprs : ExprMoves w room nested) {keyword : String} (known : keyword ≠ "")
    (here : rest.isKeyword keyword = true) {least : Precedence} {f : Expr → Expr} :
    w.Moves (room + 1) (w.Eats a a) (do
      let _ ← Parser.word
      let right ← nested.expr least
      return f right) rest := by
  apply (Moves.keyword sound known here).start sound
  intro _ reached _ _
  apply (exprs a least reached).loosen.bind sound
  exact fun right reached _ _ => Moves.pure _ (sound.nil a)

theorem compareRule_moves (counting : Counting w) (exprs : ExprMoves w room nested) (left : Expr)
    (applies : compareRule.applies w.ctx rest = true) :
    w.Moves (room + 1) (w.Eats a a) (compareRule.parse nested left) rest := by
  have sound := counting.toSound
  apply (advanceAny_moves counting (by decide) applies).start sound
  intro op reached _ _
  apply (exprs a _ reached).loosen.bind sound
  intro right reached _ _
  apply Moves.space sound
  apply Moves.look
  apply Moves.ite
  · exact fun _ => Moves.fail rfl
  · exact fun _ => Moves.pure _ (sound.nil a)

theorem callRule_moves (counting : Counting w) (exprs : ExprMoves w room nested) (left : Expr)
    (applies : callRule.applies w.ctx rest = true) :
    w.Moves (room + 1) (w.Eats a a) (callRule.parse nested left) rest := by
  apply (advance_opening counting (by decide) applies).start counting.toSound
  intro _ reached _ _
  apply (arguments_moves counting exprs (by decide)).loosen.bind counting.toSound
  exact fun args reached _ _ => Moves.pure _ (counting.nil a)

theorem indexRule_moves (counting : Counting w) (exprs : ExprMoves w room nested) (left : Expr)
    (applies : indexRule.applies w.ctx rest = true) :
    w.Moves (room + 1) (w.Eats a a) (indexRule.parse nested left) rest := by
  have sound := counting.toSound
  apply (advance_opening counting (by decide) applies).start sound
  intro _ reached _ _
  apply (exprs (a + 1) _ reached).loosen.bind sound
  intro position reached _ _
  apply Moves.space sound
  apply (expect_closing counting (by decide)).loosen.bind sound
  exact fun _ reached _ _ => Moves.pure _ (sound.nil a)

theorem keyword_of_followedBy {word next : String} {ctx : Context} (applies : followedBy word next ctx rest = true) :
    rest.isKeyword word = true ∧ Rest.isAt next (ctx.skipSpace rest.afterWord) = true := by
  simpa [followedBy] using applies

theorem memoizationRule_moves (counting : Counting w) (applies : memoizationRule.applies w.ctx rest = true) :
    w.Moves room (w.Eats a a) (memoizationRule.parse nested) rest := by
  have sound := counting.toSound
  obtain ⟨word, equals⟩ := keyword_of_followedBy applies
  apply (Moves.keyword sound (by decide) word).lead sound
  intro _ reached taken
  cases taken
  apply Moves.space sound
  apply (advance_moves counting (by decide) equals).loosen.bind sound
  intro _ reached _ _
  apply Moves.space sound
  apply Moves.look
  apply Moves.ite
  · intro _
    apply (Moves.word sound a).bind sound
    intro word reached _ _
    apply (endStatement_moves sound).bind sound
    exact fun _ reached _ _ => Moves.pure _ (sound.nil a)
  · exact fun _ => Moves.look (Moves.fail rfl)

theorem letRule_moves (counting : Counting w) (exprs : ExprMoves w room nested)
    (applies : letRule.applies w.ctx rest = true) :
    w.Moves (room + 1) (w.Eats a a) (letRule.parse nested) rest := by
  have sound := counting.toSound
  apply (Moves.keyword sound (by decide) applies).start sound
  intro _ reached _ _
  apply Moves.space sound
  apply Moves.look
  apply Moves.optionally
  case step =>
    intro _ more
    apply (Moves.word sound a).bind sound
    intro _ reached _ _
    exact Moves.space sound (more _)
  intro rest
  apply (Moves.name sound reserved).loosen.bind sound
  intro target reached _ _
  apply Moves.space sound
  apply Moves.isAt
  apply Moves.optionally
  case step =>
    intro colon more
    apply (advance_moves counting (by decide) colon).loosen.bind sound
    intro _ reached _ _
    apply Moves.space sound
    apply (Moves.name sound reserved).loosen.bind sound
    intro _ reached _ _
    exact Moves.space sound (more _)
  intro rest
  apply (expect_moves counting (by decide)).loosen.bind sound
  intro _ reached _ _
  apply (exprs a _ reached).loosen.bind sound
  intro x reached _ _
  apply (endStatement_moves sound).bind sound
  exact fun _ reached _ _ => Moves.pure _ (sound.nil a)

theorem beforeBranch_split (counting : Counting w) (a : Nat) (rest : Rest) :
    ∃ eaten, rest = eaten ++ beforeBranch w.ctx rest ∧ w.books a a eaten := by
  refine ⟨_, List.takeWhile_append_dropWhile.symm, ?_⟩
  apply Moves.takeWhile_books counting.toSound
  intro l passed
  rw [Bool.or_eq_true] at passed
  rcases passed with newline | blank
  · rw [isNewline, Bool.and_eq_true] at newline
    exact counting.marker a l newline.1
  · rw [Bool.and_eq_true, Bool.or_eq_true] at blank
    rcases blank.2 with space | tab
    · exact counting.plain " " (by decide) a l (by simp [Rest.isAt, blank.1, space])
    · exact counting.plain "\t" (by decide) a l (by simp [Rest.isAt, blank.1, tab])

theorem beforeBranch_moves (counting : Counting w) {p : Parser α}
    (next : w.Moves room (w.books a b) p (beforeBranch w.ctx rest)) :
    w.Moves room (w.books a b) (fun ctx rest => p ctx (beforeBranch ctx rest)) rest := by
  have skip : w.Moves room (w.books a a) (fun ctx rest => EStateM.Result.ok () (beforeBranch ctx rest)) rest :=
    fun _ => beforeBranch_split counting a rest
  have moves : w.Moves room (w.books a b)
      ((fun ctx rest => EStateM.Result.ok () (beforeBranch ctx rest) : Parser Unit) >>= fun _ => p) rest := by
    apply skip.bind counting.toSound
    intro _ reached skipped _
    cases skipped
    exact next
  exact moves

theorem branches_moves (counting : Counting w) (exprs : ExprMoves w room nested)
    (statements : StatementMoves w room nested) (fuel : Nat) (fueled : rest.length < fuel)
    (applies : rest.isKeyword "if" = true ∨ rest.isKeyword "elif" = true) :
    w.Moves (room + 1) (w.Eats a a) (branches nested fuel) rest := by
  have sound := counting.toSound
  induction fuel generalizing rest with
  | zero => exact absurd fueled (Nat.not_lt_zero _)
  | succ fuel ih =>
    have some : rest.word ≠ "" := by
      rcases applies with found | found
      all_goals
        rw [Rest.isKeyword, beq_iff_eq] at found
        rw [found]
        decide
    apply (Moves.wordSome sound some).start sound
    intro _ rest₁ _ fewer
    apply (exprs a _ rest₁).loosen.bind sound
    intro test rest₂ _ fewer₁
    apply (block_moves counting statements).bind sound
    intro yes rest₃ _ fewer₂
    have shorter : (beforeBranch w.ctx rest₃).length ≤ rest₃.length := (List.dropWhile_sublist _).length_le
    apply Moves.look
    apply Moves.ite
    · intro elif
      have later : w.Moves room (w.books a a) (branches nested fuel) (beforeBranch w.ctx rest₃) :=
        (ih (by omega) (Or.inr elif)).loosen.mono (Nat.le_succ room)
      apply (beforeBranch_moves counting later).bind sound
      exact fun no reached _ _ => Moves.pure _ (sound.nil a)
    intro _
    apply Moves.look
    apply Moves.ite
    · intro other
      have past : w.Moves room (w.books a a)
          (fun _ rest => EStateM.Result.ok () rest.afterWord : Parser Unit) (beforeBranch w.ctx rest₃) :=
        fun _ => ⟨_, Moves.afterWord_split _, Moves.takeWhile_books sound _ (sound.word a) _⟩
      apply (beforeBranch_moves counting past).bind sound
      intro _ rest₄ _ fewer₃
      apply (Moves.skipSpace sound a).bind sound
      intro _ rest₅ _ fewer₄
      apply Moves.look
      apply Moves.ite
      · intro again
        apply (((ih (by omega) (Or.inl again)).loosen).mono (Nat.le_succ room)).bind sound
        exact fun no reached _ _ => Moves.pure _ (sound.nil a)
      · intro _
        apply (block_moves counting statements).bind sound
        exact fun no reached _ _ => Moves.pure _ (sound.nil a)
    · exact fun _ => Moves.pure _ (sound.nil a)

theorem ifRule_moves (counting : Counting w) (exprs : ExprMoves w room nested)
    (statements : StatementMoves w room nested) (applies : ifRule.applies w.ctx rest = true) :
    w.Moves (room + 1) (w.Eats a a) (ifRule.parse nested) rest := by
  have moves : w.Moves (room + 1) (w.Eats a a) (branches nested (rest.length + 1)) rest :=
    branches_moves counting exprs statements (rest.length + 1) (Nat.lt_succ_self _) (Or.inl applies)
  intro within
  exact moves within

theorem whileRule_moves (counting : Counting w) (exprs : ExprMoves w room nested)
    (statements : StatementMoves w room nested) (applies : whileRule.applies w.ctx rest = true) :
    w.Moves (room + 1) (w.Eats a a) (whileRule.parse nested) rest := by
  have sound := counting.toSound
  apply (Moves.anyKeyword sound (by decide) applies).start sound
  intro word reached _ _
  apply (exprs a _ reached).loosen.bind sound
  intro test reached _ _
  apply (block_moves counting statements).bind sound
  exact fun body reached _ _ => Moves.pure _ (sound.nil a)

theorem word_in (l : Lexeme) (here : Rest.isAt "in" [l] = true) : l.isWord = true := by
  rw [Rest.isAt, Bool.and_eq_true, beq_iff_eq] at here
  rw [Lexeme.isWord, here.1, here.2]
  decide

theorem forRule_moves (counting : Counting w) (exprs : ExprMoves w room nested)
    (statements : StatementMoves w room nested) (applies : forRule.applies w.ctx rest = true) :
    w.Moves (room + 1) (w.Eats a a) (forRule.parse nested) rest := by
  have sound := counting.toSound
  apply (Moves.keyword sound (by decide) applies).start sound
  intro _ reached _ _
  apply Moves.space sound
  apply (Moves.name sound reserved).loosen.bind sound
  intro target reached _ _
  apply Moves.space sound
  apply (Moves.expectKeyword sound word_in).bind sound
  intro _ reached _ _
  apply (exprs a _ reached).loosen.bind sound
  intro items reached _ _
  apply (block_moves counting statements).bind sound
  exact fun body reached _ _ => Moves.pure _ (sound.nil a)

theorem wordRule_moves (sound : w.Sound) {keyword : String} {statement : Stmt} (known : keyword ≠ "")
    (applies : (wordRule keyword statement).applies w.ctx rest = true) :
    w.Moves room (w.Eats a a) ((wordRule keyword statement).parse nested) rest := by
  apply (Moves.keyword sound known applies).lead sound
  intro _ reached _
  apply (endStatement_moves sound).bind sound
  exact fun _ reached _ _ => Moves.pure _ (sound.nil a)

theorem returnRule_moves (sound : w.Sound) (exprs : ExprMoves w room nested)
    (applies : returnRule.applies w.ctx rest = true) :
    w.Moves (room + 1) (w.Eats a a) (returnRule.parse nested) rest := by
  apply (Moves.keyword sound (by decide) applies).start sound
  intro _ reached _ _
  apply Moves.space sound
  refine Moves.bind sound (b := a) ?_ ?_
  · -- The end is looked for, not consumed.
    intro _
    dsimp only
    split
    · exact ⟨[], rfl, sound.nil a⟩
    · exact ⟨[], rfl, sound.nil a⟩
  intro ends reached _ _
  apply Moves.ite
  · exact fun _ => Moves.pure _ (sound.nil a)
  · intro _
    apply (exprs a _ reached).loosen.bind sound
    intro x reached _ _
    apply (endStatement_moves sound).bind sound
    exact fun _ reached _ _ => Moves.pure _ (sound.nil a)

theorem parameter_moves (sound : w.Sound) (known : List String) :
    w.Moves room (w.books a a) (parameter known) rest := by
  apply Moves.location
  intro inside
  apply (Moves.name sound reserved).loosen.bind sound
  intro param reached _ _
  apply Moves.ite
  · exact fun _ => Moves.failAt inside rfl
  · exact fun _ => Moves.pure _ (sound.nil a)

theorem fnRule_moves (counting : Counting w) (statements : StatementMoves w room nested)
    (applies : fnRule.applies w.ctx rest = true) :
    w.Moves (room + 1) (w.Eats a a) (fnRule.parse nested) rest := by
  have sound := counting.toSound
  apply (Moves.keyword sound (by decide) applies).start sound
  intro _ reached _ _
  apply Moves.space sound
  apply (Moves.name sound reserved).loosen.bind sound
  intro target reached _ _
  apply Moves.space sound
  apply (expect_opening counting (by decide)).loosen.bind sound
  intro _ reached _ _
  apply (list_moves counting (by decide) fun known _ => parameter_moves sound known).loosen.bind sound
  intro params reached _ _
  apply (block_moves counting statements).bind sound
  exact fun body reached _ _ => Moves.pure _ (sound.nil a)

theorem outputRule_moves (counting : Counting w) (exprs : ExprMoves w room nested) {word capability : String}
    (known : word ≠ "") (applies : (outputRule word capability).applies w.ctx rest = true) :
    w.Moves (room + 1) (w.Eats a a) ((outputRule word capability).parse nested) rest := by
  have sound := counting.toSound
  obtain ⟨here, opens⟩ := keyword_of_followedBy applies
  apply (Moves.keyword sound known here).start sound
  intro _ reached taken _
  cases taken
  apply Moves.space sound
  apply (advance_opening counting (by decide) opens).loosen.bind sound
  intro _ reached _ _
  apply (arguments_moves counting exprs (by decide)).loosen.bind sound
  intro args reached _ _
  apply (endStatement_moves sound).bind sound
  exact fun _ reached _ _ => Moves.pure _ (sound.nil a)

theorem pushRule_moves (counting : Counting w) (exprs : ExprMoves w room nested)
    (applies : pushRule.applies w.ctx rest = true) :
    w.Moves (room + 1) (w.Eats a a) (pushRule.parse nested) rest := by
  have sound := counting.toSound
  obtain ⟨here, opens⟩ := keyword_of_followedBy applies
  apply (Moves.keyword sound (by decide) here).start sound
  intro _ reached taken _
  cases taken
  apply Moves.space sound
  apply Moves.location
  intro inside
  apply (advance_opening counting (by decide) opens).loosen.bind sound
  intro _ reached _ _
  apply (arguments_moves counting exprs (by decide)).loosen.bind sound
  intro args reached _ _
  split
  · apply (endStatement_moves sound).bind sound
    exact fun _ reached _ _ => Moves.pure _ (sound.nil a)
  · exact Moves.failAt inside rfl

theorem assignRule_moves (counting : Counting w) (exprs : ExprMoves w room nested) :
    w.Moves room (w.Eats a a) (assignRule.parse nested) rest := by
  have sound := counting.toSound
  apply Moves.location
  intro inside
  apply (exprs a _ rest).lead sound
  intro x reached _
  apply Moves.space sound
  apply Moves.isAt
  by_cases equals : Rest.isAt "=" (w.ctx.skipSpace reached) = true
  · rw [if_neg (by simp [equals])]
    apply (advance_moves counting (by decide) equals).loosen.bind sound
    intro _ reached _ _
    apply (exprs a _ reached).loosen.bind sound
    intro value reached _ _
    split
    · apply (endStatement_moves sound).bind sound
      exact fun _ reached _ _ => Moves.pure _ (sound.nil a)
    · exact Moves.failAt inside rfl
  · rw [if_pos (by simp [equals])]
    apply (endStatement_moves sound).bind sound
    exact fun _ reached _ _ => Moves.pure _ (sound.nil a)

theorem operand_moves (counting : Counting w) (exprs : ExprMoves w room nested) :
    ∀ rule ∈ grammar.operands, ∀ rest, rule.applies w.ctx rest = true →
      w.Moves (room + 1) (w.Eats a a) (rule.parse nested) rest := by
  have sound := counting.toSound
  intro rule member rest applies
  cases isOperand rule member with
  | number => exact numberRule_moves sound applies
  | string => exact stringRule_moves counting
  | constant => exact constantRule_moves sound applies
  | hostCall => exact externRule_moves counting exprs applies
  | not => exact notRule_moves sound exprs applies
  | negate => exact sign_moves counting exprs (by decide) applies
  | group => exact groupRule_moves counting exprs applies
  | array => exact arrayRule_moves counting exprs applies
  | var => exact variableRule_moves sound

theorem operator_moves (counting : Counting w) (exprs : ExprMoves w room nested) (left : Expr) :
    ∀ rule ∈ grammar.operators, ∀ rest, rule.applies w.ctx rest = true →
      w.Moves (room + 1) (w.Eats a a) (rule.parse nested left) rest := by
  have sound := counting.toSound
  intro rule member rest applies
  cases isOperator rule member with
  | pipe | range => exact sign_moves counting exprs (by decide) applies
  | or | and => exact worded_moves sound exprs (by decide) applies
  | compare => exact compareRule_moves counting exprs left applies
  | sum | product | power => exact signed_moves counting exprs (by decide) applies
  | call => exact callRule_moves counting exprs left applies
  | index => exact indexRule_moves counting exprs left applies

/-- The parts behind the first lexeme of a statement have room for one lexeme
less than the statement. -/
theorem statement_moves (counting : Counting w) {later : Nat} (le : room ≤ later + 1)
    (exprs : ExprMoves w room nested) (inner : ExprMoves w later nested) (statements : StatementMoves w later nested) :
    ∀ rule ∈ grammar.statements, ∀ rest, rule.applies w.ctx rest = true →
      w.Moves room (w.Eats a a) (rule.parse nested) rest := by
  have sound := counting.toSound
  intro rule member rest applies
  cases isStatement rule member with
  | memoize => exact memoizationRule_moves counting applies
  | define => exact (letRule_moves counting inner applies).mono le
  | cond => exact (ifRule_moves counting inner statements applies).mono le
  | whileLoop => exact (whileRule_moves counting inner statements applies).mono le
  | forEach => exact (forRule_moves counting inner statements applies).mono le
  | breakLoop | continueLoop => exact wordRule_moves sound (by decide) applies
  | returnWith => exact (returnRule_moves sound inner applies).mono le
  | declare => exact (fnRule_moves counting statements applies).mono le
  | print | write => exact (outputRule_moves counting inner (by decide) applies).mono le
  | push => exact (pushRule_moves counting inner applies).mono le
  | assign => exact assignRule_moves counting exprs

theorem grammar_moving (counting : Counting w) : grammar.Moving w where
  operand rule member nested exprs statements parts a rest applies :=
    operand_moves counting parts.expr rule member rest applies
  operator rule member nested exprs statements parts a left rest applies :=
    operator_moves counting parts.expr left rule member rest applies
  statement rule member nested room statements parts le a rest applies := by
    have inner : ExprMoves w (room - 1) nested :=
      fun a least rest => (parts.expr a least rest).mono (Nat.sub_le room 1)
    have block : StatementMoves w (room - 1) nested :=
      fun a rest => (parts.statement a rest).mono (by omega)
    exact statement_moves counting (by omega) parts.expr inner block rule member rest applies

end ScriptKernel.Lumen
