import ScriptKernel.Proofs.Lumen.Progress
import ScriptKernel.Proofs.Parse.Continued
import ScriptKernel.Proofs.Parse.Transfer

/-!
Lumen's rules on a stream that goes on behind the end of another. A statement
ends with a line or a block, so that it ends before the point where the streams
part or at it. Only the branches of a condition are looked for beyond, and none
is found when what follows does not start with one.
-/

namespace ScriptKernel.Lumen

open ScriptKernel.Transfer (Carries Aligned)
open ScriptKernel.Grammar (NestedCarries)
open ScriptKernel.Walk (Moves)

def branchWords : List String :=
  ["elif", "else"]

/-- Two parses of which the first ends where the second goes on. -/
structure Continued (k : Transfer) (later : Rest) : Prop where
  counting : Counting k.walk
  depth : k.walk.ctx.maxDepth = k.ctx.maxDepth
  inside : k.inside = Rest.Before [Lexeme.sign ({} : Aliases).endOfInput] later
  after : k.after = Rest.Upto [Lexeme.sign ({} : Aliases).endOfInput] later
  skipSpace : k.ctx.skipSpace = skipSpace ∧ k.walk.ctx.skipSpace = skipSpace
  skipTrivia : k.ctx.skipTrivia = skipTrivia {} ∧ k.walk.ctx.skipTrivia = skipTrivia {}
  aliases : k.ctx.aliases = {} ∧ k.walk.ctx.aliases = {}
  branchless : ∀ keyword ∈ branchWords, (beforeBranch k.walk.ctx later).isKeyword keyword = false

variable {k : Transfer} {later rest rest' : Rest} {n n' : Nested} {R : Rest → Rest → Prop} {α β : Type}

theorem Continued.aligned (continued : Continued k later) : k.Aligned [] [] where
  sound := continued.counting.toSound
  depth := continued.depth
  skipSpace related := by
    rw [continued.inside] at related ⊢
    rw [continued.skipSpace.1, continued.skipSpace.2]
    exact related.dropWhile (Lexeme.isSpace_kind false)
  atEnd related := by
    rw [continued.inside] at related
    exact related.atEnd (continued.aliases.2.trans continued.aliases.1.symm)
  isAt related text _ := by
    rw [continued.inside] at related
    exact related.isAt text
  tail related text _ here := by
    rw [continued.inside] at related ⊢
    exact related.tail here
  word related := by
    rw [continued.inside] at related
    exact related.word
  afterWord related _ := by
    rw [continued.inside] at related ⊢
    exact related.afterWord
  isNameStart related := by
    rw [continued.inside] at related
    exact related.isNameStart
  isDigitStart related := by
    rw [continued.inside] at related
    exact related.isDigitStart
  outside related := by
    rw [continued.inside] at related
    rw [continued.after]
    exact related.upto

theorem Continued.isStructural (continued : Continued k later) (related : k.inside rest rest') (kind : Structural) :
    k.walk.ctx.isStructural kind rest' = k.ctx.isStructural kind rest := by
  rw [continued.inside] at related
  exact related.isStructural (continued.aliases.2.trans continued.aliases.1.symm) kind

theorem Continued.tail (continued : Continued k later) (related : k.inside rest rest') :
    k.after rest.tail rest'.tail := by
  rw [continued.inside] at related
  rw [continued.after]
  exact related.tail_upto

theorem Continued.trivia (continued : Continued k later) (related : k.after rest rest') :
    k.inside (k.ctx.skipTrivia rest) (k.walk.ctx.skipTrivia rest') ∨
      Rest.bare (k.ctx.skipTrivia rest) = [Lexeme.sign ({} : Aliases).endOfInput] ∧
        Rest.bare (k.walk.ctx.skipTrivia rest') = Lumen.skipTrivia {} later := by
  rw [continued.after] at related
  rw [continued.inside, continued.skipTrivia.1, continued.skipTrivia.2]
  exact related.dropWhile fun _ => rfl

theorem Continued.gathers (continued : Continued k later) :
    Grammar.Gathers k fun ctx rest => ctx.isStructural .dedent rest where
  trivia related := by
    rcases continued.trivia related with inside | ⟨ended, -⟩
    · exact Or.inl inside
    · right
      rw [← Context.atEnd_bare, ← Context.isStructural_bare, ended]
      simp only [Context.atEnd, Context.isStructural, continued.aliases.1]
      exact ⟨rfl, rfl⟩
  stop related := continued.isStructural related .dedent

theorem advance_carries (continued : Continued k later) (related : k.inside rest rest') {f f' : Lexeme → Parser β}
    (next : ∀ l l' : Lexeme, k.after rest.tail rest'.tail → k.Carries R (f l) (f' l') rest.tail rest'.tail) :
    k.Carries R (Parser.advance >>= f) (Parser.advance >>= f') rest rest' := by
  intro within y final parsed
  obtain ⟨final', parsed', behind, related'⟩ :=
    next _ (k.walk.ctx.peek rest') (continued.tail related) ((List.tail_suffix rest').trans within) y final parsed
  exact ⟨final', parsed', behind.trans (List.tail_suffix rest'), related'⟩

theorem arguments_carries (continued : Continued k later) (nested : NestedCarries k n n') (related : k.inside rest rest')
    (close : String) : k.Carries k.inside (arguments n close) (arguments n' close) rest rest' :=
  Carries.list continued.aligned (by simp) (by simp) (fun _ _ _ related => nested.expr lowest related) related

theorem name_carries (continued : Continued k later) (related : k.inside rest rest') :
    k.Carries k.inside name name rest rest' :=
  Carries.name continued.aligned related reserved fun _ _ => trivial

def atStatementEnd (ctx : Context) (rest : Rest) : Bool :=
  Rest.isAt ";" rest || ctx.isStructural .newline rest || ctx.isStructural .dedent rest || ctx.atEnd rest

theorem atStatementEnd_alike (continued : Continued k later) (related : k.inside rest rest') :
    atStatementEnd k.walk.ctx rest' = atStatementEnd k.ctx rest := by
  rw [atStatementEnd, continued.aligned.isAt related ";" (by simp), continued.isStructural related,
    continued.isStructural related, continued.aligned.atEnd related, atStatementEnd]

theorem endStatement_carries (continued : Continued k later) (related : k.inside rest rest') :
    k.Carries k.inside endStatement endStatement rest rest' := by
  apply Carries.space continued.aligned related
  intro related _ x reached parsed
  have same := atStatementEnd_alike continued related
  rw [atStatementEnd, atStatementEnd] at same
  dsimp only at parsed ⊢
  rw [same]
  split at parsed
  next ends =>
    cases parsed
    exact ⟨_, if_pos ends, List.suffix_rfl, related⟩
  next => cases parsed

theorem endsHere_carries (continued : Continued k later) (related : k.inside rest rest') :
    let endsHere : Parser Bool := fun ctx rest =>
      match endStatement ctx rest with
      | .ok _ _ => EStateM.Result.ok true rest
      | .error _ _ => EStateM.Result.ok false rest
    k.Carries k.inside endsHere endsHere rest rest' := by
  intro endsHere _ x reached parsed
  have answers (ctx : Context) (rest : Rest) : endsHere ctx rest = .ok (atStatementEnd ctx (ctx.skipSpace rest)) rest := by
    have shape : endStatement ctx rest = if atStatementEnd ctx (ctx.skipSpace rest) then .ok () (ctx.skipSpace rest)
        else Parser.fail (.expectedEnd (sight ctx (ctx.skipSpace rest))) ctx (ctx.skipSpace rest) := rfl
    simp only [endsHere, shape]
    cases atStatementEnd ctx (ctx.skipSpace rest) with
    | true => rfl
    | false => rfl
  rw [answers] at parsed
  cases parsed
  exact ⟨rest', by rw [answers, atStatementEnd_alike continued (continued.aligned.skipSpace related)],
    List.suffix_rfl, related⟩

theorem indented_carries (continued : Continued k later) (nested : NestedCarries k n n') (related : k.inside rest rest') :
    k.Carries k.after
      (do
        let _ ← Parser.advance
        let body ← Grammar.block n fun ctx rest => ctx.isStructural .dedent rest
        let _ ← Parser.advance
        return body)
      (do
        let _ ← Parser.advance
        let body ← Grammar.block n' fun ctx rest => ctx.isStructural .dedent rest
        let _ ← Parser.advance
        return body) rest rest' := by
  apply advance_carries continued related
  intro _ _ related
  apply (Grammar.block_carries continued.aligned continued.gathers nested related).bind
  intro body reached reached' _ ⟨related, _⟩
  apply advance_carries continued related
  exact fun _ _ related => Carries.pure _ related

theorem block_carries (continued : Continued k later) (nested : NestedCarries k n n') (related : k.inside rest rest') :
    k.Carries k.after (block n) (block n') rest rest' := by
  have aligned := continued.aligned
  apply Carries.space aligned related
  intro related
  apply Carries.isAt aligned related (by simp)
  apply Carries.optionally related
  case step =>
    intro colon more
    apply Carries.advanceAt aligned related (by simp) colon
    intro _ _ related
    apply Carries.space aligned related
    exact fun related => more _ _ related
  intro rest rest' related
  apply Carries.look
  case same => rw [continued.isStructural related]
  apply Carries.ite
  · intro _
    apply (nested.statement related).bind
    exact fun statement reached reached' _ related => Carries.pure _ related
  intro newline
  apply advance_carries continued related
  intro _ _ related
  rw [continued.after] at related
  rcases related with related | ⟨ended, -⟩
  · rw [← continued.inside] at related
    apply Carries.look
    case same => rw [continued.isStructural related]
    apply Carries.ite
    · intro _
      exact Carries.fails fun _ _ => nofun
    · exact fun _ => indented_carries continued nested related
  · -- The first stream ends where a block would start.
    have refused : (!k.ctx.isStructural .indent rest.tail) = true := by
      rw [← Context.isStructural_bare, ended]
      simp only [Context.isStructural, continued.aliases.1]
      rfl
    apply Carries.fails
    intro x reached parsed
    change (if (!k.ctx.isStructural .indent rest.tail) = true then _ else _ : Parser (List Stmt)) _ _ = _ at parsed
    rw [if_pos refused] at parsed
    cases parsed

theorem numberRule_carries (continued : Continued k later) (related : k.inside rest rest') :
    k.Carries k.inside (numberRule.parse n) (numberRule.parse n') rest rest' := by
  have digits : k.Carries k.inside (Parser.number true) (Parser.number true) rest rest' := by
    rw [continued.inside] at related ⊢
    obtain ⟨texts, before⟩ := related.spanNumber true
    exact Carries.number continued.counting.toSound (by rw [← Rest.text_bare, texts, Rest.text_bare]) before
  apply digits.bind
  intro text reached reached' _ related
  split
  · exact Carries.pure _ related
  · exact Carries.fail

theorem string_carries (continued : Continued k later) (related : k.inside rest rest') :
    k.Carries k.inside (Parser.string "\"") (Parser.string "\"") rest rest' := by
  apply Carries.string (continued.aligned.isAt related "\"" (by simp))
  intro here text reached parsed
  rw [continued.inside] at related ⊢
  exact (related.tail here).stringBody parsed

theorem stringRule_carries (continued : Continued k later) (related : k.inside rest rest') :
    k.Carries k.inside (stringRule.parse n) (stringRule.parse n') rest rest' := by
  apply (string_carries continued related).bind
  exact fun text reached reached' _ related => Carries.pure _ related

theorem constantRule_carries (continued : Continued k later) (related : k.inside rest rest') :
    k.Carries k.inside (constantRule.parse n) (constantRule.parse n') rest rest' := by
  apply Carries.wordThen continued.aligned related trivial
  intro related
  apply Carries.ite
  · exact fun _ => Carries.pure _ related
  intro _
  apply Carries.ite
  · exact fun _ => Carries.pure _ related
  · exact fun _ => Carries.pure _ related

theorem externRule_carries (continued : Continued k later) (nested : NestedCarries k n n') (related : k.inside rest rest') :
    k.Carries k.inside (externRule.parse n) (externRule.parse n') rest rest' := by
  have aligned := continued.aligned
  apply Carries.wordThen aligned related trivial
  intro related
  apply Carries.space aligned related
  intro related
  apply Carries.expect aligned related (by simp)
  intro _ _ related
  apply Carries.space aligned related
  intro related
  apply Carries.isAt aligned related (by simp)
  apply Carries.ite
  · exact fun _ => Carries.fail
  intro _
  apply Carries.location
  intro _ _
  apply (string_carries continued related).bind
  intro selector reached reached' _ related
  split
  · exact Carries.failAt
  · apply Carries.space aligned related
    intro related
    apply Carries.isAt aligned related (by simp)
    apply Carries.ite
    · intro comma
      apply Carries.advanceAt aligned related (by simp) comma
      intro _ _ related
      apply (arguments_carries continued nested related ")").bind
      exact fun args reached reached' _ related => Carries.pure _ related
    · intro _
      apply Carries.expect aligned related (by simp)
      exact fun _ _ related => Carries.pure _ related

theorem groupRule_carries (continued : Continued k later) (nested : NestedCarries k n n') (related : k.inside rest rest')
    (applies : groupRule.applies k.ctx rest = true) :
    k.Carries k.inside (groupRule.parse n) (groupRule.parse n') rest rest' := by
  have aligned := continued.aligned
  apply Carries.advanceAt aligned related (by simp) applies
  intro _ _ related
  apply (nested.expr lowest related).bind
  intro x reached reached' _ related
  apply Carries.space aligned related
  intro related
  apply Carries.expect aligned related (by simp)
  exact fun _ _ related => Carries.pure _ related

theorem arrayRule_carries (continued : Continued k later) (nested : NestedCarries k n n') (related : k.inside rest rest')
    (applies : arrayRule.applies k.ctx rest = true) :
    k.Carries k.inside (arrayRule.parse n) (arrayRule.parse n') rest rest' := by
  apply Carries.advanceAt continued.aligned related (by simp) applies
  intro _ _ related
  apply (arguments_carries continued nested related "]").bind
  exact fun items reached reached' _ related => Carries.pure _ related

theorem variableRule_carries (continued : Continued k later) (related : k.inside rest rest') :
    k.Carries k.inside (variableRule.parse n) (variableRule.parse n') rest rest' := by
  apply (name_carries continued related).bind
  exact fun text reached reached' _ related => Carries.pure _ related

theorem compareRule_carries (continued : Continued k later) (nested : NestedCarries k n n')
    (related : k.inside rest rest') (left : Expr) (applies : compareRule.applies k.ctx rest = true) :
    k.Carries k.inside (compareRule.parse n left) (compareRule.parse n' left) rest rest' := by
  have aligned := continued.aligned
  apply Carries.advance aligned related (by simp) applies
  intro op op' text related
  rw [text]
  apply (nested.expr _ related).bind
  intro right reached reached' _ related
  apply Carries.space aligned related
  intro related
  apply Carries.look
  case same => rw [Carries.isAtAny aligned related (by simp)]
  apply Carries.ite
  · exact fun _ => Carries.fails fun _ _ => nofun
  · exact fun _ => Carries.pure _ related

theorem callRule_carries (continued : Continued k later) (nested : NestedCarries k n n') (related : k.inside rest rest')
    (left : Expr) (applies : callRule.applies k.ctx rest = true) :
    k.Carries k.inside (callRule.parse n left) (callRule.parse n' left) rest rest' := by
  apply Carries.advanceAt continued.aligned related (by simp) applies
  intro _ _ related
  apply (arguments_carries continued nested related ")").bind
  exact fun args reached reached' _ related => Carries.pure _ related

theorem indexRule_carries (continued : Continued k later) (nested : NestedCarries k n n') (related : k.inside rest rest')
    (left : Expr) (applies : indexRule.applies k.ctx rest = true) :
    k.Carries k.inside (indexRule.parse n left) (indexRule.parse n' left) rest rest' := by
  have aligned := continued.aligned
  apply Carries.advanceAt aligned related (by simp) applies
  intro _ _ related
  apply (nested.expr lowest related).bind
  intro position reached reached' _ related
  apply Carries.space aligned related
  intro related
  apply Carries.expect aligned related (by simp)
  exact fun _ _ related => Carries.pure _ related

theorem memoizationRule_carries (continued : Continued k later) (related : k.inside rest rest')
    (applies : memoizationRule.applies k.ctx rest = true) :
    k.Carries k.inside (memoizationRule.parse n) (memoizationRule.parse n') rest rest' := by
  have aligned := continued.aligned
  have equals := (keyword_of_followedBy applies).2
  apply Carries.wordThen aligned related trivial
  intro related
  apply Carries.space aligned related
  intro related
  apply Carries.advanceAt aligned related (by simp) equals
  intro _ _ related
  apply Carries.space aligned related
  intro related
  apply Carries.look
  case same => rw [Rest.isAnyKeyword, aligned.word related, Rest.isAnyKeyword]
  apply Carries.ite
  · intro _
    apply Carries.wordThen aligned related trivial
    intro related
    apply (endStatement_carries continued related).bind
    exact fun _ reached reached' _ related => Carries.pure _ related
  · intro _
    apply Carries.fails
    intro x reached parsed
    cases parsed

theorem letRule_carries (continued : Continued k later) (nested : NestedCarries k n n') (related : k.inside rest rest') :
    k.Carries k.inside (letRule.parse n) (letRule.parse n') rest rest' := by
  have aligned := continued.aligned
  apply Carries.wordThen aligned related trivial
  intro related
  apply Carries.space aligned related
  intro related
  apply Carries.look
  case same => rw [Rest.isKeyword, aligned.word related, Rest.isKeyword]
  apply Carries.optionally related
  case step =>
    intro _ more
    apply Carries.wordThen aligned related trivial
    intro related
    apply Carries.space aligned related
    exact fun related => more _ _ related
  intro rest rest' related
  apply (name_carries continued related).bind
  intro target reached reached' _ related
  apply Carries.space aligned related
  intro related
  apply Carries.isAt aligned related (by simp)
  apply Carries.optionally related
  case step =>
    intro colon more
    apply Carries.advanceAt aligned related (by simp) colon
    intro _ _ related
    apply Carries.space aligned related
    intro related
    apply (name_carries continued related).bind
    intro _ reached reached' _ related
    apply Carries.space aligned related
    exact fun related => more _ _ related
  intro rest rest' related
  apply Carries.expect aligned related (by simp)
  intro _ _ related
  apply (nested.expr lowest related).bind
  intro x reached reached' _ related
  apply (endStatement_carries continued related).bind
  exact fun _ reached reached' _ related => Carries.pure _ related

theorem Continued.beforeBranch (continued : Continued k later) (related : k.after rest rest') :
    k.inside (beforeBranch k.ctx rest) (beforeBranch k.walk.ctx rest') ∨
      Rest.bare (beforeBranch k.ctx rest) = [Lexeme.sign ({} : Aliases).endOfInput] ∧
        Rest.bare (beforeBranch k.walk.ctx rest') = Lumen.beforeBranch k.walk.ctx later := by
  rw [continued.after] at related
  rw [continued.inside]
  unfold Lumen.beforeBranch
  rw [continued.aliases.1, continued.aliases.2]
  exact related.dropWhile fun _ => rfl

theorem branch_alike (continued : Continued k later) (related : k.after rest rest') {keyword : String}
    (known : keyword ∈ branchWords) :
    Rest.isKeyword keyword (beforeBranch k.walk.ctx rest') = Rest.isKeyword keyword (beforeBranch k.ctx rest) ∧
      (Rest.isKeyword keyword (beforeBranch k.ctx rest) = true →
        k.inside (beforeBranch k.ctx rest) (beforeBranch k.walk.ctx rest')) := by
  rcases continued.beforeBranch related with before | ⟨ended, goes⟩
  · exact ⟨by rw [Rest.isKeyword, continued.aligned.word before, Rest.isKeyword], fun _ => before⟩
  · have words : ∀ keyword ∈ branchWords, keyword ≠ "" := by decide
    have absent : Rest.isKeyword keyword [Lexeme.sign ({} : Aliases).endOfInput] = false :=
      beq_eq_false_iff_ne.2 (Ne.symm (words keyword known))
    rw [← Rest.isKeyword_bare, goes, continued.branchless keyword known, ← Rest.isKeyword_bare, ended, absent]
    exact ⟨rfl, fun found => absurd found Bool.false_ne_true⟩

theorem branch_carries {p p' : Parser α}
    (carries : k.Carries R p p' (beforeBranch k.ctx rest) (beforeBranch k.walk.ctx rest')) :
    k.Carries R (fun ctx rest => p ctx (beforeBranch ctx rest)) (fun ctx rest => p' ctx (beforeBranch ctx rest))
      rest rest' := by
  have behind : beforeBranch k.walk.ctx rest' <:+ rest' := List.dropWhile_suffix _
  intro within x reached parsed
  obtain ⟨reached', parsed', further, related⟩ := carries (behind.trans within) x reached parsed
  exact ⟨reached', parsed', further.trans behind, related⟩

theorem branchWord_carries (continued : Continued k later)
    (before : k.inside (beforeBranch k.ctx rest) (beforeBranch k.walk.ctx rest')) :
    k.Carries k.inside (fun ctx rest => EStateM.Result.ok () (beforeBranch ctx rest).afterWord)
      (fun ctx rest => EStateM.Result.ok () (beforeBranch ctx rest).afterWord) rest rest' := by
  intro _ x reached parsed
  cases parsed
  have behind : (beforeBranch k.walk.ctx rest').afterWord <:+ rest' :=
    (List.dropWhile_suffix _).trans (List.dropWhile_suffix _)
  exact ⟨_, rfl, behind, continued.aligned.afterWord before trivial⟩

theorem branches_carries (continued : Continued k later) (nested : NestedCarries k n n') (fuel fuel' : Nat)
    (related : k.inside rest rest') (fueled : rest'.length < fuel') (word : Rest.word rest ≠ "") :
    k.Carries k.after (branches n fuel) (branches n' fuel') rest rest' := by
  have aligned := continued.aligned
  induction fuel generalizing fuel' rest rest' with
  | zero => exact Carries.fail
  | succ fuel ih =>
    obtain ⟨fuel', rfl⟩ := Nat.exists_eq_succ_of_ne_zero (Nat.ne_of_gt (Nat.zero_lt_of_lt fueled))
    have fewer : (Rest.afterWord rest').length < fuel' := by
      have word' : Rest.word rest' ≠ "" := by rwa [aligned.word related]
      have lengths := Moves.length_afterWord_lt word'
      omega
    apply Carries.wordThen aligned related trivial
    intro related
    apply (nested.expr lowest related).bind
    intro test rest₁ rest₁' behind₁ related
    apply (block_carries continued nested related).bind
    intro yes rest₂ rest₂' behind₂ related
    have alike (keyword : String) (known : keyword ∈ branchWords) := branch_alike continued related known
    have elif := alike "elif" (by decide)
    have else_ := alike "else" (by decide)
    apply Carries.look
    case same => exact elif.1
    apply Carries.ite
    · intro again
      have related := elif.2 again
      have shorter : (beforeBranch k.walk.ctx rest₂').length < fuel' := by
        have behind₃ : beforeBranch k.walk.ctx rest₂' <:+ rest₂' := List.dropWhile_suffix _
        have lengths := (behind₃.trans (behind₂.trans behind₁)).length_le
        omega
      have named := Moves.word_ne_of_isKeyword (by decide) again
      apply (branch_carries (ih fuel' related shorter named)).bind
      exact fun no reached reached' _ related => Carries.pure _ related
    intro _
    apply Carries.look
    case same => exact else_.1
    apply Carries.ite
    · intro other
      apply (branchWord_carries continued (else_.2 other)).bind
      intro _ rest₃ rest₃' behind₃ related
      apply (Carries.skipSpace aligned related).bind
      intro _ rest₄ rest₄' behind₄ related
      apply Carries.look
      case same => rw [Rest.isKeyword, aligned.word related, Rest.isKeyword]
      apply Carries.ite
      · intro again
        have shorter : rest₄'.length < fuel' := by
          have lengths := (behind₄.trans (behind₃.trans (behind₂.trans behind₁))).length_le
          omega
        have named := Moves.word_ne_of_isKeyword (by decide) again
        apply (ih fuel' related shorter named).bind
        exact fun no reached reached' _ related => Carries.pure _ related
      · intro _
        apply (block_carries continued nested related).bind
        exact fun no reached reached' _ related => Carries.pure _ related
    · exact fun _ => Carries.pure _ related

theorem ifRule_carries (continued : Continued k later) (nested : NestedCarries k n n') (related : k.inside rest rest')
    (applies : ifRule.applies k.ctx rest = true) :
    k.Carries k.after (ifRule.parse n) (ifRule.parse n') rest rest' := by
  have word : Rest.word rest ≠ "" := Moves.word_ne_of_isKeyword (by decide) applies
  have carries : k.Carries k.after (branches n (rest.length + 1)) (branches n' (rest'.length + 1)) rest rest' :=
    branches_carries continued nested _ _ related (Nat.lt_succ_self _) word
  intro within x reached parsed
  exact carries within x reached parsed

theorem whileRule_carries (continued : Continued k later) (nested : NestedCarries k n n') (related : k.inside rest rest') :
    k.Carries k.after (whileRule.parse n) (whileRule.parse n') rest rest' := by
  apply Carries.wordThen continued.aligned related trivial
  intro related
  apply (nested.expr lowest related).bind
  intro test reached reached' _ related
  apply (block_carries continued nested related).bind
  exact fun body reached reached' _ related => Carries.pure _ related

theorem forRule_carries (continued : Continued k later) (nested : NestedCarries k n n') (related : k.inside rest rest') :
    k.Carries k.after (forRule.parse n) (forRule.parse n') rest rest' := by
  have aligned := continued.aligned
  apply Carries.wordThen aligned related trivial
  intro related
  apply Carries.space aligned related
  intro related
  apply (name_carries continued related).bind
  intro target reached reached' _ related
  apply Carries.space aligned related
  intro related
  apply (Carries.expectKeyword aligned related (by simp) fun _ => trivial).bind
  intro _ reached reached' _ related
  apply (nested.expr lowest related).bind
  intro items reached reached' _ related
  apply (block_carries continued nested related).bind
  exact fun body reached reached' _ related => Carries.pure _ related

theorem wordRule_carries (continued : Continued k later) (related : k.inside rest rest') (keyword : String)
    (statement : Stmt) :
    k.Carries k.inside ((wordRule keyword statement).parse n) ((wordRule keyword statement).parse n') rest rest' := by
  apply Carries.wordThen continued.aligned related trivial
  intro related
  apply (endStatement_carries continued related).bind
  exact fun _ reached reached' _ related => Carries.pure _ related

theorem returnRule_carries (continued : Continued k later) (nested : NestedCarries k n n')
    (related : k.inside rest rest') :
    k.Carries k.inside (returnRule.parse n) (returnRule.parse n') rest rest' := by
  have aligned := continued.aligned
  apply Carries.wordThen aligned related trivial
  intro related
  apply Carries.space aligned related
  intro related
  apply (endsHere_carries continued related).bind
  intro ends reached reached' _ related
  apply Carries.ite
  · exact fun _ => Carries.pure _ related
  · intro _
    apply (nested.expr lowest related).bind
    intro x reached reached' _ related
    apply (endStatement_carries continued related).bind
    exact fun _ reached reached' _ related => Carries.pure _ related

theorem parameter_carries (continued : Continued k later) (known : List String) (related : k.inside rest rest') :
    k.Carries k.inside (parameter known) (parameter known) rest rest' := by
  apply Carries.location
  intro _ _
  apply (name_carries continued related).bind
  intro param reached reached' _ related
  apply Carries.ite
  · exact fun _ => Carries.fails fun _ _ => nofun
  · exact fun _ => Carries.pure _ related

theorem fnRule_carries (continued : Continued k later) (nested : NestedCarries k n n') (related : k.inside rest rest') :
    k.Carries k.after (fnRule.parse n) (fnRule.parse n') rest rest' := by
  have aligned := continued.aligned
  apply Carries.wordThen aligned related trivial
  intro related
  apply Carries.space aligned related
  intro related
  apply (name_carries continued related).bind
  intro target reached reached' _ related
  apply Carries.space aligned related
  intro related
  apply Carries.expect aligned related (by simp)
  intro _ _ related
  apply (Carries.list aligned (by simp) (by simp)
    (fun known _ _ related => parameter_carries continued known related) related).bind
  intro params reached reached' _ related
  apply (block_carries continued nested related).bind
  exact fun body reached reached' _ related => Carries.pure _ related

theorem outputRule_carries (continued : Continued k later) (nested : NestedCarries k n n') (related : k.inside rest rest')
    {word capability : String} (applies : (outputRule word capability).applies k.ctx rest = true) :
    k.Carries k.inside ((outputRule word capability).parse n) ((outputRule word capability).parse n') rest rest' := by
  have aligned := continued.aligned
  have opens := (keyword_of_followedBy applies).2
  apply Carries.wordThen aligned related trivial
  intro related
  apply Carries.space aligned related
  intro related
  apply Carries.advanceAt aligned related (by simp) opens
  intro _ _ related
  apply (arguments_carries continued nested related ")").bind
  intro args reached reached' _ related
  apply (endStatement_carries continued related).bind
  exact fun _ reached reached' _ related => Carries.pure _ related

theorem pushRule_carries (continued : Continued k later) (nested : NestedCarries k n n') (related : k.inside rest rest')
    (applies : pushRule.applies k.ctx rest = true) :
    k.Carries k.inside (pushRule.parse n) (pushRule.parse n') rest rest' := by
  have aligned := continued.aligned
  have opens := (keyword_of_followedBy applies).2
  apply Carries.wordThen aligned related trivial
  intro related
  apply Carries.space aligned related
  intro related
  apply Carries.location
  intro _ _
  apply Carries.advanceAt aligned related (by simp) opens
  intro _ _ related
  apply (arguments_carries continued nested related ")").bind
  intro args reached reached' _ related
  split
  · apply (endStatement_carries continued related).bind
    exact fun _ reached reached' _ related => Carries.pure _ related
  · exact Carries.failAt

theorem assignRule_carries (continued : Continued k later) (nested : NestedCarries k n n')
    (related : k.inside rest rest') :
    k.Carries k.inside (assignRule.parse n) (assignRule.parse n') rest rest' := by
  have aligned := continued.aligned
  apply Carries.location
  intro _ _
  apply (nested.expr lowest related).bind
  intro x reached reached' _ related
  apply Carries.space aligned related
  intro related
  apply Carries.isAt aligned related (by simp)
  apply Carries.ite
  · intro _
    apply (endStatement_carries continued related).bind
    exact fun _ reached reached' _ related => Carries.pure _ related
  · intro equals
    apply Carries.advanceAt aligned related (by simp) (by simpa using equals)
    intro _ _ related
    apply (nested.expr lowest related).bind
    intro value reached reached' _ related
    split
    · apply (endStatement_carries continued related).bind
      exact fun _ reached reached' _ related => Carries.pure _ related
    · exact Carries.failAt

theorem operand_applies (continued : Continued k later) (related : k.inside rest rest') :
    ∀ rule ∈ grammar.operands, rule.applies k.walk.ctx rest' = rule.applies k.ctx rest := by
  intro rule member
  have aligned := continued.aligned
  have at_ (text : String) : Rest.isAt text rest' = Rest.isAt text rest := aligned.isAt related text (by simp)
  have word := aligned.word related
  have keyword (keyword : String) : Rest.isKeyword keyword rest' = Rest.isKeyword keyword rest := by
    rw [Rest.isKeyword, word, Rest.isKeyword]
  cases isOperand rule member with
  | number => exact aligned.isDigitStart related
  | string => exact at_ "\""
  | constant => simp only [constantRule, Rest.isAnyKeyword, word]
  | hostCall => exact keyword "extern"
  | not => exact keyword "not"
  | negate => exact at_ "-"
  | group => exact at_ "("
  | array => exact at_ "["
  | var => simp only [variableRule, word, aligned.isNameStart related]

theorem operator_applies (continued : Continued k later) (related : k.inside rest rest') :
    ∀ rule ∈ grammar.operators, rule.applies k.walk.ctx rest' = rule.applies k.ctx rest := by
  intro rule member
  have aligned := continued.aligned
  have at_ (text : String) : Rest.isAt text rest' = Rest.isAt text rest := aligned.isAt related text (by simp)
  have any (texts : List String) : Rest.isAtAny texts rest' = Rest.isAtAny texts rest :=
    Carries.isAtAny aligned related (by simp)
  have keyword (keyword : String) : Rest.isKeyword keyword rest' = Rest.isKeyword keyword rest := by
    rw [Rest.isKeyword, aligned.word related, Rest.isKeyword]
  cases isOperator rule member with
  | pipe => exact at_ "|>"
  | range => exact at_ ".."
  | or => exact keyword "or"
  | and => exact keyword "and"
  | compare | sum | product | power => exact any _
  | call => exact at_ "("
  | index => exact at_ "["

theorem followedBy_alike (continued : Continued k later) (related : k.inside rest rest') (word next : String) :
    followedBy word next k.walk.ctx rest' = followedBy word next k.ctx rest := by
  have aligned := continued.aligned
  rw [followedBy, Rest.isKeyword, aligned.word related,
    aligned.isAt (aligned.skipSpace (aligned.afterWord related trivial)) next (by simp), followedBy, Rest.isKeyword]

theorem statement_applies (continued : Continued k later) (related : k.inside rest rest') :
    ∀ rule ∈ grammar.statements, rule.applies k.walk.ctx rest' = rule.applies k.ctx rest := by
  intro rule member
  have aligned := continued.aligned
  have keyword (keyword : String) : Rest.isKeyword keyword rest' = Rest.isKeyword keyword rest := by
    rw [Rest.isKeyword, aligned.word related, Rest.isKeyword]
  have followed := followedBy_alike continued related
  cases isStatement rule member with
  | memoize => exact followed "MEMOIZATION" "="
  | define => exact keyword "let"
  | cond => exact keyword "if"
  | whileLoop => simp only [whileRule, Rest.isAnyKeyword, aligned.word related]
  | forEach => exact keyword "for"
  | breakLoop => exact keyword "break"
  | continueLoop => exact keyword "continue"
  | returnWith => exact keyword "return"
  | declare => exact keyword "fn"
  | print => exact followed "print" "("
  | write => exact followed "write" "("
  | push => exact followed "push" "("
  | assign =>
    simp only [assignRule]
    rw [aligned.atEnd related]
    rw [continued.inside] at related
    rw [related.synthetic k.ctx k.walk.ctx]

theorem operand_carries (continued : Continued k later) (nested : NestedCarries k n n') (related : k.inside rest rest') :
    ∀ rule ∈ grammar.operands, rule.applies k.ctx rest = true →
      k.Carries k.inside (rule.parse n) (rule.parse n') rest rest' := by
  have aligned := continued.aligned
  intro rule member applies
  cases isOperand rule member with
  | number => exact numberRule_carries continued related
  | string => exact stringRule_carries continued related
  | constant => exact constantRule_carries continued related
  | hostCall => exact externRule_carries continued nested related
  | not => exact Grammar.worded_carries aligned nested related trivial
  | negate => exact Grammar.sign_carries aligned nested related applies (by simp)
  | group => exact groupRule_carries continued nested related applies
  | array => exact arrayRule_carries continued nested related applies
  | var => exact variableRule_carries continued related

theorem operator_carries (continued : Continued k later) (nested : NestedCarries k n n') (left : Expr)
    (related : k.inside rest rest') :
    ∀ rule ∈ grammar.operators, rule.applies k.ctx rest = true →
      k.Carries k.inside (rule.parse n left) (rule.parse n' left) rest rest' := by
  have aligned := continued.aligned
  intro rule member applies
  cases isOperator rule member with
  | pipe | range => exact Grammar.sign_carries aligned nested related applies (by simp)
  | or | and => exact Grammar.worded_carries aligned nested related trivial
  | compare => exact compareRule_carries continued nested related left applies
  | sum | product | power =>
    exact Grammar.signed_carries aligned nested related (f := fun op => .binary (ArithOp.ofSymbol op) left)
      applies (by simp)
  | call => exact callRule_carries continued nested related left applies
  | index => exact indexRule_carries continued nested related left applies

theorem statement_carries (continued : Continued k later) (nested : NestedCarries k n n')
    (related : k.inside rest rest') :
    ∀ rule ∈ grammar.statements, rule.applies k.ctx rest = true →
      k.Carries k.after (rule.parse n) (rule.parse n') rest rest' := by
  have widen {α : Type} {p p' : Parser α} (carries : k.Carries k.inside p p' rest rest') :
      k.Carries k.after p p' rest rest' :=
    carries.weaken fun _ _ => continued.aligned.outside
  intro rule member applies
  cases isStatement rule member with
  | memoize => exact widen (memoizationRule_carries continued related applies)
  | define => exact widen (letRule_carries continued nested related)
  | cond => exact ifRule_carries continued nested related applies
  | whileLoop => exact whileRule_carries continued nested related
  | forEach => exact forRule_carries continued nested related
  | breakLoop => exact widen (wordRule_carries continued related "break" .breakLoop)
  | continueLoop => exact widen (wordRule_carries continued related "continue" .continueLoop)
  | returnWith => exact widen (returnRule_carries continued nested related)
  | declare => exact fnRule_carries continued nested related
  | print | write => exact widen (outputRule_carries continued nested related applies)
  | push => exact widen (pushRule_carries continued nested related applies)
  | assign => exact widen (assignRule_carries continued nested related)

theorem grammar_carrying (continued : Continued k later) : grammar.Carrying k where
  operandApplies rule member _ _ related := operand_applies continued related rule member
  operand rule member _ _ nested _ _ related := operand_carries continued nested related rule member
  operatorApplies rule member _ _ related := operator_applies continued related rule member
  operator rule member _ _ nested left _ _ related := operator_carries continued nested left related rule member
  statementApplies rule member _ _ related := statement_applies continued related rule member
  statement rule member _ _ nested _ _ related := statement_carries continued nested related rule member

end ScriptKernel.Lumen
