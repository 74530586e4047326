import ScriptKernel.Proofs.MiniRust.Forks

/-!
MiniRust's rules on streams that differ in trivia. Wherever trivia may stand a
rule skips them before it looks at the next lexeme, so that at alike cursors it
applies on both sides or on neither, and reads the same.
-/

namespace ScriptKernel.MiniRust

open ScriptKernel.Transfer (Carries Aligned)
open ScriptKernel.Grammar (NestedCarries)
open ScriptKernel.Walk (Moves)

variable {k : Transfer} {forks : List Fork} {rest rest' : Rest} {n n' : Nested} {R : Rest → Rest → Prop} {α β : Type}

theorem arguments_carries (relaid : Relaid k forks) (nested : NestedCarries k n n') (related : k.inside rest rest') :
    k.Carries k.inside (arguments n) (arguments n') rest rest' :=
  Carries.list relaid.aligned (relaid.plain (by decide)) (relaid.plain (by decide))
    (fun _ _ _ related => nested.expr lowest related) related

theorem name_carries (relaid : Relaid k forks) (related : k.inside rest rest') : k.Carries k.inside name name rest rest' :=
  Carries.name relaid.aligned related reserved fun named free =>
    relaid.free named fun declares => free ((by decide : ["let", "fn"] ⊆ reserved) declares)

theorem block_carries (relaid : Relaid k forks) (nested : NestedCarries k n n') (related : k.inside rest rest') :
    k.Carries k.inside (block n) (block n') rest rest' := by
  have aligned := relaid.aligned
  apply Carries.space aligned related
  intro related
  apply Carries.expect aligned related (relaid.plain (by decide))
  intro _ _ related
  have gathers : Grammar.Gathers k fun _ rest => Rest.isAt "\x7d" rest :=
    relaid.gathers fun related => aligned.isAt related "\x7d" (by decide)
  apply (Grammar.block_carries aligned gathers nested (aligned.outside related)).bind
  intro body reached reached' _ ⟨related, stopped⟩
  apply Carries.advanceAt aligned related (relaid.plain (by decide)) stopped
  exact fun _ _ related => Carries.pure _ related

theorem string_carries (relaid : Relaid k forks) (related : k.inside rest rest') :
    k.Carries k.inside (Parser.string "\"") (Parser.string "\"") rest rest' := by
  apply Carries.string (relaid.aligned.isAt related "\"" (by decide))
  intro here text reached parsed
  rw [relaid.inside] at related ⊢
  obtain ⟨fork, member, alike⟩ := related
  rcases alike.tailAt (by decide) here with behind | ⟨start, -⟩
  · obtain ⟨reached', parsed', suffix, alike'⟩ := behind.stringBody k.walk.ctx rfl "" parsed
    exact ⟨reached', parsed', suffix, fork, member, alike'⟩
  · exact absurd start.symm (fork.start_ne (by decide))

theorem isBang_alike (relaid : Relaid k forks) (related : k.inside rest rest') {keyword : String}
    (other : Ordinary keyword) : isBang keyword rest' = isBang keyword rest := by
  have aligned := relaid.aligned
  have word : Rest.isKeyword keyword rest' = Rest.isKeyword keyword rest := by
    rw [Rest.isKeyword, aligned.word related, Rest.isKeyword]
  rw [isBang, isBang, word]
  cases here : Rest.isKeyword keyword rest with
  | false => rfl
  | true => rw [aligned.isAt (aligned.afterWord related (relaid.free_keyword other here)) "!" (by decide)]

theorem bangArguments_carries (relaid : Relaid k forks) (nested : NestedCarries k n n') (related : k.inside rest rest')
    {keyword : String} (other : Ordinary keyword) (bang : isBang keyword rest = true) :
    k.Carries k.inside (bangArguments n) (bangArguments n') rest rest' := by
  have aligned := relaid.aligned
  apply Carries.wordThen aligned related (relaid.free_keyword other (word_of_isBang bang).1)
  intro related
  apply Carries.advanceAt aligned related (relaid.plain (by decide)) (word_of_isBang bang).2
  intro _ _ related
  apply Carries.space aligned related
  intro related
  apply Carries.expect aligned related (relaid.plain (by decide))
  intro _ _ related
  apply (arguments_carries relaid nested related).bind
  intro args reached reached' _ related
  split
  · exact Carries.pure _ related
  · exact Carries.pure _ related
  · exact Carries.pure _ related
  · exact Carries.fail

theorem block_skipSpace (relaid : Relaid k forks) : block n k.ctx (k.ctx.skipSpace rest) = block n k.ctx rest := by
  change (Parser.expect ["\x7b"] >>= _) k.ctx (k.ctx.skipSpace (k.ctx.skipSpace rest)) = _
  rw [relaid.skipSpace_idem]
  rfl

theorem intRule_carries (relaid : Relaid k forks) (related : k.inside rest rest') :
    k.Carries k.inside (intRule.parse n) (intRule.parse n') rest rest' := by
  have digits : k.Carries k.inside (Parser.number false) (Parser.number false) rest rest' := by
    rw [relaid.inside] at related ⊢
    obtain ⟨fork, member, alike⟩ := related
    obtain ⟨texts, behind⟩ := alike.number
    exact Carries.number relaid.lenient.toSound texts ⟨fork, member, behind⟩
  apply digits.bind
  intro text reached reached' _ related
  apply Carries.ite
  · exact fun _ => Carries.pure _ related
  · exact fun _ => Carries.fail

theorem strRule_carries (relaid : Relaid k forks) (related : k.inside rest rest') :
    k.Carries k.inside (strRule.parse n) (strRule.parse n') rest rest' := by
  apply (string_carries relaid related).bind
  exact fun text reached reached' _ related => Carries.pure _ related

theorem flagRule_carries (relaid : Relaid k forks) (related : k.inside rest rest')
    (applies : flagRule.applies k.ctx rest = true) :
    k.Carries k.inside (flagRule.parse n) (flagRule.parse n') rest rest' := by
  have flag : Rest.word rest ∈ ["true", "false"] := by simpa [flagRule, Rest.isAnyKeyword] using applies
  have other : ∀ word ∈ ["true", "false"], Ordinary word := by decide
  apply Carries.wordThen relaid.aligned related (relaid.free_keyword (other _ flag) (by simp [Rest.isKeyword]))
  exact fun related => Carries.pure _ related

theorem groupRule_carries (relaid : Relaid k forks) (nested : NestedCarries k n n') (related : k.inside rest rest')
    (applies : groupRule.applies k.ctx rest = true) :
    k.Carries k.inside (groupRule.parse n) (groupRule.parse n') rest rest' := by
  have aligned := relaid.aligned
  apply Carries.advanceAt aligned related (relaid.plain (by decide)) applies
  intro _ _ related
  apply (nested.expr lowest related).bind
  intro x reached reached' _ related
  apply Carries.space aligned related
  intro related
  apply Carries.expect aligned related (relaid.plain (by decide))
  exact fun _ _ related => Carries.pure _ related

theorem variableRule_carries (relaid : Relaid k forks) (related : k.inside rest rest') :
    k.Carries k.inside (variableRule.parse n) (variableRule.parse n') rest rest' := by
  apply (name_carries relaid related).bind
  exact fun text reached reached' _ related => Carries.pure _ related

theorem callRule_carries (relaid : Relaid k forks) (nested : NestedCarries k n n') (related : k.inside rest rest')
    (left : Expr) (applies : callRule.applies k.ctx rest = true) :
    k.Carries k.inside (callRule.parse n left) (callRule.parse n' left) rest rest' := by
  apply Carries.advanceAt relaid.aligned related (relaid.plain (by decide)) applies
  intro _ _ related
  apply (arguments_carries relaid nested related).bind
  exact fun args reached reached' _ related => Carries.pure _ related

theorem letRule_carries (relaid : Relaid k forks) (nested : NestedCarries k n n') (related : k.inside rest rest')
    (applies : letRule.applies k.ctx rest = true) :
    k.Carries k.inside (letRule.parse n) (letRule.parse n') rest rest' := by
  have value (rest rest' : Rest) (related : k.inside rest rest') (target : String) :
      k.Carries k.inside
        (Parser.expect ["="] >>= fun _ => n.expr lowest >>= fun x => pure (Stmt.define target x))
        (Parser.expect ["="] >>= fun _ => n'.expr lowest >>= fun x => pure (Stmt.define target x)) rest rest' := by
    apply Carries.expect relaid.aligned related (relaid.plain (by decide))
    intro _ _ related
    apply (nested.expr lowest related).bind
    exact fun x reached reached' _ related => Carries.pure _ related
  have here : Rest.isKeyword "let" rest = true := applies
  apply relaid.keyword_carries related here rfl
  intro regions annotates related
  have laid := relaid.reading (regions ++ forks)
  have aligned := laid.aligned
  change (reading k (regions ++ forks)).Carries _ _ _ _ _
  apply Carries.space aligned related
  intro related
  apply Carries.look
  case same => rw [Rest.isKeyword, aligned.word related, Rest.isKeyword]
  apply Carries.optionally related
  case step =>
    intro mutable more
    apply Carries.wordThen aligned related (relaid.free_within annotates (by decide) mutable)
    intro related
    apply Carries.space aligned related
    exact fun related => more _ _ related
  intro rest rest' related
  change k.Carries _ _ _ _ _
  apply (relaid.name_carries annotates related).bind
  intro target reached reached' _ related
  rcases related with related | slot
  · change (reading k (regions ++ forks)).Carries _ _ _ _ _
    apply Carries.space aligned related
    intro related
    apply Carries.isAt aligned related (by decide)
    apply Carries.optionally related
    case step =>
      intro colon more
      apply laid.type_carries related (by decide) colon
      intro reached reached' related
      apply Carries.space aligned related
      exact fun related => more _ _ related
    intro rest rest' related
    by_cases sign : Rest.isAt "=" rest = true
    · exact value rest rest' (relaid.stop_inside annotates (by decide) related sign) target
    · exact Carries.unexpected sign
  · apply slot.carries relaid.toLaid (by decide)
    intro reached' related
    exact Carries.spaceBehind relaid.aligned related fun related => value _ _ related target

theorem parameter_carries (relaid : Relaid k forks) {regions : List Fork}
    (annotates : ∀ region ∈ regions, Region k region ")" [",", ")"]) (known : List String)
    (related : Beside (regions ++ forks) rest rest') :
    k.Carries (fun rest rest' => Beside (regions ++ forks) (k.ctx.skipSpace rest) (k.walk.ctx.skipSpace rest'))
      (parameter known) (parameter known) rest rest' := by
  have laid := relaid.reading (regions ++ forks)
  have aligned := laid.aligned
  apply Carries.location
  intro _ _
  apply (relaid.name_carries annotates related).bind
  intro param reached reached' _ related
  apply Carries.ite
  · exact fun _ => Carries.failAt
  intro _
  rcases related with related | slot
  · change (reading k (regions ++ forks)).Carries _ _ _ _ _
    apply Carries.space aligned related
    intro related
    apply Carries.isAt aligned related (by decide)
    apply Carries.optionally related
    case step =>
      intro colon more
      exact laid.type_carries related (by decide) colon more
    exact fun rest rest' related => Carries.pure _ (aligned.skipSpace related)
  · apply slot.carries relaid.toLaid (by decide)
    intro reached' related
    apply Carries.pure
    have skipped := relaid.aligned.skipSpace related
    rw [relaid.inside] at skipped
    obtain ⟨fork, member, alike⟩ := skipped
    rw [relaid.skipSpace_idem]
    exact ⟨fork, List.mem_append_right _ member, alike⟩

theorem parameters_carries (relaid : Relaid k forks) {regions : List Fork}
    (annotates : ∀ region ∈ regions, Region k region ")" [",", ")"]) (related : Beside (regions ++ forks) rest rest') :
    k.Carries (fun rest rest' => k.inside rest rest' ∨ Annotated k "->" ["\x7b"] rest rest')
      (Parser.list "," ")" parameter) (Parser.list "," ")" parameter) rest rest' := by
  have aligned := (relaid.reading (regions ++ forks)).aligned
  change (reading k (regions ++ forks)).Carries _ _ _ _ _
  apply Carries.listTo aligned (turns_plain (by decide) (by decide)) (by decide)
  · exact fun known _ _ related => parameter_carries relaid annotates known related
  · intro rest rest' related paren
    obtain inside | ⟨region, member, parts⟩ := relaid.stop_cases annotates (by decide) related paren
    · exact Or.inl (relaid.aligned.tail inside ")" (relaid.plain (by decide)) paren)
    · exact Or.inr ((annotates region member).paren parts paren)
  · exact related

theorem fnRule_carries (relaid : Relaid k forks) (nested : NestedCarries k n n') (related : k.inside rest rest')
    (applies : fnRule.applies k.ctx rest = true) :
    k.Carries k.inside (fnRule.parse n) (fnRule.parse n') rest rest' := by
  have code (rest rest' : Rest) (related : k.inside rest rest') (target : String) (params : List String) :
      k.Carries k.inside
        (block n >>= fun body => pure (Stmt.declare 0 target params body))
        (block n' >>= fun body => pure (Stmt.declare 0 target params body)) rest rest' := by
    apply (block_carries relaid nested related).bind
    exact fun body reached reached' _ related => Carries.pure _ related
  have here : Rest.isKeyword "fn" rest = true := applies
  apply relaid.keyword_carries related here rfl
  intro regions annotates related
  have laid := relaid.reading (regions ++ forks)
  have aligned := laid.aligned
  change (reading k (regions ++ forks)).Carries _ _ _ _ _
  apply Carries.space aligned related
  intro related
  change k.Carries _ _ _ _ _
  apply (relaid.name_carries annotates related).bind
  intro target reached reached' _ related
  obtain related | slot := related
  case inr => exact slot.unexpected (by decide)
  change (reading k (regions ++ forks)).Carries _ _ _ _ _
  apply Carries.space aligned related
  intro related
  apply Carries.expect aligned related (turns_plain (by decide) (by decide))
  intro _ _ related
  apply (parameters_carries relaid annotates related).bind
  intro params reached reached' _ related
  rcases related with related | slot
  · apply Carries.space relaid.aligned related
    intro related
    apply Carries.isAt relaid.aligned related (by decide)
    apply Carries.optionally related
    case step =>
      intro arrow more
      exact relaid.type_carries related (by decide) arrow more
    exact fun rest rest' related => code rest rest' related target params
  · apply slot.carries relaid.toLaid (by decide)
    intro reached' related
    refine Carries.reread ?_ (code reached reached' related target params)
    beta_reduce
    rw [Parser.bind_apply, Parser.bind_apply, block_skipSpace relaid]

theorem branches_carries (relaid : Relaid k forks) (nested : NestedCarries k n n') (fuel fuel' : Nat)
    (related : k.inside rest rest') (fueled : rest'.length < fuel') (applies : rest.isKeyword "if" = true) :
    k.Carries k.inside (branches n fuel) (branches n' fuel') rest rest' := by
  have aligned := relaid.aligned
  induction fuel generalizing fuel' rest rest' with
  | zero => exact Carries.fail
  | succ fuel ih =>
    obtain ⟨fuel', rfl⟩ := Nat.exists_eq_succ_of_ne_zero (Nat.ne_of_gt (Nat.zero_lt_of_lt fueled))
    have fewer : (Rest.afterWord rest').length < fuel' := by
      have word : Rest.word rest' ≠ "" := by
        rw [aligned.word related]
        exact Moves.word_ne_of_isKeyword (by decide) applies
      have lengths := Moves.length_afterWord_lt word
      omega
    apply Carries.wordThen aligned related (relaid.free_keyword (by decide) applies)
    intro related
    apply (nested.expr lowest related).bind
    intro test rest₁ rest₁' behind₁ related
    apply (block_carries relaid nested related).bind
    intro yes rest₂ rest₂' behind₂ related
    have skipped := aligned.skipSpace related
    apply Carries.look
    case same => rw [Rest.isKeyword, aligned.word skipped, Rest.isKeyword]
    apply Carries.ite
    · exact fun _ => Carries.pure _ related
    intro another
    have branch : k.Carries (fun rest rest' => k.inside rest rest' ∧ Rest.isKeyword "else" rest = true) Parser.skipSpace
        Parser.skipSpace rest₂ rest₂' := by
      intro within x reached parsed
      obtain ⟨reached', parsed', behind, related⟩ := Carries.skipSpace aligned related within x reached parsed
      cases parsed
      exact ⟨reached', parsed', behind, related, by simpa using another⟩
    apply branch.bind
    rintro _ rest₃ rest₃' behind₃ ⟨related, here⟩
    apply (Carries.word aligned related (relaid.free_keyword (by decide) here)).bind
    intro _ rest₄ rest₄' behind₄ related
    apply (Carries.skipSpace aligned related).bind
    intro _ rest₅ rest₅' behind₅ related
    apply Carries.look
    case same => rw [Rest.isKeyword, aligned.word related, Rest.isKeyword]
    apply Carries.ite
    · intro again
      have shorter : rest₅'.length < fuel' := by
        have lengths := (behind₅.trans (behind₄.trans (behind₃.trans (behind₂.trans behind₁)))).length_le
        omega
      apply (ih fuel' related shorter again).bind
      exact fun no reached reached' _ related => Carries.pure _ related
    · intro _
      apply (block_carries relaid nested related).bind
      exact fun no reached reached' _ related => Carries.pure _ related

theorem ifRule_carries (relaid : Relaid k forks) (nested : NestedCarries k n n') (related : k.inside rest rest')
    (applies : ifRule.applies k.ctx rest = true) :
    k.Carries k.inside (ifRule.parse n) (ifRule.parse n') rest rest' := by
  have carries : k.Carries k.inside (branches n (rest.length + 1)) (branches n' (rest'.length + 1)) rest rest' :=
    branches_carries relaid nested _ _ related (Nat.lt_succ_self _) applies
  intro within x reached parsed
  exact carries within x reached parsed

theorem whileRule_carries (relaid : Relaid k forks) (nested : NestedCarries k n n') (related : k.inside rest rest')
    (applies : whileRule.applies k.ctx rest = true) :
    k.Carries k.inside (whileRule.parse n) (whileRule.parse n') rest rest' := by
  apply Carries.wordThen relaid.aligned related (relaid.free_keyword (by decide) applies)
  intro related
  apply (nested.expr lowest related).bind
  intro test reached reached' _ related
  apply (block_carries relaid nested related).bind
  exact fun body reached reached' _ related => Carries.pure _ related

theorem loopRule_carries (relaid : Relaid k forks) (nested : NestedCarries k n n') (related : k.inside rest rest')
    (applies : loopRule.applies k.ctx rest = true) :
    k.Carries k.inside (loopRule.parse n) (loopRule.parse n') rest rest' := by
  apply Carries.wordThen relaid.aligned related (relaid.free_keyword (by decide) applies)
  intro related
  apply (block_carries relaid nested related).bind
  exact fun body reached reached' _ related => Carries.pure _ related

theorem wordRule_carries (relaid : Relaid k forks) (related : k.inside rest rest') {keyword : String}
    (other : Ordinary keyword) {statement : Stmt} (applies : (wordRule keyword statement).applies k.ctx rest = true) :
    k.Carries k.inside ((wordRule keyword statement).parse n) ((wordRule keyword statement).parse n') rest rest' := by
  apply Carries.wordThen relaid.aligned related (relaid.free_keyword other applies)
  exact fun related => Carries.pure _ related

theorem returnRule_carries (relaid : Relaid k forks) (nested : NestedCarries k n n') (related : k.inside rest rest')
    (applies : returnRule.applies k.ctx rest = true) :
    k.Carries k.inside (returnRule.parse n) (returnRule.parse n') rest rest' := by
  have aligned := relaid.aligned
  apply Carries.wordThen aligned related (relaid.free_keyword (by decide) applies)
  intro related
  apply Carries.space aligned related
  intro related
  apply Carries.look
  case same => rw [aligned.isAt related ";" (by decide), aligned.isAt related "\x7d" (by decide), aligned.atEnd related]
  apply Carries.ite
  · exact fun _ => Carries.pure _ related
  · intro _
    apply (nested.expr lowest related).bind
    exact fun x reached reached' _ related => Carries.pure _ related

theorem printBangRule_carries (relaid : Relaid k forks) (nested : NestedCarries k n n') (related : k.inside rest rest')
    {word capability : String} (other : Ordinary word) (applies : (printBangRule word capability).applies k.ctx rest = true) :
    k.Carries k.inside ((printBangRule word capability).parse n) ((printBangRule word capability).parse n') rest rest' := by
  apply (bangArguments_carries relaid nested related other applies).bind
  exact fun x reached reached' _ related => Carries.pure _ related

theorem printRule_carries (relaid : Relaid k forks) (nested : NestedCarries k n n') (related : k.inside rest rest')
    (applies : printRule.applies k.ctx rest = true) :
    k.Carries k.inside (printRule.parse n) (printRule.parse n') rest rest' := by
  have aligned := relaid.aligned
  obtain ⟨here, opens⟩ := Bool.and_eq_true_iff.1 applies
  apply Carries.wordThen aligned related (relaid.free_keyword (by decide) here)
  intro related
  apply Carries.space aligned related
  intro related
  apply Carries.advanceAt aligned related (relaid.plain (by decide)) opens
  intro _ _ related
  apply (arguments_carries relaid nested related).bind
  intro args reached reached' _ related
  split
  · exact Carries.pure _ related
  · exact Carries.fail

theorem blockRule_carries (relaid : Relaid k forks) (nested : NestedCarries k n n') (related : k.inside rest rest') :
    k.Carries k.inside (blockRule.parse n) (blockRule.parse n') rest rest' := by
  apply (block_carries relaid nested related).bind
  exact fun body reached reached' _ related => Carries.pure _ related

def assignments : List String := ["=", "+=", "-=", "*=", "/=", "%="]

theorem isAtAny_assignments {op : Option ArithOp} (assigns : assignment? rest = some op) :
    Rest.isAtAny assignments rest = true := by
  cases rest with
  | nil => cases assigns
  | cons l more =>
    unfold assignment? compound? at assigns
    simp only [Rest.isAtAny, assignments, Rest.isAt, List.any_cons, List.any_nil]
    grind

theorem assignment_alike (relaid : Relaid k forks) (related : k.inside rest rest') : assignment? rest' = assignment? rest := by
  rw [relaid.inside] at related
  obtain ⟨fork, -, alike⟩ := related
  have unseen : ∀ l, Trivial l → assignment? [l] = none := by
    rintro l ⟨source, hides⟩
    have none : ∀ text ∈ hidden, text ≠ "=" ∧ compound? text = none := by decide
    simp [assignment?, source, none _ hides]
  obtain ⟨l, more, l', more', rfl, rfl, same⟩ := alike.asks (fun _ => rfl) unseen
  exact same

theorem assignRule_carries (relaid : Relaid k forks) (nested : NestedCarries k n n') (related : k.inside rest rest') :
    k.Carries k.inside (assignRule.parse n) (assignRule.parse n') rest rest' := by
  have aligned := relaid.aligned
  apply Carries.location
  intro _ _
  apply (nested.expr lowest related).bind
  intro x reached reached' _ related
  apply Carries.space aligned related
  intro related
  apply Carries.look
  case same => exact assignment_alike relaid related
  split
  · exact Carries.pure _ related
  next op target assigns =>
    apply Carries.advance aligned related (relaid.plains (by decide)) (isAtAny_assignments assigns)
    intro _ _ _ related
    apply (nested.expr lowest related).bind
    intro value reached reached' _ related
    split
    · exact Carries.pure _ related
    · exact Carries.pure _ related
  · exact Carries.failAt

theorem operand_applies (relaid : Relaid k forks) (related : k.inside rest rest') :
    ∀ rule ∈ grammar.operands, rule.applies k.walk.ctx rest' = rule.applies k.ctx rest := by
  intro rule member
  have aligned := relaid.aligned
  have at_ (text : String) (visible : text ∉ hidden) : Rest.isAt text rest' = Rest.isAt text rest :=
    aligned.isAt related text visible
  have word := aligned.word related
  cases isOperand rule member with
  | int => exact aligned.isDigitStart related
  | str => exact at_ "\"" (by decide)
  | flag => simp only [flagRule, Rest.isAnyKeyword, word]
  | format => exact isBang_alike relaid related (by decide)
  | negate => exact at_ "-" (by decide)
  | not => exact at_ "!" (by decide)
  | group => exact at_ "(" (by decide)
  | var => simp only [variableRule, word, aligned.isNameStart related]

theorem operator_applies (relaid : Relaid k forks) (related : k.inside rest rest') :
    ∀ rule ∈ grammar.operators, rule.applies k.walk.ctx rest' = rule.applies k.ctx rest := by
  intro rule member
  have aligned := relaid.aligned
  have at_ (text : String) (visible : text ∉ hidden) : Rest.isAt text rest' = Rest.isAt text rest :=
    aligned.isAt related text visible
  have any (texts : List String) (visible : ∀ text ∈ texts, text ∉ hidden) :
      Rest.isAtAny texts rest' = Rest.isAtAny texts rest := Carries.isAtAny aligned related visible
  cases isOperator rule member with
  | or => exact at_ "||" (by decide)
  | and => exact at_ "&&" (by decide)
  | compare | sum | product => exact any _ (by decide)
  | call => exact at_ "(" (by decide)

theorem statement_applies (relaid : Relaid k forks) (related : k.inside rest rest') :
    ∀ rule ∈ grammar.statements, rule.applies k.walk.ctx rest' = rule.applies k.ctx rest := by
  intro rule member
  have aligned := relaid.aligned
  have word (keyword : String) : Rest.isKeyword keyword rest' = Rest.isKeyword keyword rest := by
    rw [Rest.isKeyword, aligned.word related, Rest.isKeyword]
  cases isStatement rule member with
  | define => exact word "let"
  | declare => exact word "fn"
  | cond => exact word "if"
  | whileLoop => exact word "while"
  | endless => exact word "loop"
  | breakLoop => exact word "break"
  | continueLoop => exact word "continue"
  | returnWith => exact word "return"
  | println | printBang => exact isBang_alike relaid related (by decide)
  | print =>
    simp only [printRule]
    rw [word]
    cases here : Rest.isKeyword "print" rest with
    | false => rfl
    | true =>
      have behind := aligned.afterWord related (relaid.free_keyword (by decide) here)
      rw [aligned.isAt (aligned.skipSpace behind) "(" (by decide)]
  | block => exact aligned.isAt related "\x7b" (by decide)
  | assign =>
    simp only [assignRule]
    rw [aligned.atEnd related]
    rw [relaid.inside] at related
    obtain ⟨fork, -, alike⟩ := related
    rw [alike.synthetic_head k.ctx k.walk.ctx]

theorem operand_carries (relaid : Relaid k forks) (nested : NestedCarries k n n') (related : k.inside rest rest') :
    ∀ rule ∈ grammar.operands, rule.applies k.ctx rest = true →
      k.Carries k.inside (rule.parse n) (rule.parse n') rest rest' := by
  intro rule member applies
  have aligned := relaid.aligned
  cases isOperand rule member with
  | int => exact intRule_carries relaid related
  | str => exact strRule_carries relaid related
  | flag => exact flagRule_carries relaid related applies
  | format => exact bangArguments_carries relaid nested related (by decide) applies
  | negate | not => exact Grammar.sign_carries aligned nested related applies (relaid.plain (by decide))
  | group => exact groupRule_carries relaid nested related applies
  | var => exact variableRule_carries relaid related

theorem operator_carries (relaid : Relaid k forks) (nested : NestedCarries k n n') (left : Expr)
    (related : k.inside rest rest') :
    ∀ rule ∈ grammar.operators, rule.applies k.ctx rest = true →
      k.Carries k.inside (rule.parse n left) (rule.parse n' left) rest rest' := by
  intro rule member applies
  have aligned := relaid.aligned
  cases isOperator rule member with
  | or | and => exact Grammar.sign_carries aligned nested related applies (relaid.plain (by decide))
  | compare =>
    exact Grammar.signed_carries aligned nested related (f := fun op => .intCompare (CompareOp.ofSymbol op) left)
      applies (relaid.plains (by decide))
  | sum | product =>
    exact Grammar.signed_carries aligned nested related (f := fun op => .intBinary (ArithOp.ofSymbol op) left)
      applies (relaid.plains (by decide))
  | call => exact callRule_carries relaid nested related left applies

theorem statement_carries (relaid : Relaid k forks) (nested : NestedCarries k n n') (related : k.inside rest rest') :
    ∀ rule ∈ grammar.statements, rule.applies k.ctx rest = true →
      k.Carries k.inside (rule.parse n) (rule.parse n') rest rest' := by
  intro rule member applies
  cases isStatement rule member with
  | define => exact letRule_carries relaid nested related applies
  | declare => exact fnRule_carries relaid nested related applies
  | cond => exact ifRule_carries relaid nested related applies
  | whileLoop => exact whileRule_carries relaid nested related applies
  | endless => exact loopRule_carries relaid nested related applies
  | breakLoop | continueLoop => exact wordRule_carries relaid related (by decide) applies
  | returnWith => exact returnRule_carries relaid nested related applies
  | println | printBang => exact printBangRule_carries relaid nested related (by decide) applies
  | print => exact printRule_carries relaid nested related applies
  | block => exact blockRule_carries relaid nested related
  | assign => exact assignRule_carries relaid nested related

theorem grammar_carrying (relaid : Relaid k forks) : grammar.Carrying k where
  operandApplies rule member _ _ related := operand_applies relaid related rule member
  operand rule member _ _ nested _ _ related := operand_carries relaid nested related rule member
  operatorApplies rule member _ _ related := operator_applies relaid related rule member
  operator rule member _ _ nested left _ _ related := operator_carries relaid nested left related rule member
  statementApplies rule member _ _ related := statement_applies relaid related rule member
  statement rule member _ _ nested _ _ related := by
    rw [relaid.after, ← relaid.inside]
    exact statement_carries relaid nested related rule member

end ScriptKernel.MiniRust
