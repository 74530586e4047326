import ScriptKernel.Parse.OperatorTable
import ScriptKernel.Proofs.Parse.DepthBound

/-!
Precedence climbing over any table of infix operators. A phrase is a sequence
of atoms with operators between them; a tree is grouped when every operator
binds its operands as its precedence and associativity say. Reading a phrase
gives the one grouped tree with that sequence.
-/

namespace ScriptKernel.OperatorTable

mutual

inductive Atom where
  | word (text : String)
  | group (inner : Phrase)

inductive Phrase where
  | single (first : Atom)
  | more (first : Atom) (symbol : String) (rest : Phrase)

end

def Phrase.join : Phrase → String → Phrase → Phrase
  | .single first, symbol, other => .more first symbol other
  | .more first own rest, symbol, other => .more first own (rest.join symbol other)

/-- The operands and operators of a tree in order. Trees with operators before
or behind their operand are no phrases. -/
def Tree.phrase? : Tree → Option Phrase
  | .word text => some (.single (.word text))
  | .group inner => inner.phrase?.map fun phrase => .single (.group phrase)
  | .between left symbol right => do
    let first ← left.phrase?
    let second ← right.phrase?
    some (first.join symbol second)
  | .before _ _ | .behind _ _ => none

theorem Tree.phrase?_between {left right : Tree} {symbol : String} {phrase : Phrase} :
    (Tree.between left symbol right).phrase? = some phrase ↔
      ∃ first second, left.phrase? = some first ∧ right.phrase? = some second ∧
        first.join symbol second = phrase := by
  simp only [Tree.phrase?, Option.bind_eq_bind, Option.bind_eq_some_iff, Option.some.injEq]
  constructor
  · rintro ⟨first, leftOrder, second, rightOrder, joined⟩
    exact ⟨first, second, leftOrder, rightOrder, joined⟩
  · rintro ⟨first, second, leftOrder, rightOrder, joined⟩
    exact ⟨first, leftOrder, second, rightOrder, joined⟩

def Tree.root? : Tree → Option String
  | .between _ symbol _ => some symbol
  | _ => none

def operator? (infixes : List InfixOperator) (symbol : String) : Option InfixOperator :=
  infixes.find? fun op => op.symbol == symbol

def level (infixes : List InfixOperator) (symbol : String) : Precedence :=
  ((operator? infixes symbol).map (·.precedence)).getD lowest

def isLeft (infixes : List InfixOperator) (symbol : String) : Bool :=
  ((operator? infixes symbol).map (·.associativity)).getD .left == .left

/-- Infix operators with symbols of their own, at the lowest level or above,
and with one associativity on each level. -/
structure Consistent (infixes : List InfixOperator) : Prop where
  distinct : (infixes.map (·.symbol)).Nodup
  infixOnly : ∀ op ∈ infixes, op.associativity ≠ .postfix_
  lowest_le : ∀ op ∈ infixes, lowest ≤ op.precedence
  uniform : ∀ op ∈ infixes, ∀ other ∈ infixes,
    op.precedence = other.precedence → op.associativity = other.associativity

/-- Every ungrouped operand binds more tightly than its operator, or as tightly
on the side to which the operator associates. -/
def Tree.Grouped (infixes : List InfixOperator) : Tree → Prop
  | .word _ => True
  | .group inner => inner.Grouped infixes
  | .between left symbol right =>
    left.Grouped infixes ∧ right.Grouped infixes ∧
    (∀ child, left.root? = some child →
      level infixes symbol < level infixes child ∨
        (level infixes child = level infixes symbol ∧ isLeft infixes symbol = true)) ∧
    (∀ child, right.root? = some child →
      level infixes symbol < level infixes child ∨
        (level infixes child = level infixes symbol ∧ isLeft infixes symbol = false))
  | .before _ _ | .behind _ _ => False

mutual

def Atom.Known (infixes : List InfixOperator) : Atom → Prop
  | .word _ => True
  | .group inner => inner.Known infixes

def Phrase.Known (infixes : List InfixOperator) : Phrase → Prop
  | .single first => first.Known infixes
  | .more first symbol rest =>
    first.Known infixes ∧ (operator? infixes symbol).isSome = true ∧ rest.Known infixes

end

theorem Phrase.known_join {infixes : List InfixOperator} (first second : Phrase) (symbol : String)
    (known : (first.join symbol second).Known infixes) :
    first.Known infixes ∧ (operator? infixes symbol).isSome = true ∧ second.Known infixes := by
  match first with
  | .single atom => exact known
  | .more atom own others =>
    obtain ⟨atomKnown, ownKnown, later⟩ := known
    obtain ⟨othersKnown, symbolKnown, secondKnown⟩ :=
      Phrase.known_join others second symbol later
    exact ⟨⟨atomKnown, ownKnown, othersKnown⟩, symbolKnown, secondKnown⟩

def IsSource (text : String) (lexeme : Lexeme) : Prop :=
  lexeme.text = text ∧ lexeme.synthetic = false

def atOperator (infixes : List InfixOperator) (rest : Rest) : Bool :=
  infixes.any fun op => rest.isAt op.symbol

mutual

/-- The stream starts with the atom and goes on with `rest`. A word ends where
no word character follows, and does not look like an opening parenthesis; a
group ends with a parenthesis that is no operator. -/
def Atom.Spelled (infixes : List InfixOperator) (ctx : Context) : Atom → Rest → Rest → Prop
  | .word text, input, rest =>
    ∃ first letters, input = first :: letters ++ rest ∧ Rest.text (first :: letters) = text ∧
      (∀ letter ∈ first :: letters, letter.isWord = true) ∧
      (∀ next, rest.head? = some next → next.isWord = false) ∧
      first.text ≠ ctx.aliases.leftParen
  | .group inner, input, rest =>
    ∃ opening inside ending closing, input = opening :: inside ∧
      IsSource ctx.aliases.leftParen opening ∧
      inner.Spelled infixes ctx (ctx.skipSpace inside) ending ∧
      ctx.skipSpace ending = closing :: rest ∧
      IsSource ctx.aliases.rightParen closing ∧
      atOperator infixes (closing :: rest) = false

/-- The stream starts with the phrase, with what the context skips around its
operators, and goes on with `rest`. -/
def Phrase.Spelled (infixes : List InfixOperator) (ctx : Context) : Phrase → Rest → Rest → Prop
  | .single first, input, rest => first.Spelled infixes ctx input rest
  | .more first symbol others, input, rest =>
    ∃ middle sign behind, first.Spelled infixes ctx input middle ∧
      ctx.skipSpace middle = sign :: behind ∧ IsSource symbol sign ∧
      (operator? infixes symbol).isSome = true ∧
      others.Spelled infixes ctx (ctx.skipSpace behind) rest

end

/-- What is skipped inside an expression: some of the lexemes at the cursor, and
nothing is left to skip behind them. -/
structure Skipping (skip : Rest → Rest) : Prop where
  suffix : ∀ rest, skip rest <:+ rest
  twice : ∀ rest, skip (skip rest) = skip rest

/-- The longest beginning of a phrase whose operators all bind at least as
tightly as `least`. -/
def Phrase.atLeast (infixes : List InfixOperator) (least : Precedence) : Phrase → Phrase
  | .single first => .single first
  | .more first symbol rest =>
    if least ≤ level infixes symbol then .more first symbol (rest.atLeast infixes least)
    else .single first

section Reading

variable {infixes : List InfixOperator} {ctx : Context}

theorem Phrase.spelled_join (first second : Phrase) (symbol : String) (input rest : Rest)
    (spelled : (first.join symbol second).Spelled infixes ctx input rest) :
    ∃ middle sign behind, first.Spelled infixes ctx input middle ∧
      ctx.skipSpace middle = sign :: behind ∧ IsSource symbol sign ∧
      (operator? infixes symbol).isSome = true ∧
      second.Spelled infixes ctx (ctx.skipSpace behind) rest := by
  match first with
  | .single atom => exact spelled
  | .more atom own others =>
    obtain ⟨middle, sign, behind, head, skipped, source, known, tail⟩ := spelled
    obtain ⟨further, sign', behind', head', skipped', source', known', tail'⟩ :=
      Phrase.spelled_join others second symbol _ rest tail
    exact ⟨further, sign', behind', ⟨middle, sign, behind, head, skipped, source, known, head'⟩,
      skipped', source', known', tail'⟩

theorem length_of_skipSpace (skipping : Skipping ctx.skipSpace) {rest behind : Rest}
    {sign : Lexeme} (skipped : ctx.skipSpace rest = sign :: behind) :
    behind.length < rest.length := by
  have shorter := (skipping.suffix rest).length_le
  rw [skipped, List.length_cons] at shorter
  omega

mutual

theorem Atom.Spelled.length_lt (skipping : Skipping ctx.skipSpace) :
    (atom : Atom) → (input rest : Rest) → atom.Spelled infixes ctx input rest →
      rest.length < input.length
  | .word _, input, rest, spelled => by
    obtain ⟨first, letters, same, -⟩ := spelled
    simp only [same, List.length_append, List.length_cons]
    omega
  | .group inner, input, rest, spelled => by
    obtain ⟨opening, inside, ending, closing, same, -, body, skipped, -⟩ := spelled
    have shorter := Phrase.Spelled.length_lt skipping inner _ _ body
    have inward := (skipping.suffix inside).length_le
    have outward := length_of_skipSpace skipping skipped
    rw [same, List.length_cons]
    omega

theorem Phrase.Spelled.length_lt (skipping : Skipping ctx.skipSpace) :
    (phrase : Phrase) → (input rest : Rest) → phrase.Spelled infixes ctx input rest →
      rest.length < input.length
  | .single first, input, rest, spelled => Atom.Spelled.length_lt skipping first input rest spelled
  | .more first _ others, input, rest, spelled => by
    obtain ⟨middle, sign, behind, head, skipped, -, -, tail⟩ := spelled
    have before := Atom.Spelled.length_lt skipping first input middle head
    have between := length_of_skipSpace skipping skipped
    have inward := (skipping.suffix behind).length_le
    have after := Phrase.Spelled.length_lt skipping others _ rest tail
    omega

end

mutual

theorem Atom.Spelled.known : (atom : Atom) → (input rest : Rest) →
    atom.Spelled infixes ctx input rest → atom.Known infixes
  | .word _, _, _, _ => trivial
  | .group inner, _, _, spelled => by
    obtain ⟨_, _, _, _, -, -, body, -⟩ := spelled
    exact Phrase.Spelled.known inner _ _ body

theorem Phrase.Spelled.known : (phrase : Phrase) → (input rest : Rest) →
    phrase.Spelled infixes ctx input rest → phrase.Known infixes
  | .single first, input, rest, spelled => Atom.Spelled.known first input rest spelled
  | .more first _ others, _, _, spelled => by
    obtain ⟨_, _, _, head, -, -, known, tail⟩ := spelled
    exact ⟨Atom.Spelled.known first _ _ head, known, Phrase.Spelled.known others _ _ tail⟩

end

theorem find?_operators (always : Bool) (rest : Rest) :
    (grammar [] infixes always).operators.find? (·.applies ctx rest) =
      (infixes.find? fun op => rest.isAt op.symbol).map infixRule := by
  simp only [grammar, List.find?_map]
  rfl

theorem find?_isAt {symbol : String} {sign : Lexeme} (behind : Rest)
    (source : IsSource symbol sign) :
    (infixes.find? fun op => Rest.isAt op.symbol (sign :: behind)) = operator? infixes symbol := by
  simp only [operator?, Rest.isAt, source.2, Bool.not_false, Bool.true_and, source.1]
  congr
  funext op
  exact Bool.beq_comm

theorem level_of_operator {symbol : String} {op : InfixOperator}
    (found : operator? infixes symbol = some op) : level infixes symbol = op.precedence := by
  simp [level, found]

theorem isLeft_eq (consistent : Consistent infixes) {one two : String}
    (known : (operator? infixes one).isSome = true) (known' : (operator? infixes two).isSome = true)
    (same : level infixes one = level infixes two) : isLeft infixes one = isLeft infixes two := by
  obtain ⟨op, found⟩ := Option.isSome_iff_exists.1 known
  obtain ⟨other, found'⟩ := Option.isSome_iff_exists.1 known'
  rw [level_of_operator found, level_of_operator found'] at same
  have side := consistent.uniform op (List.mem_of_find?_eq_some found) other
    (List.mem_of_find?_eq_some found') same
  simp [isLeft, found, found', side]

def rightLevel (infixes : List InfixOperator) (symbol : String) : Precedence :=
  if isLeft infixes symbol then level infixes symbol + 1 else level infixes symbol

theorem exprFrom_word (always : Bool) (nested : Nested Tree Sentence) (least : Precedence)
    (text : String) (input rest : Rest)
    (spelled : (Atom.word text).Spelled infixes ctx input rest) :
    (grammar [] infixes always).exprFrom nested least ctx input =
      (grammar [] infixes always).operatorsFrom nested least (rest.length + 1) (.word text) ctx
        rest := by
  obtain ⟨first, letters, same, text_eq, allWord, ends, noParen⟩ := spelled
  have firstWord := allWord first (by simp)
  have visible : first.synthetic = false := by
    simp only [Lexeme.isWord, Bool.and_eq_true, Bool.not_eq_true'] at firstWord
    exact firstWord.1
  have taken : input.takeWhile (·.isWord) = first :: letters := by
    rw [same, List.takeWhile_append_of_pos allWord]
    cases rest with
    | nil => simp
    | cons next more => simp [ends next rfl]
  have dropped : input.dropWhile (·.isWord) = rest := by
    rw [same, List.dropWhile_append_of_pos allWord]
    cases rest with
    | nil => rfl
    | cons next more => simp [ends next rfl]
  have word : Rest.word input = text := by rw [Rest.word, taken, text_eq]
  have nonempty : text ≠ "" := by
    have letter : isWordText first.text = true := by
      simp only [Lexeme.isWord, Bool.and_eq_true] at firstWord
      exact firstWord.2
    intro empty
    have joined := congrArg String.toList (text_eq.trans empty)
    simp only [isWordText, Bool.and_eq_true, Bool.not_eq_true'] at letter
    simp [Rest.text] at joined
    simp [joined] at letter
  have noGroup : groupRule.applies ctx input = false := by
    simp [groupRule, Context.isStructural, Context.peek, same, Aliases.text, noParen]
  have isWord : wordRule.applies ctx input = true := by
    simp [wordRule, word, nonempty]
  have found : (grammar [] infixes always).operands.find? (·.applies ctx input) = some wordRule := by
    simp [grammar, noGroup, isWord]
  have read : Parser.word ctx input = .ok text rest := by
    rw [Parser.word, word, Rest.afterWord, dropped]
  have parsed : wordRule.parse nested ctx input = .ok (.word text) rest := by
    simp only [wordRule]
    rw [Parser.bind_ok read]
    rfl
  exact Grammar.exprFrom_operand _ found parsed

theorem exprFrom_group (always : Bool) (nested : Nested Tree Sentence) (least : Precedence)
    (inner : Tree) (opening closing : Lexeme) (inside ending rest : Rest)
    (opens : IsSource ctx.aliases.leftParen opening)
    (closes : IsSource ctx.aliases.rightParen closing)
    (skipped : ctx.skipSpace (ctx.skipSpace ending) = closing :: rest)
    (body : nested.expr lowest ctx inside = .ok inner (ctx.skipSpace ending)) :
    (grammar [] infixes always).exprFrom nested least ctx (opening :: inside) =
      (grammar [] infixes always).operatorsFrom nested least (rest.length + 1) (.group inner) ctx
        rest := by
  have isGroup : groupRule.applies ctx (opening :: inside) = true := by
    simp [groupRule, Context.isStructural, Context.peek, Aliases.text, opens.1, opens.2,
      Structural.isMarker]
  have found : (grammar [] infixes always).operands.find? (·.applies ctx (opening :: inside)) =
      some groupRule := by
    simp [grammar, isGroup]
  have advanced : Parser.advance ctx (opening :: inside) = .ok opening inside := rfl
  have spaced : Parser.skipSpace ctx (ctx.skipSpace ending) = .ok () (closing :: rest) := by
    rw [Parser.skipSpace, skipped]
  have closed : Parser.expectStructural .rightParen ctx (closing :: rest) = .ok closing rest := by
    simp [Parser.expectStructural, Context.isStructural, Context.peek, Aliases.text, closes.1,
      closes.2, Structural.isMarker, Parser.advance]
  have parsed : groupRule.parse nested ctx (opening :: inside) = .ok (.group inner) rest := by
    simp only [groupRule]
    rw [Parser.bind_ok advanced, Parser.bind_ok body, Parser.bind_ok spaced, Parser.bind_ok closed]
    rfl
  exact Grammar.exprFrom_operand _ found parsed

theorem infixRule_parse (op : InfixOperator) (infixOnly : op.associativity ≠ .postfix_)
    (nested : Nested Tree Sentence) (left right : Tree) (sign : Lexeme) (behind reached : Rest)
    (operand : nested.expr
      (if op.associativity = .left then op.precedence + 1 else op.precedence) ctx behind =
        .ok right reached) :
    (infixRule op).parse nested left ctx (sign :: behind) =
      .ok (.between left op.symbol right) reached := by
  have advanced : Parser.advance ctx (sign :: behind) = .ok sign behind := rfl
  simp only [infixRule]
  rw [Parser.bind_ok advanced]
  cases side : op.associativity with
  | postfix_ => exact absurd side infixOnly
  | left =>
    rw [side, if_pos rfl] at operand
    exact Parser.bind_ok operand
  | right =>
    rw [side, if_neg (by decide)] at operand
    exact Parser.bind_ok operand

/-- The operators that bind the right operand of a tree more tightly than what
follows leave it alone. -/
def Tree.Closed (infixes : List InfixOperator) (always : Bool) (ctx : Context) (rest : Rest)
    (tree : Tree) : Prop :=
  ∀ symbol, tree.root? = some symbol →
    (grammar [] infixes always).Stops ctx (rightLevel infixes symbol) rest

theorem stops_operator (always : Bool) {symbol : String} {sign : Lexeme} {middle behind : Rest}
    {least : Precedence} (skipped : ctx.skipSpace middle = sign :: behind)
    (source : IsSource symbol sign) (weaker : level infixes symbol < least) :
    (grammar [] infixes always).Stops ctx least middle := by
  intro rule found
  rw [skipped, find?_operators, find?_isAt behind source, Option.map_eq_some_iff] at found
  obtain ⟨op, known, rfl⟩ := found
  rw [level_of_operator known] at weaker
  exact weaker

theorem level_lt_rightLevel (consistent : Consistent infixes) {symbol child : String}
    (known : (operator? infixes symbol).isSome = true)
    (knownChild : (operator? infixes child).isSome = true)
    (binds : level infixes symbol < level infixes child ∨
      (level infixes child = level infixes symbol ∧ isLeft infixes symbol = true)) :
    level infixes symbol < rightLevel infixes child := by
  unfold rightLevel
  rcases binds with tighter | ⟨sameLevel, leftward⟩
  · split
    · exact Int.lt_add_one_of_le tighter.le
    · exact tighter
  · have leftChild : isLeft infixes child = true := by
      rw [isLeft_eq consistent knownChild known sameLevel, leftward]
    rw [if_pos leftChild, sameLevel]
    exact Int.lt_succ _

theorem Tree.Grouped.right_le {left right : Tree} {symbol child : String}
    (grouped : (Tree.between left symbol right).Grouped infixes)
    (root : right.root? = some child) : rightLevel infixes symbol ≤ level infixes child := by
  have binds := grouped.2.2.2 child root
  unfold rightLevel
  split
  · rename_i leftward
    simp only [leftward, Bool.true_eq_false, and_false, or_false] at binds
    exact binds
  · rcases binds with tighter | ⟨sameLevel, -⟩
    · exact tighter.le
    · exact sameLevel.ge

theorem lowest_le_level (consistent : Consistent infixes) (symbol : String) :
    lowest ≤ level infixes symbol := by
  cases found : operator? infixes symbol with
  | none => simp [level, found]
  | some op =>
    rw [level_of_operator found]
    exact consistent.lowest_le op (List.mem_of_find?_eq_some found)

theorem level_le_rightLevel (symbol : String) :
    level infixes symbol ≤ rightLevel infixes symbol := by
  unfold rightLevel
  split
  · exact Int.le_add_one le_rfl
  · exact le_rfl

theorem right_of_operator {symbol : String} {op : InfixOperator}
    (found : operator? infixes symbol = some op) :
    (if op.associativity = .left then op.precedence + 1 else op.precedence) =
      rightLevel infixes symbol := by
  simp [rightLevel, isLeft, found, level_of_operator found]

theorem known_root (tree : Tree) (phrase : Phrase) (symbol : String)
    (inOrder : tree.phrase? = some phrase) (known : phrase.Known infixes)
    (root : tree.root? = some symbol) : (operator? infixes symbol).isSome = true := by
  cases tree with
  | between left own right =>
    simp only [Tree.root?, Option.some.injEq] at root
    obtain ⟨first, second, -, -, rfl⟩ := Tree.phrase?_between.1 inOrder
    exact root ▸ (Phrase.known_join first second own known).2.1
  | _ => simp [Tree.root?] at root

/-- Reading a stream that starts with a grouped tree's phrase comes to the point
where the loop holds this tree, with everything behind the phrase still ahead. -/
theorem exprFrom_spelled (consistent : Consistent infixes) (always : Bool)
    (unbounded : ctx.maxDepth ≤ 0) (skipping : Skipping ctx.skipSpace) (tree : Tree)
    (phrase : Phrase) (input rest : Rest) (least : Precedence) (fuel depth : Nat)
    (inOrder : tree.phrase? = some phrase) (grouped : tree.Grouped infixes)
    (spelled : phrase.Spelled infixes ctx input rest)
    (binds : ∀ symbol, tree.root? = some symbol → least ≤ level infixes symbol)
    (closed : tree.Closed infixes always ctx rest) (enough : input.length ≤ fuel) :
    ∃ extra, rest.length < extra ∧
      (grammar [] infixes always).exprFrom ((grammar [] infixes always).nestedAt fuel depth) least
          ctx input =
        (grammar [] infixes always).operatorsFrom ((grammar [] infixes always).nestedAt fuel depth)
          least extra tree ctx rest := by
  induction tree generalizing phrase input rest least fuel depth with
  | word text =>
    simp only [Tree.phrase?, Option.some.injEq] at inOrder
    subst inOrder
    exact ⟨rest.length + 1, Nat.lt_succ_self _, exprFrom_word always _ least text input rest spelled⟩
  | before symbol operand ih => simp [Tree.phrase?] at inOrder
  | behind operand symbol ih => simp [Tree.phrase?] at inOrder
  | group inner ih =>
    simp only [Tree.phrase?, Option.map_eq_some_iff] at inOrder
    obtain ⟨innerPhrase, innerOrder, rfl⟩ := inOrder
    obtain ⟨opening, inside, ending, closing, rfl, opens, body, skipped, closes, noOperator⟩ := spelled
    obtain ⟨fuel, rfl⟩ : ∃ less, fuel = less + 1 :=
      ⟨fuel - 1, by rw [List.length_cons] at enough; omega⟩
    have inward := (skipping.suffix inside).length_le
    have ends : (grammar [] infixes always).Stops ctx lowest ending := by
      intro rule found
      rw [skipped, find?_operators, Option.map_eq_some_iff] at found
      obtain ⟨op, known, -⟩ := found
      have hit := List.find?_some known
      rw [atOperator, List.any_eq_false] at noOperator
      exact absurd hit (noOperator op (List.mem_of_find?_eq_some known))
    obtain ⟨extra, longer, reads⟩ := ih innerPhrase (ctx.skipSpace inside) ending lowest fuel
      (depth + 1) innerOrder grouped body (fun symbol _ => lowest_le_level consistent symbol)
      (fun symbol _ => ends.mono
        ((lowest_le_level consistent symbol).trans (level_le_rightLevel symbol)))
      (by rw [List.length_cons] at enough; omega)
    have bodyRead : ((grammar [] infixes always).nestedAt (fuel + 1) depth).expr lowest ctx inside =
        .ok inner (ctx.skipSpace ending) := by
      rw [Grammar.nestedAt_expr _ unbounded, reads, Grammar.operatorsFrom_stop _ ends (by omega)]
    refine ⟨rest.length + 1, Nat.lt_succ_self _, ?_⟩
    exact exprFrom_group always _ least inner opening closing inside ending rest opens closes
      (by rw [skipping.twice, skipped]) bodyRead
  | between left symbol right leftIh rightIh =>
    obtain ⟨first, second, leftOrder, rightOrder, rfl⟩ := Tree.phrase?_between.1 inOrder
    obtain ⟨middle, sign, behind, leftSpelled, skipped, source, known, rightSpelled⟩ :=
      Phrase.spelled_join first second symbol input rest spelled
    obtain ⟨op, found⟩ := Option.isSome_iff_exists.1 known
    have member := List.mem_of_find?_eq_some found
    have symbol_eq : op.symbol = symbol := by simpa using List.find?_some found
    have leftShorter := Phrase.Spelled.length_lt skipping first input middle leftSpelled
    have signShorter := length_of_skipSpace skipping skipped
    have inward := (skipping.suffix behind).length_le
    have rightShorter := Phrase.Spelled.length_lt skipping second _ rest rightSpelled
    obtain ⟨fuel, rfl⟩ : ∃ less, fuel = less + 1 := ⟨fuel - 1, by omega⟩
    -- The left operand is complete where its operator stands.
    have leftBinds : ∀ child, left.root? = some child → least ≤ level infixes child := by
      intro child root
      have own := binds symbol rfl
      rcases grouped.2.2.1 child root with tighter | ⟨same, -⟩
      · exact own.trans tighter.le
      · exact own.trans same.ge
    have leftClosed : left.Closed infixes always ctx middle := by
      intro child root
      apply stops_operator always skipped source
      exact level_lt_rightLevel consistent known
        (known_root left first child leftOrder (Phrase.Spelled.known first input middle leftSpelled)
          root)
        (grouped.2.2.1 child root)
    obtain ⟨extra, longer, leftReads⟩ := leftIh first input middle least (fuel + 1) depth leftOrder
      grouped.1 leftSpelled leftBinds leftClosed enough
    -- The right operand is read at its level and stops where the whole does.
    have rightBinds : ∀ child, right.root? = some child →
        rightLevel infixes symbol ≤ level infixes child :=
      fun child root => Tree.Grouped.right_le grouped root
    have ends : (grammar [] infixes always).Stops ctx (rightLevel infixes symbol) rest :=
      closed symbol rfl
    have rightClosed : right.Closed infixes always ctx rest := by
      intro child root
      exact ends.mono ((rightBinds child root).trans (level_le_rightLevel child))
    obtain ⟨rightExtra, rightLonger, rightReads⟩ := rightIh second (ctx.skipSpace behind) rest
      (rightLevel infixes symbol) fuel (depth + 1) rightOrder grouped.2.1 rightSpelled rightBinds
      rightClosed (by omega)
    have operandRead : ((grammar [] infixes always).nestedAt (fuel + 1) depth).expr
        (rightLevel infixes symbol) ctx behind = .ok right (ctx.skipSpace rest) := by
      rw [Grammar.nestedAt_expr _ unbounded, rightReads, Grammar.operatorsFrom_stop _ ends (by omega)]
    obtain ⟨extra, rfl⟩ : ∃ less, extra = less + 1 := ⟨extra - 1, by omega⟩
    have foundRule : (grammar [] infixes always).operators.find?
        (·.applies ctx (ctx.skipSpace middle)) = some (infixRule op) := by
      rw [skipped, find?_operators, find?_isAt behind source, found]
      rfl
    have parsed : (infixRule op).parse ((grammar [] infixes always).nestedAt (fuel + 1) depth) left
        ctx (ctx.skipSpace middle) = .ok (.between left symbol right) (ctx.skipSpace rest) := by
      rw [skipped, ← symbol_eq]
      apply infixRule_parse op (consistent.infixOnly op member)
      rw [right_of_operator found]
      exact operandRead
    have tight : least ≤ (infixRule op).precedence := by
      have own := binds symbol rfl
      rw [level_of_operator found] at own
      exact own
    refine ⟨extra, by omega, ?_⟩
    rw [leftReads, Grammar.operatorsFrom_step _ foundRule tight parsed]
    rcases Grammar.operatorsFrom_skipSpace (grammar [] infixes always) _ least extra
      (.between left symbol right) ctx rest (skipping.twice rest) with same | empty
    · exact same
    · omega

end Reading

/-- Whether an operator may stand in the left operand of another. -/
def bindsLeft (infixes : List InfixOperator) (outer inner : String) : Bool :=
  decide (level infixes outer < level infixes inner) ||
    (decide (level infixes inner = level infixes outer) && isLeft infixes outer)

/-- Puts an operand and an operator in front of a tree. -/
def graft (infixes : List InfixOperator) (operand : Tree) (symbol : String) : Tree → Tree
  | .between left own right =>
    if bindsLeft infixes own symbol then .between (graft infixes operand symbol left) own right
    else .between operand symbol (.between left own right)
  | tree => .between operand symbol tree

mutual

def Atom.tree (infixes : List InfixOperator) : Atom → Tree
  | .word text => .word text
  | .group inner => .group (inner.tree infixes)

def Phrase.tree (infixes : List InfixOperator) : Phrase → Tree
  | .single first => first.tree infixes
  | .more first symbol rest => graft infixes (first.tree infixes) symbol (rest.tree infixes)

end

section Building

variable {infixes : List InfixOperator}

theorem phrase?_graft (operand : Tree) (symbol : String) (first : Atom)
    (isAtom : operand.phrase? = some (.single first)) (tree : Tree) (phrase : Phrase)
    (inOrder : tree.phrase? = some phrase) :
    (graft infixes operand symbol tree).phrase? = some (.more first symbol phrase) := by
  have inFront (rest : Tree) (restOrder : rest.phrase? = some phrase) :
      (Tree.between operand symbol rest).phrase? = some (.more first symbol phrase) :=
    Tree.phrase?_between.2 ⟨.single first, phrase, isAtom, restOrder, rfl⟩
  induction tree generalizing phrase with
  | between left own right ih _ =>
    simp only [graft]
    split
    · obtain ⟨before, after, leftOrder, rightOrder, rfl⟩ := Tree.phrase?_between.1 inOrder
      have leftGrafted := ih before leftOrder fun rest restOrder =>
        Tree.phrase?_between.2 ⟨.single first, before, isAtom, restOrder, rfl⟩
      exact Tree.phrase?_between.2 ⟨_, after, leftGrafted, rightOrder, rfl⟩
    · exact inFront _ inOrder
  | _ => exact inFront _ inOrder

theorem root?_graft (operand : Tree) (symbol : String) (tree : Tree) :
    (graft infixes operand symbol tree).root? = some symbol ∨
      (graft infixes operand symbol tree).root? = tree.root? := by
  cases tree with
  | between left own right =>
    simp only [graft]
    split
    · exact Or.inr rfl
    · exact Or.inl rfl
  | _ => exact Or.inl rfl

theorem bindsLeft_iff (outer inner : String) :
    bindsLeft infixes outer inner = true ↔
      level infixes outer < level infixes inner ∨
        (level infixes inner = level infixes outer ∧ isLeft infixes outer = true) := by
  simp [bindsLeft]

theorem grouped_graft (consistent : Consistent infixes) (operand : Tree) (symbol : String)
    (noRoot : operand.root? = none) (operandGrouped : operand.Grouped infixes)
    (symbolKnown : (operator? infixes symbol).isSome = true) (tree : Tree) (phrase : Phrase)
    (inOrder : tree.phrase? = some phrase) (known : phrase.Known infixes)
    (grouped : tree.Grouped infixes) : (graft infixes operand symbol tree).Grouped infixes := by
  induction tree generalizing phrase with
  | between left own right ih _ =>
    obtain ⟨first, second, leftOrder, rightOrder, joined⟩ := Tree.phrase?_between.1 inOrder
    obtain ⟨firstKnown, ownKnown, -⟩ := Phrase.known_join first second own (joined ▸ known)
    simp only [graft]
    split
    · rename_i binds
      refine ⟨ih first leftOrder firstKnown grouped.1, grouped.2.1, ?_, grouped.2.2.2⟩
      intro child root
      rcases root?_graft operand symbol left with new | old
      · rw [new, Option.some.injEq] at root
        exact root ▸ (bindsLeft_iff own symbol).1 binds
      · exact grouped.2.2.1 child (old ▸ root)
    · rename_i loose
      rw [bindsLeft_iff, not_or, not_and, Bool.not_eq_true] at loose
      refine ⟨operandGrouped, grouped, by simp [noRoot], ?_⟩
      intro child root
      simp only [Tree.root?, Option.some.injEq] at root
      subst root
      rcases lt_or_eq_of_le (not_lt.1 loose.1) with tighter | same
      · exact Or.inl tighter
      · right
        rw [isLeft_eq consistent symbolKnown ownKnown same]
        exact ⟨same.symm, loose.2 same⟩
  | word text => exact ⟨operandGrouped, grouped, by simp [noRoot], by simp [Tree.root?]⟩
  | group inner _ => exact ⟨operandGrouped, grouped, by simp [noRoot], by simp [Tree.root?]⟩
  | before own inner _ => exact absurd grouped (by simp [Tree.Grouped])
  | behind inner own _ => exact absurd grouped (by simp [Tree.Grouped])

theorem Atom.root?_tree (atom : Atom) : (atom.tree infixes).root? = none := by
  cases atom <;> rfl

mutual

theorem Atom.phrase?_tree : (atom : Atom) → (atom.tree infixes).phrase? = some (.single atom)
  | .word _ => rfl
  | .group inner => by
    simp only [Atom.tree, Tree.phrase?]
    rw [Phrase.phrase?_tree inner]
    rfl

theorem Phrase.phrase?_tree : (phrase : Phrase) → (phrase.tree infixes).phrase? = some phrase
  | .single first => Atom.phrase?_tree first
  | .more first symbol rest =>
    phrase?_graft _ symbol first (Atom.phrase?_tree first) _ rest (Phrase.phrase?_tree rest)

end

mutual

theorem Atom.grouped_tree (consistent : Consistent infixes) :
    (atom : Atom) → atom.Known infixes → (atom.tree infixes).Grouped infixes
  | .word _, _ => trivial
  | .group inner, known => Phrase.grouped_tree consistent inner known

theorem Phrase.grouped_tree (consistent : Consistent infixes) :
    (phrase : Phrase) → phrase.Known infixes → (phrase.tree infixes).Grouped infixes
  | .single first, known => Atom.grouped_tree consistent first known
  | .more first symbol rest, known =>
    grouped_graft consistent _ symbol first.root?_tree
      (Atom.grouped_tree consistent first known.1) known.2.1 _ rest (Phrase.phrase?_tree rest)
      known.2.2 (Phrase.grouped_tree consistent rest known.2.2)

end

end Building

def Phrase.symbols : Phrase → List String
  | .single _ => []
  | .more _ symbol rest => symbol :: rest.symbols

section LongestBeginning

variable {infixes : List InfixOperator} {ctx : Context}

theorem Phrase.symbols_join (first second : Phrase) (symbol : String) :
    (first.join symbol second).symbols = first.symbols ++ symbol :: second.symbols := by
  match first with
  | .single atom => rfl
  | .more atom own others =>
    simp only [Phrase.join, Phrase.symbols, List.cons_append]
    rw [Phrase.symbols_join]

theorem root_mem_symbols (tree : Tree) (phrase : Phrase) (symbol : String)
    (inOrder : tree.phrase? = some phrase) (root : tree.root? = some symbol) :
    symbol ∈ phrase.symbols := by
  cases tree with
  | between left own right =>
    simp only [Tree.root?, Option.some.injEq] at root
    obtain ⟨first, second, -, -, rfl⟩ := Tree.phrase?_between.1 inOrder
    simp [Phrase.symbols_join, root]
  | _ => simp [Tree.root?] at root

theorem Phrase.le_of_mem_atLeast (least : Precedence) (phrase : Phrase) (symbol : String)
    (member : symbol ∈ (phrase.atLeast infixes least).symbols) :
    least ≤ level infixes symbol := by
  match phrase with
  | .single atom => simp [Phrase.atLeast, Phrase.symbols] at member
  | .more atom own others =>
    simp only [Phrase.atLeast] at member
    split at member
    · rename_i binds
      rcases List.mem_cons.1 member with same | later
      · exact same ▸ binds
      · exact Phrase.le_of_mem_atLeast least others symbol later
    · simp [Phrase.symbols] at member

theorem Phrase.spelled_atLeast (always : Bool) (least : Precedence) (phrase : Phrase)
    (input after : Rest) (spelled : phrase.Spelled infixes ctx input after)
    (beyond : atOperator infixes (ctx.skipSpace after) = false) :
    ∃ remaining, (phrase.atLeast infixes least).Spelled infixes ctx input remaining ∧
      (grammar [] infixes always).Stops ctx least remaining := by
  match phrase with
  | .single atom =>
    refine ⟨after, spelled, ?_⟩
    intro rule found
    rw [find?_operators, Option.map_eq_some_iff] at found
    obtain ⟨op, known, -⟩ := found
    rw [atOperator, List.any_eq_false] at beyond
    exact absurd (List.find?_some known) (beyond op (List.mem_of_find?_eq_some known))
  | .more atom symbol others =>
    obtain ⟨middle, sign, behind, head, skipped, source, known, tail⟩ := spelled
    simp only [Phrase.atLeast]
    split
    · obtain ⟨remaining, later, stops⟩ :=
        Phrase.spelled_atLeast always least others _ after tail beyond
      exact ⟨remaining, ⟨middle, sign, behind, head, skipped, source, known, later⟩, stops⟩
    · rename_i weaker
      exact ⟨middle, head, stops_operator always skipped source (not_le.1 weaker)⟩

end LongestBeginning

open ScriptKernel.Parser (TooDeep)

theorem uniform_grammar (prefixes : List PrefixOperator) (infixes : List InfixOperator)
    (always : Bool) : (grammar prefixes infixes always).Uniform where
  operandApplies := by
    intro rule member ctx loose
    simp only [grammar, List.mem_append, List.mem_map, List.mem_cons, List.not_mem_nil,
      or_false] at member
    rcases member with ⟨op, -, rfl⟩ | rfl | rfl <;> rfl
  operand := by
    intro rule member ctx loose n n' nested
    simp only [grammar, List.mem_append, List.mem_map, List.mem_cons, List.not_mem_nil,
      or_false] at member
    rcases member with ⟨op, -, rfl⟩ | rfl | rfl
    · simp only [prefixRule]
      cases op.kind with
      | givesUp | fails => exact .same rfl
      | ordinary => exact .skip Parser.advance rfl (.bind (nested.expr op.precedence) fun operand => .same rfl)
    · exact .skip Parser.advance rfl (.bind (nested.expr lowest) fun inner => .same rfl)
    · exact .same rfl
  operatorApplies := by
    intro rule member ctx loose
    simp only [grammar, List.mem_map] at member
    obtain ⟨op, -, rfl⟩ := member
    rfl
  operator := by
    intro rule member ctx loose n n' left nested
    simp only [grammar, List.mem_map] at member
    obtain ⟨op, -, rfl⟩ := member
    simp only [infixRule]
    cases op.associativity with
    | postfix_ => exact .same rfl
    | left => exact .skip Parser.advance rfl (.bind (nested.expr (op.precedence + 1)) fun right => .same rfl)
    | right => exact .skip Parser.advance rfl (.bind (nested.expr op.precedence) fun right => .same rfl)
  statementApplies := by
    intro rule member ctx loose
    simp only [grammar, List.mem_cons, List.not_mem_nil, or_false] at member
    rcases member with rfl | rfl | rfl <;> rfl
  statement := by
    intro rule member ctx loose n n' nested
    simp only [grammar, List.mem_cons, List.not_mem_nil, or_false] at member
    rcases member with rfl | rfl | rfl
    · exact .same rfl
    · exact .skip Parser.advance rfl (.bind (Grammar.block_upToDepth nested rfl) fun body => .same rfl)
    · exact .bind (nested.expr lowest) fun tree => .same rfl

mutual

theorem Atom.spelled_bounded (infixes : List InfixOperator) (ctx : Context) (bound : Int) :
    (atom : Atom) → (input rest : Rest) →
      (atom.Spelled infixes (ctx.bounded bound) input rest ↔ atom.Spelled infixes ctx input rest)
  | .word _, _, _ => Iff.rfl
  | .group inner, input, rest => by
    have body := Phrase.spelled_bounded infixes ctx bound inner
    simp only [Atom.Spelled]
    simp only [body]
    rfl

theorem Phrase.spelled_bounded (infixes : List InfixOperator) (ctx : Context) (bound : Int) :
    (phrase : Phrase) → (input rest : Rest) →
      (phrase.Spelled infixes (ctx.bounded bound) input rest ↔
        phrase.Spelled infixes ctx input rest)
  | .single first, input, rest => Atom.spelled_bounded infixes ctx bound first input rest
  | .more first symbol others, input, rest => by
    have head := Atom.spelled_bounded infixes ctx bound first
    have tail := Phrase.spelled_bounded infixes ctx bound others
    simp only [Phrase.Spelled]
    simp only [head, tail]
    rfl

end

/-- Reading an expression at `least` consumes exactly the longest beginning of
the sequence whose operators all bind at least as tightly, and gives the one
grouped tree of that beginning, unless the depth bound is reached. -/
theorem expr_longest_beginning (infixes : List InfixOperator) (consistent : Consistent infixes)
    (always : Bool) (ctx : Context) (skipping : Skipping ctx.skipSpace) (whole : Phrase)
    (tokens after : Rest) (spelled : whole.Spelled infixes ctx (ctx.skipSpace tokens) after)
    (beyond : atOperator infixes (ctx.skipSpace after) = false) (least : Precedence)
    (fuel depth : Nat) (enough : tokens.length < fuel)
    (shallow : ¬TooDeep (((grammar [] infixes always).nestedAt fuel depth).expr least ctx tokens)) :
    ∃ tree remaining,
      (whole.atLeast infixes least).Spelled infixes ctx (ctx.skipSpace tokens) remaining ∧
      ((grammar [] infixes always).nestedAt fuel depth).expr least ctx tokens =
        .ok tree (ctx.skipSpace remaining) ∧
      tree.phrase? = some (whole.atLeast infixes least) ∧ tree.Grouped infixes ∧
      ∀ other : Tree, other.phrase? = some (whole.atLeast infixes least) →
        other.Grouped infixes → other = tree := by
  have spelledUnbounded := (Phrase.spelled_bounded infixes ctx 0 whole _ after).2 spelled
  obtain ⟨remaining, begins, stops⟩ :=
    Phrase.spelled_atLeast always least whole _ after spelledUnbounded beyond
  obtain ⟨fuel, rfl⟩ : ∃ less, fuel = less + 1 := ⟨fuel - 1, by omega⟩
  have unbounded : (ctx.bounded 0).maxDepth ≤ 0 := le_rfl
  have skips : Skipping (ctx.bounded 0).skipSpace := skipping
  have tighter : Tighter ctx.maxDepth 0 := tighter_of_nonpos le_rfl
  have unboundedRead := ((Grammar.nestedAt_upToDepth (uniform_grammar [] infixes always) tighter
    (fuel + 1) depth).expr least tokens).resolve_right shallow
  have reads (tree : Tree) (inOrder : tree.phrase? = some (whole.atLeast infixes least))
      (grouped : tree.Grouped infixes) :
      ((grammar [] infixes always).nestedAt (fuel + 1) depth).expr least ctx tokens =
        .ok tree (ctx.skipSpace remaining) := by
    have inward := (skipping.suffix tokens).length_le
    have binds (symbol : String) (root : tree.root? = some symbol) : least ≤ level infixes symbol :=
      Phrase.le_of_mem_atLeast least whole symbol (root_mem_symbols tree _ symbol inOrder root)
    have closed : tree.Closed infixes always (ctx.bounded 0) remaining := fun symbol root =>
      stops.mono ((binds symbol root).trans (level_le_rightLevel symbol))
    obtain ⟨extra, longer, read⟩ := exprFrom_spelled consistent always unbounded skips tree _ _
      remaining least fuel (depth + 1) inOrder grouped begins binds closed (by omega)
    rw [unboundedRead, Grammar.nestedAt_expr _ unbounded]
    exact read.trans (Grammar.operatorsFrom_stop _ stops (by omega))
  have known := Phrase.Spelled.known _ _ _ begins
  have built := reads _ (Phrase.phrase?_tree _) (Phrase.grouped_tree consistent _ known)
  refine ⟨_, remaining, (Phrase.spelled_bounded infixes ctx 0 _ _ _).1 begins, built,
    Phrase.phrase?_tree _, Phrase.grouped_tree consistent _ known, ?_⟩
  intro other inOrder grouped
  have again := reads other inOrder grouped
  rw [built, EStateM.Result.ok.injEq] at again
  exact again.1.symm

theorem expr_longest_beginning_product :
    ∃ remaining,
      ((grammar [] [⟨"+", 1, .left⟩, ⟨"*", 2, .left⟩] false).nestedAt 9 0).expr 2
          ⟨default, "", {}, id, id, 512⟩
          (["a", "*", "(", "b", ")", "+", "c"].map fun text => ⟨text, Place.start, 0, false⟩) =
        .ok (.between (.word "a") "*" (.group (.word "b"))) remaining := by
  have consistent : Consistent [⟨"+", 1, .left⟩, ⟨"*", 2, .left⟩] :=
    ⟨by decide, by decide, by decide, by decide⟩
  have skipping : Skipping id := ⟨fun rest => List.suffix_rfl, fun _ => rfl⟩
  have spelled : Phrase.Spelled [⟨"+", 1, .left⟩, ⟨"*", 2, .left⟩] ⟨default, "", {}, id, id, 512⟩
      (.more (.word "a") "*" (.more (.group (.single (.word "b"))) "+" (.single (.word "c"))))
      (["a", "*", "(", "b", ")", "+", "c"].map fun text => ⟨text, Place.start, 0, false⟩) [] := by
    refine ⟨_, _, _, ⟨_, [], rfl, rfl, ?_, ?_, ?_⟩, rfl, ?_, rfl, _, _, _, ⟨_, _, _, _, rfl, ?_,
      ⟨_, [], rfl, rfl, ?_, ?_, ?_⟩, rfl, ?_, rfl⟩, rfl, ?_, rfl, ⟨_, [], rfl, rfl, ?_, ?_, ?_⟩⟩
    all_goals first | exact ⟨rfl, rfl⟩ | decide
  obtain ⟨tree, remaining, -, read, -, -, only⟩ := expr_longest_beginning _ consistent false
    _ skipping _ _ [] spelled rfl 2 9 0 (by decide) (fun deep => deep)
  have same := only (.between (.word "a") "*" (.group (.word "b"))) rfl
    (by simp [Tree.Grouped, Tree.root?])
  exact ⟨_, same ▸ read⟩

end ScriptKernel.OperatorTable
