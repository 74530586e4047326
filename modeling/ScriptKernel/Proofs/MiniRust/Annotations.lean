import ScriptKernel.Proofs.MiniRust.Partings
import ScriptKernel.Proofs.MiniRust.TypeTexts

/-!
Type annotations have no meaning. Behind the name that a variable is declared by,
behind a parameter and behind a list of parameters a type may be added to a
program, and the program is read as before. The type starts with one reference at
most, since two are an operator, and where it ends with a bracket no sign of
equality is put directly behind it, since the two are an operator again.
-/

namespace ScriptKernel.MiniRust

open Written

/-- Behind the text `front` a keyword starts a declaration, which goes on with
`region`. At most a number runs into the keyword, no word goes on behind it, and
`stop` has not been read but in a string, a comment or the arguments of a type. -/
structure Opened (keyword stop : String) (front region : List Char) : Prop where
  code : siteBehind front = .code
  fresh : ∀ c ∈ front.rtakeWhile Text.isWordChar, c.isDigit = true
  whole : ∃ c more, region = c :: more ∧ Text.isWordChar c = false
  unstopped : ∀ before behind, (lexed region).map (·.text) = before ++ stop :: behind →
    (Site.through .code before).isOpen = false

structure Named (region : List Char) (name : String) : Prop where
  code : siteBehind region = .code
  apart : region.rtakeWhile Text.isWordChar = []
  valid : IsName name

/-- The texts behind which an annotation may stand, with the sign that it has there
and the lexemes that may follow. -/
inductive Slot : List Char → String → List String → Prop
  | binding {front region : List Char} {name : String} (opened : Opened "let" "=" front region)
      (named : Named region name) : Slot (front ++ ("let".toList ++ (region ++ name.toList))) ":" ["="]
  | parameter {front region : List Char} {name : String} (opened : Opened "fn" ")" front region)
      (named : Named region name) : Slot (front ++ ("fn".toList ++ (region ++ name.toList))) ":" [",", ")"]
  | result {front region : List Char} (opened : Opened "fn" ")" front region)
      (outside : (siteBehind region).isOpen = true) : Slot (front ++ ("fn".toList ++ (region ++ [')']))) "->" ["\x7b"]

def Followed (ends : List String) (after : List Char) : Prop :=
  ∃ text ∈ ends, Rest.isAt text (skipSpace (lexed after)) = true

theorem hidden_of_not_solid {l : Lexeme} (skipped : ¬Solid false l) : l.text ∈ hidden := by
  by_contra visible
  simp only [hidden, blankTexts, List.mem_append, List.mem_cons, List.not_mem_nil, or_false, not_or] at visible
  exact skipped ⟨by simp [Lexeme.isSpace, visible], Or.inr ⟨visible.2, rfl⟩⟩

theorem Followed.first {ends : List String} {after : List Char} (followed : Followed ends after) :
    ∃ l more, lexed after = l :: more ∧ l.text ∈ hidden ++ ends := by
  obtain ⟨text, known, here⟩ := followed
  cases cut : lexed after with
  | nil =>
    rw [cut] at here
    cases here
  | cons l more =>
    refine ⟨l, more, rfl, ?_⟩
    by_cases solid : Solid false l
    · rw [cut, skipSpace, skipFrom_solid solid, Rest.isAt, Bool.and_eq_true, beq_iff_eq] at here
      exact List.mem_append_right _ (here.2 ▸ known)
    · exact List.mem_append_left _ (hidden_of_not_solid solid)

theorem Followed.clear {ends : List String} (known : ∀ text ∈ ends, text ∈ closers) {after : List Char}
    (followed : Followed ends after) (rest : Rest) :
    Clear (lexed after ++ rest) ∧ Rest.isAt "<" (lexed after ++ rest) = false := by
  obtain ⟨l, more, cut, begins⟩ := followed.first
  have plain : ∀ text ∈ hidden ++ closers, isWordText text = false ∧ text ≠ "." ∧ text ≠ "<" := by decide
  have member : l.text ∈ hidden ++ closers := by
    rcases List.mem_append.1 begins with hides | ends
    · exact List.mem_append_left _ hides
    · exact List.mem_append_right _ (known _ ends)
  obtain ⟨other, noPoint, noBracket⟩ := plain l.text member
  rw [cut]
  refine ⟨⟨?_, ?_⟩, ?_⟩
  · rintro _ ⟨⟩
    rw [Lexeme.isWord, other, Bool.and_false]
  · simp [Rest.isAt, noPoint]
  · simp [Rest.isAt, noBracket]

theorem skipFrom_append {semicolons comment : Bool} {first : Rest} (ended : skipFrom semicolons comment first ≠ [])
    (rest : Rest) : skipFrom semicolons comment (first ++ rest) = skipFrom semicolons comment first ++ rest := by
  fun_induction skipFrom semicolons comment first with
  | case1 => exact absurd rfl ended
  | _ => simp_all [skipFrom]

theorem Followed.ended {ends : List String} {after : List Char} (followed : Followed ends after) {rest finish : Rest}
    (bare : rest.bare = lexed after ++ finish) : ∃ text ∈ ends, Rest.isAt text (skipSpace rest) = true := by
  obtain ⟨text, known, here⟩ := followed
  refine ⟨text, known, ?_⟩
  have ended : skipSpace (lexed after) ≠ [] := by
    intro nothing
    rw [nothing] at here
    cases here
  rw [← Rest.isAt_bare, skipSpace, ← skipFrom_bare, bare, skipFrom_append ended]
  cases skipped : skipFrom false false (lexed after) with
  | nil => exact absurd skipped ended
  | cons l more =>
    rw [skipSpace, skipped] at here
    exact here

theorem skipType_trivia {ctx : Context} (skips : ctx.skipSpace = skipSpace) {run : List Char} (trivia : Trivia run)
    (rest : Rest) : skipType ctx (lexed run ++ rest) = skipType ctx rest := by
  simp only [skipType, skips, skipSpace, trivia.skipped]

theorem lexed_opening {sign : String} (signed : sign ∈ [":", "->"]) (after : List Char) (ends : Rest) :
    lexed (sign.toList ++ after) = .source sign :: lexed after ∧
      skipSpace (.source sign :: ends) = .source sign :: ends := by
  simp only [List.mem_cons, List.not_mem_nil, or_false] at signed
  rcases signed with rfl | rfl
  · exact ⟨lexed_char (by decide) after, rfl⟩
  · exact ⟨Lexer.lexed_pair paired (by decide) after, rfl⟩

variable {s : Session} {tokens tokens' : Rest} {forks : List Fork} {sign : String} {ends : List String}
  {lead gap after : List Char} {rest rest' : Rest}

theorem annotated {k : Transfer} (skips : k.ctx.skipSpace = skipSpace ∧ k.walk.ctx.skipSpace = skipSpace)
    (inside : k.inside = Beside forks) (plain : Fork.none ∈ forks) (signed : sign ∈ [":", "->"])
    (known : ∀ text ∈ ends, text ∈ closers) (followed : Followed ends after) (leading : Trivia lead)
    (between : Trivia gap) (t : TypeText) (single : t.references ≤ 1)
    (apart : t.arguments.isSome = true → after.head? ≠ some '=')
    (bare : rest.bare = lexed after ++ [.sign "EOF"])
    (bare' : rest'.bare = lexed (lead ++ (sign.toList ++ (gap ++ (t.text ++ after)))) ++ [.sign "EOF"]) :
    Annotated k sign ends rest rest' := by
  have skipped : (skipSpace rest').bare = .source sign :: (lexed gap ++ (lexed (t.text ++ after) ++ [.sign "EOF"])) := by
    rw [skipSpace, ← skipFrom_bare, bare', leading.lexed_front, List.append_assoc, leading.skipped,
      (lexed_opening signed _ []).1, between.lexed_front, List.cons_append, List.append_assoc]
    exact (lexed_opening signed [] _).2
  constructor
  · rw [skips.2, ← Rest.isAt_bare, skipped]
    simp
  · rw [skips.1]
    exact followed.ended bare
  · rw [skips.2, inside]
    refine ⟨_, rfl, Fork.none, plain, alike_of_bare .code bare ?_⟩
    have typed := skipType_bare skips.2 (rfl : skipType k.walk.ctx (skipSpace rest').tail = _)
    obtain ⟨clear, other⟩ := followed.clear known [.sign "EOF"]
    rw [← Rest.tail_bare, skipped, List.tail_cons, skipType_trivia skips.2 between,
      t.skipped single skips.2 clear other apart] at typed
    injection typed with _ reached
    exact reached.symm

/-- What an annotation is put behind, with its sign and what may follow it: a name
or a parenthesis, with `region` before it. -/
inductive Last (region : List Char) (names : List String) : String → List String → Char → List Char → Prop
  | name {c : Char} {text : List Char} (start : Text.isNameStart c = true)
      (wordlike : ∀ d ∈ c :: text, Text.isWordChar d = true) (free : String.ofList (c :: text) ∉ reserved)
      (code : siteBehind region = .code) (apart : region.rtakeWhile Text.isWordChar = []) :
      Last region names ":" names c text
  | paren (outside : (siteBehind region).isOpen = true) : Last region names "->" ["\x7b"] ')' []

namespace Last

variable {region : List Char} {names : List String} {c : Char} {text : List Char}

theorem lettered (last : Last region names sign ends c text) : Lettered (c :: text) where
  nonempty := List.cons_ne_nil c text
  alone := by
    cases last with
    | name start wordlike => exact fun d member => Or.inl (wordlike d member)
    | paren => exact List.forall_mem_singleton.2 (Or.inr rfl)

theorem starts (last : Last region names sign ends c text) : c = ')' ∨ Text.isNameStart c = true := by
  cases last with
  | name start => exact Or.inr start
  | paren => exact Or.inl rfl

theorem signed (last : Last region names sign ends c text) : sign ∈ [":", "->"] := by
  cases last <;> decide

theorem known (last : Last region names sign ends c text) (known : ∀ text ∈ names, text ∈ closers) :
    ∀ text ∈ ends, text ∈ closers := by
  cases last with
  | name => exact known
  | paren => decide

theorem isOpen (last : Last region names sign ends c text) : (siteBehind region).isOpen = true := by
  cases last with
  | name start wordlike free code => rw [code]; rfl
  | paren outside => exact outside

theorem turns (last : Last region names sign ends c text) :
    (siteBehind region).step (String.singleton c) = .code := by
  cases last with
  | name start wordlike free code =>
    have word := isWord_singleton (wordlike c List.mem_cons_self)
    rw [code, Site.step]
    apply Site.stepCode_plain
    intro member
    have other : ∀ text ∈ hidden ++ turning, isWordText text = false := by decide
    rw [Lexeme.isWord, Lexeme.source_text, other _ member, Bool.and_false] at word
    cases word
  | paren outside =>
    revert outside
    generalize siteBehind region = site
    cases site with
    | code | typeStart | typeReference | typeWord => exact fun _ => by decide
    | angles depth | comment beforeType | string escaped =>
      intro outside
      cases outside

section reaching

variable {behind behind' reached reached' : Rest}

theorem apart (last : Last region names sign ends c text) (reaches : Reaches (c :: text) behind reached)
    (named : Rest.isNameStart reached = true) : region.rtakeWhile Text.isWordChar = [] := by
  cases last with
  | name start wordlike free code apart => exact apart
  | paren =>
    rw [← Rest.isNameStart_bare, reaches.bare] at named
    cases named

theorem word (last : Last region names sign ends c text) : ∃ word, word ∉ reserved ∧
    ∀ {behind reached}, Unworded behind → Reaches (c :: text) behind reached → Rest.word reached = word := by
  cases last with
  | name start wordlike free => exact ⟨_, free, fun stops reaches => (reaches.read wordlike stops).1⟩
  | paren =>
    refine ⟨"", by decide, ?_⟩
    rintro behind reached - reaches
    rw [← Rest.word_bare, reaches.bare]
    exact word_of_not_isWord (by decide) _

theorem same_word (last : Last region names sign ends c text) (reaches : Reaches (c :: text) behind reached)
    (reaches' : Reaches (c :: text) behind' reached') (stops : Unworded behind) (stops' : Unworded behind') :
    Rest.word reached' = Rest.word reached := by
  obtain ⟨word, -, read⟩ := last.word
  rw [read stops reaches, read stops' reaches']

theorem parts {k : Transfer} (last : Last region names sign ends c text) (stop : String)
    (reaches : Reaches (c :: text) behind reached) (reaches' : Reaches (c :: text) behind' reached')
    (stops : Unworded behind) (stops' : Unworded behind') (annotated : Annotated k sign ends behind behind') :
    Region k (.between [stop] reaches.first reaches'.first last.starts (last.same_word reaches reaches' stops stops')) stop
      names where
  stops := List.mem_cons_self
  unreserved := by
    rintro _ _ ⟨rfl, rfl⟩
    obtain ⟨word, free, read⟩ := last.word
    rw [read stops reaches]
    exact free
  name := by
    rintro _ _ ⟨rfl, rfl⟩ named
    cases last with
    | name start wordlike =>
      rw [(reaches.read wordlike stops).2, (reaches'.read wordlike stops').2]
      exact annotated
    | paren =>
      rw [← Rest.isNameStart_bare, reaches.bare] at named
      cases named
  paren := by
    rintro _ _ ⟨rfl, rfl⟩ here
    cases last with
    | name start =>
      rw [reaches.isAt] at here
      have same : c = ')' := by simpa using congrArg String.toList (eq_of_beq here)
      rw [same] at start
      cases start
    | paren =>
      rw [reaches.tail, reaches'.tail]
      exact annotated

end reaching

end Last

theorem declared_word {d : Char} {word : List Char} {stop : String} {names : List String}
    (declared : (String.ofList (d :: word), stop, names) ∈ declarations) :
    Text.isNameStart d = true ∧ (∀ e ∈ d :: word, Text.isWordChar e = true) ∧ ∀ text ∈ names, text ∈ closers := by
  have all : ∀ declared ∈ declarations, declared.1.toList.head?.any Text.isNameStart = true ∧
      (∀ e ∈ declared.1.toList, Text.isWordChar e = true) ∧ ∀ text ∈ declared.2.2, text ∈ closers := by decide
  simpa using all _ declared

theorem Slot.last {before : List Char} (slot : Slot before sign ends) : ∃ d word stop names front region c text,
    (String.ofList (d :: word), stop, names) ∈ declarations ∧ Opened (String.ofList (d :: word)) stop front region ∧
      Last region names sign ends c text ∧ before = front ++ (d :: word ++ (region ++ c :: text)) := by
  have named {region : List Char} {name : String} {names : List String} (known : Named region name) :
      ∃ c text, name.toList = c :: text ∧ Last region names ":" names c text := by
    obtain ⟨c, text, chars, start, -⟩ := known.valid.parts
    have wordlike := known.valid.wordChars
    have free := known.valid.free
    rw [← String.ofList_toList (s := name)] at free
    rw [chars] at wordlike free
    exact ⟨c, text, chars, .name start wordlike free known.code known.apart⟩
  cases slot with
  | binding opened known =>
    obtain ⟨c, text, chars, last⟩ := named known
    exact ⟨'l', ['e', 't'], _, _, _, _, c, text, List.mem_cons_self, opened, last, by rw [chars]; rfl⟩
  | parameter opened known =>
    obtain ⟨c, text, chars, last⟩ := named known
    exact ⟨'f', ['n'], _, _, _, _, c, text, List.mem_cons_of_mem _ List.mem_cons_self, opened, last, by rw [chars]; rfl⟩
  | result opened outside =>
    exact ⟨'f', ['n'], _, _, _, _, _, _, List.mem_cons_of_mem _ List.mem_cons_self, opened, .paren outside, rfl⟩

theorem Opened.unworded {keyword stop : String} {front region : List Char} (opened : Opened keyword stop front region)
    {within : Rest} (bare : within.bare = lexed region) (rest : Rest) : Unworded (within ++ rest) := by
  obtain ⟨c, more, rfl, other⟩ := opened.whole
  have whole : Rest.bare (within ++ rest) = lexed (c :: more) ++ rest.bare := by
    rw [← bare]
    exact List.map_append
  exact unworded_lexed other whole

theorem Followed.unworded (followed : Followed ends after) (known : ∀ text ∈ ends, text ∈ closers)
    (bare : rest.bare = lexed after ++ [.sign "EOF"]) : Unworded rest := by
  obtain ⟨clear, -⟩ := followed.clear known [.sign "EOF"]
  rw [← bare] at clear
  cases rest with
  | nil => exact nofun
  | cons l rest =>
    rintro _ ⟨⟩
    rw [← Lexeme.isWord_bare]
    exact clear.noWord _ rfl

theorem unworded_before_sign (signed : sign ∈ [":", "->"]) (leading : Trivia lead)
    (bare : rest.bare = lexed (lead ++ (sign.toList ++ after)) ++ [.sign "EOF"]) : Unworded rest := by
  obtain ⟨c, more, first, other⟩ : ∃ c more, lead ++ (sign.toList ++ after) = c :: more ∧ Text.isWordChar c = false := by
    cases leading with
    | nil =>
      have starts : ∀ sign ∈ [":", "->"], ∃ c more, sign.toList = c :: more ∧ Text.isWordChar c = false := by
        simp only [List.forall_mem_cons]
        exact ⟨⟨':', [], rfl, rfl⟩, ⟨'-', ['>'], rfl, rfl⟩, List.forall_mem_nil _⟩
      obtain ⟨c, more, chars, other⟩ := starts sign signed
      exact ⟨c, more ++ after, by rw [chars]; rfl, other⟩
    | @blank c run blank later =>
      have blanks : ∀ c ∈ blankChars, Text.isWordChar c = false := by decide
      exact ⟨c, _, rfl, blanks c blank⟩
    | comment oneLine later => exact ⟨'/', _, rfl, rfl⟩
  rw [first] at bare
  exact unworded_lexed other bare

namespace Cut

variable {d c : Char} {front word region text behind behind' : List Char} {stop : String} {names : List String}
  (cut : Cut front (d :: word) region (c :: text) behind tokens)
  (cut' : Cut front (d :: word) region (c :: text) behind' tokens')

theorem declares {k : Transfer} (declared : (String.ofList (d :: word), stop, names) ∈ declarations)
    (opened : Opened (String.ofList (d :: word)) stop front region) (last : Last region names sign ends c text)
    (stops : Unworded cut.rest) (stops' : Unworded cut'.rest) (annotated : Annotated k sign ends cut.rest cut'.rest) :
    Declares k cut.declaration cut'.declaration := by
  obtain ⟨-, wordlike, -⟩ := declared_word declared
  obtain ⟨keyword, later⟩ := cut.starts.read wordlike (opened.unworded cut.region cut.reached)
  obtain ⟨-, later'⟩ := cut'.starts.read wordlike (opened.unworded cut'.region cut'.reached)
  refine ⟨stop, names, _, keyword ▸ declared, last.parts stop cut.reaches cut'.reaches stops stops' annotated, ?_⟩
  rw [later, later']
  refine Alike.upTo cut.region cut'.region _ _ _ _ ?passes ?apart last.isOpen last.turns
  case passes =>
    intro known barred before behind split
    rw [List.mem_singleton.1 barred] at split
    exact opened.unstopped before behind split
  case apart =>
    intro named e member
    rw [last.apart cut.reaches named] at member
    cases member

theorem alike (declared : (String.ofList (d :: word), stop, names) ∈ declarations)
    (opened : Opened (String.ofList (d :: word)) stop front region) : ∃ fork, fork.start ≠ ")" ∧
      Alike fork .code tokens tokens' ∧
      ∀ {rest rest'}, fork.parts rest rest' → rest = cut.declaration ∧ rest' = cut'.declaration := by
  obtain ⟨named, wordlike, -⟩ := declared_word declared
  have keyword := (cut.starts.read wordlike (opened.unworded cut.region cut.reached)).1
  have keyword' := (cut'.starts.read wordlike (opened.unworded cut'.region cut'.reached)).1
  have other : String.singleton d ≠ ")" := by
    intro same
    have paren : d = ')' := by simpa using congrArg String.toList same
    rw [paren] at named
    cases named
  let fork : Fork := .between [] cut.starts.first cut'.starts.first (Or.inr named) (keyword'.trans keyword.symm)
  have turns : (siteBehind front).step fork.start = .code := by
    rw [opened.code]
    exact fork.turns
  have isOpen : (siteBehind front).isOpen = true := by
    rw [opened.code]
    rfl
  have alike : Alike fork .code (cut.before ++ cut.declaration) (cut'.before ++ cut'.declaration) :=
    Alike.upTo cut.front cut'.front _ _ _ _ nofun (fun _ => opened.fresh) isOpen turns
  rw [← cut.split, ← cut'.split] at alike
  exact ⟨fork, other, alike, id⟩

end Cut

theorem skipSpace_sideBySide (minirust : s.language = Language.minirust) :
    (sideBySide s tokens tokens' forks).ctx.skipSpace = skipSpace ∧
      (sideBySide s tokens tokens' forks).walk.ctx.skipSpace = skipSpace := by
  have first : (sideBySide s tokens tokens' forks).ctx = _ := contextOf_eq minirust tokens
  have second : (sideBySide s tokens tokens' forks).walk.ctx = _ := contextOf_eq minirust tokens'
  rw [first, second]
  exact ⟨rfl, rfl⟩

/-- Annotations are erased: where one is put into a source that parses, behind a
name or behind parameters, the program is the same. -/
theorem annotation_erased (minirust : s.language = Language.minirust) {before : List Char}
    (slot : Slot before sign ends) (followed : Followed ends after) (leading : Trivia lead) (between : Trivia gap)
    (t : TypeText) (single : t.references ≤ 1) (apart : t.arguments.isSome = true → after.head? ≠ some '=')
    {program : List Stmt} (parsed : s.parse (Text.Utf8.encode (String.ofList (before ++ after))) = .ok program) :
    s.parse (Text.Utf8.encode (String.ofList (before ++ (lead ++ (sign.toList ++ (gap ++ (t.text ++ after))))))) =
      .ok program := by
  obtain ⟨d, word, stop, names, front, region, c, text, declared, opened, last, rfl⟩ := slot.last
  obtain ⟨-, wordlike, known⟩ := declared_word declared
  have lettered : Lettered (d :: word) := ⟨List.cons_ne_nil d word, fun e member => Or.inl (wordlike e member)⟩
  -- Both streams are cut at the keyword and at what the annotation is put behind.
  have cuts (behind : List Char) : ∃ tokens, s.tokens (Text.Utf8.encode (String.ofList
      (front ++ (d :: word ++ (region ++ c :: text)) ++ behind))) = .ok tokens ∧
        Nonempty (Cut front (d :: word) region (c :: text) behind tokens) := by
    obtain ⟨tokens, lexed, bare⟩ := tokens_encode minirust (front ++ (d :: word ++ (region ++ c :: text)) ++ behind)
    simp only [List.append_assoc] at bare
    exact ⟨tokens, lexed, exists_cut lettered last.lettered bare⟩
  obtain ⟨tokens, lexed, ⟨cut⟩⟩ := cuts after
  obtain ⟨tokens', lexed', ⟨cut'⟩⟩ := cuts (lead ++ (sign.toList ++ (gap ++ (t.text ++ after))))
  obtain ⟨found, again, read⟩ := Session.tokens_of_parse parsed
  cases lexed.symm.trans again
  refine Session.parse_of_tokens ⟨tokens', lexed', ?_⟩
  obtain ⟨fork, other, alike, only⟩ := cut.alike cut' declared opened
  have worded : ∀ fork' ∈ [fork, .none], fork'.start ≠ ")" := by
    simp only [List.forall_mem_cons]
    exact ⟨other, by decide, List.forall_mem_nil _⟩
  refine parse_beside minirust lexed' worded ?_ ⟨fork, List.mem_cons_self, alike⟩ read
  intro fork' member rest rest' parts
  simp only [List.mem_cons, List.not_mem_nil, or_false] at member
  rcases member with rfl | rfl
  · obtain ⟨rfl, rfl⟩ := only parts
    apply cut.declares cut' declared opened last (followed.unworded (last.known known) cut.ends)
      (unworded_before_sign last.signed leading cut'.ends)
    exact annotated (skipSpace_sideBySide minirust) rfl (List.mem_cons_of_mem _ List.mem_cons_self) last.signed
      (last.known known) followed leading between t single apart cut.ends cut'.ends
  · exact parts.elim

theorem unstopped_of_not_mem {c : Char} {region : List Char} (none : c ∉ region) (before behind : List String)
    (split : (lexed region).map (·.text) = before ++ String.singleton c :: behind) :
    (Site.through .code before).isOpen = false := by
  have occurs : String.singleton c ∈ (lexed region).map (·.text) := by
    rw [split]
    exact List.mem_append_right _ List.mem_cons_self
  obtain ⟨l, member, text⟩ := List.mem_map.1 occurs
  exact absurd text (Lexer.singleton_not_mem_lexed paired none l member)

theorem parsed_parameters : (⟨Language.minirust, {}⟩ : Session).parse (Text.Utf8.encode "fn f(a, b) \x7b a \x7d") =
    .ok [.declare 0 "f" ["a", "b"] [.expr (.var "a")]] := by
  refine Session.parse_of_tokens ⟨?tokens, ?lexed, ?read⟩
  case lexed => cbv; rfl
  case read =>
    change grammar.parse (context _ "" 512) _ = _
    rfl

theorem annotation_erased_parameter :
    let s : Session := ⟨Language.minirust, {}⟩
    let program := [Stmt.declare 0 "f" ["a", "b"] [.expr (.var "a")]]
    Slot "fn f(a".toList ":" [",", ")"] ∧ Followed [",", ")"] ", b) \x7b a \x7d".toList ∧
      s.parse (Text.Utf8.encode "fn f(a, b) \x7b a \x7d") = .ok program ∧
      s.parse (Text.Utf8.encode "fn f(a: &Vec<&&A,B<C>>, b) \x7b a \x7d") = .ok program := by
  intro s program
  have none : ')' ∉ " f(".toList := by decide
  have opened : Opened "fn" ")" [] " f(".toList := ⟨by cbv, by decide, ⟨' ', _, rfl, rfl⟩, unstopped_of_not_mem none⟩
  have named : Named " f(".toList "a" := ⟨by cbv, rfl, ⟨rfl, by decide⟩⟩
  have slot : Slot "fn f(a".toList ":" [",", ")"] := .parameter opened named
  have followed : Followed [",", ")"] ", b) \x7b a \x7d".toList := ⟨",", by decide, by cbv⟩
  have balanced : Bracketed "&&A,B<C>".toList := by
    have inner : Bracketed ['C'] := .plain (by decide) .nil
    have outer : Bracketed "B<C>".toList := .plain (by decide) (.group inner .nil)
    exact .plain (by decide) (.plain (by decide) (.plain (by decide) (.plain (by decide) outer)))
  let t : TypeText := ⟨1, "Vec".toList, some "&&A,B<C>".toList, by decide, by decide, by rintro _ ⟨⟩; exact balanced⟩
  have blank : Trivia [' '] := .blank (by decide) .nil
  have erased := annotation_erased (s := s) rfl slot followed .nil blank t (Nat.le_refl 1) (fun _ => by decide)
    parsed_parameters
  exact ⟨slot, followed, parsed_parameters, erased⟩

theorem parsed_binding : (⟨Language.minirust, {}⟩ : Session).parse (Text.Utf8.encode "let x= 1;\n") =
    .ok [.define "x" (.literal (.int 1))] := by
  refine Session.parse_of_tokens ⟨?tokens, ?lexed, ?read⟩
  case lexed => cbv; rfl
  case read =>
    change grammar.parse (context _ "" 512) _ = _
    rfl

/-- A bracket with a sign of equality behind it is another lexeme, so that the
arguments of the type do not end and nothing is left of the source. -/
theorem bracket_fused :
    let s : Session := ⟨Language.minirust, {}⟩
    Slot "let x".toList ":" ["="] ∧ Followed ["="] "= 1;\n".toList ∧ Bracketed "i64".toList ∧
      s.parse (Text.Utf8.encode "let x= 1;\n") = .ok [.define "x" (.literal (.int 1))] ∧
      s.parse (Text.Utf8.encode "let x: Vec<i64>= 1;\n") =
        .error (.parse ⟨.expected ["="] "", ⟨2, 1, ""⟩⟩) := by
  intro s
  have none : '=' ∉ [' '] := by decide
  have opened : Opened "let" "=" [] [' '] := ⟨by cbv, by decide, ⟨' ', [], rfl, rfl⟩, unstopped_of_not_mem none⟩
  have named : Named [' '] "x" := ⟨by cbv, rfl, ⟨rfl, by decide⟩⟩
  have bracketed : Bracketed "i64".toList := .plain (by decide) (.plain (by decide) (.plain (by decide) .nil))
  have fails : ∃ tokens, s.tokens (Text.Utf8.encode "let x: Vec<i64>= 1;\n") = .ok tokens ∧
      s.language.grammar.parse (s.contextOf tokens) tokens = .error ⟨.expected ["="] "", ⟨2, 1, ""⟩⟩ := by
    refine ⟨?tokens, ?lexed, ?read⟩
    case lexed => cbv; rfl
    case read =>
      change grammar.parse (context _ "" 512) _ = _
      rfl
  obtain ⟨tokens, lexed, failed⟩ := fails
  refine ⟨.binding opened named, ⟨"=", by decide, by cbv⟩, bracketed, parsed_binding, ?_⟩
  rw [Session.parse_tokens lexed, failed]
  rfl

end ScriptKernel.MiniRust
