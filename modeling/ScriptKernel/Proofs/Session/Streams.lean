import ScriptKernel.Proofs.Layout.Marks
import ScriptKernel.Proofs.Lumen.Progress
import ScriptKernel.Proofs.MiniRust.Progress
import ScriptKernel.Session.Basic

/-!
The stream of a session. It goes forward between places of its source, and ends
with its only end marker; and along it the parsers of each language make
progress.
-/

namespace ScriptKernel

open Layout (Placed Streamed)

def Walk.plain (ctx : Context) (base : Rest) (limit : Nat) : Walk :=
  ⟨ctx, base, limit, fun _ _ _ => True⟩

theorem Walk.plain_sound {ctx : Context} {base : Rest} (limit : Nat) (digital : base.Digital)
    (space : ∀ rest, ctx.skipSpace rest <:+ rest) (trivia : ∀ rest, ctx.skipTrivia rest <:+ rest) :
    (plain ctx base limit).Sound where
  digital := digital
  nil _ := trivial
  append _ _ := trivial
  word _ _ _ := trivial
  digits _ _ _ := trivial
  point _ _ _ := trivial
  marker _ _ _ := trivial
  skipSpace _ rest := by
    obtain ⟨eaten, split⟩ := space rest
    exact ⟨eaten, split.symm, trivial⟩
  skipTrivia _ rest := by
    obtain ⟨eaten, split⟩ := trivia rest
    exact ⟨eaten, split.symm, trivial⟩

theorem MiniRust.skipFrom_suffix (semicolons comment : Bool) (rest : Rest) :
    skipFrom semicolons comment rest <:+ rest := by
  fun_induction skipFrom semicolons comment rest with
  | case1 => exact List.suffix_rfl
  | case2 => exact List.suffix_rfl
  | case3 l rest _ ih => exact ih.trans (List.suffix_cons l rest)
  | case4 l rest _ ih => exact ih.trans (List.suffix_cons l rest)
  | case5 => exact List.suffix_rfl
  | case6 l rest _ _ _ ih => exact ih.trans (List.suffix_cons l rest)
  | case7 l rest _ _ _ _ ih => exact ih.trans (List.suffix_cons l rest)
  | case8 => exact List.suffix_rfl

namespace Language

variable {language : Language} {tokens : List Lexeme}

theorem forall_known {P : Language → Prop} (first : P lumen) (second : P minirust) (known : language ∈ all) :
    P language := by
  simp only [all, List.mem_cons, List.not_mem_nil, or_false] at known
  rcases known with rfl | rfl
  · exact first
  · exact second

theorem grammar_moving (known : language ∈ all) (digital : Rest.Digital tokens) (file : String) (bound : Int)
    (limit : Nat) :
    let w := Walk.plain (language.context tokens file bound) tokens limit
    w.Sound ∧ language.grammar.Moving w := by
  apply forall_known (P := fun language =>
    (Walk.plain (language.context tokens file bound) tokens limit).Sound ∧
      language.grammar.Moving (Walk.plain (language.context tokens file bound) tokens limit)) _ _ known
  · have sound : (Walk.plain (Lumen.context tokens file bound) tokens limit).Sound :=
      Walk.plain_sound limit digital (fun _ => List.dropWhile_suffix _) fun _ => List.dropWhile_suffix _
    refine ⟨sound, Lumen.grammar_moving ⟨sound, ?_, ?_, ?_, ?_⟩⟩
    all_goals
      intros
      trivial
  · have sound : (Walk.plain (MiniRust.context tokens file bound) tokens limit).Sound :=
      Walk.plain_sound limit digital (MiniRust.skipFrom_suffix _ _) (MiniRust.skipFrom_suffix _ _)
    exact ⟨sound, MiniRust.grammar_moving ⟨sound, fun _ _ _ => trivial⟩⟩

theorem layout_ends (known : language ∈ all) : language.layout ≠ .identity :=
  forall_known (P := fun language => language.layout ≠ .identity) (by decide) (by decide) known

theorem table_entries (known : language ∈ all) : language.table.Ordered ∧
    ∀ entry ∈ language.table.entries, entry.toList.head?.any Char.isDigit = false := by
  apply forall_known (P := fun language => language.table.Ordered ∧
    ∀ entry ∈ language.table.entries, entry.toList.head?.any Char.isDigit = false) _ _ known
  all_goals
    refine ⟨Table.ofEntries_ordered _, fun entry member => ?_⟩
    replace member := (Table.mem_arranged.1 member).2
    revert entry
    decide

end Language

theorem Lexer.lex_texts {table : Table} (ordered : table.Ordered) {source : List UInt8} {lexemes : List Lexeme}
    (lexed : lex table source = .ok lexemes) :
    ∀ l ∈ lexemes, l.text ∈ table.entries ∨ ∃ c, l.text = String.singleton c := by
  unfold lex at lexed
  dsimp only at lexed
  split at lexed
  next =>
    cases lexed
    intro l member
    have munched : l.Munched table ([] ++ (Text.Utf8.decode source).1.flatMap String.utf8EncodeChar) :=
      cut_munched ordered _ rfl l member
    by_cases fits : ∃ entry ∈ table.entries,
        Text.Utf8.encode entry <+: ((Text.Utf8.decode source).1.flatMap String.utf8EncodeChar).drop l.place.offset
    · exact Or.inl (munched.longest fits).1
    · right
      apply munched.single
      intro entry known starts
      exact fits ⟨entry, known, starts⟩
  next => cases lexed

namespace Session

variable {s : Session} {source : List UInt8} {tokens : List Lexeme} {e : LexError}

theorem tokens_parts (lexed : s.tokens source = .ok tokens) :
    ∃ lexemes, Lexer.lex s.language.table source = .ok lexemes ∧ s.language.layout.apply {} lexemes = .ok tokens := by
  unfold Session.tokens Session.lex at lexed
  cases read : Lexer.lex s.language.table source with
  | error e => simp [read, Except.mapError, bind, Except.bind] at lexed
  | ok lexemes =>
    refine ⟨lexemes, rfl, ?_⟩
    cases applied : s.language.layout.apply {} lexemes with
    | error e => simp [read, applied, Except.mapError, bind, Except.bind] at lexed
    | ok stream =>
      simp only [read, applied, Except.mapError, bind, Except.bind, Except.ok.injEq] at lexed
      rw [lexed]

theorem source_text (lexed : s.tokens source = .ok tokens) :
    ∃ text, source = Text.Utf8.encode (String.ofList text) := by
  obtain ⟨lexemes, cut, -⟩ := tokens_parts lexed
  cases decoded : Text.Utf8.decode source with
  | mk text left =>
    rw [Lexer.lex, decoded] at cut
    cases left with
    | cons byte left => cases cut
    | nil =>
      refine ⟨text, ?_⟩
      rw [Text.Utf8.encode_ofList, (Text.Utf8.decode_eq decoded).1, List.append_nil]

theorem tokens_refused (refused : s.tokens source = .error e) : ∃ e', e = e'.inFile s.options.file ∧
    (Lexer.lex s.language.table source = .error e' ∨
      ∃ lexemes, Lexer.lex s.language.table source = .ok lexemes ∧ s.language.layout.apply {} lexemes = .error e') := by
  unfold Session.tokens Session.lex at refused
  cases read : Lexer.lex s.language.table source with
  | error e' =>
    simp only [read, Except.mapError, bind, Except.bind, Except.error.injEq] at refused
    exact ⟨e', refused.symm, Or.inl rfl⟩
  | ok lexemes =>
    cases applied : s.language.layout.apply {} lexemes with
    | ok stream => simp [read, applied, Except.mapError, bind, Except.bind] at refused
    | error e' =>
      simp only [read, applied, Except.mapError, bind, Except.bind, Except.error.injEq] at refused
      exact ⟨e', refused.symm, Or.inr ⟨lexemes, rfl, applied⟩⟩

theorem lex_placed {table : Table} {lexemes : List Lexeme} (lexed : Lexer.lex table source = .ok lexemes) :
    Placed (Place.Counted source) lexemes := by
  obtain ⟨forward, each⟩ := Lexer.lex_places lexed
  exact ⟨fun l member => (each l member).1, fun l member => (each l member).2.1,
    fun l member => (each l member).2.2.1, fun l member => (each l member).2.2.2, forward⟩

theorem start_counted (source : List UInt8) : Place.start.Counted source := by
  have starts : [] <+: (Text.Utf8.decode source).1 := List.nil_prefix
  have counted := Place.counted_after starts (Text.Utf8.decode source).2
  rwa [← (Text.Utf8.decode_eq rfl).1] at counted

theorem tokens_streamed (lexed : s.tokens source = .ok tokens) : Streamed (Place.Counted source) tokens := by
  obtain ⟨lexemes, read, applied⟩ := tokens_parts lexed
  exact Layout.apply_streamed (lex_placed read) (start_counted source) applied

theorem tokens_ended (known : s.language ∈ Language.all) (lexed : s.tokens source = .ok tokens) :
    Lexeme.Ended {} tokens := by
  obtain ⟨lexemes, read, applied⟩ := tokens_parts lexed
  exact Layout.apply_ended (lex_placed read).real (Language.layout_ends known) (by decide) applied

theorem tokens_digital (known : s.language ∈ Language.all) (lexed : s.tokens source = .ok tokens) :
    Rest.Digital tokens := by
  obtain ⟨lexemes, read, applied⟩ := tokens_parts lexed
  obtain ⟨ordered, operators⟩ := Language.table_entries known
  intro l member digit
  rw [Rest.isDigitStart, Bool.and_eq_true, Bool.not_eq_true'] at digit
  have inSource := Layout.mem_of_apply applied member digit.1
  rcases Lexer.lex_texts ordered read l inSource with operator | ⟨c, single⟩
  · rw [operators l.text operator] at digit
    cases digit.2
  · have isDigit : c.isDigit = true := by
      simpa [single] using digit.2
    simp [Lexeme.isDigits, isDigitText, digit.1, single, isDigit]

end Session

end ScriptKernel
