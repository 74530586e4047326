import ScriptKernel.Proofs.Session.Progress

/-!
Diagnostics point at true positions. All lexemes of a stream, source text and
markers, stand where their offset says; and what makes a source unreadable is
reported at such a place under the name of the file.
-/

namespace ScriptKernel.Session

variable {s : Session} {source : List UInt8} {tokens : List Lexeme} {e : LexError}

theorem tokens_refused_place (refused : s.tokens source = .error e) :
    ∃ p : Place, p.Counted source ∧ e.offset = p.offset ∧ e.location = p.location s.options.file := by
  obtain ⟨e', rfl, unread | ⟨lexemes, read, unplaced⟩⟩ := tokens_refused refused
  · obtain ⟨p, fault, counted, rfl⟩ := Lexer.lex_refuses unread
    exact ⟨p, counted, rfl, rfl⟩
  · obtain ⟨p, fault, counted, rfl⟩ := Layout.apply_refused (lex_placed read) unplaced
    exact ⟨p, counted, rfl, rfl⟩

theorem location_placed {ctx : Context} {P : Place → Prop} (past : ctx.past = Lexeme.past tokens) (some : tokens ≠ [])
    (places : ∀ m ∈ tokens, P m.place) {reached : Rest} (within : reached <:+ tokens) :
    ∃ p, P p ∧ ctx.location reached = p.location ctx.file := by
  cases reached with
  | cons l rest => exact ⟨l.place, places l (within.subset List.mem_cons_self), rfl⟩
  | nil =>
    have last := List.getLast?_eq_some_getLast some
    refine ⟨(tokens.getLast some).place, places _ (List.getLast_mem some), ?_⟩
    rw [Context.location, Context.peek, past, Lexeme.past, last]
    rfl

/-- The positions of a source are true. Every lexeme of the stream, a marker
too, has the line and the column of its offset, markers are empty, and offsets
do not go back. A fault is reported under the name of the file with the line and
column of some offset, for one of bytes or of layout its own. -/
theorem positions_counted (known : s.language ∈ Language.all) (source : List UInt8) :
    (∀ tokens, s.tokens source = .ok tokens →
      (∀ l ∈ tokens, l.place.Counted source ∧ (l.synthetic = true → l.stop = l.place.offset)) ∧
        tokens.Pairwise fun a b => a.place.offset ≤ b.place.offset) ∧
    (∀ e, s.parse source = .error (.lex e) →
      ∃ p : Place, p.Counted source ∧ e.offset = p.offset ∧ e.location = p.location s.options.file) ∧
    ∀ e, s.parse source = .error (.parse e) →
      ∃ p : Place, p.Counted source ∧ e.location = p.location s.options.file := by
  rw [parse_eq]
  have outcome := parseWithin_outcome known s.maxDepth source
  refine ⟨fun tokens lexed => ?_, fun e failed => ?_, fun e failed => ?_⟩
  · have streamed := tokens_streamed lexed
    exact ⟨fun l member => ⟨streamed.places l member, streamed.empty l member⟩, streamed.forward⟩
  · rcases outcome with ⟨program, parsed⟩ | ⟨e', refused, unread⟩ | ⟨e', tokens, other, -⟩
    · rw [failed] at parsed
      cases parsed
    · rw [failed] at refused
      cases refused
      exact tokens_refused_place unread
    · rw [failed] at other
      cases other
  · rcases outcome with ⟨program, parsed⟩ | ⟨e', refused, -⟩ | ⟨e', tokens, same, lexed, fair⟩
    · rw [failed] at parsed
      cases parsed
    · rw [failed] at refused
      cases refused
    · rw [failed] at same
      cases same
      obtain ⟨reached, within, sited⟩ := fair.sited
      obtain ⟨-, file, past, -⟩ := Language.context_eq known tokens s.options.file s.maxDepth
      have some : tokens ≠ [] := by
        obtain ⟨front, finish, rfl, -⟩ := tokens_ended known lexed
        simp
      obtain ⟨p, counted, here⟩ := location_placed past some (tokens_streamed lexed).places within
      refine ⟨p, counted, ?_⟩
      rw [sited, ← file]
      exact here

theorem accented_tokens : ∃ tokens, (⟨Language.minirust, {}⟩ : Session).tokens (Text.Utf8.encode "é\nb") = .ok tokens ∧
    tokens.map (·.place) = [⟨0, 1, 1⟩, ⟨2, 1, 2⟩, ⟨3, 2, 1⟩, ⟨4, 2, 2⟩] := by
  refine ⟨?tokens, ?lexed, ?places⟩
  case lexed => cbv; rfl
  case places => rfl

theorem positions_counted_accent :
    let s : Session := ⟨Language.minirust, {}⟩
    let source := Text.Utf8.encode "é\nb"
    ∃ tokens, s.tokens source = .ok tokens ∧
      tokens.map (·.place) = [⟨0, 1, 1⟩, ⟨2, 1, 2⟩, ⟨3, 2, 1⟩, ⟨4, 2, 2⟩] ∧ ∀ l ∈ tokens, l.place.Counted source := by
  intro s source
  obtain ⟨tokens, lexed, places⟩ := accented_tokens
  have known : s.language ∈ Language.all := List.mem_cons_of_mem _ List.mem_cons_self
  have counted := ((positions_counted known source).1 tokens lexed).1
  exact ⟨tokens, lexed, places, fun l member => (counted l member).1⟩

end ScriptKernel.Session
