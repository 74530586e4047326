import ScriptKernel.Proofs.Parse.Reads

/-!
Streams that go on. Of two streams the second is the first up to some point,
where the first ends and the second continues. Before the point the first has
the end of a line or of a block, and no end of the input, so that what is read
within a statement is the same in both.
-/

namespace ScriptKernel

namespace Lexeme

variable {l l' : Lexeme}

def Closes (l : Lexeme) : Prop :=
  l.synthetic = true ∧ l.text ∈ [({} : Aliases).newline, ({} : Aliases).dedent]

def Finishes (l : Lexeme) : Prop :=
  l.synthetic = true ∧ l.text = ({} : Aliases).endOfInput

theorem Closes.not_finishes (closes : l.Closes) : ¬l.Finishes := by
  intro finishes
  rw [Closes, finishes.2] at closes
  exact absurd closes.2 (by decide)

theorem text_of_bare (same : l'.bare = l.bare) : l'.text = l.text := by
  rw [← bare_text, same, bare_text]

theorem synthetic_of_bare (same : l'.bare = l.bare) : l'.synthetic = l.synthetic := by
  rw [← bare_synthetic, same, bare_synthetic]

structure Kind (p : Lexeme → Bool) : Prop where
  bare : ∀ l, p l.bare = p l
  source : ∀ l, p l = true → l.synthetic = false

theorem Kind.same {p : Lexeme → Bool} (kind : Kind p) (same : l'.bare = l.bare) : p l' = p l := by
  rw [← kind.bare, same, kind.bare]

theorem Kind.not_closes {p : Lexeme → Bool} (kind : Kind p) (closes : l.Closes) : p l = false := by
  by_contra holds
  have source := kind.source l (by simpa using holds)
  rw [closes.1] at source
  cases source

theorem isWord_kind : Kind Lexeme.isWord :=
  ⟨isWord_bare, fun l word => by simpa using (Bool.and_eq_true_iff.1 word).1⟩

theorem isDigits_kind : Kind Lexeme.isDigits :=
  ⟨isDigits_bare, fun l digits => by simpa using (Bool.and_eq_true_iff.1 digits).1⟩

theorem isSpace_kind (newlines : Bool) : Kind (Lexeme.isSpace newlines) :=
  ⟨fun l => isSpace_bare l newlines, fun l space => by simpa using (Bool.and_eq_true_iff.1 space).1⟩

end Lexeme

namespace Rest

/-- Two cursors at the same lexeme before the point. Behind the point the streams
are `finish` and `later`, but for places. -/
inductive Before (finish later : Rest) : Rest → Rest → Prop
  | last {l l' : Lexeme} {rest rest' : Rest} (same : l'.bare = l.bare) (closes : l.Closes)
      (ends : bare rest = finish) (continues : bare rest' = later) : Before finish later (l :: rest) (l' :: rest')
  | cons {l l' : Lexeme} {rest rest' : Rest} (same : l'.bare = l.bare) (inner : ¬l.Finishes)
      (before : Before finish later rest rest') : Before finish later (l :: rest) (l' :: rest')

/-- Two cursors before the point or at it. -/
def Upto (finish later rest rest' : Rest) : Prop :=
  Before finish later rest rest' ∨ bare rest = finish ∧ bare rest' = later

variable {finish later rest rest' : Rest} {α : Type}

namespace Before

theorem upto (before : Before finish later rest rest') : Upto finish later rest rest' :=
  Or.inl before

theorem uncons (before : Before finish later rest rest') :
    ∃ l l' more more', rest = l :: more ∧ rest' = l' :: more' ∧ l'.bare = l.bare ∧ ¬l.Finishes ∧
      Upto finish later more more' ∧ (l.Closes ∨ Before finish later more more') := by
  cases before with
  | last same closes ends continues =>
    exact ⟨_, _, _, _, rfl, rfl, same, closes.not_finishes, Or.inr ⟨ends, continues⟩, Or.inl closes⟩
  | cons same inner before => exact ⟨_, _, _, _, rfl, rfl, same, inner, before.upto, Or.inr before⟩

theorem asks {f f' : Rest → α} (g : String → Bool → α) (before : Before finish later rest rest')
    (head : ∀ l more, f (l :: more) = g l.text l.synthetic) (head' : ∀ l more, f' (l :: more) = g l.text l.synthetic) :
    f' rest' = f rest := by
  obtain ⟨l, l', more, more', rfl, rfl, same, -⟩ := before.uncons
  rw [head, head', Lexeme.text_of_bare same, Lexeme.synthetic_of_bare same]

theorem isAt (before : Before finish later rest rest') (text : String) : Rest.isAt text rest' = Rest.isAt text rest :=
  before.asks (fun other marker => !marker && other == text) (fun _ _ => rfl) fun _ _ => rfl

theorem isNameStart (before : Before finish later rest rest') : Rest.isNameStart rest' = Rest.isNameStart rest :=
  before.asks (fun text marker => (!marker && isWordText text) && text.toList.head?.any Text.isNameStart)
    (fun _ _ => rfl) fun _ _ => rfl

theorem isDigitStart (before : Before finish later rest rest') : Rest.isDigitStart rest' = Rest.isDigitStart rest :=
  before.asks (fun text marker => !marker && text.toList.head?.any Char.isDigit) (fun _ _ => rfl) fun _ _ => rfl

theorem atEnd (before : Before finish later rest rest') {ctx ctx' : Context} (same : ctx'.aliases = ctx.aliases) :
    ctx'.atEnd rest' = ctx.atEnd rest :=
  before.asks (fun text marker => marker && text == ctx.aliases.endOfInput) (fun _ _ => rfl)
    fun l more => by rw [Context.atEnd, same]

theorem isStructural (before : Before finish later rest rest') {ctx ctx' : Context} (same : ctx'.aliases = ctx.aliases)
    (kind : Structural) : ctx'.isStructural kind rest' = ctx.isStructural kind rest :=
  before.asks (fun text marker => text == ctx.aliases.text kind && marker == kind.isMarker) (fun _ _ => rfl)
    fun l more => by rw [Context.isStructural, same]; rfl

theorem synthetic (before : Before finish later rest rest') (ctx ctx' : Context) :
    (ctx'.peek rest').synthetic = (ctx.peek rest).synthetic := by
  obtain ⟨l, l', more, more', rfl, rfl, same, -⟩ := before.uncons
  exact Lexeme.synthetic_of_bare same

theorem not_atEnd (before : Before finish later rest rest') {ctx : Context} (plain : ctx.aliases = {}) :
    ctx.atEnd rest = false := by
  obtain ⟨l, l', more, more', rfl, rfl, -, inner, -⟩ := before.uncons
  by_contra ended
  rw [Bool.not_eq_false, Context.atEnd, plain, Bool.and_eq_true, beq_iff_eq] at ended
  exact inner ended

theorem tail_upto (before : Before finish later rest rest') : Upto finish later rest.tail rest'.tail := by
  obtain ⟨l, l', more, more', rfl, rfl, -, -, upto, -⟩ := before.uncons
  exact upto

theorem tail {text : String} (before : Before finish later rest rest') (here : Rest.isAt text rest = true) :
    Before finish later rest.tail rest'.tail := by
  obtain ⟨l, l', more, more', rfl, rfl, -, -, -, closes | before⟩ := before.uncons
  · rw [Rest.isAt, closes.1] at here
    cases here
  · exact before

variable {p : Lexeme → Bool}

theorem dropWhile (kind : Lexeme.Kind p) (before : Before finish later rest rest') :
    Before finish later (rest.dropWhile p) (rest'.dropWhile p) := by
  induction before with
  | @last l l' rest rest' same closes ends continues =>
    have stops : ¬p l = true := by simp [kind.not_closes closes]
    rw [List.dropWhile_cons_of_neg stops, List.dropWhile_cons_of_neg (by rwa [kind.same same])]
    exact last same closes ends continues
  | @cons l l' rest rest' same inner before ih =>
    by_cases holds : p l = true
    · rw [List.dropWhile_cons_of_pos holds, List.dropWhile_cons_of_pos (by rw [kind.same same, holds])]
      exact ih
    · rw [List.dropWhile_cons_of_neg holds, List.dropWhile_cons_of_neg (by rw [kind.same same]; exact holds)]
      exact cons same inner before

theorem takeWhile (kind : Lexeme.Kind p) (before : Before finish later rest rest') :
    Rest.bare (rest'.takeWhile p) = Rest.bare (rest.takeWhile p) := by
  induction before with
  | @last l l' rest rest' same closes ends continues =>
    have stops : ¬p l = true := by simp [kind.not_closes closes]
    rw [List.takeWhile_cons_of_neg stops, List.takeWhile_cons_of_neg (by rwa [kind.same same])]
  | @cons l l' rest rest' same inner before ih =>
    by_cases holds : p l = true
    · rw [List.takeWhile_cons_of_pos holds, List.takeWhile_cons_of_pos (by rw [kind.same same, holds]), Rest.bare_cons,
        Rest.bare_cons, same, ih]
    · rw [List.takeWhile_cons_of_neg holds, List.takeWhile_cons_of_neg (by rw [kind.same same]; exact holds)]

theorem text_takeWhile (kind : Lexeme.Kind p) (before : Before finish later rest rest') :
    Rest.text (rest'.takeWhile p) = Rest.text (rest.takeWhile p) := by
  rw [← text_bare, before.takeWhile kind, text_bare]

theorem word (before : Before finish later rest rest') : Rest.word rest' = Rest.word rest :=
  before.text_takeWhile Lexeme.isWord_kind

theorem afterWord (before : Before finish later rest rest') :
    Before finish later (Rest.afterWord rest) (Rest.afterWord rest') :=
  before.dropWhile Lexeme.isWord_kind

theorem isDigits_drop (before : Before finish later rest rest') :
    Before finish later (rest.dropWhile (·.isDigits)) (rest'.dropWhile (·.isDigits)) :=
  before.dropWhile Lexeme.isDigits_kind

theorem isDigits_take (before : Before finish later rest rest') :
    Rest.bare (rest'.takeWhile (·.isDigits)) = Rest.bare (rest.takeWhile (·.isDigits)) :=
  before.takeWhile Lexeme.isDigits_kind

theorem spanNumber_whole (fraction : Bool) (none : Rest.isAt "." (rest.dropWhile (·.isDigits)) = false) :
    Parser.spanNumber fraction rest = (rest.takeWhile (·.isDigits), rest.dropWhile (·.isDigits)) := by
  unfold Parser.spanNumber
  generalize rest.dropWhile (·.isDigits) = after at none
  dsimp only
  split
  next point digit more => simp [none]
  next => rfl

theorem spanNumber (before : Before finish later rest rest') (fraction : Bool) :
    Rest.bare (Parser.spanNumber fraction rest').1 = Rest.bare (Parser.spanNumber fraction rest).1 ∧
      Before finish later (Parser.spanNumber fraction rest).2 (Parser.spanNumber fraction rest').2 := by
  have whole := before.isDigits_take
  have after := before.isDigits_drop
  have point := after.isAt "."
  cases pointed : Rest.isAt "." (rest.dropWhile (·.isDigits)) with
  | false =>
    rw [spanNumber_whole fraction pointed, spanNumber_whole fraction (point.trans pointed)]
    exact ⟨whole, after⟩
  | true =>
    unfold Parser.spanNumber
    rw [pointed] at point
    have further := after.tail pointed
    generalize rest.dropWhile (·.isDigits) = behind at after pointed further
    generalize rest'.dropWhile (·.isDigits) = behind' at after point further
    obtain ⟨l, l', more, more', rfl, rfl, same, -⟩ := after.uncons
    obtain ⟨d, d', rest, rest', rfl, rfl, same', -⟩ := further.uncons
    have digit : d'.isDigits = d.isDigits := Lexeme.isDigits_kind.same same'
    dsimp only
    rw [pointed, point, digit]
    split
    · have digits := further.isDigits_take
      refine ⟨?_, further.isDigits_drop⟩
      simp only [Rest.bare, List.map_append, List.map_cons, List.tail_cons] at whole digits ⊢
      rw [whole, same, digits]
    · exact ⟨whole, after⟩

theorem stringBody (before : Before finish later rest rest') {ctx ctx' : Context} {quote read text : String} {reached : Rest}
    (parsed : Parser.stringBody ctx quote read rest = .ok text reached) :
    ∃ reached', Parser.stringBody ctx' quote read rest' = .ok text reached' ∧ reached' <:+ rest' ∧
      Before finish later reached reached' := by
  fun_induction Parser.stringBody ctx quote read rest generalizing rest' with
  | case1 => cases parsed
  | case2 => cases parsed
  | case3 read l rest source ends =>
    cases parsed
    obtain ⟨_, l', _, more', ⟨⟩, rfl, same, -, -, closes | before⟩ := before.uncons
    · exact absurd closes.1 source
    refine ⟨more', ?_, List.suffix_cons l' more', before⟩
    rw [Parser.stringBody.eq_def]
    simp [Lexeme.synthetic_of_bare same, Lexeme.text_of_bare same, source, ends]
  | case4 => cases parsed
  | case5 => cases parsed
  | case6 read l source inside escapes escaped rest behind text known ih =>
    obtain ⟨_, l', _, more', ⟨⟩, rfl, same, -, -, closes | before⟩ := before.uncons
    · exact absurd closes.1 source
    obtain ⟨_, m', _, more', ⟨⟩, rfl, same', -, -, closes | before⟩ := before.uncons
    · exact absurd closes.1 behind
    obtain ⟨reached', parsed', within, before⟩ := ih before parsed
    rw [escapes] at inside
    refine ⟨reached', ?_, within.trans ((List.suffix_cons m' more').trans (List.suffix_cons l' _)), before⟩
    rw [Parser.stringBody.eq_def]
    simp [Lexeme.synthetic_of_bare same, Lexeme.text_of_bare same, Lexeme.synthetic_of_bare same',
      Lexeme.text_of_bare same', source, inside, escapes, behind, known, parsed']
  | case7 => cases parsed
  | case8 read l rest source inside plain ih =>
    obtain ⟨_, l', _, more', ⟨⟩, rfl, same, -, -, closes | before⟩ := before.uncons
    · exact absurd closes.1 source
    obtain ⟨reached', parsed', within, before⟩ := ih before parsed
    refine ⟨reached', ?_, within.trans (List.suffix_cons l' more'), before⟩
    rw [Parser.stringBody.eq_def]
    simp [Lexeme.synthetic_of_bare same, Lexeme.text_of_bare same, source, inside, plain, parsed']

theorem congr {rest'' : Rest} (before : Before finish later rest rest') (same : bare rest'' = bare rest') :
    Before finish later rest rest'' := by
  induction before generalizing rest'' with
  | last first closes ends continues =>
    obtain ⟨l'', more, rfl, second, behind⟩ := List.map_eq_cons_iff.1 same
    exact last (second.trans first) closes ends (behind.trans continues)
  | cons first inner before ih =>
    obtain ⟨l'', more, rfl, second, behind⟩ := List.map_eq_cons_iff.1 same
    exact cons (second.trans first) inner (ih behind)

end Before

namespace Upto

theorem congr {rest'' : Rest} (upto : Upto finish later rest rest') (same : bare rest'' = bare rest') :
    Upto finish later rest rest'' :=
  upto.imp (·.congr same) fun ⟨ends, continues⟩ => ⟨ends, same.trans continues⟩

theorem of_bare {front : Rest} (first : bare rest = front ++ finish) (second : bare rest' = front ++ later)
    (closed : ∀ l ∈ front.getLast?, l.Closes) (inner : ∀ l ∈ front, ¬l.Finishes) : Upto finish later rest rest' := by
  induction front generalizing rest rest' with
  | nil => exact Or.inr ⟨first, second⟩
  | cons b front ih =>
    obtain ⟨l, more, rfl, rfl, ends⟩ := List.map_eq_cons_iff.1 first
    obtain ⟨l', more', rfl, same, continues⟩ := List.map_eq_cons_iff.1 second
    rw [List.forall_mem_cons] at inner
    left
    cases front with
    | nil => exact .last same (closed l.bare rfl) ends continues
    | cons b' front =>
      rw [List.getLast?_cons_cons] at closed
      rcases ih ends continues closed inner.2 with before | ⟨ended, -⟩
      · exact .cons same inner.1 before
      · have lengths := congrArg List.length (ended.symm.trans ends)
        simp only [List.append_eq, List.length_append, List.length_cons] at lengths
        omega

theorem dropWhile {p : Lexeme → Bool} (unaware : ∀ l, p l.bare = p l) (upto : Upto finish later rest rest') :
    Before finish later (rest.dropWhile p) (rest'.dropWhile p) ∨
      bare (rest.dropWhile p) = finish.dropWhile p ∧ bare (rest'.dropWhile p) = later.dropWhile p := by
  have behind {rest rest' : Rest} (ends : bare rest = finish) (continues : bare rest' = later) :
      bare (rest.dropWhile p) = finish.dropWhile p ∧ bare (rest'.dropWhile p) = later.dropWhile p := by
    rw [← ends, ← continues, dropWhile_bare p unaware, dropWhile_bare p unaware]
    exact ⟨rfl, rfl⟩
  have alike {l l' : Lexeme} (same : l'.bare = l.bare) : p l' = p l := by rw [← unaware, same, unaware]
  rcases upto with before | ⟨ends, continues⟩
  · induction before with
    | @last l l' rest rest' same closes ends continues =>
      by_cases holds : p l = true
      · rw [List.dropWhile_cons_of_pos holds, List.dropWhile_cons_of_pos (by rw [alike same, holds])]
        exact Or.inr (behind ends continues)
      · rw [List.dropWhile_cons_of_neg holds, List.dropWhile_cons_of_neg (by rwa [alike same])]
        exact Or.inl (.last same closes ends continues)
    | @cons l l' rest rest' same inner before ih =>
      by_cases holds : p l = true
      · rw [List.dropWhile_cons_of_pos holds, List.dropWhile_cons_of_pos (by rw [alike same, holds])]
        exact ih
      · rw [List.dropWhile_cons_of_neg holds, List.dropWhile_cons_of_neg (by rwa [alike same])]
        exact Or.inl (.cons same inner before)
  · exact Or.inr (behind ends continues)

end Upto

end Rest

end ScriptKernel
