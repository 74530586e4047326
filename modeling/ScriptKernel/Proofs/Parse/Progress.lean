import Mathlib.Data.List.TakeWhile
import ScriptKernel.Proofs.Parse.Operators

/-!
Progress of a parse. Whatever a parser does from some point of a stream on, it
either leaves a later point, having consumed lexemes that keep the books, or it
fails at a point of the stream. It never complains that nothing was consumed,
and of the depth it complains only when there is a bound, or when it was given
less room than lexemes. The statement is carried along the parsers, from the
single lexeme to the loops of a grammar.
-/

namespace ScriptKernel

/-- Source lexemes that start with a digit consist of digits. -/
def Rest.Digital (rest : Rest) : Prop :=
  ∀ l ∈ rest, Rest.isDigitStart [l] = true → l.isDigits = true

/-- Faults that a parser of the grammar never reports on account of the text. -/
def ParseFault.isOwn : ParseFault → Bool
  | .nothingConsumed _ => true
  | .nestedTooDeeply => true
  | _ => false

/-- A parse under way: its context, the whole stream, how deep it nests at
most, and the books that are kept of the lexemes consumed, from one balance to
another. -/
structure Walk where
  ctx : Context
  base : Rest
  limit : Nat
  books : Nat → Nat → List Lexeme → Prop

namespace Walk

/-- The books that the lexemes of any text keep. -/
structure Sound (w : Walk) : Prop where
  digital : w.base.Digital
  nil : ∀ a, w.books a a []
  append : ∀ {a b c first second}, w.books a b first → w.books b c second → w.books a c (first ++ second)
  word : ∀ a l, l.isWord = true → w.books a a [l]
  digits : ∀ a l, l.isDigits = true → w.books a a [l]
  point : ∀ a l, Rest.isAt "." [l] = true → w.books a a [l]
  marker : ∀ a l, l.synthetic = true → w.books a a [l]
  skipSpace : ∀ a rest, ∃ eaten, rest = eaten ++ w.ctx.skipSpace rest ∧ w.books a a eaten
  skipTrivia : ∀ a rest, ∃ eaten, rest = eaten ++ w.ctx.skipTrivia rest ∧ w.books a a eaten

/-- Lexemes that keep the books, at least one. -/
def Eats (w : Walk) (a b : Nat) (eaten : List Lexeme) : Prop :=
  eaten ≠ [] ∧ w.books a b eaten

/-- A fault at a point of the stream that is not the parser's own. -/
structure Fair (w : Walk) (room : Nat) (rest : Rest) (e : ParseError) : Prop where
  sited : ∃ reached, reached <:+ w.base ∧ e.location = w.ctx.location reached
  consumed : ∀ seen, e.fault ≠ .nothingConsumed seen
  shallow : e.fault = .nestedTooDeeply → (0 < w.ctx.maxDepth ∧ w.ctx.maxDepth < w.limit) ∨ room ≤ rest.length

variable {α β : Type} {w : Walk} {room : Nat} {a b c : Nat} {P R : List Lexeme → Prop} {rest : Rest}

theorem Fair.mono {room' : Nat} {rest' : Rest} {e : ParseError} (fair : w.Fair room' rest' e)
    (le : room' ≤ rest'.length → room ≤ rest.length) : w.Fair room rest e :=
  ⟨fair.sited, fair.consumed, fun deep => (fair.shallow deep).imp_right le⟩

theorem Fair.at {e : ParseError} {reached : Rest} (within : reached <:+ w.base)
    (sited : e.location = w.ctx.location reached) (foreign : e.fault.isOwn = false) : w.Fair room rest e := by
  refine ⟨⟨reached, within, sited⟩, ?_, ?_⟩
  · intro seen same
    rw [same] at foreign
    cases foreign
  · intro same
    rw [same] at foreign
    cases foreign

/-- The outcome of a parser: lexemes consumed, or a fair fault. -/
def Outcome (w : Walk) (room : Nat) (P : List Lexeme → Prop) (rest : Rest) :
    EStateM.Result ParseError Rest α → Prop
  | .ok _ reached => ∃ eaten, rest = eaten ++ reached ∧ P eaten
  | .error e _ => w.Fair room rest e

/-- From this point of the stream the parser gets on. -/
def Moves (w : Walk) (room : Nat) (P : List Lexeme → Prop) (p : Parser α) (rest : Rest) : Prop :=
  rest <:+ w.base → w.Outcome room P rest (p w.ctx rest)

namespace Moves

variable {p : Parser α} {f : α → Parser β}

theorem weaken (moves : w.Moves room P p rest) (implies : ∀ eaten, P eaten → R eaten) : w.Moves room R p rest := by
  intro within
  have outcome := moves within
  cases result : p w.ctx rest with
  | ok x reached =>
    rw [result] at outcome
    obtain ⟨eaten, split, keeps⟩ := outcome
    exact ⟨eaten, split, implies eaten keeps⟩
  | error e reached =>
    rw [result] at outcome
    exact outcome

theorem mono {room' : Nat} (moves : w.Moves room' P p rest) (le : room ≤ room') : w.Moves room P p rest := by
  intro within
  have outcome := moves within
  cases result : p w.ctx rest with
  | ok x reached =>
    rw [result] at outcome
    exact outcome
  | error e reached =>
    rw [result] at outcome
    exact outcome.mono le.trans

theorem pure (x : α) (keeps : P []) : w.Moves room P (Pure.pure x) rest :=
  fun _ => ⟨[], rfl, keeps⟩

theorem fail {fault : ParseFault} (foreign : fault.isOwn = false) :
    w.Moves room P (Parser.fail fault : Parser α) rest :=
  fun within => .at within rfl foreign

theorem failAt {fault : ParseFault} {passed : Rest} (inside : passed <:+ w.base) (foreign : fault.isOwn = false) :
    w.Moves room P (Parser.failAt (w.ctx.location passed) fault : Parser α) rest :=
  fun _ => .at inside rfl foreign

theorem compose (later : Nat) (first : w.Moves room P p rest)
    (enough : ∀ eaten reached : Rest, rest = eaten ++ reached → P eaten → later ≤ reached.length → room ≤ rest.length)
    (next : ∀ x eaten reached, p w.ctx rest = .ok x reached → rest = eaten ++ reached → P eaten →
      w.Moves later R (f x) reached)
    {whole : List Lexeme → Prop} (joined : ∀ eaten after, P eaten → R after → whole (eaten ++ after)) :
    w.Moves room whole (p >>= f) rest := by
  intro within
  have outcome := first within
  rw [Parser.bind_apply]
  cases result : p w.ctx rest with
  | error e reached =>
    rw [result] at outcome
    exact outcome
  | ok x mid =>
    rw [result] at outcome
    obtain ⟨eaten, split, keeps⟩ := outcome
    have inside : mid <:+ w.base := by
      rw [split] at within
      exact (List.suffix_append eaten mid).trans within
    have outcome := next x eaten mid result split keeps inside
    show w.Outcome room whole rest (f x w.ctx mid)
    cases last : f x w.ctx mid with
    | error e reached =>
      rw [last] at outcome
      exact outcome.mono (enough eaten mid split keeps)
    | ok y reached =>
      rw [last] at outcome
      obtain ⟨after, split', keeps'⟩ := outcome
      refine ⟨eaten ++ after, ?_, joined eaten after keeps keeps'⟩
      rw [split, split', List.append_assoc]

theorem bind (sound : w.Sound) (first : w.Moves room (w.books a b) p rest)
    (next : ∀ x reached, p w.ctx rest = .ok x reached → reached.length ≤ rest.length →
      w.Moves room (w.books b c) (f x) reached) :
    w.Moves room (w.books a c) (p >>= f) rest := by
  have shorter {eaten reached : Rest} (split : rest = eaten ++ reached) : reached.length ≤ rest.length := by
    rw [split, List.length_append]
    omega
  apply first.compose room
  · exact fun eaten reached split _ le => le.trans (shorter split)
  · exact fun x eaten reached parsed split _ => next x reached parsed (shorter split)
  · exact fun eaten after keeps keeps' => sound.append keeps keeps'

theorem start (sound : w.Sound) (first : w.Moves (room + 1) (w.Eats a b) p rest)
    (next : ∀ x reached, p w.ctx rest = .ok x reached → reached.length < rest.length →
      w.Moves room (w.books b c) (f x) reached) :
    w.Moves (room + 1) (w.Eats a c) (p >>= f) rest := by
  have shorter {eaten reached : Rest} (split : rest = eaten ++ reached) (keeps : w.Eats a b eaten) :
      reached.length < rest.length := by
    have nonempty := List.length_pos_iff.2 keeps.1
    rw [split, List.length_append]
    omega
  apply first.compose room
  · intro eaten reached split keeps le
    have fewer := shorter split keeps
    omega
  · exact fun x eaten reached parsed split keeps => next x reached parsed (shorter split keeps)
  · exact fun eaten after keeps keeps' => ⟨by simp [keeps.1], sound.append keeps.2 keeps'⟩

theorem lead (sound : w.Sound) (first : w.Moves room (w.Eats a b) p rest)
    (next : ∀ x reached, p w.ctx rest = .ok x reached → w.Moves room (w.books b c) (f x) reached) :
    w.Moves room (w.Eats a c) (p >>= f) rest := by
  apply first.compose room _ fun x _ reached parsed _ _ => next x reached parsed
  · exact fun eaten after keeps keeps' => ⟨by simp [keeps.1], sound.append keeps.2 keeps'⟩
  · intro eaten reached split _ le
    rw [split, List.length_append]
    omega

theorem ite {q : Parser α} {condition : Prop} [Decidable condition] (yes : condition → w.Moves room P p rest)
    (no : ¬condition → w.Moves room P q rest) : w.Moves room P (if condition then p else q) rest := by
  split
  next holds => exact yes holds
  next fails => exact no fails

theorem optionally {after : Parser α} {condition : Bool} (then_ : ∀ reached, w.Moves room P after reached)
    (step : condition = true → (∀ reached, w.Moves room P after reached) → w.Moves room P p rest) :
    w.Moves room P (if condition then p else after) rest :=
  ite (fun holds => step holds then_) fun _ => then_ rest

theorem loosen (moves : w.Moves room (w.Eats a b) p rest) : w.Moves room (w.books a b) p rest :=
  moves.weaken fun _ keeps => keeps.2

theorem look {g : Context → Rest → α} (next : w.Moves room P (f (g w.ctx rest)) rest) :
    w.Moves room P (Parser.look g >>= f) rest :=
  next

theorem isAt {text : String} {f : Bool → Parser β} (next : w.Moves room P (f (Rest.isAt text rest)) rest) :
    w.Moves room P (Parser.isAt text >>= f) rest :=
  next

theorem location {f : Location → Parser β}
    (next : rest <:+ w.base → w.Moves room P (f (w.ctx.location rest)) rest) :
    w.Moves room P (Parser.location >>= f) rest :=
  fun inside => next inside inside

theorem skipSpace (sound : w.Sound) (a : Nat) : w.Moves room (w.books a a) Parser.skipSpace rest :=
  fun _ => sound.skipSpace a rest

theorem space (sound : w.Sound) {f : Unit → Parser β}
    (next : w.Moves room (w.books a b) (f ()) (w.ctx.skipSpace rest)) :
    w.Moves room (w.books a b) (Parser.skipSpace >>= f) rest := by
  apply (skipSpace sound a).bind sound
  intro _ reached skipped _
  cases skipped
  exact next

theorem spaceEats (sound : w.Sound) {f : Unit → Parser β}
    (next : w.Moves room (w.Eats a b) (f ()) (w.ctx.skipSpace rest)) :
    w.Moves room (w.Eats a b) (Parser.skipSpace >>= f) rest := by
  apply (skipSpace sound a).compose room
  · intro eaten reached split _ le
    rw [split, List.length_append]
    omega
  · intro _ _ reached skipped _ _
    cases skipped
    exact next
  · exact fun blanks eaten keeps keeps' => ⟨by simp [keeps'.1], sound.append keeps keeps'.2⟩

theorem cons (l : Lexeme) {reached : Rest} (keeps : w.books a b [l]) (x : α) :
    w.Outcome room (w.Eats a b) (l :: reached) (.ok x reached) :=
  ⟨[l], rfl, List.cons_ne_nil l [], keeps⟩

theorem advance {text : String} (at_ : rest.isAt text = true)
    (keeps : ∀ l, Rest.isAt text [l] = true → w.books a b [l]) :
    w.Moves room (w.Eats a b) Parser.advance rest := by
  intro _
  cases rest with
  | nil => cases at_
  | cons l rest => exact cons l (keeps l at_) _

theorem advanceAny {texts : List String} (at_ : rest.isAtAny texts = true)
    (keeps : ∀ text ∈ texts, ∀ l, Rest.isAt text [l] = true → w.books a b [l]) :
    w.Moves room (w.Eats a b) Parser.advance rest := by
  obtain ⟨text, member, here⟩ := List.any_eq_true.1 at_
  exact advance here (keeps text member)

theorem expectAt (texts : List String) :
    w.Moves room (fun eaten => ∃ l, eaten = [l] ∧ Rest.isAtAny texts [l] = true) (Parser.expect texts) rest := by
  intro within
  unfold Parser.expect
  by_cases at_ : Rest.isAtAny texts rest = true
  · rw [if_pos at_]
    cases rest with
    | nil =>
      obtain ⟨text, -, here⟩ := List.any_eq_true.1 at_
      cases here
    | cons l rest => exact ⟨[l], rfl, l, rfl, at_⟩
  · rw [if_neg at_]
    exact .at within rfl rfl

theorem expect {texts : List String}
    (keeps : ∀ text ∈ texts, ∀ l, Rest.isAt text [l] = true → w.books a b [l]) :
    w.Moves room (w.Eats a b) (Parser.expect texts) rest := by
  apply (expectAt texts).weaken
  rintro eaten ⟨l, rfl, here⟩
  obtain ⟨text, member, at_⟩ := List.any_eq_true.1 here
  exact ⟨List.cons_ne_nil l [], keeps text member l at_⟩

theorem advanceMarker (sound : w.Sound) {kind : Structural} (marker : kind.isMarker = true)
    (here : w.ctx.isStructural kind rest = true) : w.Moves room (w.books a a) Parser.advance rest := by
  intro _
  rw [Context.isStructural, marker, Bool.and_eq_true] at here
  cases rest with
  | nil => exact ⟨[], rfl, sound.nil a⟩
  | cons l rest => exact ⟨[l], rfl, sound.marker a l (beq_iff_eq.1 here.2)⟩

theorem takeWhile_books (sound : w.Sound) (q : Lexeme → Bool) (keeps : ∀ l, q l = true → w.books a a [l])
    (rest : Rest) : w.books a a (rest.takeWhile q) := by
  induction rest with
  | nil => exact sound.nil a
  | cons l rest ih =>
    rw [List.takeWhile_cons]
    split
    next holds => exact sound.append (keeps l holds) ih
    next => exact sound.nil a

theorem afterWord_split (rest : Rest) : rest = rest.takeWhile (·.isWord) ++ rest.afterWord :=
  List.takeWhile_append_dropWhile.symm

theorem word (sound : w.Sound) (a : Nat) : w.Moves room (w.books a a) Parser.word rest := by
  intro _
  exact ⟨_, afterWord_split rest, takeWhile_books sound _ (sound.word a) rest⟩

theorem takeWhile_isWord_ne_nil (found : rest.word ≠ "") : rest.takeWhile (·.isWord) ≠ [] := by
  intro none
  rw [Rest.word, none] at found
  exact found rfl

theorem length_afterWord_lt (found : rest.word ≠ "") : rest.afterWord.length < rest.length := by
  have some := List.length_pos_iff.2 (takeWhile_isWord_ne_nil found)
  have lengths := congrArg List.length (afterWord_split rest)
  rw [List.length_append] at lengths
  omega

theorem word_ne_of_isKeyword {text : String} (known : text ≠ "") (found : rest.isKeyword text = true) : rest.word ≠ "" := by
  rw [Rest.isKeyword, beq_iff_eq] at found
  rwa [found]

theorem wordSome (sound : w.Sound) (found : rest.word ≠ "") : w.Moves room (w.Eats a a) Parser.word rest := by
  intro _
  exact ⟨_, afterWord_split rest, takeWhile_isWord_ne_nil found, takeWhile_books sound _ (sound.word a) rest⟩

theorem keyword (sound : w.Sound) {text : String} (known : text ≠ "") (found : rest.isKeyword text = true) :
    w.Moves room (w.Eats a a) Parser.word rest :=
  wordSome sound (word_ne_of_isKeyword known found)

theorem anyKeyword (sound : w.Sound) {texts : List String} (known : "" ∉ texts)
    (found : rest.isAnyKeyword texts = true) : w.Moves room (w.Eats a a) Parser.word rest := by
  apply wordSome sound
  intro none
  rw [Rest.isAnyKeyword, none, List.contains_iff_mem] at found
  exact known found

theorem word_ne_of_isNameStart (start : rest.isNameStart = true) : rest.word ≠ "" := by
  cases rest with
  | nil => cases start
  | cons l rest =>
    rw [Rest.isNameStart, Bool.and_eq_true] at start
    intro none
    have nonempty : l.text.toList ≠ [] := by
      intro empty
      rw [empty] at start
      cases start.2
    rw [Rest.word, List.takeWhile_cons, if_pos start.1, Rest.text, List.map_cons, String.join_cons] at none
    have parts : l.text = "" ∧ _ = "" := String.append_eq_empty_iff.1 none
    exact nonempty (by rw [parts.1]; rfl)

theorem name (sound : w.Sound) (reserved : List String) : w.Moves room (w.Eats a a) (Parser.name reserved) rest := by
  intro within
  unfold Parser.name
  by_cases start : rest.isNameStart = true
  · rw [if_neg (by simp [start])]
    split
    · exact fail rfl within
    · exact wordSome sound (word_ne_of_isNameStart start) within
  · rw [if_pos (by simpa using start)]
    exact fail rfl within

theorem expectKeyword (sound : w.Sound) {text : String} (known : ∀ l, Rest.isAt text [l] = true → l.isWord = true) :
    w.Moves room (w.books a a) (Parser.expectKeyword text) rest := by
  intro within
  unfold Parser.expectKeyword
  by_cases found : rest.isKeyword text = true
  · rw [if_pos found]
    have moves : w.Moves room (w.books a a) Parser.word rest := word sound a
    exact moves within
  · rw [if_neg found]
    have keeps : ∀ other ∈ [text], ∀ l, Rest.isAt other [l] = true → w.books a a [l] := by
      intro other member l here
      rw [List.mem_singleton.1 member] at here
      exact sound.word a l (known l here)
    have moves : w.Moves room (w.Eats a a) (Parser.expect [text]) rest := expect keeps
    have outcome := moves within
    cases result : Parser.expect [text] w.ctx rest with
    | error e reached =>
      rw [result] at outcome
      exact outcome
    | ok l reached =>
      rw [result] at outcome
      obtain ⟨eaten, split, -, books⟩ := outcome
      exact ⟨eaten, split, books⟩

theorem spanNumber_split (sound : w.Sound) (a : Nat) (fraction : Bool) (rest : Rest) :
    rest = (Parser.spanNumber fraction rest).1 ++ (Parser.spanNumber fraction rest).2 ∧
      w.books a a (Parser.spanNumber fraction rest).1 ∧
      rest.takeWhile (·.isDigits) <+: (Parser.spanNumber fraction rest).1 := by
  have whole : w.books a a (rest.takeWhile (·.isDigits)) := takeWhile_books sound _ (sound.digits a) rest
  have split : rest = rest.takeWhile (·.isDigits) ++ rest.dropWhile (·.isDigits) :=
    List.takeWhile_append_dropWhile.symm
  unfold Parser.spanNumber
  dsimp only
  split
  next point digit more behind =>
    rw [behind] at split ⊢
    by_cases both : (fraction && Rest.isAt "." (point :: digit :: more) && digit.isDigits) = true
    · rw [if_pos both]
      simp only [Bool.and_eq_true] at both
      refine ⟨?_, ?_, List.prefix_append _ _⟩
      · rw [List.append_assoc, List.cons_append, List.takeWhile_append_dropWhile]
        exact split
      · apply sound.append whole
        exact sound.append (sound.point a point both.1.2) (takeWhile_books sound _ (sound.digits a) (digit :: more))
    · rw [if_neg both]
      exact ⟨split, whole, List.prefix_rfl⟩
  next => exact ⟨split, whole, List.prefix_rfl⟩

theorem number (sound : w.Sound) (fraction : Bool) (start : rest.isDigitStart = true) :
    w.Moves room (w.Eats a a) (Parser.number fraction) rest := by
  intro within
  obtain ⟨split, books, digits⟩ := spanNumber_split sound a fraction rest
  refine ⟨_, split, ?_, books⟩
  cases rest with
  | nil => cases start
  | cons l rest =>
    have digit : l.isDigits = true := by
      apply sound.digital l _ start
      obtain ⟨before, same⟩ := within
      rw [← same]
      simp
    rw [List.takeWhile_cons, if_pos digit] at digits
    obtain ⟨more, same⟩ := digits
    rw [← same]
    simp

end Moves

inductive Quoted (quote : String) : List Lexeme → Prop where
  | close {l : Lexeme} (source : l.synthetic = false) (ends : l.text = quote) : Quoted quote [l]
  | escape {slash l : Lexeme} {rest : List Lexeme} (source : slash.synthetic = false) (inside : slash.text ≠ quote)
      (escapes : slash.text = "\\") (behind : l.synthetic = false) (later : Quoted quote rest) :
      Quoted quote (slash :: l :: rest)
  | plain {l : Lexeme} {rest : List Lexeme} (source : l.synthetic = false) (inside : l.text ≠ quote)
      (plain : l.text ≠ "\\") (later : Quoted quote rest) : Quoted quote (l :: rest)

namespace Moves

theorem stringBody_outcome {quote : String} (read : String) {rest : Rest} (within : rest <:+ w.base) :
    w.Outcome room (Quoted quote) rest (Parser.stringBody w.ctx quote read rest) := by
  fun_induction Parser.stringBody w.ctx quote read rest with
  | case1 => exact .at within rfl rfl
  | case2 read l rest marker => exact .at within rfl rfl
  | case3 read l rest source ends =>
    exact ⟨[l], rfl, .close (by simpa using source) ends⟩
  | case4 read l source inside escapes => exact .at (List.nil_suffix) rfl rfl
  | case5 read l source inside escapes escaped rest marker =>
    exact .at ((List.suffix_append [l, escaped] rest).trans within) rfl rfl
  | case6 read l source inside escapes escaped rest behind text known ih =>
    have outcome := ih ((List.suffix_append [l, escaped] rest).trans within)
    cases result : Parser.stringBody w.ctx quote (read ++ text) rest with
    | error e reached =>
      rw [result] at outcome
      exact outcome.mono fun le => by simp only [List.length_cons]; omega
    | ok body reached =>
      rw [result] at outcome
      obtain ⟨eaten, split, quoted⟩ := outcome
      refine ⟨l :: escaped :: eaten, by rw [split]; rfl, ?_⟩
      exact .escape (by simpa using source) inside escapes (by simpa using behind) quoted
  | case7 read l source inside escapes escaped rest behind unknown =>
    have inside : escaped :: rest <:+ w.base := (List.suffix_append [l] (escaped :: rest)).trans within
    exact .at inside rfl rfl
  | case8 read l rest source inside plain ih =>
    have outcome := ih ((List.suffix_cons l rest).trans within)
    cases result : Parser.stringBody w.ctx quote (read ++ l.text) rest with
    | error e reached =>
      rw [result] at outcome
      exact outcome.mono fun le => by simp only [List.length_cons]; omega
    | ok body reached =>
      rw [result] at outcome
      obtain ⟨eaten, split, quoted⟩ := outcome
      exact ⟨l :: eaten, by rw [split]; rfl, .plain (by simpa using source) inside plain quoted⟩

theorem string {quote : String}
    (keeps : ∀ l body, Rest.isAt quote [l] = true → Quoted quote body → w.books a a (l :: body)) :
    w.Moves room (w.Eats a a) (Parser.string quote) rest := by
  unfold Parser.string
  apply (expectAt [quote]).compose room
  · intro eaten reached split _ le
    rw [split, List.length_append]
    omega
  · intro _ _ reached _ _ _ within
    exact stringBody_outcome "" within
  · rintro eaten body ⟨l, rfl, here⟩ quoted
    have at_ : Rest.isAt quote [l] = true := by
      simpa [Rest.isAtAny] using here
    exact ⟨List.cons_ne_nil l body, keeps l body at_ quoted⟩

theorem items (sound : w.Sound) {separator close : String} {item : List α → Parser α}
    (each : ∀ done rest, w.Moves room (w.books a a) (item done) rest)
    (divides : ∀ l, Rest.isAt separator [l] = true → w.books a a [l])
    (closes : ∀ l, Rest.isAt close [l] = true → w.books a b [l]) (fuel : Nat) (done : List α) {rest : Rest}
    (fueled : rest.length < fuel) (within : rest <:+ w.base) :
    (∃ found reached, Parser.items separator close item fuel done w.ctx rest = .ok (found, none) reached ∧
      ∃ eaten, rest = eaten ++ reached ∧ w.Eats a b eaten) ∨
    ∃ found e reached, Parser.items separator close item fuel done w.ctx rest = .ok (found, some e) reached ∧
      w.Fair room rest e := by
  induction fuel generalizing done rest with
  | zero => exact absurd fueled (Nat.not_lt_zero _)
  | succ fuel ih =>
    obtain ⟨blanks, skipped, space⟩ := sound.skipSpace a rest
    have inside : w.ctx.skipSpace rest <:+ w.base := by
      rw [skipped] at within
      exact (List.suffix_append _ _).trans within
    have shorter : (w.ctx.skipSpace rest).length ≤ rest.length := by
      have lengths := congrArg List.length skipped
      rw [List.length_append] at lengths
      omega
    simp only [Parser.items]
    by_cases closed : Rest.isAt close (w.ctx.skipSpace rest) = true
    · rw [if_pos closed]
      left
      refine ⟨done, _, rfl, ?_⟩
      cases here : w.ctx.skipSpace rest with
      | nil =>
        rw [here] at closed
        cases closed
      | cons l after =>
        rw [here] at closed skipped
        refine ⟨blanks ++ [l], by rw [skipped]; simp, by simp, ?_⟩
        exact sound.append space (closes l closed)
    rw [if_neg closed]
    have outcome := each done (w.ctx.skipSpace rest) inside
    cases result : item done w.ctx (w.ctx.skipSpace rest) with
    | error e reached =>
      rw [result] at outcome
      right
      exact ⟨done, e, reached, rfl, outcome.mono fun le => le.trans shorter⟩
    | ok x mid =>
      rw [result] at outcome
      obtain ⟨eaten, split, books⟩ := outcome
      obtain ⟨blanks', skipped', space'⟩ := sound.skipSpace a mid
      have all : rest = blanks ++ eaten ++ blanks' ++ w.ctx.skipSpace mid := by
        rw [List.append_assoc, ← skipped', List.append_assoc, ← split]
        exact skipped
      have before : w.books a a (blanks ++ eaten ++ blanks') :=
        sound.append (sound.append space books) space'
      have inside' : w.ctx.skipSpace mid <:+ w.base := by
        rw [all] at within
        exact (List.suffix_append _ _).trans within
      dsimp only
      by_cases divided : Rest.isAt separator (w.ctx.skipSpace mid) = true
      · rw [if_pos divided]
        cases here : w.ctx.skipSpace mid with
        | nil =>
          rw [here] at divided
          cases divided
        | cons l after =>
          rw [here] at divided all inside'
          have fewer : after.length < fuel := by
            have lengths := congrArg List.length all
            simp only [List.length_append, List.length_cons] at lengths
            omega
          have longer : after.length ≤ rest.length := by
            rw [all]
            simp only [List.length_append, List.length_cons]
            omega
          rcases ih (done ++ [x]) fewer ((List.suffix_cons l after).trans inside') with
            ⟨found, reached, listed, more, split', eats⟩ | ⟨found, e, reached, listed, fair⟩
          · left
            refine ⟨found, reached, listed, blanks ++ eaten ++ blanks' ++ l :: more, ?_, by simp, ?_⟩
            · rw [all, split']
              simp
            · exact sound.append before (sound.append (divides l divided) eats.2)
          · right
            exact ⟨found, e, reached, listed, fair.mono fun le => le.trans longer⟩
      rw [if_neg divided]
      by_cases closed' : Rest.isAt close (w.ctx.skipSpace mid) = true
      · rw [if_pos closed']
        left
        refine ⟨done ++ [x], _, rfl, ?_⟩
        cases here : w.ctx.skipSpace mid with
        | nil =>
          rw [here] at closed'
          cases closed'
        | cons l after =>
          rw [here] at closed' all
          refine ⟨blanks ++ eaten ++ blanks' ++ [l], by rw [all]; simp, by simp, ?_⟩
          exact sound.append before (closes l closed')
      · rw [if_neg closed']
        right
        exact ⟨_, _, _, rfl, .at inside' rfl rfl⟩

theorem list (sound : w.Sound) {separator close : String} {item : List α → Parser α}
    (each : ∀ done rest, w.Moves room (w.books a a) (item done) rest)
    (divides : ∀ l, Rest.isAt separator [l] = true → w.books a a [l])
    (closes : ∀ l, Rest.isAt close [l] = true → w.books a b [l]) :
    w.Moves room (w.Eats a b) (Parser.list separator close item) rest := by
  intro within
  unfold Parser.list Parser.listed
  rcases items sound each divides closes (rest.length + 1) [] (Nat.lt_succ_self _) within with
    ⟨found, reached, listed, moved⟩ | ⟨found, e, reached, listed, fair⟩
  · rw [listed]
    exact moved
  · rw [listed]
    exact fair

end Moves

end Walk

namespace Grammar

open Walk (Moves)

variable {ε σ : Type}

def ExprMoves (w : Walk) (room : Nat) (nested : Nested ε σ) : Prop :=
  ∀ a least rest, w.Moves room (w.Eats a a) (nested.expr least) rest

def StatementMoves (w : Walk) (room : Nat) (nested : Nested ε σ) : Prop :=
  ∀ a rest, w.Moves room (w.Eats a a) nested.statement rest

structure NestedMoves (w : Walk) (exprs statements : Nat) (nested : Nested ε σ) : Prop where
  expr : ExprMoves w exprs nested
  statement : StatementMoves w statements nested

structure Moving (g : Grammar ε σ) (w : Walk) : Prop where
  operand : ∀ rule ∈ g.operands, ∀ nested exprs statements, NestedMoves w exprs statements nested → ∀ a rest,
    rule.applies w.ctx rest = true → w.Moves (exprs + 1) (w.Eats a a) (rule.parse nested) rest
  operator : ∀ rule ∈ g.operators, ∀ nested exprs statements, NestedMoves w exprs statements nested → ∀ a left rest,
    rule.applies w.ctx rest = true → w.Moves (exprs + 1) (w.Eats a a) (rule.parse nested left) rest
  statement : ∀ rule ∈ g.statements, ∀ nested room statements, NestedMoves w room statements nested →
    room ≤ statements + 1 → ∀ a rest,
    rule.applies w.ctx rest = true → w.Moves room (w.Eats a a) (rule.parse nested) rest

variable {g : Grammar ε σ} {w : Walk} {nested : Nested ε σ} {exprs statements a : Nat} {rest : Rest}

theorem operatorsFrom_moves (sound : w.Sound) (moving : g.Moving w) (parts : NestedMoves w exprs statements nested)
    (least : Precedence) (fuel : Nat) (left : ε) {rest : Rest} (fueled : rest.length < fuel) :
    w.Moves (exprs + 1) (w.books a a) (g.operatorsFrom nested least fuel left) rest := by
  induction fuel generalizing left rest with
  | zero => exact absurd fueled (Nat.not_lt_zero _)
  | succ fuel ih =>
    obtain ⟨blanks, skipped, space⟩ := sound.skipSpace a rest
    cases found : g.operators.find? (·.applies w.ctx (w.ctx.skipSpace rest)) with
    | none =>
      intro _
      simp only [operatorsFrom, found]
      exact ⟨blanks, skipped, space⟩
    | some rule =>
      by_cases weaker : rule.precedence < least
      · intro _
        simp only [operatorsFrom, found, if_pos weaker]
        exact ⟨blanks, skipped, space⟩
      · -- The operator is read, and the loop goes on behind what it has consumed.
        have shape : g.operatorsFrom nested least (fuel + 1) left w.ctx rest =
            (Parser.skipSpace >>= fun _ => rule.parse nested left >>= g.operatorsFrom nested least fuel)
              w.ctx rest := by
          cases read : rule.parse nested left w.ctx (w.ctx.skipSpace rest) with
          | ok next reached => simp only [operatorsFrom, found, if_neg weaker, read, Parser.bind_apply, Parser.skipSpace]
          | error e reached => simp only [operatorsFrom, found, if_neg weaker, read, Parser.bind_apply, Parser.skipSpace]
        have applies : rule.applies w.ctx (w.ctx.skipSpace rest) = true := by
          have holds := List.find?_some found
          exact holds
        have step : w.Moves (exprs + 1) (w.books a a)
            (Parser.skipSpace >>= fun _ => rule.parse nested left >>= g.operatorsFrom nested least fuel) rest := by
          apply Moves.space sound
          apply (moving.operator rule (List.mem_of_find?_eq_some found) nested exprs statements parts a left _
            applies).compose (exprs + 1)
          · intro eaten reached split keeps le
            rw [split, List.length_append]
            omega
          · intro next eaten reached _ split keeps
            apply ih next
            have nonempty := List.length_pos_iff.2 keeps.1
            have lengths := congrArg List.length skipped
            rw [split] at lengths
            simp only [List.length_append] at lengths
            omega
          · exact fun eaten after keeps keeps' => sound.append keeps.2 keeps'
        intro within
        rw [shape]
        exact step within

def operatorsBehind (g : Grammar ε σ) (nested : Nested ε σ) (least : Precedence) (left : ε) : Parser ε :=
  fun ctx rest => g.operatorsFrom nested least (rest.length + 1) left ctx rest

theorem exprWith_moves (sound : w.Sound) (moving : g.Moving w) (parts : NestedMoves w exprs statements nested)
    (least : Precedence) (rest : Rest) : w.Moves (exprs + 1) (w.Eats a a) (g.exprWith nested least) rest := by
  cases found : g.operands.find? (·.applies w.ctx (w.ctx.skipSpace rest)) with
  | none =>
    intro within
    obtain ⟨blanks, skipped, -⟩ := sound.skipSpace a rest
    have inside : w.ctx.skipSpace rest <:+ w.base := by
      rw [skipped] at within
      exact (List.suffix_append _ _).trans within
    simp only [exprWith, found]
    exact .at inside rfl rfl
  | some rule =>
    have applies : rule.applies w.ctx (w.ctx.skipSpace rest) = true := by
      have holds := List.find?_some found
      exact holds
    have step : w.Moves (exprs + 1) (w.Eats a a)
        (Parser.skipSpace >>= fun _ => rule.parse nested >>= fun left =>
          g.operatorsBehind nested least left) rest := by
      apply Moves.spaceEats sound
      apply (moving.operand rule (List.mem_of_find?_eq_some found) nested exprs statements parts a _ applies).lead sound
      intro left reached _
      exact operatorsFrom_moves sound moving parts least _ left (Nat.lt_succ_self _)
    intro within
    have shape : g.exprWith nested least w.ctx rest =
        (Parser.skipSpace >>= fun _ => rule.parse nested >>= fun left =>
          g.operatorsBehind nested least left) w.ctx rest := by
      cases read : rule.parse nested w.ctx (w.ctx.skipSpace rest) with
      | ok left reached => simp only [exprWith, operatorsBehind, found, read, Parser.bind_apply, Parser.skipSpace]
      | error e reached => simp only [exprWith, found, read, Parser.bind_apply, Parser.skipSpace]
    rw [shape]
    exact step within

theorem statementWith_moves (moving : g.Moving w) {room : Nat} (parts : NestedMoves w room statements nested)
    (le : room ≤ statements + 1) (rest : Rest) : w.Moves room (w.Eats a a) (g.statementWith nested) rest := by
  intro within
  unfold statementWith
  cases found : g.statements.find? (·.applies w.ctx rest) with
  | none => exact .at within rfl rfl
  | some rule =>
    have applies : rule.applies w.ctx rest = true := by
      have holds := List.find?_some found
      exact holds
    exact moving.statement rule (List.mem_of_find?_eq_some found) nested room statements parts le a rest applies within

theorem guarded_moves {α : Type} {room : Nat} {P : List Lexeme → Prop} {p : Parser α} {depth : Nat}
    (within : depth ≤ w.limit) (moves : w.Moves room P p rest) : w.Moves room P (guarded depth p) rest := by
  intro inside
  unfold guarded
  by_cases refused : 0 < w.ctx.maxDepth ∧ w.ctx.maxDepth < depth
  · rw [if_pos refused]
    refine ⟨⟨rest, inside, rfl⟩, ?_, fun _ => Or.inl ⟨refused.1, by omega⟩⟩
    intro seen same
    cases same
  · rw [if_neg refused]
    exact moves inside

theorem nestedAt_moves (sound : w.Sound) (moving : g.Moving w) (fuel depth : Nat) (limited : fuel + depth ≤ w.limit) :
    NestedMoves w ((fuel + 1) / 2) (fuel / 2) (g.nestedAt fuel depth) := by
  induction fuel generalizing depth with
  | zero =>
    have starved {α : Type} {P : List Lexeme → Prop} (rest : Rest) :
        w.Moves 0 P (Parser.fail .nestedTooDeeply : Parser α) rest := by
      intro within
      refine ⟨⟨rest, within, rfl⟩, ?_, fun _ => Or.inr (Nat.zero_le _)⟩
      intro seen same
      cases same
    exact ⟨fun _ _ rest => starved rest, fun _ rest => starved rest⟩
  | succ fuel ih =>
    have parts := ih (depth + 1) (by omega)
    constructor
    · intro a least rest
      apply guarded_moves (by omega)
      apply (exprWith_moves sound moving parts least rest).mono
      omega
    · intro a rest
      apply guarded_moves (by omega)
      apply statementWith_moves moving parts
      omega

theorem step_moves {statement : Parser σ} {room : Nat} (moves : w.Moves room (w.Eats a a) statement rest) :
    w.Moves room (w.Eats a a) (step statement) rest := by
  intro within
  have outcome := moves within
  unfold step
  cases result : statement w.ctx rest with
  | error e reached =>
    rw [result] at outcome
    exact outcome
  | ok s reached =>
    rw [result] at outcome
    obtain ⟨eaten, split, nonempty, books⟩ := outcome
    have shorter : reached.length ≠ rest.length := by
      rw [split, List.length_append]
      have some := List.length_pos_iff.2 nonempty
      omega
    dsimp only
    rw [if_neg shorter]
    exact ⟨eaten, split, nonempty, books⟩

theorem blockFrom_moves (sound : w.Sound) {statement : Parser σ} {room : Nat}
    (each : ∀ rest, w.Moves room (w.Eats a a) statement rest) (stop : Context → Rest → Bool) (fuel : Nat)
    (done : List σ) {rest : Rest} (fueled : rest.length < fuel) :
    w.Moves room (w.books a a) (blockFrom statement stop fuel done) rest := by
  induction fuel generalizing done rest with
  | zero => exact absurd fueled (Nat.not_lt_zero _)
  | succ fuel ih =>
    intro within
    obtain ⟨blanks, skipped, space⟩ := sound.skipTrivia a rest
    have inside : w.ctx.skipTrivia rest <:+ w.base := by
      rw [skipped] at within
      exact (List.suffix_append _ _).trans within
    have lengths := congrArg List.length skipped
    rw [List.length_append] at lengths
    simp only [blockFrom]
    by_cases stopped : stop w.ctx (w.ctx.skipTrivia rest) = true
    · rw [if_pos stopped]
      exact ⟨blanks, skipped, space⟩
    rw [if_neg stopped]
    by_cases ended : w.ctx.atEnd (w.ctx.skipTrivia rest) = true
    · rw [if_pos ended]
      exact .at inside rfl rfl
    rw [if_neg ended]
    have outcome := step_moves (each (w.ctx.skipTrivia rest)) inside
    cases result : step statement w.ctx (w.ctx.skipTrivia rest) with
    | error e reached =>
      rw [result] at outcome
      exact outcome.mono fun le => by omega
    | ok s mid =>
      rw [result] at outcome
      obtain ⟨eaten, split, nonempty, books⟩ := outcome
      have some := List.length_pos_iff.2 nonempty
      have lengths' := congrArg List.length split
      rw [List.length_append] at lengths'
      have inside' : mid <:+ w.base := by
        rw [split] at inside
        exact (List.suffix_append _ _).trans inside
      have fewer : mid.length < fuel := by omega
      have outcome := ih (s :: done) fewer inside'
      dsimp only
      cases last : blockFrom statement stop fuel (s :: done) w.ctx mid with
      | error e reached =>
        rw [last] at outcome
        exact outcome.mono fun le => by omega
      | ok body reached =>
        rw [last] at outcome
        obtain ⟨more, split', books'⟩ := outcome
        refine ⟨blanks ++ (eaten ++ more), ?_, sound.append space (sound.append books books')⟩
        rw [List.append_assoc, List.append_assoc, ← split', ← split]
        exact skipped

theorem blockFrom_stops {statement : Parser σ} {stop : Context → Rest → Bool} {ctx : Context} (fuel : Nat)
    {done body : List σ} {rest reached : Rest}
    (parsed : blockFrom statement stop fuel done ctx rest = .ok body reached) : stop ctx reached = true := by
  induction fuel generalizing done rest with
  | zero => cases parsed
  | succ fuel ih =>
    simp only [blockFrom] at parsed
    split at parsed
    next stopped =>
      cases parsed
      exact stopped
    next =>
      split at parsed
      · cases parsed
      · split at parsed
        · exact ih parsed
        · cases parsed

theorem block_moves (sound : w.Sound) {room : Nat}
    (each : ∀ rest, w.Moves room (w.Eats a a) nested.statement rest) (stop : Context → Rest → Bool)
    (rest : Rest) : w.Moves room (w.books a a) (block nested stop) rest :=
  blockFrom_moves sound each stop (rest.length + 1) [] (Nat.lt_succ_self _)

theorem program_moves (sound : w.Sound) (moving : g.Moving w) {rest : Rest} (limited : 2 * rest.length + 4 ≤ w.limit) :
    w.Moves (rest.length + 2) (w.books a a) g.program rest := by
  have parts := nestedAt_moves sound moving (2 * rest.length + 4) 0 limited
  have each (rest' : Rest) : w.Moves (rest.length + 2) (w.Eats a a)
      (g.nestedAt (2 * rest.length + 4) 0).statement rest' := by
    apply (parts.statement a rest').mono
    omega
  intro within
  rw [program]
  exact blockFrom_moves sound each Context.atEnd (rest.length + 1) [] (Nat.lt_succ_self _) within

end Grammar

end ScriptKernel
