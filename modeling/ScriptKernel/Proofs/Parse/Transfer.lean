import ScriptKernel.Proofs.Parse.DepthBound
import ScriptKernel.Proofs.Parse.Progress

/-!
What a parser reads from one stream it reads from another that looks the same to
it. Two cursors are related as long as a part is being read, and in a wider
sense behind a statement. From related cursors the second parser gives what the
first gives, and the cursors that they leave are related again. The statement is
carried along the parsers, from the single lexeme to the loops of a grammar; of a
language only its rules are left. The second stream may be shorter or longer,
and the recursion may have been given less or more fuel.
-/

namespace ScriptKernel

/-- Two parses side by side: the context of the first, the walk along the second
stream, and how their cursors are related inside a statement and behind one. -/
structure Transfer where
  ctx : Context
  walk : Walk
  inside : Rest → Rest → Prop
  after : Rest → Rest → Prop

namespace Transfer

variable {α β : Type} {k : Transfer} {P R : Rest → Rest → Prop} {rest rest' : Rest}

/-- What the first parser reads at its cursor, the second reads at its own. -/
def Carries (k : Transfer) (R : Rest → Rest → Prop) (p p' : Parser α) (rest rest' : Rest) : Prop :=
  rest' <:+ k.walk.base → ∀ x reached, p k.ctx rest = .ok x reached →
    ∃ reached', p' k.walk.ctx rest' = .ok x reached' ∧ reached' <:+ rest' ∧ R reached reached'

/-- What both cursors see alike, but for texts that are hidden; the cursors stay
related behind a text unless it turns to something else, and behind a word that
stands free. -/
structure Aligned (k : Transfer) (hidden turning : List String) (free : Rest → Prop := fun _ => True) : Prop where
  sound : k.walk.Sound
  depth : k.walk.ctx.maxDepth = k.ctx.maxDepth
  skipSpace : ∀ {rest rest'}, k.inside rest rest' → k.inside (k.ctx.skipSpace rest) (k.walk.ctx.skipSpace rest')
  atEnd : ∀ {rest rest'}, k.inside rest rest' → k.walk.ctx.atEnd rest' = k.ctx.atEnd rest
  isAt : ∀ {rest rest'}, k.inside rest rest' → ∀ text ∉ hidden, Rest.isAt text rest' = Rest.isAt text rest
  tail : ∀ {rest rest'}, k.inside rest rest' → ∀ text ∉ hidden ++ turning, Rest.isAt text rest = true →
    k.inside rest.tail rest'.tail
  word : ∀ {rest rest'}, k.inside rest rest' → Rest.word rest' = Rest.word rest
  afterWord : ∀ {rest rest'}, k.inside rest rest' → free rest → k.inside (Rest.afterWord rest) (Rest.afterWord rest')
  isNameStart : ∀ {rest rest'}, k.inside rest rest' → Rest.isNameStart rest' = Rest.isNameStart rest
  isDigitStart : ∀ {rest rest'}, k.inside rest rest' → Rest.isDigitStart rest' = Rest.isDigitStart rest
  outside : ∀ {rest rest'}, k.inside rest rest' → k.after rest rest'

namespace Carries

variable {p p' : Parser α} {f f' : α → Parser β}

theorem weaken (carries : k.Carries P p p' rest rest') (implies : ∀ reached reached', P reached reached' → R reached reached') :
    k.Carries R p p' rest rest' := by
  intro within x reached parsed
  obtain ⟨reached', parsed', behind, related⟩ := carries within x reached parsed
  exact ⟨reached', parsed', behind, implies reached reached' related⟩

theorem reread {other : Rest} (same : p k.ctx rest = p k.ctx other) (carries : k.Carries R p p' other rest') :
    k.Carries R p p' rest rest' := by
  intro within x reached parsed
  rw [same] at parsed
  exact carries within x reached parsed

theorem pure (x : α) (related : R rest rest') : k.Carries R (Pure.pure x) (Pure.pure x) rest rest' := by
  intro _ y reached parsed
  cases parsed
  exact ⟨rest', rfl, List.suffix_rfl, related⟩

theorem fails (failed : ∀ x reached, p k.ctx rest ≠ .ok x reached) : k.Carries R p p' rest rest' :=
  fun _ x reached parsed => absurd parsed (failed x reached)

theorem fail {fault : ParseFault} : k.Carries R (Parser.fail fault) p' rest rest' :=
  fails fun _ _ => nofun

theorem failAt {location : Location} {fault : ParseFault} : k.Carries R (Parser.failAt location fault) p' rest rest' :=
  fails fun _ _ => nofun

theorem bind (first : k.Carries P p p' rest rest')
    (next : ∀ x reached reached', reached' <:+ rest' → P reached reached' → k.Carries R (f x) (f' x) reached reached') :
    k.Carries R (p >>= f) (p' >>= f') rest rest' := by
  intro within y final parsed
  obtain ⟨x, reached, read, parsed⟩ := Parser.bind_eq_ok parsed
  obtain ⟨reached', read', behind, related⟩ := first within x reached read
  obtain ⟨final', parsed', behind', related'⟩ :=
    next x reached reached' behind related (behind.trans within) y final parsed
  rw [Parser.bind_ok read']
  exact ⟨final', parsed', behind'.trans behind, related'⟩

theorem look {g : Context → Rest → α} (same : g k.walk.ctx rest' = g k.ctx rest)
    (next : k.Carries R (f (g k.ctx rest)) (f' (g k.ctx rest)) rest rest') :
    k.Carries R (Parser.look g >>= f) (Parser.look g >>= f') rest rest' := by
  intro within y final parsed
  obtain ⟨final', parsed', related⟩ := next within y final parsed
  refine ⟨final', ?_, related⟩
  rw [← parsed', ← same]
  rfl

theorem ite {q q' : Parser α} {condition : Prop} [Decidable condition]
    (yes : condition → k.Carries R p p' rest rest') (no : ¬condition → k.Carries R q q' rest rest') :
    k.Carries R (if condition then p else q) (if condition then p' else q') rest rest' := by
  by_cases holds : condition
  · rw [if_pos holds, if_pos holds]
    exact yes holds
  · rw [if_neg holds, if_neg holds]
    exact no holds

theorem optionally {later later' : Parser α} {condition : Bool} (related : P rest rest')
    (then_ : ∀ rest rest', P rest rest' → k.Carries R later later' rest rest')
    (step : condition = true → (∀ rest rest', P rest rest' → k.Carries R later later' rest rest') →
      k.Carries R p p' rest rest') :
    k.Carries R (if condition then p else later) (if condition then p' else later') rest rest' :=
  ite (fun holds => step holds then_) fun _ => then_ rest rest' related

theorem unexpected {text : String} (absent : ¬Rest.isAt text rest = true) {f : Lexeme → Parser β} {q : Parser β} :
    k.Carries R (Parser.expect [text] >>= f) q rest rest' := by
  apply fails
  intro x reached parsed
  have none : ¬Rest.isAtAny [text] rest = true := by simpa [Rest.isAtAny] using absent
  rw [Parser.bind_apply, Parser.expect, if_neg none] at parsed
  cases parsed

theorem location {f f' : Location → Parser β} (next : ∀ place place', k.Carries R (f place) (f' place') rest rest') :
    k.Carries R (Parser.location >>= f) (Parser.location >>= f') rest rest' :=
  fun within => next (k.ctx.location rest) (k.walk.ctx.location rest') within

section aligned

variable {hidden turning : List String} {free : Rest → Prop}

theorem isAt {f f' : Bool → Parser β} {text : String} (aligned : k.Aligned hidden turning free)
    (related : k.inside rest rest') (visible : text ∉ hidden)
    (next : k.Carries R (f (Rest.isAt text rest)) (f' (Rest.isAt text rest)) rest rest') :
    k.Carries R (Parser.isAt text >>= f) (Parser.isAt text >>= f') rest rest' :=
  look (aligned.isAt related text visible) next

theorem skipSpace (aligned : k.Aligned hidden turning free) (related : k.inside rest rest') :
    k.Carries k.inside Parser.skipSpace Parser.skipSpace rest rest' := by
  intro _ x reached parsed
  cases parsed
  obtain ⟨eaten, split, -⟩ := aligned.sound.skipSpace 0 rest'
  exact ⟨k.walk.ctx.skipSpace rest', rfl, ⟨eaten, split.symm⟩, aligned.skipSpace related⟩

theorem space (aligned : k.Aligned hidden turning free) (related : k.inside rest rest') {f f' : Unit → Parser β}
    (next : k.inside (k.ctx.skipSpace rest) (k.walk.ctx.skipSpace rest') →
      k.Carries R (f ()) (f' ()) (k.ctx.skipSpace rest) (k.walk.ctx.skipSpace rest')) :
    k.Carries R (Parser.skipSpace >>= f) (Parser.skipSpace >>= f') rest rest' := by
  have later := next (aligned.skipSpace related)
  obtain ⟨eaten, split, -⟩ := aligned.sound.skipSpace 0 rest'
  have behind : k.walk.ctx.skipSpace rest' <:+ rest' := ⟨eaten, split.symm⟩
  intro within y final parsed
  obtain ⟨final', parsed', behind', related'⟩ := later (behind.trans within) y final parsed
  exact ⟨final', parsed', behind'.trans behind, related'⟩

theorem spaceBehind (aligned : k.Aligned hidden turning free) (related : k.inside rest rest') {p : Parser β}
    {f' : Unit → Parser β}
    (next : k.inside (k.ctx.skipSpace rest) (k.walk.ctx.skipSpace rest') →
      k.Carries R p (f' ()) (k.ctx.skipSpace rest) (k.walk.ctx.skipSpace rest')) :
    k.Carries R p (Parser.skipSpace >>= f') (k.ctx.skipSpace rest) rest' :=
  space aligned related (f := fun _ => p) next

theorem word (aligned : k.Aligned hidden turning free) (related : k.inside rest rest')
    (stands : free rest) : k.Carries k.inside Parser.word Parser.word rest rest' := by
  intro _ x reached parsed
  cases parsed
  refine ⟨Rest.afterWord rest', ?_, List.dropWhile_suffix _, aligned.afterWord related stands⟩
  rw [Parser.word, aligned.word related]

theorem wordThen (aligned : k.Aligned hidden turning free) (related : k.inside rest rest')
    (stands : free rest) {f f' : String → Parser β}
    (next : k.inside (Rest.afterWord rest) (Rest.afterWord rest') →
      k.Carries R (f (Rest.word rest)) (f' (Rest.word rest)) (Rest.afterWord rest) (Rest.afterWord rest')) :
    k.Carries R (Parser.word >>= f) (Parser.word >>= f') rest rest' := by
  have later := next (aligned.afterWord related stands)
  have behind : Rest.afterWord rest' <:+ rest' := List.dropWhile_suffix _
  intro within y final parsed
  obtain ⟨final', parsed', behind', related'⟩ := later (behind.trans within) y final parsed
  refine ⟨final', ?_, behind'.trans behind, related'⟩
  rw [← parsed', ← aligned.word related]
  rfl

theorem name (aligned : k.Aligned hidden turning free) (related : k.inside rest rest') (reserved : List String)
    (stands : Rest.isNameStart rest = true → Rest.word rest ∉ reserved → free rest) :
    k.Carries k.inside (Parser.name reserved) (Parser.name reserved) rest rest' := by
  intro within x reached parsed
  unfold Parser.name at parsed ⊢
  rw [aligned.isNameStart related, aligned.word related]
  by_cases other : (!Rest.isNameStart rest) = true
  · rw [if_pos other] at parsed
    cases parsed
  by_cases taken : reserved.contains (Rest.word rest) = true
  · rw [if_neg other, if_pos taken] at parsed
    cases parsed
  rw [if_neg other, if_neg taken] at parsed ⊢
  exact word aligned related (stands (by simpa using other) (by simpa using taken)) within x reached parsed

theorem isAtAny (aligned : k.Aligned hidden turning free) (related : k.inside rest rest') {texts : List String}
    (visible : ∀ text ∈ texts, text ∉ hidden) : Rest.isAtAny texts rest' = Rest.isAtAny texts rest := by
  unfold Rest.isAtAny
  induction texts with
  | nil => rfl
  | cons text texts ih =>
    rw [List.forall_mem_cons] at visible
    rw [List.any_cons, List.any_cons, aligned.isAt related text visible.1, ih visible.2]

theorem text_of_isAt {text : String} (here : Rest.isAt text rest = true) (ctx : Context) :
    (ctx.peek rest).text = text := by
  cases rest with
  | nil => cases here
  | cons l rest =>
    rw [Rest.isAt, Bool.and_eq_true, beq_iff_eq] at here
    exact here.2

theorem advance (aligned : k.Aligned hidden turning free) (related : k.inside rest rest') {texts : List String}
    (plain : ∀ text ∈ texts, text ∉ hidden ++ turning) (here : Rest.isAtAny texts rest = true)
    {f f' : Lexeme → Parser β}
    (next : ∀ l l' : Lexeme, l'.text = l.text → k.inside rest.tail rest'.tail →
      k.Carries R (f l) (f' l') rest.tail rest'.tail) :
    k.Carries R (Parser.advance >>= f) (Parser.advance >>= f') rest rest' := by
  obtain ⟨text, member, at_⟩ := List.any_eq_true.1 here
  have visible : text ∉ hidden := fun hides => plain text member (List.mem_append_left turning hides)
  have at' : Rest.isAt text rest' = true := by rw [aligned.isAt related text visible, at_]
  have same : (k.walk.ctx.peek rest').text = (k.ctx.peek rest).text := by
    rw [text_of_isAt at_, text_of_isAt at']
  have later := next _ _ same (aligned.tail related text (plain text member) at_)
  intro within y final parsed
  obtain ⟨final', parsed', behind, related'⟩ := later ((List.tail_suffix rest').trans within) y final parsed
  exact ⟨final', parsed', behind.trans (List.tail_suffix rest'), related'⟩

theorem advanceAt (aligned : k.Aligned hidden turning free) (related : k.inside rest rest') {text : String}
    (plain : text ∉ hidden ++ turning) (here : Rest.isAt text rest = true) {f f' : Lexeme → Parser β}
    (next : ∀ l l' : Lexeme, k.inside rest.tail rest'.tail → k.Carries R (f l) (f' l') rest.tail rest'.tail) :
    k.Carries R (Parser.advance >>= f) (Parser.advance >>= f') rest rest' := by
  have any : Rest.isAtAny [text] rest = true := by simpa [Rest.isAtAny] using here
  have plainly : ∀ other ∈ [text], other ∉ hidden ++ turning := List.forall_mem_singleton.2 plain
  exact advance aligned related plainly any fun l l' _ => next l l'

theorem expect (aligned : k.Aligned hidden turning free) (related : k.inside rest rest') {text : String}
    (plain : text ∉ hidden ++ turning) {f f' : Lexeme → Parser β}
    (next : ∀ l l' : Lexeme, k.inside rest.tail rest'.tail → k.Carries R (f l) (f' l') rest.tail rest'.tail) :
    k.Carries R (Parser.expect [text] >>= f) (Parser.expect [text] >>= f') rest rest' := by
  have visible : text ∉ hidden := fun hides => plain (List.mem_append_left turning hides)
  have taken (ctx : Context) {rest : Rest} (here : Rest.isAtAny [text] rest = true) {g : Lexeme → Parser β} :
      (Parser.expect [text] >>= g) ctx rest = (Parser.advance >>= g) ctx rest := by
    rw [Parser.bind_apply, Parser.bind_apply, Parser.expect, if_pos here]
  by_cases here : Rest.isAt text rest = true
  · have any (rest : Rest) (at_ : Rest.isAt text rest = true) : Rest.isAtAny [text] rest = true := by
      simpa [Rest.isAtAny] using at_
    have here' : Rest.isAt text rest' = true := by rw [aligned.isAt related text visible, here]
    have carries := advanceAt aligned related plain here next
    intro within y final parsed
    rw [taken k.ctx (any rest here)] at parsed
    rw [taken k.walk.ctx (any rest' here')]
    exact carries within y final parsed
  · exact unexpected here

theorem expectKeyword (aligned : k.Aligned hidden turning free) (related : k.inside rest rest') {keyword : String}
    (plain : keyword ∉ hidden ++ turning) (stands : Rest.isKeyword keyword rest = true → free rest) :
    k.Carries k.inside (Parser.expectKeyword keyword) (Parser.expectKeyword keyword) rest rest' := by
  have same : Rest.isKeyword keyword rest' = Rest.isKeyword keyword rest := by
    rw [Rest.isKeyword, aligned.word related, Rest.isKeyword]
  have shape (ctx : Context) (rest : Rest) (other : ¬Rest.isKeyword keyword rest = true) :
      Parser.expectKeyword keyword ctx rest = (Parser.expect [keyword] >>= fun _ => Pure.pure ()) ctx rest := by
    rw [Parser.expectKeyword, if_neg other, Parser.bind_apply]
    cases Parser.expect [keyword] ctx rest with
    | ok l reached => rfl
    | error e reached => rfl
  intro within x reached parsed
  by_cases found : Rest.isKeyword keyword rest = true
  · rw [Parser.expectKeyword, if_pos found] at parsed
    rw [Parser.expectKeyword, same, if_pos found]
    cases parsed
    exact ⟨_, rfl, List.dropWhile_suffix _, aligned.afterWord related (stands found)⟩
  · have carries : k.Carries k.inside (Parser.expect [keyword] >>= fun _ => Pure.pure ())
        (Parser.expect [keyword] >>= fun _ => Pure.pure ()) rest rest' :=
      expect aligned related plain fun _ _ related => pure _ related
    rw [shape _ _ found] at parsed
    rw [shape _ _ (by rwa [same])]
    exact carries within x reached parsed

theorem number {fraction : Bool} (sound : k.walk.Sound)
    (digits : Rest.text (Parser.spanNumber fraction rest').1 = Rest.text (Parser.spanNumber fraction rest).1)
    (behind : R (Parser.spanNumber fraction rest).2 (Parser.spanNumber fraction rest').2) :
    k.Carries R (Parser.number fraction) (Parser.number fraction) rest rest' := by
  have reads (ctx : Context) (rest : Rest) : Parser.number fraction ctx rest =
      .ok (Rest.text (Parser.spanNumber fraction rest).1) (Parser.spanNumber fraction rest).2 := rfl
  intro _ text reached parsed
  rw [reads] at parsed
  cases parsed
  refine ⟨(Parser.spanNumber fraction rest').2, by rw [reads, digits], ?_, behind⟩
  exact ⟨_, (Walk.Moves.spanNumber_split sound 0 fraction rest').1.symm⟩

theorem string {quote : String} (same : Rest.isAt quote rest' = Rest.isAt quote rest)
    (body : Rest.isAt quote rest = true → ∀ text reached,
      Parser.stringBody k.ctx quote "" rest.tail = .ok text reached →
      ∃ reached', Parser.stringBody k.walk.ctx quote "" rest'.tail = .ok text reached' ∧ reached' <:+ rest'.tail ∧
        R reached reached') :
    k.Carries R (Parser.string quote) (Parser.string quote) rest rest' := by
  intro within text reached parsed
  unfold Parser.string at parsed ⊢
  obtain ⟨l, behind, opened, parsed⟩ := Parser.bind_eq_ok parsed
  unfold Parser.expect at opened
  by_cases here : Rest.isAtAny [quote] rest = true
  · rw [if_pos here] at opened
    cases opened
    have at_ : Rest.isAt quote rest = true := by simpa [Rest.isAtAny] using here
    have here' : Rest.isAtAny [quote] rest' = true := by
      rw [Rest.isAtAny, List.any_cons, same, at_]
      rfl
    obtain ⟨reached', parsed', suffix, related⟩ := body at_ text reached parsed
    refine ⟨reached', ?_, suffix.trans (List.tail_suffix rest'), related⟩
    have opened' : Parser.expect [quote] k.walk.ctx rest' = .ok (k.walk.ctx.peek rest') rest'.tail := by
      rw [Parser.expect, if_pos here']
      rfl
    exact (Parser.bind_ok opened').trans parsed'
  · rw [if_neg here] at opened
    cases opened

/-- The cursors need not be related behind an item, but behind the blanks that
follow it, and behind the list they are related as its end leaves them. -/
theorem items (aligned : k.Aligned hidden turning free) {separator close : String} {item item' : List α → Parser α}
    (divides : separator ∉ hidden ++ turning) (closes : close ∉ hidden)
    (each : ∀ done rest rest', k.inside rest rest' →
      k.Carries (fun rest rest' => k.inside (k.ctx.skipSpace rest) (k.walk.ctx.skipSpace rest')) (item done) (item' done)
        rest rest')
    (ends : ∀ {rest rest'}, k.inside rest rest' → Rest.isAt close rest = true → R rest.tail rest'.tail)
    (fuel fuel' : Nat) (done : List α) {rest rest' : Rest} (related : k.inside rest rest')
    (within : rest' <:+ k.walk.base) (fueled : rest'.length < fuel') {found : List α} {reached : Rest}
    (parsed : Parser.items separator close item fuel done k.ctx rest = .ok (found, none) reached) :
    ∃ reached', Parser.items separator close item' fuel' done k.walk.ctx rest' = .ok (found, none) reached' ∧
      reached' <:+ rest' ∧ R reached reached' := by
  induction fuel generalizing fuel' done rest rest' with
  | zero => cases parsed
  | succ fuel ih =>
    obtain ⟨fuel', rfl⟩ := Nat.exists_eq_succ_of_ne_zero (Nat.ne_of_gt (Nat.zero_lt_of_lt fueled))
    have seen : separator ∉ hidden := fun hides => divides (List.mem_append_left turning hides)
    have skips (rest' : Rest) : k.walk.ctx.skipSpace rest' <:+ rest' := by
      obtain ⟨eaten, split, -⟩ := aligned.sound.skipSpace 0 rest'
      exact ⟨eaten, split.symm⟩
    have skipped := aligned.skipSpace related
    have inner := (skips rest').trans within
    simp only [Parser.items] at parsed ⊢
    rw [aligned.isAt skipped close closes]
    by_cases closed : Rest.isAt close (k.ctx.skipSpace rest) = true
    · rw [if_pos closed] at parsed ⊢
      cases parsed
      exact ⟨_, rfl, (List.tail_suffix _).trans (skips rest'), ends skipped closed⟩
    rw [if_neg closed] at parsed ⊢
    cases read : item done k.ctx (k.ctx.skipSpace rest) with
    | error e mid =>
      rw [read] at parsed
      cases parsed
    | ok x mid =>
      obtain ⟨mid', read', behind, skipped'⟩ := each done _ _ skipped inner x mid read
      have further : k.walk.ctx.skipSpace mid' <:+ rest' := (skips mid').trans (behind.trans (skips rest'))
      rw [read] at parsed
      rw [read']
      dsimp only at parsed ⊢
      rw [aligned.isAt skipped' separator seen, aligned.isAt skipped' close closes]
      by_cases divided : Rest.isAt separator (k.ctx.skipSpace mid) = true
      · rw [if_pos divided] at parsed ⊢
        -- A separator is consumed, so that the list cannot run out of fuel.
        have there : Rest.isAt separator (k.walk.ctx.skipSpace mid') = true := by
          rw [aligned.isAt skipped' separator seen, divided]
        have fewer : (k.walk.ctx.skipSpace mid').tail.length < fuel' := by
          have lengths := further.length_le
          cases left : k.walk.ctx.skipSpace mid' with
          | nil =>
            rw [left] at there
            cases there
          | cons l more =>
            rw [left, List.length_cons] at lengths
            rw [List.tail_cons]
            omega
        have more := (List.tail_suffix _).trans further
        obtain ⟨reached', parsed', behind', related''⟩ := ih fuel' (done ++ [x])
          (aligned.tail skipped' separator divides divided) (more.trans within) fewer parsed
        exact ⟨reached', parsed', behind'.trans more, related''⟩
      rw [if_neg divided] at parsed ⊢
      by_cases closed' : Rest.isAt close (k.ctx.skipSpace mid) = true
      · rw [if_pos closed'] at parsed ⊢
        cases parsed
        exact ⟨_, rfl, (List.tail_suffix _).trans further, ends skipped' closed'⟩
      · rw [if_neg closed'] at parsed
        cases parsed

theorem listTo (aligned : k.Aligned hidden turning free) {separator close : String} {item item' : List α → Parser α}
    (divides : separator ∉ hidden ++ turning) (closes : close ∉ hidden)
    (each : ∀ done rest rest', k.inside rest rest' →
      k.Carries (fun rest rest' => k.inside (k.ctx.skipSpace rest) (k.walk.ctx.skipSpace rest')) (item done) (item' done)
        rest rest')
    (ends : ∀ {rest rest'}, k.inside rest rest' → Rest.isAt close rest = true → R rest.tail rest'.tail)
    (related : k.inside rest rest') :
    k.Carries R (Parser.list separator close item) (Parser.list separator close item') rest rest' := by
  intro within x reached parsed
  simp only [Parser.list, Parser.listed] at parsed ⊢
  cases listed : Parser.items separator close item (rest.length + 1) [] k.ctx rest with
  | error e stopped =>
    rw [listed] at parsed
    cases parsed
  | ok result stopped =>
    obtain ⟨found, fault⟩ := result
    rw [listed] at parsed
    cases fault with
    | some e => cases parsed
    | none =>
      cases parsed
      obtain ⟨reached', listed', behind, related'⟩ := items aligned divides closes each ends (rest.length + 1)
        (rest'.length + 1) [] related within (Nat.lt_succ_self _) listed
      exact ⟨reached', by rw [listed'], behind, related'⟩

theorem list (aligned : k.Aligned hidden turning free) {separator close : String} {item item' : List α → Parser α}
    (divides : separator ∉ hidden ++ turning) (closes : close ∉ hidden ++ turning)
    (each : ∀ done rest rest', k.inside rest rest' → k.Carries k.inside (item done) (item' done) rest rest')
    (related : k.inside rest rest') :
    k.Carries k.inside (Parser.list separator close item) (Parser.list separator close item') rest rest' := by
  have visible : close ∉ hidden := fun hides => closes (List.mem_append_left turning hides)
  apply listTo aligned divides visible
  · exact fun done _ _ related => (each done _ _ related).weaken fun _ _ => aligned.skipSpace
  · exact fun related here => aligned.tail related close closes here
  · exact related

end aligned

end Carries

end Transfer

namespace Grammar

open Transfer (Aligned Carries)

variable {ε σ : Type}

structure NestedCarries (k : Transfer) (n n' : Nested ε σ) : Prop where
  moves : ∃ exprs statements, NestedMoves k.walk exprs statements n'
  expr : ∀ least {rest rest'}, k.inside rest rest' → k.Carries k.inside (n.expr least) (n'.expr least) rest rest'
  statement : ∀ {rest rest'}, k.inside rest rest' → k.Carries k.after n.statement n'.statement rest rest'

section parts

variable {k : Transfer} {hidden turning : List String} {free : Rest → Prop} {n n' : Nested ε σ} {rest rest' : Rest}

theorem signed_carries (aligned : k.Aligned hidden turning free) (nested : NestedCarries k n n')
    (related : k.inside rest rest') {texts : List String} (here : rest.isAtAny texts = true)
    (plain : ∀ text ∈ texts, text ∉ hidden ++ turning) {least : Precedence} {f : String → ε → ε} :
    k.Carries k.inside
      (do
        let op ← Parser.advance
        let right ← n.expr least
        return f op.text right)
      (do
        let op ← Parser.advance
        let right ← n'.expr least
        return f op.text right) rest rest' := by
  apply Carries.advance aligned related plain here
  intro op op' text related
  rw [text]
  apply (nested.expr least related).bind
  exact fun right reached reached' _ related => Carries.pure _ related

theorem sign_carries (aligned : k.Aligned hidden turning free) (nested : NestedCarries k n n')
    (related : k.inside rest rest') {text : String} (here : rest.isAt text = true) (plain : text ∉ hidden ++ turning)
    {least : Precedence} {f : ε → ε} :
    k.Carries k.inside
      (do
        let _ ← Parser.advance
        let right ← n.expr least
        return f right)
      (do
        let _ ← Parser.advance
        let right ← n'.expr least
        return f right) rest rest' := by
  have any : rest.isAtAny [text] = true := by
    simpa [Rest.isAtAny] using here
  exact signed_carries aligned nested related (f := fun _ => f) any (List.forall_mem_singleton.2 plain)

theorem worded_carries (aligned : k.Aligned hidden turning free) (nested : NestedCarries k n n')
    (related : k.inside rest rest') (stands : free rest) {least : Precedence} {f : ε → ε} :
    k.Carries k.inside
      (do
        let _ ← Parser.word
        let right ← n.expr least
        return f right)
      (do
        let _ ← Parser.word
        let right ← n'.expr least
        return f right) rest rest' := by
  apply Carries.wordThen aligned related stands
  intro related
  apply (nested.expr least related).bind
  exact fun right reached reached' _ related => Carries.pure _ related

end parts

/-- Rules that apply at both of two related cursors or at neither, and read the
same there. -/
structure Carrying (g : Grammar ε σ) (k : Transfer) : Prop where
  operandApplies : ∀ rule ∈ g.operands, ∀ {rest rest'}, k.inside rest rest' →
    rule.applies k.walk.ctx rest' = rule.applies k.ctx rest
  operand : ∀ rule ∈ g.operands, ∀ {n n'}, NestedCarries k n n' → ∀ {rest rest'}, k.inside rest rest' →
    rule.applies k.ctx rest = true → k.Carries k.inside (rule.parse n) (rule.parse n') rest rest'
  operatorApplies : ∀ rule ∈ g.operators, ∀ {rest rest'}, k.inside rest rest' →
    rule.applies k.walk.ctx rest' = rule.applies k.ctx rest
  operator : ∀ rule ∈ g.operators, ∀ {n n'}, NestedCarries k n n' → ∀ left {rest rest'}, k.inside rest rest' →
    rule.applies k.ctx rest = true → k.Carries k.inside (rule.parse n left) (rule.parse n' left) rest rest'
  statementApplies : ∀ rule ∈ g.statements, ∀ {rest rest'}, k.inside rest rest' →
    rule.applies k.walk.ctx rest' = rule.applies k.ctx rest
  statement : ∀ rule ∈ g.statements, ∀ {n n'}, NestedCarries k n n' → ∀ {rest rest'}, k.inside rest rest' →
    rule.applies k.ctx rest = true → k.Carries k.after (rule.parse n) (rule.parse n') rest rest'

variable {g : Grammar ε σ} {k : Transfer} {hidden turning : List String} {free : Rest → Prop} {n n' : Nested ε σ}

theorem operatorsFrom_carries (aligned : k.Aligned hidden turning free) (moving : g.Moving k.walk) (carrying : g.Carrying k)
    (nested : NestedCarries k n n') (least : Precedence) (fuel fuel' : Nat) (left : ε) {rest rest' : Rest}
    (related : k.inside rest rest') (fueled : rest'.length < fuel') :
    k.Carries k.inside (g.operatorsFrom n least fuel left) (g.operatorsFrom n' least fuel' left) rest rest' := by
  obtain ⟨exprs, statements, parts⟩ := nested.moves
  induction fuel generalizing fuel' left rest rest' with
  | zero => exact Carries.fail
  | succ fuel ih =>
    obtain ⟨fuel', rfl⟩ := Nat.exists_eq_succ_of_ne_zero (Nat.ne_of_gt (Nat.zero_lt_of_lt fueled))
    intro within x reached parsed
    have skipped := aligned.skipSpace related
    obtain ⟨eaten, split, -⟩ := aligned.sound.skipSpace 0 rest'
    have behind : k.walk.ctx.skipSpace rest' <:+ rest' := ⟨eaten, split.symm⟩
    have sameRule : g.operators.find? (·.applies k.walk.ctx (k.walk.ctx.skipSpace rest')) =
        g.operators.find? (·.applies k.ctx (k.ctx.skipSpace rest)) :=
      List.find?_congr fun rule member => carrying.operatorApplies rule member skipped
    rw [operatorsFrom_succ] at parsed ⊢
    rw [sameRule]
    cases found : g.operators.find? (·.applies k.ctx (k.ctx.skipSpace rest)) with
    | none =>
      rw [found] at parsed
      cases parsed
      exact ⟨_, rfl, behind, skipped⟩
    | some rule =>
      rw [found] at parsed
      dsimp only at parsed ⊢
      have member := List.mem_of_find?_eq_some found
      have applies : rule.applies k.ctx (k.ctx.skipSpace rest) = true := by
        have holds := List.find?_some found
        exact holds
      by_cases weaker : rule.precedence < least
      · rw [if_pos weaker] at parsed ⊢
        cases parsed
        exact ⟨_, rfl, behind, skipped⟩
      rw [if_neg weaker] at parsed ⊢
      cases read : rule.parse n left k.ctx (k.ctx.skipSpace rest) with
      | error e mid =>
        rw [read] at parsed
        cases parsed
      | ok next mid =>
        rw [read] at parsed
        have inner := behind.trans within
        obtain ⟨mid', read', behind', related'⟩ :=
          carrying.operator rule member nested left skipped applies inner next mid read
        have applies' : rule.applies k.walk.ctx (k.walk.ctx.skipSpace rest') = true := by
          rw [carrying.operatorApplies rule member skipped, applies]
        have moved := moving.operator rule member n' exprs statements parts 0 left _ applies' inner
        rw [read'] at moved ⊢
        obtain ⟨taken, split', keeps⟩ := moved
        have fewer : mid'.length < fuel' := by
          have some := List.length_pos_iff.2 keeps.1
          have lengths := congrArg List.length split'
          have shorter := behind.length_le
          rw [List.length_append] at lengths
          omega
        have further := behind'.trans behind
        obtain ⟨reached', parsed', behind'', related''⟩ :=
          ih fuel' next related' fewer (further.trans within) x reached parsed
        exact ⟨reached', parsed', behind''.trans further, related''⟩

theorem exprWith_carries (aligned : k.Aligned hidden turning free) (moving : g.Moving k.walk) (carrying : g.Carrying k)
    (nested : NestedCarries k n n') (least : Precedence) {rest rest' : Rest} (related : k.inside rest rest') :
    k.Carries k.inside (g.exprWith n least) (g.exprWith n' least) rest rest' := by
  intro within x reached parsed
  have skipped := aligned.skipSpace related
  obtain ⟨eaten, split, -⟩ := aligned.sound.skipSpace 0 rest'
  have behind : k.walk.ctx.skipSpace rest' <:+ rest' := ⟨eaten, split.symm⟩
  have sameRule : g.operands.find? (·.applies k.walk.ctx (k.walk.ctx.skipSpace rest')) =
      g.operands.find? (·.applies k.ctx (k.ctx.skipSpace rest)) :=
    List.find?_congr fun rule member => carrying.operandApplies rule member skipped
  rw [exprWith_eq_exprFrom, exprFrom] at parsed ⊢
  rw [sameRule]
  cases found : g.operands.find? (·.applies k.ctx (k.ctx.skipSpace rest)) with
  | none =>
    rw [found] at parsed
    cases parsed
  | some rule =>
    rw [found] at parsed
    dsimp only at parsed ⊢
    have member := List.mem_of_find?_eq_some found
    have applies : rule.applies k.ctx (k.ctx.skipSpace rest) = true := by
      have holds := List.find?_some found
      exact holds
    cases read : rule.parse n k.ctx (k.ctx.skipSpace rest) with
    | error e mid =>
      rw [read] at parsed
      cases parsed
    | ok left mid =>
      rw [read] at parsed
      obtain ⟨mid', read', behind', related'⟩ :=
        carrying.operand rule member nested skipped applies (behind.trans within) left mid read
      have further := behind'.trans behind
      rw [read']
      obtain ⟨reached', parsed', behind'', related''⟩ := operatorsFrom_carries aligned moving carrying nested least
        _ _ left related' (Nat.lt_succ_self _) (further.trans within) x reached parsed
      exact ⟨reached', parsed', behind''.trans further, related''⟩

theorem statementWith_carries (carrying : g.Carrying k) (nested : NestedCarries k n n') {rest rest' : Rest}
    (related : k.inside rest rest') : k.Carries k.after (g.statementWith n) (g.statementWith n') rest rest' := by
  intro within x reached parsed
  have sameRule : g.statements.find? (·.applies k.walk.ctx rest') = g.statements.find? (·.applies k.ctx rest) :=
    List.find?_congr fun rule member => carrying.statementApplies rule member related
  unfold statementWith at parsed ⊢
  rw [sameRule]
  cases found : g.statements.find? (·.applies k.ctx rest) with
  | none =>
    rw [found] at parsed
    cases parsed
  | some rule =>
    rw [found] at parsed
    have applies : rule.applies k.ctx rest = true := by
      have holds := List.find?_some found
      exact holds
    exact carrying.statement rule (List.mem_of_find?_eq_some found) nested related applies within x reached parsed

theorem guarded_carries {α : Type} {R : Rest → Rest → Prop} {p p' : Parser α} {depth : Nat} {rest rest' : Rest}
    (bound : k.walk.ctx.maxDepth = k.ctx.maxDepth)
    (inner : ¬(0 < k.ctx.maxDepth ∧ k.ctx.maxDepth < depth) → k.Carries R p p' rest rest') :
    k.Carries R (guarded depth p) (guarded depth p') rest rest' := by
  intro within x reached parsed
  unfold guarded at parsed ⊢
  rw [bound]
  by_cases refused : 0 < k.ctx.maxDepth ∧ k.ctx.maxDepth < depth
  · rw [if_pos refused] at parsed
    cases parsed
  · rw [if_neg refused] at parsed ⊢
    exact inner refused within x reached parsed

/-- The second recursion needs as much fuel as the first, or enough to come to
the bound on nesting. -/
theorem nestedAt_carries (aligned : k.Aligned hidden turning free) (moving : g.Moving k.walk) (carrying : g.Carrying k)
    (fuel fuel' depth : Nat) (limited : fuel' + depth ≤ k.walk.limit)
    (enough : fuel ≤ fuel' ∨ 0 < k.ctx.maxDepth ∧ k.ctx.maxDepth < (fuel' + depth : Nat)) :
    NestedCarries k (g.nestedAt fuel depth) (g.nestedAt fuel' depth) := by
  induction fuel generalizing fuel' depth with
  | zero => exact ⟨⟨_, _, nestedAt_moves aligned.sound moving fuel' depth limited⟩, fun _ _ _ _ => Carries.fail,
      fun _ => Carries.fail⟩
  | succ fuel ih =>
    have moves := nestedAt_moves aligned.sound moving fuel' depth limited
    cases fuel' with
    | zero =>
      have refused : 0 < k.ctx.maxDepth ∧ k.ctx.maxDepth < (depth + 1 : Nat) := by omega
      have starved {α : Type} (p : Parser α) (rest : Rest) (x : α) (reached : Rest) :
          guarded (depth + 1) p k.ctx rest ≠ .ok x reached := by
        rw [guarded, if_pos refused]
        intro same
        cases same
      exact ⟨⟨_, _, moves⟩, fun _ _ _ _ => Carries.fails (starved _ _), fun _ => Carries.fails (starved _ _)⟩
    | succ fuel' =>
      have nested := ih fuel' (depth + 1) (by omega) (by omega)
      refine ⟨⟨_, _, moves⟩, ?_, ?_⟩
      · intro least rest rest' related
        exact guarded_carries aligned.depth fun _ => exprWith_carries aligned moving carrying nested least related
      · intro rest rest' related
        exact guarded_carries aligned.depth fun _ => statementWith_carries carrying nested related

theorem step_carries {statement statement' : Parser σ} {room : Nat} {R : Rest → Rest → Prop} {rest rest' : Rest}
    (carries : k.Carries R statement statement' rest rest')
    (moves : k.walk.Moves room (k.walk.Eats 0 0) statement' rest') (within : rest' <:+ k.walk.base) {s : σ}
    {reached : Rest} (parsed : step statement k.ctx rest = .ok s reached) :
    ∃ reached', step statement' k.walk.ctx rest' = .ok s reached' ∧ reached' <:+ rest' ∧
      reached'.length < rest'.length ∧ R reached reached' := by
  unfold step at parsed
  cases read : statement k.ctx rest with
  | error e mid =>
    rw [read] at parsed
    cases parsed
  | ok s' mid =>
    rw [read] at parsed
    dsimp only at parsed
    by_cases idle : mid.length = rest.length
    · rw [if_pos idle] at parsed
      cases parsed
    · rw [if_neg idle] at parsed
      cases parsed
      obtain ⟨reached', read', behind, related⟩ := carries within s reached read
      have moved := step_moves moves within
      unfold step at moved ⊢
      rw [read'] at moved ⊢
      dsimp only at moved ⊢
      by_cases idle' : reached'.length = rest'.length
      · rw [if_pos idle'] at moved
        exact absurd rfl (moved.consumed _)
      · have shorter := behind.length_le
        rw [if_neg idle']
        exact ⟨reached', rfl, behind, by omega, related⟩

/-- Between statements the cursors come to be related inside again, or the first
is at the end of its stream. -/
structure Gathers (k : Transfer) (stop : Context → Rest → Bool) : Prop where
  trivia : ∀ {rest rest'}, k.after rest rest' → k.inside (k.ctx.skipTrivia rest) (k.walk.ctx.skipTrivia rest') ∨
    k.ctx.atEnd (k.ctx.skipTrivia rest) = true ∧ stop k.ctx (k.ctx.skipTrivia rest) = false
  stop : ∀ {rest rest'}, k.inside rest rest' → stop k.walk.ctx rest' = stop k.ctx rest

theorem blockFrom_carries (aligned : k.Aligned hidden turning free) {stop : Context → Rest → Bool} (gathers : Gathers k stop)
    {statement statement' : Parser σ} {room : Nat}
    (each : ∀ {rest rest'}, k.inside rest rest' → k.Carries k.after statement statement' rest rest')
    (moves : ∀ rest', k.walk.Moves room (k.walk.Eats 0 0) statement' rest') (fuel fuel' : Nat) (done : List σ)
    {rest rest' : Rest} (related : k.after rest rest') (fueled : rest'.length < fuel') :
    k.Carries (fun reached reached' => k.inside reached reached' ∧ stop k.ctx reached = true)
      (blockFrom statement stop fuel done) (blockFrom statement' stop fuel' done) rest rest' := by
  induction fuel generalizing fuel' done rest rest' with
  | zero => exact Carries.fail
  | succ fuel ih =>
    obtain ⟨fuel', rfl⟩ := Nat.exists_eq_succ_of_ne_zero (Nat.ne_of_gt (Nat.zero_lt_of_lt fueled))
    intro within x reached parsed
    obtain ⟨eaten, split, -⟩ := aligned.sound.skipTrivia 0 rest'
    have behind : k.walk.ctx.skipTrivia rest' <:+ rest' := ⟨eaten, split.symm⟩
    simp only [blockFrom] at parsed ⊢
    rcases gathers.trivia related with skipped | ⟨ended, open_⟩
    · rw [gathers.stop skipped, aligned.atEnd skipped]
      by_cases stopped : stop k.ctx (k.ctx.skipTrivia rest) = true
      · rw [if_pos stopped] at parsed ⊢
        cases parsed
        exact ⟨_, rfl, behind, skipped, stopped⟩
      rw [if_neg stopped] at parsed ⊢
      by_cases ended : k.ctx.atEnd (k.ctx.skipTrivia rest) = true
      · rw [if_pos ended] at parsed
        cases parsed
      rw [if_neg ended] at parsed ⊢
      cases read : step statement k.ctx (k.ctx.skipTrivia rest) with
      | error e mid =>
        rw [read] at parsed
        cases parsed
      | ok s mid =>
        rw [read] at parsed
        obtain ⟨mid', read', behind', shorter, related'⟩ :=
          step_carries (each skipped) (moves _) (behind.trans within) read
        rw [read']
        have further := behind'.trans behind
        have fewer : mid'.length < fuel' := by
          have lengths := behind.length_le
          omega
        obtain ⟨reached', parsed', behind'', related''⟩ :=
          ih fuel' (s :: done) related' fewer (further.trans within) x reached parsed
        exact ⟨reached', parsed', behind''.trans further, related''⟩
    · rw [open_, if_neg Bool.false_ne_true, if_pos ended] at parsed
      cases parsed

theorem block_carries (aligned : k.Aligned hidden turning free) {stop : Context → Rest → Bool} (gathers : Gathers k stop)
    (nested : NestedCarries k n n') {rest rest' : Rest} (related : k.after rest rest') :
    k.Carries (fun reached reached' => k.inside reached reached' ∧ stop k.ctx reached = true) (block n stop)
      (block n' stop) rest rest' := by
  obtain ⟨exprs, statements, parts⟩ := nested.moves
  exact blockFrom_carries aligned gathers nested.statement (parts.statement 0) _ _ [] related (Nat.lt_succ_self _)

theorem nestedAt_fewer (uniform : g.Uniform) (ctx : Context) {fuel more : Nat} (le : fuel ≤ more) (depth : Nat) :
    NestedUpToDepth ctx ctx.maxDepth (g.nestedAt fuel depth) (g.nestedAt more depth) := by
  have tighter : Tighter ctx.maxDepth ctx.maxDepth := fun _ refused => refused
  induction fuel generalizing more depth with
  | zero => exact ⟨fun _ _ => Or.inr rfl, fun _ => Or.inr rfl⟩
  | succ fuel ih =>
    obtain ⟨more, rfl⟩ := Nat.exists_eq_succ_of_ne_zero (Nat.ne_of_gt (Nat.zero_lt_of_lt le))
    have nested := ih (Nat.le_of_succ_le_succ le) (depth + 1)
    exact ⟨fun least => guarded_upToDepth tighter _ (exprWith_upToDepth uniform nested least),
      guarded_upToDepth tighter _ (statementWith_upToDepth uniform nested)⟩

theorem parse_eq_ok {ctx : Context} {tokens : Rest} {x : List σ} :
    g.parse ctx tokens = .ok x ↔ ∃ reached, g.program ctx tokens = .ok x reached := by
  unfold parse
  cases g.program ctx tokens with
  | ok y reached => simp
  | error e reached => simp

/-- A program is read from the second stream too. If that is the shorter one, its
fuel may not be enough; but then it is not the bound on nesting that is missed. -/
theorem program_carries (aligned : k.Aligned hidden turning free) (moving : g.Moving k.walk) (carrying : g.Carrying k)
    (uniform : g.Uniform) (gathers : Gathers k Context.atEnd) {tokens : Rest}
    (limited : 2 * tokens.length + 4 ≤ k.walk.limit) (limited' : 2 * k.walk.base.length + 4 ≤ k.walk.limit)
    (related : k.after tokens k.walk.base) {x : List σ} {reached : Rest}
    (parsed : g.program k.ctx tokens = .ok x reached) :
    (∃ reached', g.program k.walk.ctx k.walk.base = .ok x reached') ∨
      Parser.TooDeep (g.program k.walk.ctx k.walk.base) ∧
        ¬(0 < k.walk.ctx.maxDepth ∧ k.walk.ctx.maxDepth < (2 * k.walk.base.length + 4 : Nat)) := by
  have bound := aligned.depth
  have reads (fuel : Nat) (le : fuel ≤ k.walk.limit)
      (enough : 2 * tokens.length + 4 ≤ fuel ∨ 0 < k.ctx.maxDepth ∧ k.ctx.maxDepth < (fuel + 0 : Nat)) :
      ∃ reached', blockFrom (g.nestedAt fuel 0).statement Context.atEnd (k.walk.base.length + 1) [] k.walk.ctx
        k.walk.base = .ok x reached' := by
    have nested := nestedAt_carries aligned moving carrying (2 * tokens.length + 4) fuel 0 le enough
    obtain ⟨exprs, statements, parts⟩ := nested.moves
    obtain ⟨reached', parsed', -⟩ := blockFrom_carries aligned gathers nested.statement (parts.statement 0)
      (tokens.length + 1) (k.walk.base.length + 1) [] related (Nat.lt_succ_self _) List.suffix_rfl x reached parsed
    exact ⟨reached', parsed'⟩
  rw [program, bound]
  by_cases enough : 2 * tokens.length + 4 ≤ 2 * k.walk.base.length + 4 ∨
      0 < k.ctx.maxDepth ∧ k.ctx.maxDepth < (2 * k.walk.base.length + 4 : Nat)
  · exact Or.inl (reads _ limited' enough)
  · obtain ⟨reached', parsed'⟩ := reads _ limited (Or.inl (Nat.le_refl _))
    have fewer : 2 * k.walk.base.length + 4 ≤ 2 * tokens.length + 4 := by omega
    have same : blockFrom (g.nestedAt _ 0).statement Context.atEnd _ [] k.walk.ctx k.walk.base =
          blockFrom (g.nestedAt _ 0).statement Context.atEnd _ [] k.walk.ctx k.walk.base ∨ _ :=
      blockFrom_upToDepth (nestedAt_fewer uniform k.walk.ctx fewer 0).statement rfl (k.walk.base.length + 1) [] k.walk.base
    rcases same with same | deep
    · exact Or.inl ⟨reached', same.trans parsed'⟩
    · exact Or.inr ⟨deep, fun guarded => enough (Or.inr guarded)⟩

end Grammar

end ScriptKernel
