import ScriptKernel.Proofs.MiniRust.Progress
import ScriptKernel.Proofs.MiniRust.Sites

/-!
Two parses of streams that are alike but for trivia, up to a place at which the
second has a type annotation that the first lacks. The place is told in two steps.
The streams are alike up to the keyword of a declaration; from there they are
alike up to the name or the parenthesis in front of the annotation. Nothing but
the declaration itself reads past its keyword.
-/

namespace ScriptKernel.MiniRust

open ScriptKernel.Transfer (Carries Aligned)
open ScriptKernel.Walk (Moves)

def Beside (forks : List Fork) (rest rest' : Rest) : Prop :=
  ∃ fork ∈ forks, Alike fork .code rest rest'

def turns (forks : List Fork) : List String :=
  turning ++ forks.map Fork.start

/-- Whether a word stands at the cursor that is no number and at which the streams
do not part. -/
def Free (forks : List Fork) (rest : Rest) : Prop :=
  Rest.isNameStart rest = true ∧ ∀ fork ∈ forks, ∀ rest', ¬fork.parts rest rest'

structure Laid (k : Transfer) (forks : List Fork) : Prop where
  lenient : Lenient k.walk
  depth : k.walk.ctx.maxDepth = k.ctx.maxDepth
  inside : k.inside = Beside forks
  after : k.after = Beside forks
  skipSpace : k.ctx.skipSpace = skipSpace ∧ k.walk.ctx.skipSpace = skipSpace
  skipTrivia : k.ctx.skipTrivia = skipTrivia ∧ k.walk.ctx.skipTrivia = skipTrivia
  aliases : k.ctx.aliases = {} ∧ k.walk.ctx.aliases = {}

variable {k : Transfer} {forks : List Fork} {rest rest' : Rest} {R : Rest → Rest → Prop} {α β : Type}

theorem turns_plain {text : String} (plain : text ∉ hidden ++ turning) (unlike : isWordText text = false ∧ text ≠ ")") :
    text ∉ hidden ++ turns forks := by
  rw [List.mem_append, not_or] at plain
  rw [turns, List.mem_append, List.mem_append, List.mem_map]
  rintro (hides | turns | ⟨fork, -, start⟩)
  · exact plain.1 hides
  · exact plain.2 turns
  · exact fork.start_ne unlike start

namespace Laid

theorem aligned (laid : Laid k forks) : k.Aligned hidden (turns forks) (Free forks) where
  sound := laid.lenient.toSound
  depth := laid.depth
  skipSpace related := by
    rw [laid.inside] at related ⊢
    rw [laid.skipSpace.1, laid.skipSpace.2]
    obtain ⟨fork, member, alike⟩ := related
    exact ⟨fork, member, alike.skip false false false nofun rfl⟩
  atEnd related := by
    rw [laid.inside] at related
    obtain ⟨fork, member, alike⟩ := related
    exact alike.atEnd (laid.aliases.2.trans laid.aliases.1.symm)
  isAt related text visible := by
    rw [laid.inside] at related
    obtain ⟨fork, member, alike⟩ := related
    exact alike.isAt visible
  tail related text plain here := by
    rw [laid.inside] at related ⊢
    obtain ⟨fork, member, alike⟩ := related
    have visible : text ∉ hidden := fun hides => plain (List.mem_append_left _ hides)
    have untold : text ∉ turns forks := fun told => plain (List.mem_append_right _ told)
    rcases alike.tailAt visible here with behind | ⟨start, -⟩
    · have inCode : text ∉ hidden ++ turning := by
        rw [List.mem_append, not_or]
        exact ⟨visible, fun told => untold (List.mem_append_left _ told)⟩
      rw [Site.step, Site.stepCode_plain inCode] at behind
      exact ⟨fork, member, behind⟩
    · exact absurd (List.mem_append_right _ (start ▸ List.mem_map_of_mem member)) untold
  word related := by
    rw [laid.inside] at related
    obtain ⟨fork, member, alike⟩ := related
    exact (alike.word).1
  afterWord related free := by
    rw [laid.inside] at related ⊢
    obtain ⟨fork, member, alike⟩ := related
    rcases (alike.word).2 with behind | ⟨-, parts⟩
    · exact ⟨fork, member, behind⟩
    · exact absurd (parts free.1) (free.2 fork member _)
  isNameStart related := by
    rw [laid.inside] at related
    obtain ⟨fork, member, alike⟩ := related
    exact alike.isNameStart
  isDigitStart related := by
    rw [laid.inside] at related
    obtain ⟨fork, member, alike⟩ := related
    exact alike.isDigitStart
  outside related := by
    rw [laid.inside] at related
    rwa [laid.after]

theorem skipSpace_idem (laid : Laid k forks) (rest : Rest) :
    k.ctx.skipSpace (k.ctx.skipSpace rest) = k.ctx.skipSpace rest := by
  rw [laid.skipSpace.1]
  exact skipFrom_idem false false rest

theorem gathers (laid : Laid k forks) {stop : Context → Rest → Bool}
    (same : ∀ {rest rest'}, k.inside rest rest' → stop k.walk.ctx rest' = stop k.ctx rest) :
    Grammar.Gathers k stop where
  trivia related := by
    rw [laid.after] at related
    rw [laid.inside, laid.skipTrivia.1, laid.skipTrivia.2]
    obtain ⟨fork, member, alike⟩ := related
    exact Or.inl ⟨fork, member, alike.skip true false false nofun rfl⟩
  stop := same

theorem type_suffix (laid : Laid k forks) (within : rest' <:+ k.walk.base) {reached' : Rest}
    (typed : skipType k.walk.ctx rest' = .ok () reached') : reached' <:+ rest' := by
  have moves : k.walk.Moves 0 (k.walk.books 0 0) skipType rest' := skipType_moves laid.lenient
  have moved := moves within
  rw [typed] at moved
  obtain ⟨eaten, split, -⟩ := moved
  exact ⟨eaten, split.symm⟩

theorem type_carries (laid : Laid k forks) (related : k.inside rest rest') {sign : String} (known : sign ∈ [":", "->"])
    (here : Rest.isAt sign rest = true) {f f' : Unit → Parser β}
    (next : ∀ reached reached', k.inside reached reached' → k.Carries R (f ()) (f' ()) reached reached') :
    k.Carries R (Parser.advance >>= fun _ => skipType >>= f) (Parser.advance >>= fun _ => skipType >>= f') rest rest' := by
  have signs : ∀ sign ∈ [":", "->"], sign ∉ hidden ∧ Site.step .code sign = .typeStart ∧ isWordText sign = false ∧
      sign ≠ ")" := by decide
  obtain ⟨visible, turns, unlike⟩ := signs sign known
  rw [laid.inside] at related
  obtain ⟨fork, member, alike⟩ := related
  have behind : Alike fork .typeStart rest.tail rest'.tail := by
    rcases alike.tailAt visible here with behind | ⟨start, -⟩
    · rwa [turns] at behind
    · exact absurd start.symm (fork.start_ne unlike)
  intro within y final parsed
  obtain ⟨_, reached, typed, parsed⟩ := Parser.bind_eq_ok (p := skipType) parsed
  obtain ⟨reached', typed', alike⟩ :=
    behind.type laid.skipSpace.1 laid.skipSpace.2 laid.aliases.1 laid.aliases.2 typed
  have tail := List.tail_suffix rest'
  have suffix : reached' <:+ rest' := (laid.type_suffix (tail.trans within) typed').trans tail
  have related' : k.inside reached reached' := by
    rw [laid.inside]
    exact ⟨fork, member, alike⟩
  obtain ⟨final', parsed', further, related''⟩ := next reached reached' related' (suffix.trans within) y final parsed
  refine ⟨final', ?_, further.trans suffix, related''⟩
  exact (Parser.bind_ok typed').trans parsed'

end Laid

def reading (k : Transfer) (forks : List Fork) : Transfer :=
  { k with
    inside := Beside forks
    after := Beside forks }

theorem Laid.reading (laid : Laid k forks) (others : List Fork) : Laid (reading k others) others where
  lenient := laid.lenient
  depth := laid.depth
  inside := rfl
  after := rfl
  skipSpace := laid.skipSpace
  skipTrivia := laid.skipTrivia
  aliases := laid.aliases

/-- The second cursor is before the sign of an annotation, behind which the streams
go on alike; the first is before one of the texts that end an annotation. -/
structure Annotated (k : Transfer) (sign : String) (ends : List String) (rest rest' : Rest) : Prop where
  sign : Rest.isAt sign (k.walk.ctx.skipSpace rest') = true
  ended : ∃ text ∈ ends, Rest.isAt text (k.ctx.skipSpace rest) = true
  typed : ∃ reached', skipType k.walk.ctx (k.walk.ctx.skipSpace rest').tail = .ok () reached' ∧ k.inside rest reached'

/-- A fork within a declaration: a name or the end of the parameters, with an
annotation behind it. The declaration goes on behind the text `stop`. -/
structure Region (k : Transfer) (fork : Fork) (stop : String) (ends : List String) : Prop where
  stops : stop ∈ fork.barred
  unreserved : ∀ {rest rest'}, fork.parts rest rest' → Rest.word rest ∉ reserved
  name : ∀ {rest rest'}, fork.parts rest rest' → Rest.isNameStart rest = true →
    Annotated k ":" ends (Rest.afterWord rest) (Rest.afterWord rest')
  paren : ∀ {rest rest'}, fork.parts rest rest' → Rest.isAt ")" rest = true →
    Annotated k "->" ["\x7b"] rest.tail rest'.tail

/-- The keywords of the declarations in which names are annotated, with the text
behind which no name is, and the texts that follow a name. -/
def declarations : List (String × String × List String) :=
  [("let", "=", ["="]), ("fn", ")", [",", ")"])]

abbrev Ordinary (keyword : String) : Prop :=
  keyword.toList.head?.any Text.isNameStart = true ∧ keyword ∉ ["let", "fn"]

/-- At both cursors there is a declaration with a fork in it. -/
def Declares (k : Transfer) (rest rest' : Rest) : Prop :=
  ∃ stop ends fork, (Rest.word rest, stop, ends) ∈ declarations ∧ Region k fork stop ends ∧
    Alike fork .code (Rest.afterWord rest) (Rest.afterWord rest')

/-- Two parses of streams that are alike but for an annotation in a declaration. -/
structure Relaid (k : Transfer) (forks : List Fork) : Prop extends Laid k forks where
  worded : ∀ fork ∈ forks, fork.start ≠ ")"
  declares : ∀ fork ∈ forks, ∀ {rest rest'}, fork.parts rest rest' → Declares k rest rest'

theorem isNameStart_of_word (starts : (Rest.word rest).toList.head?.any Text.isNameStart = true) :
    Rest.isNameStart rest = true := by
  cases rest with
  | nil => cases starts
  | cons l rest =>
    by_cases word : l.isWord = true
    · have some : l.text.toList ≠ [] := by
        simp only [Lexeme.isWord, isWordText, Bool.and_eq_true, Bool.not_eq_true', String.isEmpty_eq_false_iff] at word
        simpa using word.2.1
      have joined : Rest.word (l :: rest) = l.text ++ Rest.word rest := by
        simp [Rest.word, Rest.text, word]
      rw [joined, String.toList_append, List.head?_append_of_ne_nil _ some] at starts
      rw [Rest.isNameStart, word, starts, Bool.and_self]
    · have empty : Rest.word (l :: rest) = "" := by
        simp [Rest.word, Rest.text, word]
      rw [empty] at starts
      cases starts

theorem isAt_unique {text other : String} (here : Rest.isAt text rest = true) (there : Rest.isAt other rest = true) :
    other = text := by
  cases rest with
  | nil => cases here
  | cons l rest =>
    rw [Rest.isAt, Bool.and_eq_true, beq_iff_eq] at here there
    exact there.2.symm.trans here.2

namespace Annotated

variable {sign : String} {ends : List String}

theorem carries (laid : Laid k forks) (slot : Annotated k sign ends rest rest')
    (signed : sign ∉ ends) {p later later' : Parser β} {f' : Unit → Parser β}
    (next : ∀ reached', k.inside rest reached' → k.Carries R later (f' ()) (k.ctx.skipSpace rest) reached') :
    k.Carries R
      (Parser.skipSpace >>= fun _ => Parser.isAt sign >>= fun here => if here = true then p else later)
      (Parser.skipSpace >>= fun _ => Parser.isAt sign >>= fun here =>
        if here = true then Parser.advance >>= fun _ => skipType >>= f' else later')
      rest rest' := by
  intro within x final parsed
  obtain ⟨text, known, ended⟩ := slot.ended
  have unsigned : ¬Rest.isAt sign (k.ctx.skipSpace rest) = true :=
    fun here => signed (isAt_unique ended here ▸ known)
  obtain ⟨reached', typed, related⟩ := slot.typed
  have tail : (k.walk.ctx.skipSpace rest').tail <:+ rest' := by
    obtain ⟨eaten, split, -⟩ := laid.lenient.skipSpace 0 rest'
    exact (List.tail_suffix _).trans ⟨eaten, split.symm⟩
  have suffix := (laid.type_suffix (tail.trans within) typed).trans tail
  change (if Rest.isAt sign (k.ctx.skipSpace rest) = true then p else later) k.ctx (k.ctx.skipSpace rest) = _ at parsed
  rw [if_neg unsigned] at parsed
  obtain ⟨final', parsed', behind, related'⟩ := next reached' related (suffix.trans within) x final parsed
  refine ⟨final', ?_, behind.trans suffix, related'⟩
  change (if Rest.isAt sign (k.walk.ctx.skipSpace rest') = true then Parser.advance >>= fun _ => skipType >>= f' else later')
    k.walk.ctx (k.walk.ctx.skipSpace rest') = _
  rw [if_pos slot.sign]
  exact (Parser.bind_ok typed).trans parsed'

theorem unexpected (slot : Annotated k sign ends rest rest') {text : String} (other : text ∉ ends)
    {f : Lexeme → Parser β} {p' : Parser β} :
    k.Carries R (Parser.skipSpace >>= fun _ => Parser.expect [text] >>= f) p' rest rest' := by
  obtain ⟨found, known, ended⟩ := slot.ended
  have absent : ¬Rest.isAt text (k.ctx.skipSpace rest) = true :=
    fun here => other (isAt_unique ended here ▸ known)
  have stops : k.Carries R (Parser.expect [text] >>= f) p' (k.ctx.skipSpace rest) rest' := Carries.unexpected absent
  exact fun within x reached parsed => stops within x reached parsed

end Annotated

namespace Relaid

theorem plain (relaid : Relaid k forks) {text : String}
    (plain : text ∉ hidden ++ turning ∧ isWordText text = false) : text ∉ hidden ++ turns forks := by
  obtain ⟨plain, unlike⟩ := plain
  rw [List.mem_append, not_or] at plain
  rw [turns, List.mem_append, List.mem_append, List.mem_map]
  rintro (hides | turns | ⟨fork, member, start⟩)
  · exact plain.1 hides
  · exact plain.2 turns
  · have word := fork.isWordText_start (relaid.worded fork member)
    rw [start, unlike] at word
    cases word

theorem plains (relaid : Relaid k forks) {texts : List String}
    (plains : ∀ text ∈ texts, text ∉ hidden ++ turning ∧ isWordText text = false) :
    ∀ text ∈ texts, text ∉ hidden ++ turns forks :=
  fun text member => relaid.plain (plains text member)

theorem free (relaid : Relaid k forks) (named : Rest.isNameStart rest = true) (other : Rest.word rest ∉ ["let", "fn"]) :
    Free forks rest := by
  refine ⟨named, fun fork member rest' parts => other ?_⟩
  obtain ⟨stop, ends, -, known, -⟩ := relaid.declares fork member parts
  exact List.mem_map_of_mem (f := Prod.fst) known

theorem free_keyword (relaid : Relaid k forks) {keyword : String} (other : Ordinary keyword)
    (here : Rest.isKeyword keyword rest = true) : Free forks rest := by
  have word : Rest.word rest = keyword := by simpa [Rest.isKeyword] using here
  exact relaid.free (isNameStart_of_word (word ▸ other.1)) (word ▸ other.2)

theorem keyword_carries (relaid : Relaid k forks) (related : k.inside rest rest') {keyword stop : String}
    {ends : List String} (here : Rest.isKeyword keyword rest = true)
    (known : declarations.find? (·.1 == keyword) = some (keyword, stop, ends)) {f f' : String → Parser β}
    (next : ∀ regions, (∀ region ∈ regions, Region k region stop ends) →
      Beside (regions ++ forks) (Rest.afterWord rest) (Rest.afterWord rest') →
        k.Carries R (f keyword) (f' keyword) (Rest.afterWord rest) (Rest.afterWord rest')) :
    k.Carries R (Parser.word >>= f) (Parser.word >>= f') rest rest' := by
  have word : Rest.word rest = keyword := by simpa [Rest.isKeyword] using here
  have word' : Rest.word rest' = keyword := (relaid.aligned.word related).trans word
  obtain ⟨regions, annotates, beside⟩ : ∃ regions, (∀ region ∈ regions, Region k region stop ends) ∧
      Beside (regions ++ forks) (Rest.afterWord rest) (Rest.afterWord rest') := by
    rw [relaid.inside] at related
    obtain ⟨fork, member, alike⟩ := related
    rcases (alike.word).2 with behind | ⟨-, parts⟩
    · exact ⟨[], List.forall_mem_nil _, fork, member, behind⟩
    · have named : Rest.isNameStart rest = true := by
        have starts : ∀ declared ∈ declarations, declared.1.toList.head?.any Text.isNameStart = true := by decide
        exact isNameStart_of_word (word ▸ starts _ (List.mem_of_find?_eq_some known))
      obtain ⟨stop', ends', region, declared, annotates, behind⟩ := relaid.declares fork member (parts named)
      have same : declarations.find? (·.1 == Rest.word rest) = some (Rest.word rest, stop', ends') := by
        have each : ∀ declared ∈ declarations, declarations.find? (·.1 == declared.1) = some declared := by decide
        exact each _ declared
      rw [word, known, Option.some.injEq] at same
      cases same
      exact ⟨[region], List.forall_mem_singleton.2 annotates, region, List.mem_cons_self, behind⟩
  have later := next regions annotates beside
  have behind : Rest.afterWord rest' <:+ rest' := List.dropWhile_suffix _
  intro within y final parsed
  change f (Rest.word rest) k.ctx (Rest.afterWord rest) = _ at parsed
  rw [word] at parsed
  obtain ⟨final', parsed', behind', related'⟩ := later (behind.trans within) y final parsed
  refine ⟨final', ?_, behind'.trans behind, related'⟩
  rw [← parsed', ← word']
  rfl

/-- Within a declaration a name is read. Behind it the streams are alike, or the
second has an annotation there. -/
theorem name_carries (relaid : Relaid k forks) {regions : List Fork} {stop : String} {ends : List String}
    (annotates : ∀ region ∈ regions, Region k region stop ends) (related : Beside (regions ++ forks) rest rest') :
    k.Carries (fun rest rest' => Beside (regions ++ forks) rest rest' ∨ Annotated k ":" ends rest rest') name name rest
      rest' := by
  obtain ⟨fork, member, alike⟩ := related
  intro within x reached parsed
  unfold name Parser.name at parsed ⊢
  rw [alike.isNameStart, (alike.word).1]
  by_cases other : (!Rest.isNameStart rest) = true
  · rw [if_pos other] at parsed
    cases parsed
  by_cases taken : reserved.contains (Rest.word rest) = true
  · rw [if_neg other, if_pos taken] at parsed
    cases parsed
  rw [if_neg other, if_neg taken] at parsed ⊢
  cases parsed
  refine ⟨Rest.afterWord rest', by rw [Parser.word, (alike.word).1], List.dropWhile_suffix _, ?_⟩
  rcases (alike.word).2 with behind | ⟨-, parts⟩
  · exact Or.inl ⟨fork, member, behind⟩
  · have named : Rest.isNameStart rest = true := by simpa using other
    rcases List.mem_append.1 member with region | outer
    · exact Or.inr ((annotates fork region).name (parts named) named)
    · obtain ⟨stop, ends, -, declared, -⟩ := relaid.declares fork outer (parts named)
      have keyword : ∀ declared ∈ declarations, declared.1 ∈ reserved := by decide
      exact absurd (by simpa using keyword _ declared) taken

theorem free_within (relaid : Relaid k forks) {regions : List Fork} {stop : String} {ends : List String}
    (annotates : ∀ region ∈ regions, Region k region stop ends) {keyword : String}
    (other : Ordinary keyword ∧ keyword ∈ reserved) (here : Rest.isKeyword keyword rest = true) :
    Free (regions ++ forks) rest := by
  obtain ⟨named, free⟩ := relaid.free_keyword other.1 here
  have word : Rest.word rest = keyword := by simpa [Rest.isKeyword] using here
  refine ⟨named, fun fork member rest' parts => ?_⟩
  rcases List.mem_append.1 member with region | outer
  · exact (annotates fork region).unreserved parts (word ▸ other.2)
  · exact free fork outer rest' parts

theorem stop_cases (relaid : Relaid k forks) {regions : List Fork} {stop : String} {ends : List String}
    (annotates : ∀ region ∈ regions, Region k region stop ends) (visible : stop ∉ hidden)
    (related : Beside (regions ++ forks) rest rest') (here : Rest.isAt stop rest = true) :
    k.inside rest rest' ∨ ∃ region ∈ regions, region.parts rest rest' := by
  obtain ⟨fork, member, alike⟩ := related
  rcases List.mem_append.1 member with region | outer
  · exact Or.inr ⟨fork, region, alike.parts_of_barred rfl visible (annotates fork region).stops here⟩
  · rw [relaid.inside]
    exact Or.inl ⟨fork, outer, alike⟩

theorem stop_inside (relaid : Relaid k forks) {regions : List Fork} {stop : String} {ends : List String}
    (annotates : ∀ region ∈ regions, Region k region stop ends)
    (sign : stop ∉ hidden ∧ isWordText stop = false ∧ stop ≠ ")") (related : Beside (regions ++ forks) rest rest')
    (here : Rest.isAt stop rest = true) : k.inside rest rest' := by
  obtain inside | ⟨region, -, parts⟩ := relaid.stop_cases annotates sign.1 related here
  · exact inside
  · obtain ⟨l, more, l', more', rfl, -, -, source, start⟩ := region.heads parts
    have text : l.text = stop := by simpa [Rest.isAt, source] using here
    exact absurd (start.symm.trans text) (region.start_ne sign.2)

end Relaid

end ScriptKernel.MiniRust
