import ScriptKernel.Proofs.Capability.Nesting
import ScriptKernel.Proofs.Text.Trimming

/-!
What selector texts mean. A selector text is written from a list of backends and a
name: each part may have white space around it, each backend a pair of parentheses,
and the list any number of pairs. Taking white space off the ends leaves such a text
one of its kind, so the readers meet the grammar again after every trimming, and the
parts are balanced, so the readers agree on where the list ends and where it is cut.
-/

namespace ScriptKernel.Selector

open Text

def Joined (sign : Char) (P Q : List Char → Prop) (text : List Char) : Prop :=
  ∃ front rest, P front ∧ Q rest ∧ text = front ++ sign :: rest

def Parenthesized (inner text : List Char) : Prop := Padded ('(' :: (inner ++ [')'])) text

inductive BackendText (name : String) (text : List Char) : Prop
  | bare : Padded name.toList text → BackendText name text
  | grouped (inner : List Char) : Padded name.toList inner → Parenthesized inner text → BackendText name text

def BackendsText : List String → List Char → Prop
  | [], _ => False
  | [name], text => BackendText name text
  | name :: names, text => Joined '|' (BackendText name) (BackendsText names) text

inductive ListText (names : List String) : List Char → Prop
  | bare {text : List Char} : BackendsText names text → ListText names text
  | grouped {inner text : List Char} : ListText names inner → Parenthesized inner text → ListText names text

def SelectorText (backends : List String) (name : String) : List Char → Prop :=
  Joined ':' (ListText backends) (Padded name.toList)

variable {name : String} {names : List String} {text inner front rest : List Char}

theorem isWordChar_of_isName {name : List Char} (valid : isName name = true) : ∀ c ∈ name, isWordChar c = true := by
  cases name with
  | nil => cases valid
  | cons c cs =>
    rw [isName, Bool.and_eq_true, List.all_eq_true] at valid
    rintro b (_ | ⟨_, within⟩)
    · exact isWordChar_of_isNameStart valid.1
    · exact valid.2 b within

theorem plain_of_isName {name : List Char} (valid : isName name = true) : Plain name :=
  fun c within => not_isMark_of_isWordChar (isWordChar_of_isName valid c within)

theorem ne_nil_of_isName {name : List Char} (valid : isName name = true) : name ≠ [] := by
  rintro rfl
  cases valid

theorem solid_of_isName {name : List Char} (valid : isName name = true) : Solid name where
  some := ne_nil_of_isName valid
  first _ at_head := not_isBlank_of_isWordChar (isWordChar_of_isName valid _ (List.mem_of_mem_head? at_head))
  last _ at_last := not_isBlank_of_isWordChar (isWordChar_of_isName valid _ (List.mem_of_getLast? at_last))

theorem plain_of_blank (blank : Blank text) : Plain text :=
  fun c within => not_isMark_of (by decide) (blank c within)

theorem solid_parenthesized (inner : List Char) : Solid ('(' :: (inner ++ [')'])) where
  some := List.cons_ne_nil _ _
  first c at_head := by
    cases at_head
    decide
  last c at_last := by
    have ending : ('(' :: (inner ++ [')'])).getLast? = some ')' := List.getLast?_concat (l := '(' :: inner)
    rw [ending] at at_last
    cases at_last
    decide

theorem trimChars_parenthesized (around : Parenthesized inner text) : trimChars text = '(' :: (inner ++ [')']) :=
  trimChars_of_padded (solid_parenthesized inner) around

theorem strips_parenthesized (inner : List Char) : Strips (Parenthesized inner) :=
  strips_padded (solid_parenthesized inner)

theorem strips_joined {sign : Char} {P Q : List Char → Prop} (visible : isBlank sign = false)
    (strips : Strips P) (strips' : Strips Q) : Strips (Joined sign P Q) where
  front := by
    rintro c text white ⟨front, rest, holds, holds', cut⟩
    cases front with
    | nil =>
      obtain ⟨rfl, -⟩ := List.cons.inj cut
      exact absurd white (by simp [visible])
    | cons b front =>
      obtain ⟨rfl, rfl⟩ := List.cons.inj cut
      exact ⟨front, rest, strips.front white holds, holds', rfl⟩
  back := by
    rintro c text white ⟨front, rest, holds, holds', cut⟩
    induction rest using List.reverseRecOn with
    | nil =>
      obtain ⟨-, same⟩ := List.append_inj' cut rfl
      obtain ⟨rfl, -⟩ := List.cons.inj same
      exact absurd white (by simp [visible])
    | append_singleton rest b _ =>
      have cut' : text ++ [c] = (front ++ sign :: rest) ++ [b] := by simpa using cut
      obtain ⟨rfl, same⟩ := List.append_inj' cut' rfl
      obtain ⟨rfl, -⟩ := List.cons.inj same
      exact ⟨front, rest, holds, strips'.back white holds', rfl⟩

theorem strips_backend (valid : isName name.toList = true) : Strips (BackendText name) where
  front := by
    rintro c text white (padded | ⟨inner, padded, around⟩)
    · exact .bare ((strips_padded (solid_of_isName valid)).front white padded)
    · exact .grouped inner padded ((strips_parenthesized inner).front white around)
  back := by
    rintro c text white (padded | ⟨inner, padded, around⟩)
    · exact .bare ((strips_padded (solid_of_isName valid)).back white padded)
    · exact .grouped inner padded ((strips_parenthesized inner).back white around)

theorem strips_backends (valid : ∀ name ∈ names, isName name.toList = true) : Strips (BackendsText names) := by
  induction names with
  | nil => exact ⟨fun _ => id, fun _ => id⟩
  | cons name names ih =>
    have first := strips_backend (valid name List.mem_cons_self)
    cases names with
    | nil => exact first
    | cons next names =>
      exact strips_joined (by decide) first (ih fun other within => valid other (List.mem_cons_of_mem name within))

theorem strips_list (valid : ∀ name ∈ names, isName name.toList = true) : Strips (ListText names) where
  front := by
    rintro c text white (bare | ⟨inside, around⟩)
    · exact .bare ((strips_backends valid).front white bare)
    · exact .grouped inside ((strips_parenthesized _).front white around)
  back := by
    intro c text white list
    generalize longer : text ++ [c] = whole at list
    cases list with
    | bare bare =>
      subst longer
      exact .bare ((strips_backends valid).back white bare)
    | grouped inside around =>
      subst longer
      exact .grouped inside ((strips_parenthesized _).back white around)

theorem nesting_padded {part : List Char} {depth : Nat} (padded : Padded part text) :
    nesting depth text = nesting depth part := by
  obtain ⟨before, behind, blank, blank', rfl⟩ := padded
  rw [List.append_assoc, nesting_append, nesting_plain (plain_of_blank blank), Option.bind_some, nesting_append]
  cases nesting depth part with
  | none => rfl
  | some reached => exact nesting_plain (plain_of_blank blank')

theorem nesting_parenthesized (around : Parenthesized inner text) (inside : nesting 0 inner = some 0) :
    nesting 0 text = some 0 := by
  rw [nesting_padded around, nesting_opening, nesting_append, nesting_add inside 1, Option.bind_some,
    nesting_closing, nesting_nil]

theorem nesting_joined {sign : Char} {P Q : List Char → Prop} (other : sign ≠ '(' ∧ sign ≠ ')')
    (balanced : ∀ text, P text → nesting 0 text = some 0) (balanced' : ∀ text, Q text → nesting 0 text = some 0)
    (joined : Joined sign P Q text) : nesting 0 text = some 0 := by
  obtain ⟨front, rest, holds, holds', rfl⟩ := joined
  rw [nesting_append, balanced front holds, Option.bind_some, nesting_other other, balanced' rest holds']

theorem nesting_backend (valid : isName name.toList = true) (backend : BackendText name text) :
    nesting 0 text = some 0 := by
  have named : ∀ {text}, Padded name.toList text → nesting 0 text = some 0 := fun padded =>
    (nesting_padded padded).trans (nesting_plain (plain_of_isName valid))
  rcases backend with padded | ⟨inner, padded, around⟩
  · exact named padded
  · exact nesting_parenthesized around (named padded)

theorem nesting_backends (valid : ∀ name ∈ names, isName name.toList = true) (backends : BackendsText names text) :
    nesting 0 text = some 0 := by
  induction names generalizing text with
  | nil => cases backends
  | cons name names ih =>
    have first := valid name List.mem_cons_self
    cases names with
    | nil => exact nesting_backend first backends
    | cons next names =>
      exact nesting_joined (by decide) (fun _ => nesting_backend first)
        (fun _ => ih fun other within => valid other (List.mem_cons_of_mem name within)) backends

theorem nesting_list (valid : ∀ name ∈ names, isName name.toList = true) (list : ListText names text) :
    nesting 0 text = some 0 := by
  induction list with
  | bare bare => exact nesting_backends valid bare
  | grouped _ around inside => exact nesting_parenthesized around inside

theorem unwrap_of_not (bare : isWrapped text = false) (fuel : Nat) : unwrap fuel text = text := by
  cases fuel with
  | zero => rfl
  | succ fuel => rw [unwrap, if_neg (by simp [bare])]

theorem unwrap_parenthesized (inside : nesting 0 inner = some 0) (fuel : Nat) :
    unwrap (fuel + 1) ('(' :: (inner ++ [')'])) = unwrap fuel (trimChars inner) := by
  rw [unwrap, if_pos (isWrapped_parenthesized inside), List.tail_cons, List.dropLast_concat]

theorem length_trimChars_le (text : List Char) : (trimChars text).length ≤ text.length := by
  obtain ⟨before, behind, -, -, cut⟩ := padded_trimChars text
  have lengths := congrArg List.length cut
  rw [List.length_append, List.length_append] at lengths
  omega

theorem isWrapped_plain (plain : Plain text) : isWrapped text = false := by
  cases text with
  | nil => rfl
  | cons c text =>
    have other := (plain.bare c List.mem_cons_self).1
    simp [isWrapped, other]

theorem isWrapped_joined {sign : Char} {P Q : List Char → Prop} (other : sign ≠ '(')
    (balanced : ∀ text, P text → nesting 0 text = some 0) (joined : Joined sign P Q text) : isWrapped text = false := by
  obtain ⟨front, rest, holds, -, rfl⟩ := joined
  by_cases none : front = []
  · subst none
    simp [isWrapped, other]
  · exact isWrapped_append (balanced front holds) (List.cons_ne_nil sign rest) none

/-- Backends are left as they are, but that a single one loses its pair: it is also
a pair around the list. -/
theorem unwrap_backends (valid : ∀ name ∈ names, isName name.toList = true) (backends : BackendsText names text)
    {fuel : Nat} (enough : (trimChars text).length ≤ fuel) : BackendsText names (unwrap fuel (trimChars text)) := by
  have trimmed := (strips_backends valid).trimChars backends
  cases names with
  | nil => cases backends
  | cons name names =>
    have first := valid name List.mem_cons_self
    cases names with
    | nil =>
      have alone := isWrapped_plain (plain_of_isName first)
      rcases backends with padded | ⟨inner, padded, around⟩
      · rwa [unwrap_of_not (by rwa [trimChars_of_padded (solid_of_isName first) padded])]
      · have balanced := nesting_backend first (.bare padded)
        rw [trimChars_parenthesized around] at enough ⊢
        obtain ⟨less, rfl⟩ := Nat.exists_eq_add_one_of_ne_zero (Nat.ne_zero_of_lt enough)
        rw [unwrap_parenthesized balanced, trimChars_of_padded (solid_of_isName first) padded, unwrap_of_not alone]
        exact .bare (.refl name.toList)
    | cons next names =>
      -- Whatever opens the first backend is closed before the bar.
      rwa [unwrap_of_not (isWrapped_joined (by decide) (fun _ => nesting_backend first) trimmed)]

theorem unwrap_list (valid : ∀ name ∈ names, isName name.toList = true) (list : ListText names text) {fuel : Nat}
    (enough : (trimChars text).length ≤ fuel) : BackendsText names (unwrap fuel (trimChars text)) := by
  induction list generalizing fuel with
  | bare backends => exact unwrap_backends valid backends enough
  | @grouped inner _ inside around ih =>
    rw [trimChars_parenthesized around] at enough ⊢
    obtain ⟨less, rfl⟩ := Nat.exists_eq_add_one_of_ne_zero (Nat.ne_zero_of_lt enough)
    rw [unwrap_parenthesized (nesting_list valid inside)]
    have shorter := length_trimChars_le inner
    rw [List.length_cons, List.length_append] at enough
    exact ih (by omega)

theorem backendName_backend (valid : isName name.toList = true) (backend : BackendText name text) :
    backendName text = name.toList := by
  have plain := plain_of_isName valid
  rcases backend with padded | ⟨inner, padded, around⟩
  · have opening : name.toList.head? ≠ some '(' := fun first =>
      (plain.bare _ (List.mem_of_mem_head? first)).1 rfl
    have closing : name.toList.getLast? ≠ some ')' := fun last =>
      (plain.bare _ (List.mem_of_getLast? last)).2 rfl
    have trimmed := trimChars_of_padded (solid_of_isName valid) padded
    have again := trimChars_of_padded (solid_of_isName valid) (.refl name.toList)
    simp only [backendName, trimmed, if_neg opening, if_neg closing, again]
  · have trimmed := trimChars_of_padded (solid_of_isName valid) padded
    simp [backendName, trimChars_parenthesized around, trimmed]

theorem not_bar_of_plain (plain : Plain text) : '|' ∉ text := fun within => absurd (plain _ within) (by decide)

theorem plain_padded {part : List Char} (plain : Plain part) (padded : Padded part text) : Plain text := by
  obtain ⟨before, behind, blank, blank', rfl⟩ := padded
  exact ((plain_of_blank blank).append plain).append (plain_of_blank blank')

theorem not_bar_backend (valid : isName name.toList = true) (backend : BackendText name text) : '|' ∉ text := by
  have plain := plain_of_isName valid
  rcases backend with padded | ⟨inner, padded, ⟨before, behind, blank, blank', rfl⟩⟩
  · exact not_bar_of_plain (plain_padded plain padded)
  · have inside := not_bar_of_plain (plain_padded plain padded)
    have outside := not_bar_of_plain (plain_of_blank blank)
    have outside' := not_bar_of_plain (plain_of_blank blank')
    simp [inside, outside, outside']

theorem splitBars_backends (valid : ∀ name ∈ names, isName name.toList = true) (backends : BackendsText names text) :
    (splitBars 0 text).map backendName = names.map String.toList := by
  induction names generalizing text with
  | nil => cases backends
  | cons name names ih =>
    have first := valid name List.mem_cons_self
    -- The first piece is followed by nothing, or by a bar.
    have piece {front : List Char} (backend : BackendText name front) (rest : List Char) :
        splitBars 0 (front ++ rest) = (splitBars 0 rest).modifyHead (front ++ ·) :=
      splitBars_append (not_bar_backend first backend) (nesting_backend first backend) rest
    cases names with
    | nil =>
      rw [← List.append_nil text, piece backends]
      simp [splitBars, backendName_backend first backends]
    | cons next names =>
      obtain ⟨front, rest, backend, others, rfl⟩ := backends
      have later := ih (fun other within => valid other (List.mem_cons_of_mem name within)) others
      rw [piece backend, splitBars, if_pos ⟨rfl, rfl⟩]
      simp only [List.modifyHead_cons, List.append_nil, List.map_cons, later, backendName_backend first backend]

theorem backends_list (valid : ∀ name ∈ names, isName name.toList = true) (list : ListText names text) :
    backends text = .ok names := by
  have left := unwrap_list valid list (Nat.le_refl _)
  have pieces := splitBars_backends valid left
  have some : names ≠ [] := by
    rintro rfl
    cases left
  have present : ∀ name ∈ names.map String.toList, name ≠ [] := by
    rintro _ within
    obtain ⟨name, among, rfl⟩ := List.mem_map.mp within
    exact ne_nil_of_isName (valid name among)
  have named : (names.map String.toList).find? (!isName ·) = none := by
    rw [List.find?_eq_none]
    rintro _ within
    obtain ⟨name, among, rfl⟩ := List.mem_map.mp within
    simp [valid name among]
  have visible : unwrap (trimChars text).length (trimChars text) ≠ [] := by
    intro empty
    rw [empty] at pieces
    exact present [] (by rw [← pieces]; decide) rfl
  have kept : (names.map String.toList).filter (!·.isEmpty) = names.map String.toList :=
    List.filter_eq_self.mpr fun name within => by simpa using present name within
  simp only [backends, List.isEmpty_iff, visible, if_false, pieces, kept, named, some, List.map_eq_nil_iff]
  simp

theorem cutReversed_plain (plain : Plain text) (passed : List Char) (rest : List Char) :
    cutReversed 0 passed (text ++ rest) = cutReversed 0 (text.reverse ++ passed) rest := by
  induction text generalizing passed with
  | nil => rfl
  | cons c text ih =>
    have other := plain c List.mem_cons_self
    simp only [isMark, Bool.or_eq_false_iff, decide_eq_false_iff_not] at other
    rw [List.cons_append, cutReversed, if_neg fun colon => other.2 colon.1]
    simp only [if_neg other.1.1.1, if_neg other.1.1.2]
    rw [ih fun b within => plain b (List.mem_cons_of_mem c within)]
    simp

theorem cutAtColon_plain (plain : Plain text) : cutAtColon text = none := by
  have reversed : Plain text.reverse := fun c within => plain c (List.mem_reverse.mp within)
  have passed := cutReversed_plain reversed [] []
  rw [List.append_nil] at passed
  rw [cutAtColon, passed, cutReversed]

theorem cutAtColon_append (plain : Plain rest) (front : List Char) :
    cutAtColon (front ++ ':' :: rest) = some (front, rest) := by
  have reversed : Plain rest.reverse := fun c within => plain c (List.mem_reverse.mp within)
  rw [cutAtColon, List.reverse_append, List.reverse_cons, List.append_assoc, cutReversed_plain reversed,
    List.singleton_append, cutReversed, if_pos ⟨rfl, rfl⟩]
  simp

theorem parse_selectorText (named : isName name.toList = true) (valid : ∀ name ∈ names, isName name.toList = true)
    {selector : String} (written : SelectorText names name selector.toList) :
    parse selector = .ok (names.map (⟨·, name⟩)) := by
  have solid := solid_of_isName named
  have strips : Strips (SelectorText names name) := strips_joined (by decide) (strips_list valid) (strips_padded solid)
  obtain ⟨front, rest, list, padded, trimmed⟩ := strips.trimChars written
  have cut := cutAtColon_append (plain_padded (plain_of_isName named) padded) front
  have visible : front ++ ':' :: rest ≠ [] := by simp
  simp only [parse, trimmed, List.isEmpty_iff, visible, if_false, cut, trimChars_of_padded solid padded, named,
    Bool.not_true, Bool.false_eq_true, backends_list valid list, String.ofList_toList]
  rfl

theorem parse_name (named : isName name.toList = true) {selector : String} (padded : Padded name.toList selector.toList) :
    parse selector = .ok [⟨"", name⟩] := by
  have trimmed := trimChars_of_padded (solid_of_isName named) padded
  have present := ne_nil_of_isName named
  have visible : name ≠ "" := fun empty => present (by simp [empty])
  simp [parse, trimmed, cutAtColon_plain (plain_of_isName named), named, visible]

theorem parse_key {k : Key} (named : isName k.name.toList = true)
    (valid : k.backend = "" ∨ isName k.backend.toList = true) : parse k.render = .ok [k] := by
  by_cases none : k.backend = ""
  · rw [Key.render, if_pos none, parse_name named (.refl _), ← none]
  · have backend := valid.resolve_left none
    rw [Key.render, if_neg none]
    have written : SelectorText [k.backend] k.name (k.backend ++ ":" ++ k.name).toList :=
      ⟨k.backend.toList, k.name.toList, .bare (.bare (.refl _)), .refl _, by simp⟩
    exact parse_selectorText named (by simpa using backend) written

/-- Selector texts are read as what they are written from: a list of backends with a
name as its clauses in order, a name alone as the clause of the default backend, and
the text of a key as the key. -/
theorem parse_reads_clauses {name : String} (named : isName name.toList = true) :
    (∀ backends : List String, (∀ backend ∈ backends, isName backend.toList = true) →
      ∀ selector : String, SelectorText backends name selector.toList →
        parse selector = .ok (backends.map (⟨·, name⟩))) ∧
    (∀ selector : String, Padded name.toList selector.toList → parse selector = .ok [⟨"", name⟩]) ∧
    ∀ backend : String, backend = "" ∨ isName backend.toList = true →
      parse (Key.render ⟨backend, name⟩) = .ok [⟨backend, name⟩] :=
  ⟨fun _ valid _ written => parse_selectorText named valid written, fun _ padded => parse_name named padded,
    fun _ valid => parse_key named valid⟩

theorem parse_reads_grouped_clauses :
    isName "read".toList = true ∧
      parse "((fs) |mem): read " = .ok [⟨"fs", "read"⟩, ⟨"mem", "read"⟩] ∧
      parse " read" = .ok [⟨"", "read"⟩] ∧ parse (Key.render ⟨"fs", "read"⟩) = .ok [⟨"fs", "read"⟩] := by
  have named : isName "read".toList = true := by decide
  have valid : ∀ backend ∈ ["fs", "mem"], isName backend.toList = true := by decide
  have blank : Blank [' '] := by simp [Blank]; decide
  have blank' : Blank [] := by simp [Blank]
  have fs : BackendText "fs" "(fs) ".toList := .grouped "fs".toList (.refl _) ⟨[], [' '], blank', blank, rfl⟩
  have list : ListText ["fs", "mem"] "((fs) |mem)".toList :=
    .grouped (.bare ⟨"(fs) ".toList, "mem".toList, fs, .bare (.refl _), rfl⟩) (.refl _)
  obtain ⟨clauses, alone, keys⟩ := parse_reads_clauses named
  exact ⟨named, clauses _ valid _ ⟨_, " read ".toList, list, ⟨[' '], [' '], blank, blank, rfl⟩, rfl⟩,
    alone _ ⟨[' '], [], blank, blank', rfl⟩, keys "fs" (.inr (by decide))⟩

end ScriptKernel.Selector
