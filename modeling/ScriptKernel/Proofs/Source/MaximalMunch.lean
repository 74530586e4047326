import Mathlib.Data.List.Basic
import Mathlib.Data.List.Induction
import ScriptKernel.Proofs.Source.LexemeTables
import ScriptKernel.Source.Lexer

/-!
Lexing takes as much as it can and loses nothing. Whatever a registry has been
told, its table holds the longer entries in front of the shorter ones, so the
first entry that fits is the longest one. The lexemes lie end to end over the
source, and a source that is not UTF-8 is refused where it goes wrong. A place
is counted when its line and column are those of its offset: one more than the
newlines before it, and one more than the characters since the last of them.
Every lexeme starts and ends at such a place, behind the lexemes before it.
-/

namespace ScriptKernel

open Text.Utf8

namespace Place

theorem offset_after (p : Place) (text : List Char) :
    (p.after text).offset = p.offset + (text.flatMap String.utf8EncodeChar).length := by
  induction text generalizing p with
  | nil => rfl
  | cons c text ih =>
    have stepped : (p.step c).offset = p.offset + c.utf8Size := by
      unfold step
      split <;> rfl
    rw [after_cons, ih, stepped, List.flatMap_cons, List.length_append, String.length_utf8EncodeChar]
    omega

theorem start_after (text : List Char) :
    (start.after text).line = text.count '\n' + 1 ∧
      (start.after text).column = (text.reverse.takeWhile (· ≠ '\n')).length + 1 := by
  induction text using List.reverseRecOn with
  | nil => exact ⟨rfl, rfl⟩
  | append_singleton text c ih =>
    obtain ⟨line, column⟩ := ih
    rw [after_append, after_cons, after_nil, step, List.count_append, List.reverse_concat, List.takeWhile_cons]
    by_cases newline : c = '\n'
    · simp [newline, line]
    · simp [newline, line, column]

end Place

/-- The lexemes lie end to end, from one offset to another, and none is empty. -/
def Lexeme.Tiles : Nat → List Lexeme → Nat → Prop
  | start, [], stop => start = stop
  | start, l :: rest, stop => l.place.offset = start ∧ start < l.stop ∧ Lexeme.Tiles l.stop rest stop

/-- The lexeme is the part of the source that it spans: the longest of the
entries that the source goes on with, or one character where there is none. -/
structure Lexeme.Munched (table : Table) (source : List UInt8) (l : Lexeme) : Prop where
  real : l.synthetic = false
  slice : (source.drop l.place.offset).take (l.stop - l.place.offset) = encode l.text
  longest : (∃ entry ∈ table.entries, encode entry <+: source.drop l.place.offset) →
    l.text ∈ table.entries ∧ ∀ entry ∈ table.entries, encode entry <+: source.drop l.place.offset →
      (encode entry).length ≤ (encode l.text).length
  single : (∀ entry ∈ table.entries, ¬encode entry <+: source.drop l.place.offset) →
    ∃ c, l.text = String.singleton c

namespace Lexer

variable {table : Table}

theorem extra_cases (ordered : table.Ordered) (c : Char) (rest : List Char) :
    (∃ entry, table.longest? (c :: rest) = some entry ∧
      c :: rest.take (extra table (c :: rest)) = entry.toList) ∨
    (table.longest? (c :: rest) = none ∧ c :: rest.take (extra table (c :: rest)) = [c]) := by
  unfold extra
  cases found : table.longest? (c :: rest) with
  | none => exact Or.inr ⟨rfl, rfl⟩
  | some entry =>
    obtain ⟨member, fits, -⟩ := Table.longest?_eq_some ordered found
    refine Or.inl ⟨entry, rfl, ?_⟩
    cases spelled : entry.toList with
    | nil => exact absurd (String.toList_eq_nil_iff.1 spelled ▸ member) ordered.empty_not_mem
    | cons d chars =>
      have length : entry.length - 1 = chars.length := by
        rw [← String.length_toList, spelled]
        rfl
      rw [spelled] at fits
      obtain ⟨rfl, starts⟩ := List.cons_prefix_cons.1 fits
      show d :: rest.take (entry.length - 1) = d :: chars
      rw [length, List.prefix_iff_eq_take.1 starts, List.length_take, Nat.min_eq_left starts.length_le]

theorem first_munched (ordered : table.Ordered) {place : Place} {before : List UInt8} (c : Char)
    (rest : List Char) (start : place.offset = before.length) :
    let text := c :: rest.take (extra table (c :: rest))
    Lexeme.Munched table (before ++ (c :: rest).flatMap String.utf8EncodeChar)
      ⟨String.ofList text, place, (place.after text).offset, false⟩ := by
  intro text
  have behind : (before ++ (c :: rest).flatMap String.utf8EncodeChar).drop place.offset =
      (c :: rest).flatMap String.utf8EncodeChar := by
    rw [start, List.drop_left]
  have fits (entry : String) : encode entry <+: (c :: rest).flatMap String.utf8EncodeChar ↔
      entry.toList <+: c :: rest := by
    rw [encode_eq, encoded_prefix]
  have cut : text ++ rest.drop (extra table (c :: rest)) = c :: rest := by
    rw [List.cons_append, List.take_append_drop]
  refine ⟨rfl, ?_, ?_, ?_⟩
  · show ((before ++ _).drop place.offset).take ((place.after text).offset - place.offset) = _
    rw [behind, Place.offset_after, Nat.add_sub_cancel_left, encode_ofList, ← cut, List.flatMap_append,
      List.take_left]
  all_goals
    simp only [behind, fits]
    rcases extra_cases ordered c rest with ⟨entry, found, same⟩ | ⟨none, same⟩
  · intro _
    obtain ⟨member, -, most⟩ := Table.longest?_eq_some ordered found
    have spelled : String.ofList text = entry := by rw [show text = entry.toList from same, String.ofList_toList]
    rw [spelled]
    refine ⟨member, fun other otherMember otherFits => ?_⟩
    rw [length_encode, length_encode]
    exact most other otherMember otherFits
  · rintro ⟨entry, member, starts⟩
    exact absurd starts (Table.longest?_eq_none ordered none entry member)
  · intro unfit
    obtain ⟨member, starts, -⟩ := Table.longest?_eq_some ordered found
    exact absurd starts (unfit entry member)
  · intro _
    exact ⟨c, by rw [show text = [c] from same, String.singleton_eq_ofList]⟩

theorem cut_munched (ordered : table.Ordered) {place : Place} {before : List UInt8} (chars : List Char)
    (start : place.offset = before.length) :
    ∀ l ∈ cut table place chars, l.Munched table (before ++ chars.flatMap String.utf8EncodeChar) := by
  fun_induction cut table place chars generalizing before with
  | case1 => exact List.forall_mem_nil _
  | case2 place c rest more text next =>
    rename_i ih
    rw [List.forall_mem_cons]
    refine ⟨first_munched ordered c rest start, ?_⟩
    have whole : before ++ (c :: rest).flatMap String.utf8EncodeChar =
        (before ++ text.flatMap String.utf8EncodeChar) ++ (rest.drop more).flatMap String.utf8EncodeChar := by
      rw [List.append_assoc, ← List.flatMap_append, List.cons_append, List.take_append_drop]
    rw [whole]
    apply ih
    rw [Place.offset_after, start, List.length_append]

theorem cut_tiles (place : Place) (chars : List Char) :
    Lexeme.Tiles place.offset (cut table place chars)
      (place.offset + (chars.flatMap String.utf8EncodeChar).length) := by
  fun_induction cut table place chars with
  | case1 place => rfl
  | case2 place c rest more text next ih =>
    have whole : text ++ rest.drop more = c :: rest := by
      rw [List.cons_append, List.take_append_drop]
    have reached : next.offset = place.offset + (text.flatMap String.utf8EncodeChar).length :=
      place.offset_after text
    have longer : 0 < (text.flatMap String.utf8EncodeChar).length := by
      rw [List.flatMap_cons, List.length_append, String.length_utf8EncodeChar]
      have := c.utf8Size_pos
      omega
    refine ⟨rfl, ?_, ?_⟩
    · show place.offset < next.offset
      omega
    · rw [← whole, List.flatMap_append, List.length_append, ← Nat.add_assoc, ← reached]
      exact ih

theorem concat_cut (place : Place) (chars : List Char) :
    Lexeme.concat (cut table place chars) = String.ofList chars := by
  fun_induction cut table place chars with
  | case1 place => rfl
  | case2 place c rest more text next ih =>
    have whole : text ++ rest.drop more = c :: rest := by
      rw [List.cons_append, List.take_append_drop]
    rw [← whole, String.ofList_append, ← ih]
    simp [Lexeme.concat]

/-- Lexing is lossless maximal munch, whatever the registry has been told. A
source in UTF-8 is cut into lexemes that lie end to end over it, each the
longest entry there or a single character; any other source is refused at the
first place where no character starts. -/
theorem lex_maximal_munch (edits : List Table.Edit) (source : List UInt8) :
    let table := Table.told edits
    (∀ entry, entry ∈ table.entries ↔ entry ≠ "" ∧ entry ∈ Table.given edits) ∧
    (∀ text, source = encode text → ∃ lexemes, lex table source = .ok lexemes ∧
      Lexeme.Tiles 0 lexemes source.length ∧ Lexeme.concat lexemes = text ∧
      ∀ l ∈ lexemes, l.Munched table source) ∧
    ((∀ text, source ≠ encode text) → ∃ text byte rest, source = encode text ++ byte :: rest ∧
      (∀ c behind, byte :: rest ≠ String.utf8EncodeChar c ++ behind) ∧
      lex table source = .error
        { fault := .invalidByte byte
          offset := (encode text).length
          location :=
            { line := text.toList.count '\n' + 1
              column := (text.toList.reverse.takeWhile (· ≠ '\n')).length + 1 } }) := by
  intro table
  have ordered := Table.told_ordered edits
  refine ⟨fun entry => ?_, ?_, ?_⟩
  · rw [Table.mem_told, Table.toBytes_ne_nil]
  · rintro text rfl
    have decoded : decode (encode text) = (text.toList, []) := by
      have read := decode_encode text.toList
      rwa [String.ofList_toList] at read
    refine ⟨cut table Place.start text.toList, ?_, ?_, ?_, ?_⟩
    · rw [lex, decoded]
    · have tiles := @cut_tiles table Place.start text.toList
      rw [← encode_eq] at tiles
      simpa [Place.start] using tiles
    · rw [concat_cut, String.ofList_toList]
    · have munched := @cut_munched table ordered Place.start [] text.toList rfl
      rwa [List.nil_append, ← encode_eq] at munched
  · intro invalid
    rcases decoded : decode source with ⟨chars, left⟩
    obtain ⟨split, stuck⟩ := decode_eq decoded
    rw [← encode_ofList] at split
    cases left with
    | nil => exact absurd (split.trans (List.append_nil _)) (invalid _)
    | cons byte rest =>
      refine ⟨String.ofList chars, byte, rest, split, stuck, ?_⟩
      obtain ⟨line, column⟩ := Place.start_after chars
      have offset := Place.start.offset_after chars
      rw [lex, decoded, String.toList_ofList]
      simp only [LexError.atPlace, Place.location, line, column, offset, encode_ofList]
      simp [Place.start]

end Lexer

def charsBefore (source : List UInt8) (offset : Nat) : List Char :=
  (decode (source.take offset)).1

/-- The line and the column belong to the offset, which lies in the source and
not within a character. -/
structure Place.Counted (source : List UInt8) (p : Place) : Prop where
  within : p.offset ≤ source.length
  whole : (decode (source.take p.offset)).2 = []
  line : p.line = 1 + (charsBefore source p.offset).count '\n'
  column : p.column = 1 + ((charsBefore source p.offset).reverse.takeWhile (· ≠ '\n')).length

def Lexeme.Forward (lexemes : List Lexeme) : Prop :=
  lexemes.Pairwise fun a b => a.stop ≤ b.place.offset

namespace Place

theorem counted_after {chars before : List Char} (starts : before <+: chars) (left : List UInt8) :
    (start.after before).Counted (chars.flatMap String.utf8EncodeChar ++ left) := by
  obtain ⟨after, rfl⟩ := starts
  have offset : (start.after before).offset = (before.flatMap String.utf8EncodeChar).length := by
    rw [offset_after, start, Nat.zero_add]
  have bytes : ((before ++ after).flatMap String.utf8EncodeChar ++ left).take (start.after before).offset =
      before.flatMap String.utf8EncodeChar := by
    rw [offset, List.flatMap_append, List.append_assoc, List.take_left]
  have read : decode (((before ++ after).flatMap String.utf8EncodeChar ++ left).take (start.after before).offset) =
      (before, []) := by
    rw [bytes, ← encode_ofList, decode_encode]
  obtain ⟨line, column⟩ := start_after before
  refine ⟨?_, by rw [read], ?_, ?_⟩
  · rw [offset, List.flatMap_append]
    simp only [List.length_append]
    omega
  · rw [charsBefore, read, line, Nat.add_comm]
  · rw [charsBefore, read, column, Nat.add_comm]

end Place

namespace Lexeme

theorem Tiles.forward {start stop : Nat} {lexemes : List Lexeme} (tiles : Tiles start lexemes stop) :
    Forward lexemes ∧ ∀ l ∈ lexemes, start ≤ l.place.offset ∧ l.place.offset ≤ l.stop := by
  induction lexemes generalizing start with
  | nil => exact ⟨List.Pairwise.nil, List.forall_mem_nil _⟩
  | cons l rest ih =>
    obtain ⟨first, longer, later⟩ := tiles
    obtain ⟨forward, behind⟩ := ih later
    refine ⟨List.Pairwise.cons (fun b member => (behind b member).1) forward, ?_⟩
    rw [List.forall_mem_cons]
    refine ⟨by omega, fun b member => ?_⟩
    obtain ⟨after, grows⟩ := behind b member
    omega

theorem Tiles.nonempty {start stop : Nat} {lexemes : List Lexeme} (tiles : Tiles start lexemes stop) :
    ∀ l ∈ lexemes, l.place.offset < l.stop := by
  induction lexemes generalizing start with
  | nil => exact List.forall_mem_nil _
  | cons l rest ih =>
    obtain ⟨first, longer, later⟩ := tiles
    rw [List.forall_mem_cons]
    exact ⟨by omega, ih later⟩

end Lexeme

namespace Lexer

variable {table : Table}

theorem cut_places (place : Place) (chars : List Char) :
    ∀ l ∈ cut table place chars, l.synthetic = false ∧ ∃ before after,
      chars = before ++ l.text.toList ++ after ∧ l.place = place.after before ∧
      l.endPlace = place.after (before ++ l.text.toList) := by
  fun_induction cut table place chars with
  | case1 => exact List.forall_mem_nil _
  | case2 place c rest more text next ih =>
    have whole : c :: rest = text ++ rest.drop more := by
      rw [List.cons_append, List.take_append_drop]
    rw [List.forall_mem_cons]
    refine ⟨⟨rfl, [], rest.drop more, ?_, rfl, ?_⟩, fun l member => ?_⟩
    · rw [String.toList_ofList]
      exact whole
    · rw [String.toList_ofList]
      simp only [Lexeme.endPlace, String.toList_ofList]
      rfl
    · obtain ⟨source, before, after, split, starts, ends⟩ := ih l member
      refine ⟨source, text ++ before, after, ?_, ?_, ?_⟩
      · rw [whole, split]
        simp only [List.append_assoc]
      · rw [starts, Place.after_append]
      · rw [ends, List.append_assoc, Place.after_append _ text]

theorem lex_places {source : List UInt8} {lexemes : List Lexeme} (lexed : lex table source = .ok lexemes) :
    Lexeme.Forward lexemes ∧ ∀ l ∈ lexemes, l.synthetic = false ∧ l.place.offset ≤ l.stop ∧
      l.place.Counted source ∧ l.endPlace.Counted source := by
  unfold lex at lexed
  dsimp only at lexed
  split at lexed
  next read =>
    cases lexed
    have bytes := (decode_eq (Prod.ext rfl read : decode source = ((decode source).1, []))).1
    have tiles : Lexeme.Tiles 0 (cut table Place.start (decode source).1) _ := cut_tiles Place.start _
    obtain ⟨forward, grows⟩ := tiles.forward
    refine ⟨forward, fun l member => ?_⟩
    obtain ⟨real, before, after, split, starts, ends⟩ := cut_places _ _ l member
    refine ⟨real, (grows l member).2, ?_, ?_⟩
    · rw [starts, bytes]
      exact Place.counted_after ⟨l.text.toList ++ after, by rw [split, List.append_assoc]⟩ []
    · rw [ends, bytes]
      exact Place.counted_after ⟨after, split.symm⟩ []
  next => cases lexed

theorem lex_refuses {source : List UInt8} {e : LexError} (refused : lex table source = .error e) :
    ∃ p fault, p.Counted source ∧ e = LexError.atPlace p fault := by
  unfold lex at refused
  dsimp only at refused
  split at refused
  next => cases refused
  next byte left read =>
    cases refused
    refine ⟨_, _, ?_, rfl⟩
    have bytes := (decode_eq (rfl : decode source = ((decode source).1, (decode source).2))).1
    rw [bytes]
    have same : (decode ((decode source).1.flatMap String.utf8EncodeChar ++ (decode source).2)).1 = (decode source).1 := by
      rw [← bytes]
    rw [same]
    exact Place.counted_after List.prefix_rfl _

end Lexer

end ScriptKernel
