import Mathlib.Data.List.Induction
import Mathlib.Data.List.Sort
import Mathlib.Order.Bounds.Defs
import ScriptKernel.Proofs.Text.Utf8
import ScriptKernel.Source.Table

/-!
What a registry's table is after any calls. Entries that are added are sorted
in with a table that has been sorted before, and yet the table only depends on
what has been given since it was last set: it is the one list of these entries
in which the longer ones come first, and those of one length in the order in
which they were first given. The index by first bytes finds what a search
through the whole table would find.
-/

namespace ScriptKernel

open Text.Utf8

section FirstOccurrences

variable {α : Type} [DecidableEq α]

theorem mem_firstOccurrences {entry : α} {entries : List α} :
    entry ∈ firstOccurrences entries ↔ entry ∈ entries := by
  induction entries with
  | nil => rfl
  | cons first entries ih =>
    rw [firstOccurrences, List.mem_cons, List.mem_cons, List.mem_filter, ih]
    by_cases same : entry = first <;> simp [same]

theorem firstOccurrences_filter (kept : α → Bool) (entries : List α) :
    firstOccurrences (entries.filter kept) = (firstOccurrences entries).filter kept := by
  induction entries with
  | nil => rfl
  | cons first entries ih =>
    by_cases keep : kept first
    · rw [List.filter_cons_of_pos keep, firstOccurrences, firstOccurrences, List.filter_cons_of_pos keep, ih,
        List.filter_comm]
    · rw [List.filter_cons_of_neg keep, firstOccurrences, List.filter_cons_of_neg keep, ih, List.filter_filter]
      refine List.filter_congr fun entry _ => ?_
      by_cases same : entry = first <;> simp [same, keep]

theorem firstOccurrences_pairwise (entries : List α) :
    (firstOccurrences entries).Pairwise fun a b => entries.idxOf a < entries.idxOf b := by
  induction entries with
  | nil => exact .nil
  | cons first entries ih =>
    have later {entry : α} (other : entry ≠ first) :
        (first :: entries).idxOf entry = entries.idxOf entry + 1 :=
      List.idxOf_cons_ne entries (Ne.symm other)
    rw [firstOccurrences, List.pairwise_cons]
    constructor
    · intro entry member
      have other : entry ≠ first := of_decide_eq_true (List.mem_filter.1 member).2
      rw [later other, List.idxOf_cons_self]
      exact Nat.succ_pos _
    · rw [List.pairwise_filter]
      refine ih.imp fun earlier otherA otherB => ?_
      rw [later (by simpa using otherA), later (by simpa using otherB)]
      exact Nat.succ_lt_succ earlier

end FirstOccurrences

namespace Table

namespace Index

variable {α : Type}

@[simp] theorem entriesAt_nil (byte : UInt8) : entriesAt ([] : Index α) byte = [] :=
  rfl

theorem entriesAt_cons (first byte : UInt8) (known : List α) (index : Index α) :
    entriesAt ((first, known) :: index) byte = if byte = first then known else index.entriesAt byte := by
  rw [entriesAt, List.lookup_cons]
  by_cases same : byte = first
  · rw [if_pos same, beq_iff_eq.2 same]
    rfl
  · rw [if_neg same, beq_false_of_ne same]
    rfl

theorem entriesAt_insert (index : Index α) (byte other : UInt8) (entry : α) :
    (index.insert byte entry).entriesAt other =
      if other = byte then index.entriesAt other ++ [entry] else index.entriesAt other := by
  induction index with
  | nil => simp [insert, entriesAt_cons]
  | cons first index ih =>
    obtain ⟨first, known⟩ := first
    rw [insert]
    by_cases here : first = byte
    · subst here
      rw [if_pos rfl, entriesAt_cons, entriesAt_cons]
      split <;> rfl
    · rw [if_neg here, entriesAt_cons, entriesAt_cons, ih]
      by_cases found : other = first
      · rw [if_pos found, if_pos found, if_neg (found ▸ here)]
      · rw [if_neg found, if_neg found]

theorem entriesAt_ofEntries [ToBytes α] (entries : List α) (byte : UInt8) :
    (ofEntries entries).entriesAt byte = entries.filter fun entry => (toBytes entry).head? = some byte := by
  induction entries using List.reverseRecOn with
  | nil => rfl
  | append_singleton entries entry ih =>
    rw [ofEntries, List.foldl_concat, ← ofEntries, List.filter_append, ← ih]
    cases bytes : toBytes entry with
    | nil => simp [bytes]
    | cons first rest =>
      dsimp only
      rw [entriesAt_insert]
      by_cases same : byte = first
      · simp [bytes, same]
      · simp [bytes, same, Ne.symm same]

end Index

variable {α : Type} [ToBytes α]

theorem eq_of_entries {first second : Table α} (same : first.entries = second.entries) : first = second := by
  obtain ⟨entries, _, rfl⟩ := first
  obtain ⟨entries', _, rfl⟩ := second
  cases same
  rfl

theorem mem_of_findAt? {table : Table α} {byte : UInt8} {fits : α → Bool} {entry : α}
    (found : table.findAt? byte fits = some entry) : entry ∈ table.entries := by
  have tried := List.mem_of_find?_eq_some found
  rw [table.byFirst_eq, Index.entriesAt_ofEntries] at tried
  exact (List.mem_filter.1 tried).1

theorem findAt?_eq (table : Table α) {byte : UInt8} {fits : α → Bool}
    (begins : ∀ entry ∈ table.entries, fits entry → (toBytes entry).head? = some byte) :
    table.findAt? byte fits = table.entries.find? fits := by
  rw [findAt?, table.byFirst_eq, Index.entriesAt_ofEntries, List.find?_filter]
  generalize table.entries = entries at begins
  induction entries with
  | nil => rfl
  | cons entry entries ih =>
    obtain ⟨here, later⟩ := List.forall_mem_cons.1 begins
    rw [List.find?_cons, List.find?_cons, ih later]
    by_cases fit : fits entry
    · simp [fit, here fit]
    · simp [fit]

/-- An entry stands in front of another that is shorter, or that is as long and
was given later. -/
def Before [DecidableEq α] (given : List α) (a b : α) : Prop :=
  (toBytes b).length < (toBytes a).length ∨
    (toBytes a).length = (toBytes b).length ∧ given.idxOf a < given.idxOf b

theorem longer_trans (a b c : α) (first : decide ((toBytes b).length ≤ (toBytes a).length) = true)
    (second : decide ((toBytes c).length ≤ (toBytes b).length) = true) :
    decide ((toBytes c).length ≤ (toBytes a).length) = true := by
  rw [decide_eq_true_iff] at *
  exact Nat.le_trans second first

theorem longer_total (a b : α) :
    (decide ((toBytes b).length ≤ (toBytes a).length) || decide ((toBytes a).length ≤ (toBytes b).length)) = true := by
  rw [Bool.or_eq_true, decide_eq_true_iff, decide_eq_true_iff]
  exact Nat.le_total _ _

section Order

variable [DecidableEq α]

theorem mem_arranged {entry : α} {entries : List α} :
    entry ∈ arranged entries ↔ toBytes entry ≠ [] ∧ entry ∈ entries := by
  rw [arranged, List.mem_mergeSort, mem_firstOccurrences, List.mem_filter, and_comm, decide_eq_true_iff]

theorem arranged_longest (entries : List α) :
    (arranged entries).Pairwise fun a b => (toBytes b).length ≤ (toBytes a).length :=
  (List.pairwise_mergeSort longer_trans longer_total _).imp of_decide_eq_true

theorem arranged_filter (entries : List α) (size : Nat) :
    (arranged entries).filter (fun entry => (toBytes entry).length = size) =
      (firstOccurrences (entries.filter (toBytes · ≠ []))).filter fun entry => (toBytes entry).length = size := by
  unfold arranged
  generalize firstOccurrences (entries.filter (toBytes · ≠ [])) = kept
  have level : (kept.filter fun entry => (toBytes entry).length = size).Pairwise
      fun a b => decide ((toBytes b).length ≤ (toBytes a).length) = true := by
    refine List.pairwise_of_forall_mem_list fun a memberA b memberB => ?_
    have sizeA := of_decide_eq_true (List.mem_filter.1 memberA).2
    have sizeB := of_decide_eq_true (List.mem_filter.1 memberB).2
    rw [decide_eq_true_iff, sizeA, sizeB]
  have inside := (List.sublist_mergeSort longer_trans longer_total level List.filter_sublist).filter
    fun entry => (toBytes entry).length = size
  rw [List.filter_filter] at inside
  simp only [Bool.and_self] at inside
  exact (inside.eq_of_length ((List.mergeSort_perm kept _).filter _).length_eq.symm).symm

theorem arranged_before (given : List α) : (arranged given).Pairwise (Before given) := by
  rw [List.pairwise_iff_forall_sublist]
  intro a b pair
  have longest := List.pairwise_iff_forall_sublist.1 (arranged_longest given) pair
  rcases Nat.lt_or_eq_of_le longest with shorter | same
  · exact Or.inl shorter
  · refine Or.inr ⟨same.symm, ?_⟩
    have level := pair.filter fun entry => (toBytes entry).length = (toBytes a).length
    have both : [a, b].filter (fun entry => (toBytes entry).length = (toBytes a).length) = [a, b] := by
      simp [same]
    rw [both, arranged_filter, firstOccurrences_filter] at level
    exact List.pairwise_iff_forall_sublist.1 (firstOccurrences_pairwise given)
      (level.trans (List.filter_sublist.trans List.filter_sublist))

theorem eq_of_before {given first second : List α} (ordered : first.Pairwise (Before given))
    (ordered' : second.Pairwise (Before given)) (same : ∀ entry, entry ∈ first ↔ entry ∈ second) :
    first = second := by
  have irrefl : Std.Irrefl (Before given) := by
    refine ⟨fun a before => ?_⟩
    unfold Before at before
    omega
  have antisymm : Std.Antisymm (Before given) := by
    refine ⟨fun a b before after => ?_⟩
    unfold Before at before after
    omega
  exact ordered.eq_of_mem_iff ordered' same

theorem arranged_eq_iff (given listed : List α) :
    arranged given = listed ↔
      (∀ entry, entry ∈ listed ↔ toBytes entry ≠ [] ∧ entry ∈ given) ∧ listed.Pairwise (Before given) := by
  constructor
  · rintro rfl
    exact ⟨fun entry => mem_arranged, arranged_before given⟩
  · rintro ⟨members, ordered⟩
    refine eq_of_before (arranged_before given) ordered fun entry => ?_
    rw [mem_arranged, members]

theorem before_of_idxOf_lt {given : List α} {a b : α} (member : b ∈ arranged given)
    (earlier : (arranged given).idxOf a < (arranged given).idxOf b) : Before given a b := by
  have boundB := List.idxOf_lt_length_iff.2 member
  have boundA := Nat.lt_trans earlier boundB
  have related := List.pairwise_iff_getElem.1 (arranged_before given) _ _ boundA boundB earlier
  rwa [List.getElem_idxOf, List.getElem_idxOf] at related

/-- Entries that are added to a table stand where they would stand if they had
been given together with its own. -/
theorem Before.of_added {known more : List α} {a b : α} (presentA : toBytes a ≠ []) (presentB : toBytes b ≠ [])
    (before : Before (arranged known ++ more) a b) : Before (known ++ more) a b := by
  rcases before with longer | ⟨same, earlier⟩
  · exact Or.inl longer
  refine Or.inr ⟨same, ?_⟩
  have heldA : a ∈ arranged known ↔ a ∈ known := by simp [mem_arranged, presentA]
  have heldB : b ∈ arranged known ↔ b ∈ known := by simp [mem_arranged, presentB]
  rw [List.idxOf_append, List.idxOf_append] at earlier ⊢
  by_cases knownA : a ∈ known <;> by_cases knownB : b ∈ known
  · rw [if_pos (heldA.2 knownA), if_pos (heldB.2 knownB)] at earlier
    rw [if_pos knownA, if_pos knownB]
    rcases before_of_idxOf_lt (heldB.2 knownB) earlier with longer | ⟨-, first⟩
    · omega
    · exact first
  · rw [if_pos knownA, if_neg knownB]
    have inside := List.idxOf_lt_length_iff.2 knownA
    omega
  · rw [if_neg (mt heldA.1 knownA), if_pos (heldB.2 knownB)] at earlier
    have inside := List.idxOf_lt_length_iff.2 (heldB.2 knownB)
    omega
  · rw [if_neg (mt heldA.1 knownA), if_neg (mt heldB.1 knownB)] at earlier
    rw [if_neg knownA, if_neg knownB]
    omega

theorem arranged_append (known more : List α) : arranged (arranged known ++ more) = arranged (known ++ more) := by
  refine Eq.symm ((arranged_eq_iff _ _).2 ⟨fun entry => ?_, ?_⟩)
  · rw [mem_arranged, List.mem_append, mem_arranged, List.mem_append]
    tauto
  · refine (arranged_before _).imp_of_mem fun memberA memberB before => ?_
    exact before.of_added (mem_arranged.1 memberA).1 (mem_arranged.1 memberB).1

theorem arranged_repeated {known again : List α} (repeated : ∀ entry ∈ again, toBytes entry ≠ [] → entry ∈ known) :
    arranged (known ++ again) = arranged known := by
  refine (arranged_eq_iff _ _).2 ⟨fun entry => ?_, ?_⟩
  · rw [mem_arranged, List.mem_append]
    refine and_congr_right fun present => ⟨Or.inl, ?_⟩
    rintro (old | new)
    · exact old
    · exact repeated entry new present
  · refine (arranged_before known).imp_of_mem fun memberA memberB before => ?_
    unfold Before at before ⊢
    rwa [List.idxOf_append_of_mem (mem_arranged.1 memberA).2, List.idxOf_append_of_mem (mem_arranged.1 memberB).2]

theorem add_ofEntries (known more : List α) : (ofEntries known).add more = ofEntries (known ++ more) :=
  eq_of_entries (arranged_append known more)

end Order

/-- No entry is empty, and the longer ones come first. -/
structure Ordered (table : Table α) : Prop where
  present : ∀ entry ∈ table.entries, toBytes entry ≠ []
  longest : table.entries.Pairwise fun a b => (toBytes b).length ≤ (toBytes a).length

theorem ofEntries_ordered [DecidableEq α] (entries : List α) : (ofEntries entries).Ordered where
  present _ member := (mem_arranged.1 member).1
  longest := arranged_longest entries

theorem Ordered.find?_eq_some {table : Table α} (ordered : table.Ordered) {fits : α → Bool} {entry : α}
    (found : table.entries.find? fits = some entry) :
    ∀ other ∈ table.entries, fits other → (toBytes other).length ≤ (toBytes entry).length := by
  obtain ⟨-, before, behind, located, refused⟩ := List.find?_eq_some_iff_append.1 found
  have longest := ordered.longest
  rw [located] at longest
  intro other member otherFits
  rw [located] at member
  rcases List.mem_append.1 member with earlier | here
  · have misses := refused other earlier
    rw [otherFits] at misses
    cases misses
  · rcases List.mem_cons.1 here with rfl | later
    · exact Nat.le_refl _
    · exact (List.pairwise_cons.1 (List.pairwise_append.1 longest).2.1).1 other later

theorem head?_of_prefix {bytes rest : List UInt8} {byte : UInt8} (present : bytes ≠ [])
    (fits : bytes <+: byte :: rest) : bytes.head? = some byte := by
  obtain ⟨first, tail, rfl⟩ := List.exists_cons_of_ne_nil present
  rw [(List.cons_prefix_cons.1 fits).1, List.head?_cons]

theorem Ordered.findAt?_prefix {table : Table α} (ordered : table.Ordered) (byte : UInt8) (rest : List UInt8) :
    table.findAt? byte (fun entry => (toBytes entry).isPrefixOf (byte :: rest)) =
      table.entries.find? fun entry => (toBytes entry).isPrefixOf (byte :: rest) := by
  refine table.findAt?_eq fun entry member fits => ?_
  exact head?_of_prefix (ordered.present entry member) (List.isPrefixOf_iff_prefix.1 fits)

theorem Ordered.longest_isGreatest {table : Table α} (ordered : table.Ordered) (input : List UInt8) :
    IsGreatest (insert 0 {size | ∃ entry ∈ table.entries, toBytes entry <+: input ∧ (toBytes entry).length = size})
      (table.longest input) := by
  cases input with
  | nil =>
    refine ⟨Or.inl rfl, ?_⟩
    rintro size (rfl | ⟨entry, member, fits, rfl⟩)
    · exact Nat.le_refl _
    · exact absurd (List.prefix_nil.1 fits) (ordered.present entry member)
  | cons byte rest =>
    rw [Table.longest, ordered.findAt?_prefix]
    cases found : table.entries.find? fun entry => (toBytes entry).isPrefixOf (byte :: rest) with
    | none =>
      refine ⟨Or.inl rfl, ?_⟩
      rintro size (rfl | ⟨entry, member, fits, rfl⟩)
      · exact Nat.le_refl _
      · exact absurd (List.isPrefixOf_iff_prefix.2 fits) (List.find?_eq_none.1 found entry member)
    | some entry =>
      have fits : toBytes entry <+: byte :: rest := by simpa using List.find?_some found
      refine ⟨Or.inr ⟨entry, List.mem_of_find?_eq_some found, fits, rfl⟩, ?_⟩
      rintro size (rfl | ⟨other, member, otherFits, rfl⟩)
      · exact Nat.zero_le _
      · exact ordered.find?_eq_some found other member (List.isPrefixOf_iff_prefix.2 otherFits)

/-- What a registry is told about its table: to take a new one, or further
entries. -/
inductive Edit (α : Type := String) where
  | set (entries : List α)
  | add (entries : List α)

def given {α : Type} (edits : List (Edit α)) : List α :=
  edits.foldl (fun known edit =>
    match edit with
    | .set entries => entries
    | .add entries => known ++ entries) []

theorem given_set {α : Type} (edits : List (Edit α)) (entries : List α) : given (edits ++ [.set entries]) = entries :=
  List.foldl_concat _ _ _ _

theorem given_add {α : Type} (edits : List (Edit α)) (entries : List α) :
    given (edits ++ [.add entries]) = given edits ++ entries :=
  List.foldl_concat _ _ _ _

section Calls

variable [DecidableEq α]

def edit (table : Table α) : Edit α → Table α
  | .set entries => ofEntries entries
  | .add entries => table.add entries

/-- The table of a registry that is new and then told something. -/
def told (edits : List (Edit α)) : Table α :=
  edits.foldl edit empty

theorem told_concat (edits : List (Edit α)) (last : Edit α) : told (edits ++ [last]) = (told edits).edit last :=
  List.foldl_concat _ _ _ _

theorem told_eq (edits : List (Edit α)) : told edits = ofEntries (given edits) := by
  induction edits using List.reverseRecOn with
  | nil => exact eq_of_entries (by simp [told, given, empty, ofEntries, arranged, firstOccurrences])
  | append_singleton edits last ih =>
    rw [told_concat, ih]
    cases last with
    | set entries => rw [given_set, edit]
    | add entries => rw [given_add, edit, add_ofEntries]

theorem told_ordered (edits : List (Edit α)) : (told edits).Ordered := by
  rw [told_eq]
  exact ofEntries_ordered _

theorem mem_told {edits : List (Edit α)} {entry : α} :
    entry ∈ (told edits).entries ↔ toBytes entry ≠ [] ∧ entry ∈ given edits := by
  rw [told_eq]
  exact mem_arranged

/-- A table depends on what has been given since it was last set, and on nothing
else: it is the only list of these entries, without the empty one, in which
longer ones come first and those of one length in the order in which they first
occurred. So adding to a new table is giving more for it, adding twice is
adding once, and adding what is there is doing nothing. What is measured of any
bytes is the length of the longest entry with which they begin. All this holds
of texts of characters and of byte strings alike. -/
theorem told_depends_on_given (edits : List (Edit α)) :
    let table := told edits
    (∀ listed, table.entries = listed ↔
      (∀ entry, entry ∈ listed ↔ toBytes entry ≠ [] ∧ entry ∈ given edits) ∧ listed.Pairwise (Before (given edits))) ∧
    (∀ first more, told (edits ++ [.set first, .add more]) = told (edits ++ [.set (first ++ more)])) ∧
    (∀ more last, told (edits ++ [.add more, .add last]) = told (edits ++ [.add (more ++ last)])) ∧
    (∀ again, (∀ entry ∈ again, toBytes entry ≠ [] → entry ∈ table.entries) → told (edits ++ [.add again]) = table) ∧
    ∀ input, IsGreatest
      (insert 0 {size | ∃ entry ∈ table.entries, toBytes entry <+: input ∧ (toBytes entry).length = size})
      (table.longest input) := by
  intro table
  refine ⟨fun listed => ?_, fun first more => ?_, fun more last => ?_, fun again present => ?_, ?_⟩
  · show (told edits).entries = listed ↔ _
    rw [told_eq]
    exact arranged_eq_iff _ _
  · rw [List.append_cons, told_eq, told_eq, given_add, given_set, given_set]
  · rw [List.append_cons, told_eq, told_eq, given_add, given_add, given_add, List.append_assoc]
  · have repeated : ∀ entry ∈ again, toBytes entry ≠ [] → entry ∈ given edits :=
      fun entry member solid => (mem_told.1 (present entry member solid)).2
    show told (edits ++ [.add again]) = told edits
    rw [told_eq, told_eq, given_add]
    exact eq_of_entries (arranged_repeated repeated)
  · exact (told_ordered edits).longest_isGreatest

theorem told_depends_on_given_repeated :
    let edits : List (Edit (List UInt8)) := [.set [[1, 2], [0xff, 3, 4], [5, 6], [1, 2], []], .add [[0xff, 7, 8, 9]]]
    (told edits).entries = [[0xff, 7, 8, 9], [0xff, 3, 4], [1, 2], [5, 6]] ∧
      (∀ entry ∈ [[5, 6], []], toBytes entry ≠ [] → entry ∈ (told edits).entries) ∧
      told (edits ++ [.add [[5, 6], []]]) = told edits := by
  intro edits
  have listed : (told edits).entries = [[0xff, 7, 8, 9], [0xff, 3, 4], [1, 2], [5, 6]] := by
    refine ((told_depends_on_given edits).1 _).2 ⟨fun entry => ?_, ?_⟩
    · simp only [edits, given, List.foldl_cons, List.foldl_nil, toBytes, id_eq]
      grind
    · simp [edits, given, toBytes, Before]
  have repeated : ∀ entry ∈ [[5, 6], []], toBytes entry ≠ [] → entry ∈ (told edits).entries := by
    rw [listed]
    decide
  exact ⟨listed, repeated, (told_depends_on_given edits).2.2.2.1 _ repeated⟩

example : (told [.set ["ab", "xyz", "cd", "ab", "", "pqr"], .add ["abcd"]]).entries =
    ["abcd", "xyz", "pqr", "ab", "cd"] := by
  cbv

end Calls

theorem toBytes_eq (text : String) : toBytes text = text.toList.flatMap String.utf8EncodeChar :=
  encode_eq text

theorem toBytes_ne_nil {text : String} : toBytes text ≠ [] ↔ text ≠ "" := by
  rw [ne_eq, ne_eq, not_iff_not, ← List.length_eq_zero_iff, ← String.utf8ByteSize_eq_zero_iff]
  exact iff_of_eq (congrArg (· = 0) (length_encode text))

theorem Ordered.empty_not_mem {table : Table} (ordered : table.Ordered) : "" ∉ table.entries :=
  fun member => toBytes_ne_nil.1 (ordered.present "" member) rfl

theorem isPrefixOf_toBytes (entry : String) (input : List Char) :
    entry.toList.isPrefixOf input = (toBytes entry).isPrefixOf (input.flatMap String.utf8EncodeChar) := by
  rw [Bool.eq_iff_iff, List.isPrefixOf_iff_prefix, List.isPrefixOf_iff_prefix, toBytes_eq, encoded_prefix]

variable {table : Table} {input : List Char} {entry : String}

theorem longest?_cons {c : Char} {byte : UInt8} {more : List UInt8} (bytes : String.utf8EncodeChar c = byte :: more)
    (rest : List Char) :
    table.longest? (c :: rest) = table.findAt? byte fun entry => entry.toList.isPrefixOf (c :: rest) := by
  rw [longest?, bytes, List.head?_cons, Option.bind_some]

theorem longest?_fits (found : table.longest? input = some entry) :
    entry ∈ table.entries ∧ entry.toList <+: input := by
  cases input with
  | nil => cases found
  | cons c rest =>
    obtain ⟨byte, more, bytes⟩ := List.exists_cons_of_ne_nil (String.utf8EncodeChar_ne_nil (c := c))
    rw [longest?_cons bytes] at found
    exact ⟨mem_of_findAt? found, by simpa using List.find?_some found⟩

theorem longest?_eq (present : "" ∉ table.entries) (input : List Char) :
    table.longest? input = table.entries.find? fun entry => entry.toList.isPrefixOf input := by
  have solid : ∀ entry ∈ table.entries, toBytes entry ≠ [] :=
    fun entry member => toBytes_ne_nil.2 fun empty => present (empty ▸ member)
  cases input with
  | nil =>
    refine (List.find?_eq_none.2 fun entry member fits => solid entry member ?_).symm
    rw [isPrefixOf_toBytes, List.isPrefixOf_iff_prefix] at fits
    exact List.prefix_nil.1 fits
  | cons c rest =>
    obtain ⟨byte, more, bytes⟩ := List.exists_cons_of_ne_nil (String.utf8EncodeChar_ne_nil (c := c))
    rw [longest?_cons bytes]
    refine table.findAt?_eq fun entry member fits => ?_
    rw [isPrefixOf_toBytes, List.isPrefixOf_iff_prefix, List.flatMap_cons, bytes] at fits
    exact head?_of_prefix (solid entry member) fits

theorem longest?_eq_some (ordered : table.Ordered) (found : table.longest? input = some entry) :
    entry ∈ table.entries ∧ entry.toList <+: input ∧
      ∀ other ∈ table.entries, other.toList <+: input → other.utf8ByteSize ≤ entry.utf8ByteSize := by
  obtain ⟨member, fits⟩ := longest?_fits found
  refine ⟨member, fits, fun other otherMember otherFits => ?_⟩
  rw [longest?_eq ordered.empty_not_mem] at found
  rw [← length_encode, ← length_encode]
  exact ordered.find?_eq_some found other otherMember (List.isPrefixOf_iff_prefix.2 otherFits)

theorem longest?_eq_none (ordered : table.Ordered) (found : table.longest? input = none) :
    ∀ entry ∈ table.entries, ¬entry.toList <+: input := by
  intro entry member fits
  rw [longest?_eq ordered.empty_not_mem] at found
  exact List.find?_eq_none.1 found entry member (List.isPrefixOf_iff_prefix.2 fits)

theorem longest_encoded (table : Table) (input : List Char) :
    table.longest (input.flatMap String.utf8EncodeChar) = ((table.longest? input).map String.utf8ByteSize).getD 0 := by
  cases input with
  | nil => rfl
  | cons c rest =>
    obtain ⟨byte, more, bytes⟩ := List.exists_cons_of_ne_nil (String.utf8EncodeChar_ne_nil (c := c))
    simp only [longest?_cons bytes, isPrefixOf_toBytes, List.flatMap_cons, bytes, List.cons_append, longest]
    cases table.findAt? byte fun entry => (toBytes entry).isPrefixOf (byte :: (more ++ rest.flatMap String.utf8EncodeChar)) with
    | none => rfl
    | some entry => exact length_encode entry

end Table

end ScriptKernel
