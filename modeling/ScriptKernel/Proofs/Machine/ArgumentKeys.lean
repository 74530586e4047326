import ScriptKernel.Proofs.Machine.CacheKeys
import ScriptKernel.Proofs.Number.Renderings
import ScriptKernel.Proofs.Value.Trees

/-!
What a key of the cache tells about arguments with arrays in them. The debug form
of a value is written out from the tree that the value shows. A leaf begins with
a capital and says itself where it ends, an array is closed by a bracket, and
what separates the members of a list begins with a comma, so the form is read
back in one way only, whatever strings are in it. Arguments with the same key are
then as many and show the same trees.
-/

namespace ScriptKernel

def Value.form (v : Value) : List Char :=
  (({} : Heap).debugAt 0 v).toList

theorem Heap.debugAt_flat {v : Value} (flat : ∀ cell, v ≠ .array cell) (heap : Heap) (depth : Nat) :
    (heap.debugAt depth v).toList = v.form := by
  cases v with
  | array cell => exact absurd rfl (flat cell)
  | _ => cases depth <;> rfl

/-- The debug forms of values of this kind tell them apart, from each other and
from what follows. -/
structure ToldApart (P : Value → Prop) : Prop where
  flat : ∀ {v}, P v → ∀ cell, v ≠ .array cell
  starts : ∀ {v}, P v → ∃ c rest, v.form = c :: rest ∧ c.isUpper ∧ c ≠ 'A'
  apart : ∀ {v w} {behind rest : List Char}, P v → P w → v.form ++ behind = w.form ++ rest → v = w ∧ behind = rest

def listing (separator : List Char) : List (List Char) → List Char
  | [] => []
  | text :: texts => text ++ texts.flatMap (separator ++ ·)

theorem toList_join (separator : String) (texts : List String) :
    (Text.join separator texts).toList = listing separator.toList (texts.map String.toList) := by
  induction texts with
  | nil => rfl
  | cons text texts ih =>
    cases texts with
    | nil => simp [Text.join, listing]
    | cons next texts =>
      change (text ++ separator ++ Text.join separator (next :: texts)).toList = _
      rw [String.toList_append, String.toList_append, ih]
      simp [listing]

namespace Unfolding

mutual

def text : Unfolding → List Char
  | leaf v => v.form
  | node ts => ['A', 'r', 'r', 'a', 'y', '['] ++ (listing [',', ' '] (texts ts) ++ [']'])

def texts : List Unfolding → List (List Char)
  | [] => []
  | t :: ts => t.text :: texts ts

end

variable {P : Value → Prop}

theorem text_starts (tells : ToldApart P) {t : Unfolding} (each : t.Each P) :
    ∃ c rest, t.text = c :: rest ∧ c.isUpper := by
  cases t with
  | leaf v =>
    rw [Each] at each
    obtain ⟨c, rest, form, upper, -⟩ := tells.starts each
    exact ⟨c, rest, by rw [text, form], upper⟩
  | node ts => exact ⟨'A', _, by rw [text]; rfl, rfl⟩

def Closes (close : List Char) : Prop :=
  ∀ c, close.head? = some c → c ≠ ',' ∧ ¬c.isUpper

theorem closes_nil : Closes [] :=
  nofun

theorem closes_bracket (rest : List Char) : Closes (']' :: rest) := by
  rintro c ⟨⟩
  exact ⟨by decide, by decide⟩

theorem Closes.ne_comma {close rest : List Char} (closes : Closes close) : close ≠ ',' :: rest := by
  rintro rfl
  exact (closes ',' rfl).1 rfl

theorem Closes.ne_text (tells : ToldApart P) {close rest : List Char} (closes : Closes close) {t : Unfolding}
    (each : t.Each P) : close ≠ t.text ++ rest := by
  rintro rfl
  obtain ⟨c, more, starts, upper⟩ := text_starts tells each
  exact (closes c (by rw [starts]; rfl)).2 upper

mutual

theorem text_append_inj (tells : ToldApart P) : ∀ {t u : Unfolding} {behind rest : List Char}, t.Each P → u.Each P →
    t.text ++ behind = u.text ++ rest → t = u ∧ behind = rest
  | .leaf v, .leaf w, _, _, each, each', same => by
    rw [Each] at each each'
    rw [text, text] at same
    obtain ⟨rfl, rests⟩ := tells.apart each each' same
    exact ⟨rfl, rests⟩
  | .leaf v, .node us, _, _, each, _, same => by
    rw [Each] at each
    obtain ⟨c, rest, form, -, other⟩ := tells.starts each
    rw [text, text, form] at same
    exact absurd (List.cons.inj same).1 other
  | .node ts, .leaf w, _, _, _, each', same => by
    rw [Each] at each'
    obtain ⟨c, rest, form, -, other⟩ := tells.starts each'
    rw [text, text, form] at same
    exact absurd (List.cons.inj same).1.symm other
  | .node ts, .node us, behind, rest, each, each', same => by
    rw [Each] at each each'
    simp only [text, List.append_assoc, List.append_right_inj] at same
    obtain ⟨rfl, rests⟩ := listing_append_inj tells each each' (closes_bracket _) (closes_bracket _) same
    exact ⟨rfl, (List.cons.inj rests).2⟩

theorem listing_append_inj (tells : ToldApart P) : ∀ {ts us : List Unfolding} {more close close' : List Char},
    All P ts → All P us → Closes close → Closes close' →
    listing (',' :: more) (texts ts) ++ close = listing (',' :: more) (texts us) ++ close' → ts = us ∧ close = close'
  | [], [], _, _, _, _, _, _, _, same => ⟨rfl, same⟩
  | [], u :: us, _, _, _, _, each', closes, _, same => by
    rw [texts, texts, listing, listing, List.append_assoc] at same
    exact absurd same (closes.ne_text tells each'.1)
  | t :: ts, [], _, _, _, each, _, _, closes', same => by
    rw [texts, texts, listing, listing, List.append_assoc] at same
    exact absurd same.symm (closes'.ne_text tells each.1)
  | t :: ts, u :: us, _, _, _, each, each', closes, closes', same => by
    rw [texts, texts, listing, listing, List.append_assoc, List.append_assoc] at same
    obtain ⟨rfl, rests⟩ := text_append_inj tells each.1 each'.1 same
    obtain ⟨rfl, closing⟩ := following_inj tells each.2 each'.2 closes closes' rests
    exact ⟨rfl, closing⟩

theorem following_inj (tells : ToldApart P) : ∀ {ts us : List Unfolding} {more close close' : List Char},
    All P ts → All P us → Closes close → Closes close' →
    (texts ts).flatMap (',' :: more ++ ·) ++ close = (texts us).flatMap (',' :: more ++ ·) ++ close' →
    ts = us ∧ close = close'
  | [], [], _, _, _, _, _, _, _, same => ⟨rfl, same⟩
  | [], u :: us, _, _, _, _, each', closes, _, same => by
    rw [texts, texts, List.flatMap_cons] at same
    exact absurd same closes.ne_comma
  | t :: ts, [], _, _, _, each, _, _, closes', same => by
    rw [texts, texts, List.flatMap_cons] at same
    exact absurd same.symm closes'.ne_comma
  | t :: ts, u :: us, _, _, _, each, each', closes, closes', same => by
    simp only [texts, List.flatMap_cons, List.append_assoc, List.append_right_inj] at same
    obtain ⟨rfl, rests⟩ := text_append_inj tells each.1 each'.1 same
    obtain ⟨rfl, closing⟩ := following_inj tells each.2 each'.2 closes closes' rests
    exact ⟨rfl, closing⟩

end

end Unfolding

namespace Heap

variable {heap heap' : Heap}

mutual

theorem Shows.toList_debugAt : ∀ {t : Unfolding} {v : Value} {depth : Nat}, heap.Shows v t → t.height ≤ depth →
    (heap.debugAt depth v).toList = t.text
  | .leaf _, _, depth, .leaf flat, _ => by
    rw [debugAt_flat flat, Unfolding.text]
  | .node ts, .array cell, depth, .node _ items, enough => by
    rw [Unfolding.height] at enough
    obtain ⟨depth, rfl⟩ : ∃ d, depth = d + 1 := ⟨depth - 1, by omega⟩
    have texts := ShowAll.toList_debugAt items (Nat.le_of_succ_le_succ enough)
    rw [debugAt, Unfolding.text, String.toList_append, String.toList_append, toList_join, List.map_map, ← texts,
      List.append_assoc]
    rfl

theorem ShowAll.toList_debugAt : ∀ {ts : List Unfolding} {vs : List Value} {depth : Nat}, heap.ShowAll vs ts →
    Unfolding.heights ts ≤ depth → vs.map (String.toList ∘ heap.debugAt depth) = Unfolding.texts ts
  | [], _, _, .nil, _ => rfl
  | t :: ts, _, depth, .cons first rest, enough => by
    rw [Unfolding.heights, Nat.max_le] at enough
    rw [List.map_cons, Function.comp_apply, Shows.toList_debugAt first enough.1,
      ShowAll.toList_debugAt rest enough.2, Unfolding.texts]

end

theorem ShowAll.toList_key {vs : List Value} {ts : List Unfolding} (shown : heap.ShowAll vs ts) :
    (Memo.key heap vs).toList = listing [','] (Unfolding.texts ts) := by
  have texts := shown.toList_debugAt shown.heights_le_walkDepth
  rw [Memo.key, toList_join, List.map_map, ← texts]
  rfl

end Heap

open Heap (Alike)

theorem Memo.alike_of_key {P : Value → Prop} (tells : ToldApart P) {heap heap' : Heap} {args others : List Value}
    (made : ∀ v ∈ args, heap.MadeOf P v) (made' : ∀ w ∈ others, heap'.MadeOf P w)
    (same : key heap args = key heap' others) : List.Forall₂ (Alike heap heap') args others := by
  obtain ⟨ts, shown, all⟩ := Heap.exists_showAll_of_madeOf made
  obtain ⟨us, shown', all'⟩ := Heap.exists_showAll_of_madeOf made'
  have texts := congrArg (String.toList · ++ []) same
  simp only [shown.toList_key, shown'.toList_key] at texts
  obtain ⟨rfl, -⟩ := Unfolding.listing_append_inj tells all all' Unfolding.closes_nil Unfolding.closes_nil texts
  exact shown.alike shown'

theorem Value.Scalar.flat {v : Value} (scalar : v.Scalar) (cell : Nat) : v ≠ .array cell := by
  rintro rfl
  cases scalar

theorem Value.Scalar.form_eq {v : Value} (scalar : v.Scalar) : v.form = (Heap.debug {} v).toList :=
  (Heap.debugAt_flat scalar.flat _ _).symm

theorem toldApart_scalar : ToldApart Value.Scalar where
  flat := Value.Scalar.flat
  starts scalar := by
    rw [scalar.form_eq]
    cases scalar with
    | int n => exact ⟨'I', _, Heap.debug_int {} n, by decide, by decide⟩
    | flag b => exact ⟨'B', _, Heap.debug_flag {} b, by decide, by decide⟩
    | str s => exact ⟨'S', _, Heap.debug_str {} s, by decide, by decide⟩
    | unit => exact ⟨'U', _, Heap.debug_unit {}, by decide, by decide⟩
  apart scalar other same := by
    rw [scalar.form_eq, other.form_eq] at same
    exact Heap.debug_append_inj scalar other same

theorem Memo.eq_of_key {heap heap' : Heap} {args others : List Value} (scalars : ∀ v ∈ args, v.Scalar)
    (scalars' : ∀ w ∈ others, w.Scalar) (same : key heap args = key heap' others) : args = others := by
  have alike := alike_of_key toldApart_scalar (fun v member => .leaf (scalars v member).flat (scalars v member))
    (fun w member => .leaf (scalars' w member).flat (scalars' w member)) same
  exact Heap.eq_of_alike alike fun v member => (scalars v member).flat

namespace Lumen

/-- Lumen's values but arrays, functions, and the negative zero, which is
written like the other one. -/
inductive Datum : Value → Prop
  | number {x : Float} (usual : x ≠ -0.0) : Datum (.number x)
  | bool (b : Bool) : Datum (.bool b)
  | string (s : String) : Datum (.string s)
  | none : Datum .none
  | range {start stop : Float} (usual : start ≠ -0.0) (usual' : stop ≠ -0.0) : Datum (.range start stop)

theorem form_number (x : Float) :
    (Value.number x).form = "Number(".toList ++ ((Decimal.render x).toList ++ [')']) := by
  simp [Value.form, Heap.debugAt]

theorem form_bool (b : Bool) : (Value.bool b).form = "Bool(".toList ++ ((Value.boolText b).toList ++ [')']) := by
  simp [Value.form, Heap.debugAt]

theorem form_string (s : String) : (Value.string s).form = "String(".toList ++ ((Text.quote s).toList ++ [')']) := by
  simp [Value.form, Heap.debugAt]

theorem form_none : Value.none.form = "None".toList := by
  simp [Value.form, Heap.debugAt]

theorem form_range (start stop : Float) : (Value.range start stop).form =
    "Range(".toList ++ ((Decimal.render start).toList ++ (", ".toList ++ ((Decimal.render stop).toList ++ [')']))) := by
  simp [Value.form, Heap.debugAt]

theorem notMem_render (x : Float) {c : Char} (mark : c = ',' ∨ c = ')') : c ∉ (Decimal.render x).toList := by
  intro member
  rcases Decimal.mem_render c member with digit | sign
  · rcases mark with rfl | rfl <;> cases digit
  · rcases mark with rfl | rfl <;> simp [Decimal.signs] at sign

theorem render_append_inj {x y : Float} {behind rest : List Char} (usual : x ≠ -0.0) (usual' : y ≠ -0.0) {mark : Char}
    (known : mark = ',' ∨ mark = ')')
    (same : (Decimal.render x).toList ++ mark :: behind = (Decimal.render y).toList ++ mark :: rest) :
    x = y ∧ behind = rest := by
  obtain ⟨texts, rfl⟩ := Heap.append_mark_inj (notMem_render x known) (notMem_render y known) same
  exact ⟨Decimal.render_inj usual usual' (String.toList_inj.1 texts), rfl⟩

theorem Datum.append_inj {v w : Value} (datum : Datum v) (other : Datum w) {behind rest : List Char}
    (same : v.form ++ behind = w.form ++ rest) : v = w ∧ behind = rest := by
  -- The first two letters tell the kind.
  cases datum with
  | number usual =>
    cases other with
    | number usual' =>
      simp only [form_number, List.append_assoc, List.cons_append, List.nil_append, List.append_right_inj] at same
      obtain ⟨rfl, rfl⟩ := render_append_inj usual usual' (Or.inr rfl) same
      exact ⟨rfl, rfl⟩
    | bool | string | none | range => simp [form_number, form_bool, form_string, form_none, form_range] at same
  | bool a =>
    cases other with
    | bool b => cases a <;> cases b <;> simp [form_bool, Value.boolText] at same ⊢ <;> exact same
    | number | string | none | range => simp [form_number, form_bool, form_string, form_none, form_range] at same
  | string s =>
    cases other with
    | string t =>
      simp only [form_string, List.append_assoc, List.cons_append, List.nil_append, List.append_right_inj] at same
      obtain ⟨rfl, rests⟩ := Text.quote_append_inj same
      exact ⟨rfl, (List.cons.inj rests).2⟩
    | number | bool | none | range => simp [form_number, form_bool, form_string, form_none, form_range] at same
  | none =>
    cases other with
    | none => exact ⟨rfl, List.append_cancel_left same⟩
    | number | bool | string | range => simp [form_number, form_bool, form_string, form_none, form_range] at same
  | range first last =>
    cases other with
    | range first' last' =>
      simp only [form_range, List.append_assoc, List.append_right_inj] at same
      obtain ⟨rfl, rests⟩ := render_append_inj first first' (Or.inl rfl) same
      obtain ⟨rfl, rfl⟩ := render_append_inj last last' (Or.inr rfl) (List.cons.inj rests).2
      exact ⟨rfl, rfl⟩
    | number | bool | string | none => simp [form_number, form_bool, form_string, form_none, form_range] at same

theorem toldApart_datum : ToldApart Datum where
  flat datum cell := by
    rintro rfl
    cases datum
  starts datum := by
    cases datum with
    | number => exact ⟨'N', _, form_number _, by decide, by decide⟩
    | bool b => exact ⟨'B', _, form_bool b, by decide, by decide⟩
    | string s => exact ⟨'S', _, form_string s, by decide, by decide⟩
    | none => exact ⟨'N', _, form_none, by decide, by decide⟩
    | range => exact ⟨'R', _, form_range _ _, by decide, by decide⟩
  apart datum other same := datum.append_inj other same

end Lumen

/-- A key of the cache identifies the arguments: lists of data with the same key
are as long and show the same trees, whenever and over whichever arrays the keys
were made, and lists of scalars with the same key are the same. -/
theorem Memo.key_identifies (heap heap' : Heap) (args others : List Value) (same : key heap args = key heap' others) :
    ((∀ v ∈ args, heap.MadeOf Lumen.Datum v) → (∀ w ∈ others, heap'.MadeOf Lumen.Datum w) →
      List.Forall₂ (Alike heap heap') args others) ∧
    ((∀ v ∈ args, v.Scalar) → (∀ w ∈ others, w.Scalar) → args = others) := by
  exact ⟨fun made made' => alike_of_key Lumen.toldApart_datum made made' same,
    fun scalars scalars' => eq_of_key scalars scalars' same⟩

theorem Memo.key_identifies_nested :
    let heap : Heap := ⟨#[#[.range 1 3, .string "], Array["], #[.array 0]]⟩
    let heap' : Heap := ⟨#[#[], #[.array 2], #[.range 1 3, .string "], Array["]]⟩
    key heap [.array 1, .number 5] = key heap' [.array 1, .number 5] ∧
      List.Forall₂ (Alike heap heap') [.array 1, .number 5] [.array 1, .number 5] ∧
      ([.int 7, .str "a,"] : List Value) = [.int 7, .str "a,"] := by
  intro heap heap'
  have datum {x : Float} (other : (x == -0.0) = false) : x ≠ -0.0 := by
    rintro rfl
    exact absurd other (by decide +kernel)
  have range : Lumen.Datum (.range 1 3) := .range (datum (by decide +kernel)) (datum (by decide +kernel))
  have number : Lumen.Datum (.number 5) := .number (datum (by decide +kernel))
  have made {heap : Heap} {inner : Nat} (known : inner < heap.cells.size ∧ 1 < heap.cells.size)
      (items : heap.items inner = #[.range 1 3, .string "], Array["] ∧ heap.items 1 = #[.array inner]) :
      ∀ v ∈ ([.array 1, .number 5] : List Value), heap.MadeOf Lumen.Datum v := by
    refine List.forall_mem_cons.2 ⟨?_, List.forall_mem_singleton.2 (.leaf nofun number)⟩
    refine ⟨.node [.node [.leaf (.range 1 3), .leaf (.string "], Array[")]], .node known.2 ?_,
      ⟨⟨range, .string _, trivial⟩, trivial⟩⟩
    rw [items.2]
    refine .cons (.node known.1 ?_) .nil
    rw [items.1]
    exact .cons (.leaf nofun) (.cons (.leaf nofun) .nil)
  have same : key heap [.array 1, .number 5] = key heap' [.array 1, .number 5] := by decide +kernel
  have data := (key_identifies heap heap' _ _ same).1 (made (by decide) ⟨rfl, rfl⟩) (made (by decide) ⟨rfl, rfl⟩)
  have scalars : ∀ v ∈ ([.int 7, .str "a,"] : List Value), v.Scalar := by decide
  exact ⟨same, data, (key_identifies heap heap' [.int 7, .str "a,"] [.int 7, .str "a,"] rfl).2 scalars scalars⟩

end ScriptKernel
