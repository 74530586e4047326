import Mathlib.Data.List.Lex
import ScriptKernel.Text.Utf8

/-!
Decoding undoes encoding: the bytes of a text are read back as its characters
and nothing is left. What is read of other bytes is the text that they begin
with. The order of texts is the order of their bytes: those of a smaller
character are first different from those of a greater one at a smaller byte, so
comparing two texts byte by byte has the outcome of comparing them character by
character.
-/

namespace ScriptKernel.Text.Utf8

theorem byteArray_toList_loop (bytes : ByteArray) (i : Nat) (done : List UInt8) :
    ByteArray.toList.loop bytes i done = done.reverse ++ bytes.data.toList.drop i := by
  fun_induction ByteArray.toList.loop bytes i done with
  | case1 i done inside ih =>
    have bound : i < bytes.data.toList.length := by simpa using inside
    rw [ih, List.drop_eq_getElem_cons bound]
    simp [ByteArray.get!, inside]
  | case2 i done outside =>
    have past : bytes.data.toList.length ≤ i := by simpa using Nat.le_of_not_lt outside
    rw [List.drop_eq_nil_of_le past, List.append_nil]

theorem encode_ofList (chars : List Char) :
    encode (String.ofList chars) = chars.flatMap String.utf8EncodeChar := by
  rw [encode, String.toUTF8_eq_toByteArray, String.toByteArray_ofList, ByteArray.toList,
    byteArray_toList_loop, List.utf8Encode, List.toList_data_toByteArray]
  rfl

theorem scalar?_toNat {least : Nat} {c : Char} (enough : least ≤ c.toNat) :
    scalar? least c.toNat = some c := by
  rw [scalar?, if_pos ⟨enough, c.valid⟩, Char.ofNat_toNat]

theorem tail?_ofNat {n : Nat} (small : n < 64) : tail? (UInt8.ofNat (n + 0x80)) = some n := by
  have value : (UInt8.ofNat (n + 0x80)).toNat = n + 0x80 := by
    rw [UInt8.toNat_ofNat']
    omega
  have range : 0x80 ≤ UInt8.ofNat (n + 0x80) ∧ UInt8.ofNat (n + 0x80) < 0xc0 := by
    rw [UInt8.le_iff_toNat_le, UInt8.lt_iff_toNat_lt, value]
    change 128 ≤ n + 128 ∧ n + 128 < 192
    omega
  rw [tail?, if_pos range, value]
  simp

theorem first_ofNat {n : Nat} (small : n < 256) :
    (UInt8.ofNat n).toNat = n ∧ ∀ m : UInt8, (UInt8.ofNat n < m ↔ n < m.toNat) := by
  have value : (UInt8.ofNat n).toNat = n := by
    rw [UInt8.toNat_ofNat']
    omega
  refine ⟨value, fun m => ?_⟩
  rw [UInt8.lt_iff_toNat_lt, value]

theorem next?_one {n : Nat} (small : n < 0x80) (rest : List UInt8) :
    next? (UInt8.ofNat n :: rest) = some (Char.ofNat n, rest) := by
  obtain ⟨value, less⟩ := first_ofNat (by omega : n < 256)
  have isOne : UInt8.ofNat n < 0x80 := (less 0x80).2 small
  unfold next?
  simp only [if_pos isOne, value]

theorem next?_two {c : Char} (least : 0x80 ≤ c.toNat) (most : c.toNat ≤ 0x7ff) (rest : List UInt8) :
    next? (UInt8.ofNat (c.toNat / 64 % 0x20 + 0xc0) :: UInt8.ofNat (c.toNat % 0x40 + 0x80) :: rest) =
      some (c, rest) := by
  obtain ⟨value, less⟩ := first_ofNat (by omega : c.toNat / 64 % 0x20 + 0xc0 < 256)
  have above (m : UInt8) (bound : m.toNat ≤ 0xc0) : ¬UInt8.ofNat (c.toNat / 64 % 0x20 + 0xc0) < m := by
    rw [less m]
    omega
  have isTwo : UInt8.ofNat (c.toNat / 64 % 0x20 + 0xc0) < 0xe0 :=
    (less 0xe0).2 (by change _ < 224; omega)
  have code : (c.toNat / 64 % 0x20 + 0xc0 - 0xc0) * 64 + c.toNat % 0x40 = c.toNat := by omega
  unfold next?
  simp only [if_neg (above 0x80 (by decide)), if_neg (above 0xc0 (by decide)), if_pos isTwo,
    tail?_ofNat (Nat.mod_lt c.toNat (by decide : 0 < 64)), value, Option.bind_eq_bind, Option.bind_some, code,
    scalar?_toNat least]

theorem next?_three {c : Char} (least : 0x800 ≤ c.toNat) (most : c.toNat ≤ 0xffff) (rest : List UInt8) :
    next? (UInt8.ofNat (c.toNat / 4096 % 0x10 + 0xe0) :: UInt8.ofNat (c.toNat / 64 % 0x40 + 0x80) ::
      UInt8.ofNat (c.toNat % 0x40 + 0x80) :: rest) = some (c, rest) := by
  obtain ⟨value, less⟩ := first_ofNat (by omega : c.toNat / 4096 % 0x10 + 0xe0 < 256)
  have above (m : UInt8) (bound : m.toNat ≤ 0xe0) : ¬UInt8.ofNat (c.toNat / 4096 % 0x10 + 0xe0) < m := by
    rw [less m]
    omega
  have isThree : UInt8.ofNat (c.toNat / 4096 % 0x10 + 0xe0) < 0xf0 :=
    (less 0xf0).2 (by change _ < 240; omega)
  have code : ((c.toNat / 4096 % 0x10 + 0xe0 - 0xe0) * 64 + c.toNat / 64 % 0x40) * 64 + c.toNat % 0x40 =
      c.toNat := by omega
  have part (n : Nat) : tail? (UInt8.ofNat (n % 0x40 + 0x80)) = some (n % 0x40) :=
    tail?_ofNat (Nat.mod_lt n (by decide : 0 < 64))
  unfold next?
  simp only [if_neg (above 0x80 (by decide)), if_neg (above 0xc0 (by decide)), if_neg (above 0xe0 (by decide)),
    if_pos isThree, part, value, Option.bind_eq_bind, Option.bind_some, code, scalar?_toNat least]

theorem next?_four {c : Char} (least : 0x10000 ≤ c.toNat) (most : c.toNat < 0x110000) (rest : List UInt8) :
    next? (UInt8.ofNat (c.toNat / 262144 % 0x08 + 0xf0) :: UInt8.ofNat (c.toNat / 4096 % 0x40 + 0x80) ::
      UInt8.ofNat (c.toNat / 64 % 0x40 + 0x80) :: UInt8.ofNat (c.toNat % 0x40 + 0x80) :: rest) =
      some (c, rest) := by
  obtain ⟨value, less⟩ := first_ofNat (by omega : c.toNat / 262144 % 0x08 + 0xf0 < 256)
  have above (m : UInt8) (bound : m.toNat ≤ 0xf0) : ¬UInt8.ofNat (c.toNat / 262144 % 0x08 + 0xf0) < m := by
    rw [less m]
    omega
  have isFour : UInt8.ofNat (c.toNat / 262144 % 0x08 + 0xf0) < 0xf8 :=
    (less 0xf8).2 (by change _ < 248; omega)
  have code : (((c.toNat / 262144 % 0x08 + 0xf0 - 0xf0) * 64 + c.toNat / 4096 % 0x40) * 64 +
      c.toNat / 64 % 0x40) * 64 + c.toNat % 0x40 = c.toNat := by omega
  have part (n : Nat) : tail? (UInt8.ofNat (n % 0x40 + 0x80)) = some (n % 0x40) :=
    tail?_ofNat (Nat.mod_lt n (by decide : 0 < 64))
  unfold next?
  simp only [if_neg (above 0x80 (by decide)), if_neg (above 0xc0 (by decide)), if_neg (above 0xe0 (by decide)),
    if_neg (above 0xf0 (by decide)), if_pos isFour, part, value, Option.bind_eq_bind, Option.bind_some, code,
    scalar?_toNat least]

theorem toNat_lt (c : Char) : c.toNat < 0x110000 := by
  have valid := c.valid
  change c.toNat < 0xd800 ∨ (0xdfff < c.toNat ∧ c.toNat < 0x110000) at valid
  omega

theorem next?_encodeChar (c : Char) (rest : List UInt8) :
    next? (String.utf8EncodeChar c ++ rest) = some (c, rest) := by
  unfold String.utf8EncodeChar
  change next? ((if c.toNat ≤ 0x7f then _ else if c.toNat ≤ 0x7ff then _ else if c.toNat ≤ 0xffff then _
    else _) ++ rest) = _
  by_cases one : c.toNat ≤ 0x7f
  · rw [if_pos one]
    have read := next?_one (by omega : c.toNat < 0x80) rest
    rwa [Char.ofNat_toNat] at read
  rw [if_neg one]
  by_cases two : c.toNat ≤ 0x7ff
  · rw [if_pos two]
    exact next?_two (by omega) two rest
  rw [if_neg two]
  by_cases three : c.toNat ≤ 0xffff
  · rw [if_pos three]
    exact next?_three (by omega) three rest
  · rw [if_neg three]
    exact next?_four (by omega) (toNat_lt c) rest

theorem decode_encode (chars : List Char) : decode (encode (String.ofList chars)) = (chars, []) := by
  rw [encode_ofList]
  induction chars with
  | nil =>
    rw [List.flatMap_nil, decode]
    rfl
  | cons c chars ih =>
    rw [List.flatMap_cons, decode]
    split
    · next none => rw [next?_encodeChar] at none; cases none
    · next d rest read =>
      rw [next?_encodeChar] at read
      cases read
      rw [ih]

theorem encode_inj {s t : String} : encode s = encode t ↔ s = t := by
  constructor
  · intro same
    have read := decode_encode s.toList
    rw [String.ofList_toList, same, ← String.ofList_toList (s := t), decode_encode] at read
    rw [← String.toList_inj]
    exact (congrArg Prod.fst read).symm
  · rintro rfl
    rfl

theorem tail?_eq_some {byte : UInt8} {x : Nat} (read : tail? byte = some x) :
    x < 64 ∧ UInt8.ofNat (x + 0x80) = byte := by
  unfold tail? at read
  split at read
  next range =>
    obtain ⟨least, most⟩ := range
    rw [UInt8.le_iff_toNat_le] at least
    rw [UInt8.lt_iff_toNat_lt] at most
    change 128 ≤ byte.toNat at least
    change byte.toNat < 192 at most
    have value : byte.toNat - 128 = x := Option.some.inj read
    refine ⟨by omega, ?_⟩
    rw [UInt8.ofNat_eq_iff_mod_eq_toNat]
    omega
  next => cases read

theorem toNat_ofNat {n : Nat} (valid : n.isValidChar) : (Char.ofNat n).toNat = n := by
  unfold Char.ofNat
  rw [dif_pos valid]
  rfl

theorem scalar?_eq_some {least code : Nat} {c : Char} (read : scalar? least code = some c) :
    least ≤ c.toNat ∧ c.toNat = code := by
  unfold scalar? at read
  split at read
  next range =>
    cases read
    have same : (Char.ofNat code).toNat = code := toNat_ofNat range.2
    rw [same]
    exact ⟨range.1, rfl⟩
  next => cases read

theorem encodeChar_one {a : UInt8} (small : a < 0x80) :
    String.utf8EncodeChar (Char.ofNat a.toNat) = [a] := by
  rw [UInt8.lt_iff_toNat_lt] at small
  change a.toNat < 128 at small
  have valid : a.toNat.isValidChar := Or.inl (by omega)
  have same : (Char.ofNat a.toNat).toNat = a.toNat := toNat_ofNat valid
  have low : (Char.ofNat a.toNat).val.toNat ≤ 127 := by
    show (Char.ofNat a.toNat).toNat ≤ 127
    omega
  rw [String.utf8EncodeChar]
  simp only [if_pos low]
  show [UInt8.ofNat (Char.ofNat a.toNat).toNat] = [a]
  rw [same, UInt8.ofNat_toNat]

theorem encodeChar_two {c : Char} {a b : UInt8} {x : Nat} (least : 0xc0 ≤ a) (most : a < 0xe0)
    (second : tail? b = some x) (read : scalar? 0x80 ((a.toNat - 0xc0) * 64 + x) = some c) :
    String.utf8EncodeChar c = [a, b] := by
  obtain ⟨small, rfl⟩ := tail?_eq_some second
  obtain ⟨wide, code⟩ := scalar?_eq_some read
  rw [UInt8.le_iff_toNat_le] at least
  rw [UInt8.lt_iff_toNat_lt] at most
  change 192 ≤ a.toNat at least
  change a.toNat < 224 at most
  have value : c.val.toNat = (a.toNat - 192) * 64 + x := code
  have first : UInt8.ofNat (c.val.toNat / 64 % 32 + 192) = a := by
    rw [UInt8.ofNat_eq_iff_mod_eq_toNat]
    omega
  have last : c.val.toNat % 64 = x := by omega
  change 128 ≤ c.val.toNat at wide
  rw [String.utf8EncodeChar]
  simp only [if_neg (by omega : ¬c.val.toNat ≤ 127), if_pos (by omega : c.val.toNat ≤ 2047), first, last]

theorem encodeChar_three {c : Char} {a b d : UInt8} {x y : Nat} (least : 0xe0 ≤ a) (most : a < 0xf0)
    (second : tail? b = some x) (third : tail? d = some y)
    (read : scalar? 0x800 (((a.toNat - 0xe0) * 64 + x) * 64 + y) = some c) :
    String.utf8EncodeChar c = [a, b, d] := by
  obtain ⟨small, rfl⟩ := tail?_eq_some second
  obtain ⟨small', rfl⟩ := tail?_eq_some third
  obtain ⟨wide, code⟩ := scalar?_eq_some read
  rw [UInt8.le_iff_toNat_le] at least
  rw [UInt8.lt_iff_toNat_lt] at most
  change 224 ≤ a.toNat at least
  change a.toNat < 240 at most
  have value : c.val.toNat = ((a.toNat - 224) * 64 + x) * 64 + y := code
  have first : UInt8.ofNat (c.val.toNat / 4096 % 16 + 224) = a := by
    rw [UInt8.ofNat_eq_iff_mod_eq_toNat]
    omega
  have middle : c.val.toNat / 64 % 64 = x := by omega
  have last : c.val.toNat % 64 = y := by omega
  change 2048 ≤ c.val.toNat at wide
  rw [String.utf8EncodeChar]
  simp only [if_neg (by omega : ¬c.val.toNat ≤ 127), if_neg (by omega : ¬c.val.toNat ≤ 2047),
    if_pos (by omega : c.val.toNat ≤ 65535), first, middle, last]

theorem encodeChar_four {c : Char} {a b d e : UInt8} {x y z : Nat} (least : 0xf0 ≤ a) (most : a < 0xf8)
    (second : tail? b = some x) (third : tail? d = some y) (fourth : tail? e = some z)
    (read : scalar? 0x10000 ((((a.toNat - 0xf0) * 64 + x) * 64 + y) * 64 + z) = some c) :
    String.utf8EncodeChar c = [a, b, d, e] := by
  obtain ⟨small, rfl⟩ := tail?_eq_some second
  obtain ⟨small', rfl⟩ := tail?_eq_some third
  obtain ⟨small'', rfl⟩ := tail?_eq_some fourth
  obtain ⟨wide, code⟩ := scalar?_eq_some read
  rw [UInt8.le_iff_toNat_le] at least
  rw [UInt8.lt_iff_toNat_lt] at most
  change 240 ≤ a.toNat at least
  change a.toNat < 248 at most
  have value : c.val.toNat = (((a.toNat - 240) * 64 + x) * 64 + y) * 64 + z := code
  have first : UInt8.ofNat (c.val.toNat / 262144 % 8 + 240) = a := by
    rw [UInt8.ofNat_eq_iff_mod_eq_toNat]
    omega
  have middle : c.val.toNat / 4096 % 64 = x := by omega
  have middle' : c.val.toNat / 64 % 64 = y := by omega
  have last : c.val.toNat % 64 = z := by omega
  change 65536 ≤ c.val.toNat at wide
  rw [String.utf8EncodeChar]
  simp only [if_neg (by omega : ¬c.val.toNat ≤ 127), if_neg (by omega : ¬c.val.toNat ≤ 2047),
    if_neg (by omega : ¬c.val.toNat ≤ 65535), first, middle, middle', last]

theorem next?_eq_some_iff {bytes rest : List UInt8} {c : Char} :
    next? bytes = some (c, rest) ↔ bytes = String.utf8EncodeChar c ++ rest := by
  constructor
  · intro read
    cases bytes with
    | nil => cases read
    | cons a tail =>
      simp only [next?] at read
      split at read
      · next small =>
        cases read
        rw [encodeChar_one small]
        rfl
      split at read
      · cases read
      split at read
      · next _ least most =>
        split at read
        · simp only [Option.bind_eq_bind, Option.bind_eq_some_iff, Option.some.injEq, Prod.mk.injEq] at read
          obtain ⟨x, second, _, scalar, rfl, rfl⟩ := read
          rw [encodeChar_two (UInt8.not_lt.1 least) most second scalar]
          rfl
        · cases read
      split at read
      · next _ _ least most =>
        split at read
        · simp only [Option.bind_eq_bind, Option.bind_eq_some_iff, Option.some.injEq, Prod.mk.injEq] at read
          obtain ⟨x, second, y, third, _, scalar, rfl, rfl⟩ := read
          rw [encodeChar_three (UInt8.not_lt.1 least) most second third scalar]
          rfl
        · cases read
      split at read
      · next _ _ _ least most =>
        split at read
        · simp only [Option.bind_eq_bind, Option.bind_eq_some_iff, Option.some.injEq, Prod.mk.injEq] at read
          obtain ⟨x, second, y, third, z, fourth, _, scalar, rfl, rfl⟩ := read
          rw [encodeChar_four (UInt8.not_lt.1 least) most second third fourth scalar]
          rfl
        · cases read
      · cases read
  · rintro rfl
    exact next?_encodeChar c rest

theorem decode_eq {bytes left : List UInt8} {chars : List Char} (decoded : decode bytes = (chars, left)) :
    bytes = chars.flatMap String.utf8EncodeChar ++ left ∧ ∀ c rest, left ≠ String.utf8EncodeChar c ++ rest := by
  induction chars generalizing bytes with
  | nil =>
    rw [decode] at decoded
    split at decoded
    next none =>
      cases decoded
      refine ⟨rfl, fun c rest same => ?_⟩
      rw [next?_eq_some_iff.2 same] at none
      cases none
    next => cases decoded
  | cons c chars ih =>
    rw [decode] at decoded
    split at decoded
    next => cases decoded
    next d rest read =>
      obtain ⟨same, stuck⟩ := @ih rest (by cases decoded; rfl)
      cases decoded
      refine ⟨?_, stuck⟩
      rw [next?_eq_some_iff.1 read, List.flatMap_cons, List.append_assoc, ← same]

theorem encode_eq (text : String) : encode text = text.toList.flatMap String.utf8EncodeChar := by
  rw [← encode_ofList, String.ofList_toList]

theorem length_encode (text : String) : (encode text).length = text.utf8ByteSize := by
  rw [encode, String.toUTF8_eq_toByteArray, ByteArray.toList, byteArray_toList_loop, List.reverse_nil,
    List.nil_append, List.drop_zero, ← String.size_toByteArray]
  rfl

theorem encoded_prefix {first second : List Char} :
    first.flatMap String.utf8EncodeChar <+: second.flatMap String.utf8EncodeChar ↔ first <+: second := by
  constructor
  · intro starts
    induction first generalizing second with
    | nil => exact List.nil_prefix
    | cons c first ih =>
      obtain ⟨rest, same⟩ := starts
      rw [List.flatMap_cons, List.append_assoc] at same
      have read := next?_eq_some_iff.2 same.symm
      cases second with
      | nil => exact nomatch read
      | cons d second =>
        rw [List.flatMap_cons, next?_encodeChar, Option.some.injEq, Prod.mk.injEq] at read
        obtain ⟨rfl, behind⟩ := read
        exact (List.prefix_cons_inj d).2 (ih ⟨rest, behind.symm⟩)
  · rintro ⟨rest, rfl⟩
    rw [List.flatMap_append]
    exact List.prefix_append _ _

theorem encode_append (first second : List Char) :
    encode (String.ofList first) ++ encode (String.ofList second) = encode (String.ofList (first ++ second)) := by
  simp only [encode_ofList, List.flatMap_append]

theorem eq_newline_of_encodeChar {c : Char} (last : (String.utf8EncodeChar c).getLast? = some 10) : c = '\n' := by
  have continuation (n : Nat) : UInt8.ofNat (n % 64 + 128) ≠ 10 := by
    intro same
    have values : (n % 64 + 128) % 256 = 10 := congrArg UInt8.toNat same
    omega
  unfold String.utf8EncodeChar at last
  dsimp only at last
  split at last
  next small =>
    have same : UInt8.ofNat c.val.toNat = 10 := by simpa using last
    have values : c.val.toNat % 256 = 10 := congrArg UInt8.toNat same
    have code : c.val.toNat = 10 := by omega
    exact Char.ext (UInt32.toNat_inj.1 code)
  next =>
    split at last
    · exact absurd (Option.some.inj last) (continuation _)
    · split at last
      · exact absurd (Option.some.inj last) (continuation _)
      · exact absurd (Option.some.inj last) (continuation _)

theorem eq_append_newline {text : List Char} (last : (encode (String.ofList text)).getLast? = some 10) :
    ∃ front, text = front ++ ['\n'] := by
  rw [encode_ofList] at last
  rcases List.eq_nil_or_concat text with rfl | ⟨front, c, rfl⟩
  · cases last
  · rw [List.concat_eq_append] at last ⊢
    have nonempty : String.utf8EncodeChar c ≠ [] := String.utf8EncodeChar_ne_nil
    have same : ((front ++ [c]).flatMap String.utf8EncodeChar).getLast? = (String.utf8EncodeChar c).getLast? := by
      rw [List.flatMap_append, List.flatMap_singleton, List.getLast?_append, List.getLast?_eq_some_getLast nonempty]
      rfl
    rw [same] at last
    exact ⟨front, by rw [eq_newline_of_encodeChar last]⟩

theorem ofNat_lt_iff {m n : Nat} (small : m < 256) (small' : n < 256) :
    UInt8.ofNat m < UInt8.ofNat n ↔ m < n := by
  rw [(first_ofNat small).2, (first_ofNat small').1]

theorem ofNat_eq_iff {m n : Nat} (small : m < 256) (small' : n < 256) :
    UInt8.ofNat m = UInt8.ofNat n ↔ m = n := by
  rw [← UInt8.toNat_inj, (first_ofNat small).1, (first_ofNat small').1]

theorem bytes_lt_iff {m n : Nat} (small : m < 256) (small' : n < 256) {xs ys : List UInt8} :
    UInt8.ofNat m :: xs < UInt8.ofNat n :: ys ↔ m < n ∨ m = n ∧ xs < ys := by
  rw [List.cons_lt_cons_iff, ofNat_lt_iff small small', ofNat_eq_iff small small']

theorem encodeChar_forms (c : Char) :
    c.toNat ≤ 0x7f ∧ String.utf8EncodeChar c = [UInt8.ofNat c.toNat] ∨
    (0x7f < c.toNat ∧ c.toNat ≤ 0x7ff) ∧ String.utf8EncodeChar c =
      [UInt8.ofNat (c.toNat / 64 % 0x20 + 0xc0), UInt8.ofNat (c.toNat % 0x40 + 0x80)] ∨
    (0x7ff < c.toNat ∧ c.toNat ≤ 0xffff) ∧ String.utf8EncodeChar c =
      [UInt8.ofNat (c.toNat / 4096 % 0x10 + 0xe0), UInt8.ofNat (c.toNat / 64 % 0x40 + 0x80),
        UInt8.ofNat (c.toNat % 0x40 + 0x80)] ∨
    (0xffff < c.toNat ∧ c.toNat < 0x110000) ∧ String.utf8EncodeChar c =
      [UInt8.ofNat (c.toNat / 262144 % 0x08 + 0xf0), UInt8.ofNat (c.toNat / 4096 % 0x40 + 0x80),
        UInt8.ofNat (c.toNat / 64 % 0x40 + 0x80), UInt8.ofNat (c.toNat % 0x40 + 0x80)] := by
  by_cases one : c.toNat ≤ 0x7f
  · exact Or.inl ⟨one, if_pos one⟩
  by_cases two : c.toNat ≤ 0x7ff
  · exact Or.inr (Or.inl ⟨⟨by omega, two⟩, (if_neg one).trans (if_pos two)⟩)
  by_cases three : c.toNat ≤ 0xffff
  · exact Or.inr (Or.inr (Or.inl ⟨⟨by omega, three⟩, (if_neg one).trans ((if_neg two).trans (if_pos three))⟩))
  · exact Or.inr (Or.inr (Or.inr ⟨⟨by omega, toNat_lt c⟩, (if_neg one).trans ((if_neg two).trans (if_neg three))⟩))

theorem digits_lt {m n : Nat} (less : m < n) : m / 64 < n / 64 ∨ m / 64 = n / 64 ∧ m % 64 < n % 64 := by
  omega

theorem encodeChar_lt {c d : Char} (less : c < d) (xs ys : List UInt8) :
    String.utf8EncodeChar c ++ xs < String.utf8EncodeChar d ++ ys := by
  have smaller : c.toNat < d.toNat := less
  have last := digits_lt smaller
  have middle (apart : c.toNat / 64 < d.toNat / 64) := digits_lt apart
  have first (apart : c.toNat / 64 / 64 < d.toNat / 64 / 64) := digits_lt apart
  have small := toNat_lt d
  have few : c.toNat / 262144 % 8 = c.toNat / 262144 ∧ d.toNat / 262144 % 8 = d.toNat / 262144 := by omega
  simp only [Nat.div_div_eq_div_mul] at middle first
  rcases encodeChar_forms c with ⟨range, form⟩ | ⟨range, form⟩ | ⟨range, form⟩ | ⟨range, form⟩ <;>
    rcases encodeChar_forms d with ⟨range', form'⟩ | ⟨range', form'⟩ | ⟨range', form'⟩ | ⟨range', form'⟩ <;>
    rw [form, form'] <;>
    simp (disch := omega) only [List.cons_append, bytes_lt_iff] <;>
    omega

theorem flatMap_lt_of_lt {s t : List Char} (less : s < t) :
    s.flatMap String.utf8EncodeChar < t.flatMap String.utf8EncodeChar := by
  induction less with
  | @nil c rest =>
    rw [List.flatMap_nil, List.flatMap_cons]
    obtain ⟨x, xs, bytes⟩ := List.exists_cons_of_ne_nil (String.utf8EncodeChar_ne_nil (c := c))
    rw [bytes, List.cons_append]
    exact List.nil_lt_cons _ _
  | cons rest ih =>
    rw [List.flatMap_cons, List.flatMap_cons]
    exact List.Lex.append_left _ ih _
  | rel first =>
    rw [List.flatMap_cons, List.flatMap_cons]
    exact encodeChar_lt first _ _

theorem lt_iff_encode_lt (s t : String) : s < t ↔ encode s < encode t := by
  rw [String.lt_iff, encode_eq, encode_eq]
  constructor
  · exact flatMap_lt_of_lt
  · intro less
    rcases Std.lt_trichotomy s.toList t.toList with below | same | above
    · exact below
    · rw [same] at less
      exact absurd less (List.lt_irrefl _)
    · exact absurd (flatMap_lt_of_lt above) (List.lt_asymm less)

end ScriptKernel.Text.Utf8
