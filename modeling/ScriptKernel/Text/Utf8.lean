/-!
Reading bytes as UTF-8. `decode` splits its input into the characters of the
longest valid beginning and the bytes that are left, so input is valid exactly
when nothing is left, and otherwise the first byte left is where no character
starts.
-/

namespace ScriptKernel.Text.Utf8

def tail? (byte : UInt8) : Option Nat :=
  if 0x80 ≤ byte ∧ byte < 0xc0 then some (byte.toNat - 0x80) else none

/-- A code point of at least `least`, which rules out longer forms than
needed, and no surrogate. -/
def scalar? (least code : Nat) : Option Char :=
  if least ≤ code ∧ code.isValidChar then some (Char.ofNat code) else none

def next? : List UInt8 → Option (Char × List UInt8)
  | [] => none
  | a :: rest =>
    if a < 0x80 then some (Char.ofNat a.toNat, rest)
    else if a < 0xc0 then none
    else if a < 0xe0 then
      match rest with
      | b :: rest => do
        let x ← tail? b
        let c ← scalar? 0x80 ((a.toNat - 0xc0) * 64 + x)
        some (c, rest)
      | _ => none
    else if a < 0xf0 then
      match rest with
      | b :: c :: rest => do
        let x ← tail? b
        let y ← tail? c
        let c ← scalar? 0x800 (((a.toNat - 0xe0) * 64 + x) * 64 + y)
        some (c, rest)
      | _ => none
    else if a < 0xf8 then
      match rest with
      | b :: c :: d :: rest => do
        let x ← tail? b
        let y ← tail? c
        let z ← tail? d
        let c ← scalar? 0x10000 ((((a.toNat - 0xf0) * 64 + x) * 64 + y) * 64 + z)
        some (c, rest)
      | _ => none
    else none

theorem next?_length_lt {bytes rest : List UInt8} {c : Char}
    (read : next? bytes = some (c, rest)) : rest.length < bytes.length := by
  cases bytes with
  | nil => simp [next?] at read
  | cons a tail =>
    simp only [next?] at read
    split at read
    · simp only [Option.some.injEq, Prod.mk.injEq] at read
      simp [read.2]
    split at read
    · simp at read
    split at read
    · split at read
      · simp only [Option.bind_eq_bind, Option.bind_eq_some_iff, Option.some.injEq,
          Prod.mk.injEq] at read
        obtain ⟨_, _, _, _, _, same⟩ := read
        simp only [same, List.length_cons]
        omega
      · simp at read
    split at read
    · split at read
      · simp only [Option.bind_eq_bind, Option.bind_eq_some_iff, Option.some.injEq,
          Prod.mk.injEq] at read
        obtain ⟨_, _, _, _, _, _, _, same⟩ := read
        simp only [same, List.length_cons]
        omega
      · simp at read
    split at read
    · split at read
      · simp only [Option.bind_eq_bind, Option.bind_eq_some_iff, Option.some.injEq,
          Prod.mk.injEq] at read
        obtain ⟨_, _, _, _, _, _, _, _, _, same⟩ := read
        simp only [same, List.length_cons]
        omega
      · simp at read
    · simp at read

def decode (bytes : List UInt8) : List Char × List UInt8 :=
  match _read : next? bytes with
  | none => ([], bytes)
  | some (c, rest) =>
    let (chars, left) := decode rest
    (c :: chars, left)
termination_by bytes.length
decreasing_by exact next?_length_lt ‹_›

def encode (text : String) : List UInt8 :=
  text.toUTF8.toList

/-- The text of bytes known to be valid; what cannot be read becomes the
replacement character, byte by byte. -/
def lossy (bytes : List UInt8) : List Char :=
  match _read : next? bytes with
  | some (c, rest) => c :: lossy rest
  | none =>
    match bytes with
    | [] => []
    | _ :: rest => '\uFFFD' :: lossy rest
termination_by bytes.length
decreasing_by
  · exact next?_length_lt ‹_›
  · simp

end ScriptKernel.Text.Utf8
