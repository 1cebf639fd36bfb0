/-! Bytes as text: strict reading, and reading that replaces what is not text. -/

namespace ExtensionLock

abbrev Bytes := List UInt8

namespace Text

def bytes (s : String) : Bytes := s.toUTF8.data.toList

def ofBytes? (b : Bytes) : Option String := String.fromUTF8? ⟨b.toArray⟩

theorem bytes_injective {s t : String} (h : bytes s = bytes t) : s = t := by
  have same : s.toUTF8.data = t.toUTF8.data := Array.toList_inj.1 h
  exact String.toByteArray_inj.1 (ByteArray.ext same)

def leadByte (b : Nat) : Option (Nat × Nat × Nat × Nat) :=
  if 0xC2 ≤ b && b ≤ 0xDF then some (1, 0x80, 0xBF, b - 0xC0)
  else if b == 0xE0 then some (2, 0xA0, 0xBF, 0)
  else if b == 0xED then some (2, 0x80, 0x9F, 0xD)
  else if 0xE1 ≤ b && b ≤ 0xEF then some (2, 0x80, 0xBF, b - 0xE0)
  else if b == 0xF0 then some (3, 0x90, 0xBF, 0)
  else if 0xF1 ≤ b && b ≤ 0xF3 then some (3, 0x80, 0xBF, b - 0xF0)
  else if b == 0xF4 then some (3, 0x80, 0x8F, 4)
  else none

def takeContinuation : Nat → Nat → Nat → Nat → List Nat → Nat × Bool × List Nat
  | 0, _, _, bits, rest => (bits, true, rest)
  | _ + 1, _, _, bits, [] => (bits, false, [])
  | count + 1, low, high, bits, b :: rest =>
    if low ≤ b && b ≤ high then takeContinuation count 0x80 0xBF (bits * 64 + (b - 0x80)) rest
    else (bits, false, b :: rest)

theorem takeContinuation_length (count low high bits : Nat) (rest : List Nat) :
    (takeContinuation count low high bits rest).2.2.length ≤ rest.length := by
  induction count generalizing low high bits rest with
  | zero => simp [takeContinuation]
  | succ n ih =>
    cases rest with
    | nil => simp [takeContinuation]
    | cons b rest =>
      simp only [takeContinuation]
      split
      · exact Nat.le_trans (ih _ _ _ _) (Nat.le_succ _)
      · exact Nat.le_refl _

def lossyChars : List Nat → List Char
  | [] => []
  | b :: rest =>
    if b < 0x80 then Char.ofNat b :: lossyChars rest
    else match leadByte b with
      | none => '\uFFFD' :: lossyChars rest
      | some (count, low, high, bits) =>
        let taken := takeContinuation count low high bits rest
        (if taken.2.1 then Char.ofNat taken.1 else '\uFFFD') :: lossyChars taken.2.2
termination_by l => l.length
decreasing_by
  · simp
  · simp
  · exact Nat.lt_succ_of_le (takeContinuation_length _ _ _ _ _)

def ofBytesLossy (b : Bytes) : String :=
  match ofBytes? b with
  | some s => s
  | none => String.ofList (lossyChars (b.map UInt8.toNat))

end Text

end ExtensionLock
