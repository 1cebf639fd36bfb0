import ExtensionLock.Base64
import ExtensionLock.Blake3
import ExtensionLock.Json.Decode

/-! Fingerprints of scripts. In files they are written in base64, in messages in hexadecimal. -/

namespace ExtensionLock

/-- The fingerprint of a script and of all that it loads. -/
structure Digest where
  bytes : Bytes
  deriving DecidableEq, Repr

namespace Digest

def ofContent (content : Bytes) : Digest := ⟨Blake3.hash content⟩

def hexDigit (n : Nat) : Char := if n < 10 then Char.ofNat (48 + n) else Char.ofNat (87 + n)

def hex (d : Digest) : String :=
  String.ofList (d.bytes.flatMap (fun b => [hexDigit (b.toNat / 16), hexDigit (b.toNat % 16)]))

def short (d : Digest) : String := String.ofList (d.hex.toList.take 12)

def base64 (d : Digest) : String := Base64.encode d.bytes

def ofBase64? (s : String) : Option Digest := (Base64.decode? s).map Digest.mk

def debugText (d : Digest) : String := "TransitiveDigest(" ++ d.short ++ ")"

instance : ToString Digest := ⟨hex⟩

def decoder : Decoder Digest := fun o v => do
  match ofBase64? (← Decoder.string o v) with
  | some d => .ok d
  | none => .error .invalidBase64

def toJson (d : Digest) : Json := .string d.base64

def describe (d : Digest) : Json :=
  .object [("hex", .string d.hex), ("short", .string d.short), ("base64", d.toJson),
    ("display", .string (toString d)), ("debug", .string d.debugText),
    ("length", .nat d.bytes.length)]

end Digest

end ExtensionLock
