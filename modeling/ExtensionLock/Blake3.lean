import ExtensionLock.Text.Utf8

/-! The BLAKE3 hash of a byte string, with its default 32 bytes of output. The input is cut into
chunks of 1024 bytes, each chunk is hashed on its own, and the results are joined by a binary
tree whose left parts are full. -/

namespace ExtensionLock.Blake3

abbrev Chain := Vector UInt32 8

abbrev Block := Vector UInt32 16

def initial : Chain :=
  #v[0x6A09E667, 0xBB67AE85, 0x3C6EF372, 0xA54FF53A, 0x510E527F, 0x9B05688C, 0x1F83D9AB, 0x5BE0CD19]

def chunkStart : UInt32 := 1
def chunkEnd : UInt32 := 2
def parentNode : UInt32 := 4
def rootNode : UInt32 := 8

def rotate (x n : UInt32) : UInt32 := (x >>> n) ||| (x <<< (32 - n))

def mix (v : Block) (a b c d : Fin 16) (x y : UInt32) : Block :=
  let va := v[a] + v[b] + x
  let vd := rotate (v[d] ^^^ va) 16
  let vc := v[c] + vd
  let vb := rotate (v[b] ^^^ vc) 12
  let va := va + vb + y
  let vd := rotate (vd ^^^ va) 8
  let vc := vc + vd
  let vb := rotate (vb ^^^ vc) 7
  (((v.set a va).set b vb).set c vc).set d vd

def round (v m : Block) : Block :=
  let v := mix v 0 4 8 12 m[0] m[1]
  let v := mix v 1 5 9 13 m[2] m[3]
  let v := mix v 2 6 10 14 m[4] m[5]
  let v := mix v 3 7 11 15 m[6] m[7]
  let v := mix v 0 5 10 15 m[8] m[9]
  let v := mix v 1 6 11 12 m[10] m[11]
  let v := mix v 2 7 8 13 m[12] m[13]
  mix v 3 4 9 14 m[14] m[15]

def permute (m : Block) : Block :=
  #v[m[2], m[6], m[3], m[10], m[7], m[0], m[4], m[13], m[1], m[11], m[12], m[5], m[9], m[14], m[15],
    m[8]]

def rounds : Nat → Block → Block → Block
  | 0, v, _ => v
  | n + 1, v, m => rounds n (round v m) (permute m)

def compress (chain : Chain) (block : Block) (counter : Nat) (length flags : UInt32) : Chain :=
  let v : Block := #v[chain[0], chain[1], chain[2], chain[3],
    chain[4], chain[5], chain[6], chain[7],
    initial[0], initial[1], initial[2], initial[3],
    UInt32.ofNat counter, UInt32.ofNat (counter / UInt32.size), length, flags]
  let v := rounds 7 v block
  Vector.ofFn (fun (i : Fin 8) => v[i.val] ^^^ v[i.val + 8])

def pieces (size : Nat) (l : List UInt8) : List (List UInt8) :=
  if size = 0 ∨ l.drop size = [] then [l]
  else l.take size :: pieces size (l.drop size)
termination_by l.length
decreasing_by
  simp_all only [not_or, List.drop_eq_nil_iff, Nat.not_le, List.length_drop]
  omega

def blockOf (bytes : List UInt8) : Block :=
  let a := bytes.toArray
  let byte := fun (i : Nat) => (a.getD i 0).toUInt32
  Vector.ofFn (fun (i : Fin 16) => byte (4 * i) ||| (byte (4 * i + 1) <<< 8) |||
    (byte (4 * i + 2) <<< 16) ||| (byte (4 * i + 3) <<< 24))

def chunkBlocks (counter : Nat) (last : UInt32) : Chain → UInt32 → List (List UInt8) → Chain
  | chain, _, [] => chain
  | chain, start, [block] =>
    compress chain (blockOf block) counter (UInt32.ofNat block.length) (start ||| chunkEnd ||| last)
  | chain, start, block :: rest =>
    chunkBlocks counter last
      (compress chain (blockOf block) counter (UInt32.ofNat block.length) start) 0 rest

def chunk (counter : Nat) (last : UInt32) (bytes : List UInt8) : Chain :=
  chunkBlocks counter last initial chunkStart (pieces 64 bytes)

def parent (left right : Chain) (extra : UInt32) : Chain :=
  compress initial (left ++ right) 0 64 (parentNode ||| extra)

/-- The tree over some chunks, of which the first has the given number. The left subtree is the
largest full one that leaves something for the right. -/
def tree (counter : Nat) (extra : UInt32) (chunks : List (List UInt8)) : Chain :=
  match chunks with
  | [] => initial
  | [only] => chunk counter extra only
  | first :: second :: rest =>
    let left := Nat.pow 2 (Nat.log2 (rest.length + 1))
    parent (tree counter 0 ((first :: second :: rest).take left))
      (tree (counter + left) 0 ((first :: second :: rest).drop left)) extra
termination_by chunks.length
decreasing_by
  · have : Nat.pow 2 (Nat.log2 (rest.length + 1)) ≤ rest.length + 1 :=
      Nat.log2_self_le (by omega)
    simp only [List.length_take, List.length_cons]
    omega
  · have : 0 < Nat.pow 2 (Nat.log2 (rest.length + 1)) := Nat.two_pow_pos _
    simp only [List.length_drop, List.length_cons]
    omega

def wordBytes (w : UInt32) : List UInt8 :=
  [w.toUInt8, (w >>> 8).toUInt8, (w >>> 16).toUInt8, (w >>> 24).toUInt8]

def hash (input : Bytes) : Bytes :=
  (tree 0 rootNode (pieces 1024 input)).toList.flatMap wordBytes

end ExtensionLock.Blake3
