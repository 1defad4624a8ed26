import AttestedKey.Cbor.Float
import AttestedKey.Cbor.Item
import AttestedKey.Utf8

/-! Writing a data item: minimal heads, definite lengths, map entries in their order, null for null
and undefined, and the shortest floating point width that keeps the number. -/

namespace AttestedKey.Cbor

def writeHead (major n : Nat) : Octets :=
  let lead (info : Nat) : UInt8 := UInt8.ofNat (major * 32 + info)
  if n < 24 then [lead n]
  else if n < 0x100 then lead 24 :: Octets.ofNat 1 n
  else if n < 0x10000 then lead 25 :: Octets.ofNat 2 n
  else if n < 0x100000000 then lead 26 :: Octets.ofNat 4 n
  else lead 27 :: Octets.ofNat 8 n

def writeFloat (bits : Nat) : Octets :=
  match FloatFormat.half.narrow? bits with
  | some n => 0xF9 :: Octets.ofNat 2 n
  | none =>
    match FloatFormat.single.narrow? bits with
    | some n => 0xFA :: Octets.ofNat 4 n
    | none => 0xFB :: Octets.ofNat 8 bits

theorem sizeOf_fst_lt {es : List (Item × Item)} {e : Item × Item} (h : e ∈ es) :
    sizeOf e.1 < sizeOf es := by
  have := List.sizeOf_lt_of_mem h
  rcases e with ⟨k, v⟩
  simp only [Prod.mk.sizeOf_spec] at this ⊢
  omega

theorem sizeOf_snd_lt {es : List (Item × Item)} {e : Item × Item} (h : e ∈ es) :
    sizeOf e.2 < sizeOf es := by
  have := List.sizeOf_lt_of_mem h
  rcases e with ⟨k, v⟩
  simp only [Prod.mk.sizeOf_spec] at this ⊢
  omega

def write : Item → Octets
  | .unsigned n => writeHead 0 n.toNat
  | .negative n => writeHead 1 n.toNat
  | .bytes b => writeHead 2 b.length ++ b
  | .text s => writeHead 3 (Utf8.encode s).length ++ Utf8.encode s
  | .array xs => writeHead 4 xs.length ++ xs.attach.flatMap fun ⟨x, _⟩ => write x
  | .map es => writeHead 5 es.length ++ es.attach.flatMap fun ⟨e, _⟩ => write e.1 ++ write e.2
  | .tagged number x => writeHead 6 number.toNat ++ write x
  | .bool false => [0xF4]
  | .bool true => [0xF5]
  | .null => [0xF6]
  | .float bits => writeFloat bits.toNat
termination_by i => sizeOf i
decreasing_by
  · have := List.sizeOf_lt_of_mem ‹_›
    simp only [Item.array.sizeOf_spec]
    omega
  · have := sizeOf_fst_lt ‹_›
    simp only [Item.map.sizeOf_spec]
    omega
  · have := sizeOf_snd_lt ‹_›
    simp only [Item.map.sizeOf_spec]
    omega
  · simp only [Item.tagged.sizeOf_spec]
    omega

theorem write_array (xs : List Item) :
    write (.array xs) = writeHead 4 xs.length ++ xs.flatMap write := by
  rw [write]
  simp

theorem write_map (es : List (Item × Item)) :
    write (.map es) = writeHead 5 es.length ++ es.flatMap fun e => write e.1 ++ write e.2 := by
  rw [write,
    List.flatMap_subtype (g := fun e : Item × Item => write e.1 ++ write e.2) fun _ _ => rfl,
    List.unattach_attach]

end AttestedKey.Cbor
