import AttestedKey.Octets

/-! The hash functions that certificate signatures use: SHA-1 and the SHA-2 family. A message is
padded to whole blocks, each block gives a schedule of words, and the state takes in one word of it
per round. -/

namespace AttestedKey

inductive Digest
  | sha1
  | sha224
  | sha256
  | sha384
  | sha512
  deriving DecidableEq, Repr

namespace Digest

def words (w : Nat) : Nat → Octets → List (BitVec w)
  | 0, _ => []
  | n + 1, bs => BitVec.ofNat w (Octets.toNat (bs.take (w / 8))) :: words w n (bs.drop (w / 8))

/-- The bit `1`, zeros, and the length in bits in `2 * w` bits, up to a multiple of sixteen
words. -/
def padding (w length : Nat) : Octets :=
  let block := 2 * w
  let filled := (length + 1 + w / 4) % block
  let zeros := if filled = 0 then 0 else block - filled
  0x80 :: (List.replicate zeros 0 ++ Octets.ofNat (w / 4) (8 * length))

def blocks (w : Nat) : Nat → Octets → List (List (BitVec w))
  | 0, _ => []
  | n + 1, bs => words w 16 (bs.take (2 * w)) :: blocks w n (bs.drop (2 * w))

def messageBlocks (w : Nat) (message : Octets) : List (List (BitVec w)) :=
  let padded := message ++ padding w message.length
  blocks w (padded.length / (2 * w)) padded

/-- Adds `n` words to a schedule that is kept newest first. -/
def extend {w : Nat} (next : List (BitVec w) → BitVec w) : Nat → List (BitVec w) → List (BitVec w)
  | 0, ws => ws
  | n + 1, ws => extend next n (next ws :: ws)

def choose {w : Nat} (x y z : BitVec w) : BitVec w := (x &&& y) ^^^ (~~~x &&& z)

def majority {w : Nat} (x y z : BitVec w) : BitVec w := (x &&& y) ^^^ (x &&& z) ^^^ (y &&& z)

def parity {w : Nat} (x y z : BitVec w) : BitVec w := x ^^^ y ^^^ z

def wordOctets {w : Nat} (x : BitVec w) : Octets := Octets.ofNat (w / 8) x.toNat

namespace Sha1

structure State where
  a : BitVec 32
  b : BitVec 32
  c : BitVec 32
  d : BitVec 32
  e : BitVec 32

def initial : State := ⟨0x67452301, 0xefcdab89, 0x98badcfe, 0x10325476, 0xc3d2e1f0⟩

def next (ws : List (BitVec 32)) : BitVec 32 :=
  (ws.getD 2 0 ^^^ ws.getD 7 0 ^^^ ws.getD 13 0 ^^^ ws.getD 15 0).rotateLeft 1

def round (t : Nat) : (BitVec 32 → BitVec 32 → BitVec 32 → BitVec 32) × BitVec 32 :=
  if t < 20 then (choose, 0x5a827999)
  else if t < 40 then (parity, 0x6ed9eba1)
  else if t < 60 then (majority, 0x8f1bbcdc)
  else (parity, 0xca62c1d6)

def step (s : State) (word : BitVec 32 × Nat) : State :=
  let (f, k) := round word.2
  ⟨s.a.rotateLeft 5 + f s.b s.c s.d + s.e + k + word.1, s.a, s.b.rotateLeft 30, s.c, s.d⟩

def absorb (s : State) (block : List (BitVec 32)) : State :=
  let r := (extend next 64 block.reverse).reverse.zipIdx.foldl step s
  ⟨s.a + r.a, s.b + r.b, s.c + r.c, s.d + r.d, s.e + r.e⟩

def hash (message : Octets) : Octets :=
  let s := (messageBlocks 32 message).foldl absorb initial
  [s.a, s.b, s.c, s.d, s.e].flatMap wordOctets

end Sha1

namespace Sha2

structure Rules (w : Nat) where
  constants : List (BitVec w)
  big0 : Nat × Nat × Nat
  big1 : Nat × Nat × Nat
  small0 : Nat × Nat × Nat
  small1 : Nat × Nat × Nat

structure State (w : Nat) where
  a : BitVec w
  b : BitVec w
  c : BitVec w
  d : BitVec w
  e : BitVec w
  f : BitVec w
  g : BitVec w
  h : BitVec w

variable {w : Nat}

def big (r : Nat × Nat × Nat) (x : BitVec w) : BitVec w :=
  x.rotateRight r.1 ^^^ x.rotateRight r.2.1 ^^^ x.rotateRight r.2.2

def small (r : Nat × Nat × Nat) (x : BitVec w) : BitVec w :=
  x.rotateRight r.1 ^^^ x.rotateRight r.2.1 ^^^ (x >>> r.2.2)

def next (rules : Rules w) (ws : List (BitVec w)) : BitVec w :=
  small rules.small1 (ws.getD 1 0) + ws.getD 6 0 + small rules.small0 (ws.getD 14 0) + ws.getD 15 0

def step (rules : Rules w) (s : State w) (word : BitVec w × BitVec w) : State w :=
  let t1 := s.h + big rules.big1 s.e + choose s.e s.f s.g + word.2 + word.1
  let t2 := big rules.big0 s.a + majority s.a s.b s.c
  ⟨t1 + t2, s.a, s.b, s.c, s.d + t1, s.e, s.f, s.g⟩

def absorb (rules : Rules w) (s : State w) (block : List (BitVec w)) : State w :=
  let schedule := (extend (next rules) (rules.constants.length - 16) block.reverse).reverse
  let r := (schedule.zip rules.constants).foldl (step rules) s
  ⟨s.a + r.a, s.b + r.b, s.c + r.c, s.d + r.d, s.e + r.e, s.f + r.f, s.g + r.g, s.h + r.h⟩

def hash (rules : Rules w) (initial : State w) (size : Nat) (message : Octets) : Octets :=
  let s := (messageBlocks w message).foldl (absorb rules) initial
  ([s.a, s.b, s.c, s.d, s.e, s.f, s.g, s.h].flatMap wordOctets).take size

/-- The bits behind the point of the cube roots of the first primes. -/
def constants32 : List (BitVec 32) := [
  0x428a2f98, 0x71374491, 0xb5c0fbcf, 0xe9b5dba5, 0x3956c25b, 0x59f111f1, 0x923f82a4, 0xab1c5ed5,
  0xd807aa98, 0x12835b01, 0x243185be, 0x550c7dc3, 0x72be5d74, 0x80deb1fe, 0x9bdc06a7, 0xc19bf174,
  0xe49b69c1, 0xefbe4786, 0x0fc19dc6, 0x240ca1cc, 0x2de92c6f, 0x4a7484aa, 0x5cb0a9dc, 0x76f988da,
  0x983e5152, 0xa831c66d, 0xb00327c8, 0xbf597fc7, 0xc6e00bf3, 0xd5a79147, 0x06ca6351, 0x14292967,
  0x27b70a85, 0x2e1b2138, 0x4d2c6dfc, 0x53380d13, 0x650a7354, 0x766a0abb, 0x81c2c92e, 0x92722c85,
  0xa2bfe8a1, 0xa81a664b, 0xc24b8b70, 0xc76c51a3, 0xd192e819, 0xd6990624, 0xf40e3585, 0x106aa070,
  0x19a4c116, 0x1e376c08, 0x2748774c, 0x34b0bcb5, 0x391c0cb3, 0x4ed8aa4a, 0x5b9cca4f, 0x682e6ff3,
  0x748f82ee, 0x78a5636f, 0x84c87814, 0x8cc70208, 0x90befffa, 0xa4506ceb, 0xbef9a3f7, 0xc67178f2]

def constants64 : List (BitVec 64) := [
  0x428a2f98d728ae22, 0x7137449123ef65cd, 0xb5c0fbcfec4d3b2f, 0xe9b5dba58189dbbc,
  0x3956c25bf348b538, 0x59f111f1b605d019, 0x923f82a4af194f9b, 0xab1c5ed5da6d8118,
  0xd807aa98a3030242, 0x12835b0145706fbe, 0x243185be4ee4b28c, 0x550c7dc3d5ffb4e2,
  0x72be5d74f27b896f, 0x80deb1fe3b1696b1, 0x9bdc06a725c71235, 0xc19bf174cf692694,
  0xe49b69c19ef14ad2, 0xefbe4786384f25e3, 0x0fc19dc68b8cd5b5, 0x240ca1cc77ac9c65,
  0x2de92c6f592b0275, 0x4a7484aa6ea6e483, 0x5cb0a9dcbd41fbd4, 0x76f988da831153b5,
  0x983e5152ee66dfab, 0xa831c66d2db43210, 0xb00327c898fb213f, 0xbf597fc7beef0ee4,
  0xc6e00bf33da88fc2, 0xd5a79147930aa725, 0x06ca6351e003826f, 0x142929670a0e6e70,
  0x27b70a8546d22ffc, 0x2e1b21385c26c926, 0x4d2c6dfc5ac42aed, 0x53380d139d95b3df,
  0x650a73548baf63de, 0x766a0abb3c77b2a8, 0x81c2c92e47edaee6, 0x92722c851482353b,
  0xa2bfe8a14cf10364, 0xa81a664bbc423001, 0xc24b8b70d0f89791, 0xc76c51a30654be30,
  0xd192e819d6ef5218, 0xd69906245565a910, 0xf40e35855771202a, 0x106aa07032bbd1b8,
  0x19a4c116b8d2d0c8, 0x1e376c085141ab53, 0x2748774cdf8eeb99, 0x34b0bcb5e19b48a8,
  0x391c0cb3c5c95a63, 0x4ed8aa4ae3418acb, 0x5b9cca4f7763e373, 0x682e6ff3d6b2b8a3,
  0x748f82ee5defb2fc, 0x78a5636f43172f60, 0x84c87814a1f0ab72, 0x8cc702081a6439ec,
  0x90befffa23631e28, 0xa4506cebde82bde9, 0xbef9a3f7b2c67915, 0xc67178f2e372532b,
  0xca273eceea26619c, 0xd186b8c721c0c207, 0xeada7dd6cde0eb1e, 0xf57d4f7fee6ed178,
  0x06f067aa72176fba, 0x0a637dc5a2c898a6, 0x113f9804bef90dae, 0x1b710b35131c471b,
  0x28db77f523047d84, 0x32caab7b40c72493, 0x3c9ebe0a15c9bebc, 0x431d67c49c100d4c,
  0x4cc5d4becb3e42b6, 0x597f299cfc657e2a, 0x5fcb6fab3ad6faec, 0x6c44198c4a475817]

def rules32 : Rules 32 := ⟨constants32, (2, 13, 22), (6, 11, 25), (7, 18, 3), (17, 19, 10)⟩

def rules64 : Rules 64 := ⟨constants64, (28, 34, 39), (14, 18, 41), (1, 8, 7), (19, 61, 6)⟩

def initial224 : State 32 := ⟨
  0xc1059ed8, 0x367cd507, 0x3070dd17, 0xf70e5939, 0xffc00b31, 0x68581511, 0x64f98fa7, 0xbefa4fa4⟩

def initial256 : State 32 := ⟨
  0x6a09e667, 0xbb67ae85, 0x3c6ef372, 0xa54ff53a, 0x510e527f, 0x9b05688c, 0x1f83d9ab, 0x5be0cd19⟩

def initial384 : State 64 := ⟨
  0xcbbb9d5dc1059ed8, 0x629a292a367cd507, 0x9159015a3070dd17, 0x152fecd8f70e5939,
  0x67332667ffc00b31, 0x8eb44a8768581511, 0xdb0c2e0d64f98fa7, 0x47b5481dbefa4fa4⟩

def initial512 : State 64 := ⟨
  0x6a09e667f3bcc908, 0xbb67ae8584caa73b, 0x3c6ef372fe94f82b, 0xa54ff53a5f1d36f1,
  0x510e527fade682d1, 0x9b05688c2b3e6c1f, 0x1f83d9abfb41bd6b, 0x5be0cd19137e2179⟩

end Sha2

def hash : Digest → Octets → Octets
  | sha1 => Sha1.hash
  | sha224 => Sha2.hash Sha2.rules32 Sha2.initial224 28
  | sha256 => Sha2.hash Sha2.rules32 Sha2.initial256 32
  | sha384 => Sha2.hash Sha2.rules64 Sha2.initial384 48
  | sha512 => Sha2.hash Sha2.rules64 Sha2.initial512 64

end Digest

end AttestedKey
