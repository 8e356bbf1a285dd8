/-
# SHA-1

The message is padded to whole blocks of sixteen words; each block is expanded to eighty words
and mixed into a state of five.  Nothing is proved about the digest but its length.
-/
import Mathlib.Data.BitVec
import S9p.Lib.Bytes

namespace Sha1

abbrev Word := BitVec 32

structure State where
  a : Word
  b : Word
  c : Word
  d : Word
  e : Word

def State.start : State :=
  ⟨0x67452301#32, 0xefcdab89#32, 0x98badcfe#32, 0x10325476#32, 0xc3d2e1f0#32⟩

/-- A one bit, zeros, and the length in bits. -/
def padded (message : Bytes) : Bytes :=
  message ++ 0x80 :: Bytes.zeros ((119 - message.length % 64) % 64) ++
    Bytes.beBytes 8 (8 * message.length)

/-- The words of a block, the last one first. -/
def words : Bytes → List Word → List Word
  | b₀ :: b₁ :: b₂ :: b₃ :: rest, ws =>
      words rest (BitVec.ofNat 32 (Bytes.ofLe [b₃, b₂, b₁, b₀]) :: ws)
  | _, ws => ws

/-- `n` more words of the schedule, the last one first. -/
def schedule : Nat → List Word → List Word
  | 0, ws => ws
  | n + 1, ws =>
      schedule n ((ws.getD 2 0 ^^^ ws.getD 7 0 ^^^ ws.getD 13 0 ^^^ ws.getD 15 0).rotateLeft 1
        :: ws)

def round (s : State) (t : Nat) (w : Word) : State :=
  let fk : Word × Word :=
    if t < 20 then ((s.b &&& s.c) ||| (~~~s.b &&& s.d), 0x5a827999#32)
    else if t < 40 then (s.b ^^^ s.c ^^^ s.d, 0x6ed9eba1#32)
    else if t < 60 then ((s.b &&& s.c) ||| (s.b &&& s.d) ||| (s.c &&& s.d), 0x8f1bbcdc#32)
    else (s.b ^^^ s.c ^^^ s.d, 0xca62c1d6#32)
  ⟨s.a.rotateLeft 5 + fk.1 + s.e + fk.2 + w, s.a, s.b.rotateLeft 30, s.c, s.d⟩

def rounds (s : State) : Nat → List Word → State
  | _, [] => s
  | t, w :: ws => rounds (round s t w) (t + 1) ws

def compress (s : State) (block : Bytes) : State :=
  let r := rounds s 0 (schedule 64 (words block [])).reverse
  ⟨s.a + r.a, s.b + r.b, s.c + r.c, s.d + r.d, s.e + r.e⟩

/-- The first `n` blocks of `b`. -/
def blocks : Nat → State → Bytes → State
  | 0, s, _ => s
  | n + 1, s, b => blocks n (compress s (b.take 64)) (b.drop 64)

def State.bytes (s : State) : Bytes :=
  [s.a, s.b, s.c, s.d, s.e].flatMap (fun w => Bytes.beBytes 4 w.toNat)

def sha1 (message : Bytes) : Bytes :=
  (blocks ((padded message).length / 64) .start (padded message)).bytes

@[simp] theorem length_sha1 (message : Bytes) : (sha1 message).length = 20 := by
  simp [sha1, State.bytes]

/-- The digest of "abc". -/
example : sha1 [0x61, 0x62, 0x63] =
    [0xa9, 0x99, 0x3e, 0x36, 0x47, 0x06, 0x81, 0x6a, 0xba, 0x3e, 0x25, 0x71, 0x78, 0x50, 0xc2,
      0x6c, 0x9c, 0xd0, 0xd8, 0x9d] := by
  decide +kernel

end Sha1
