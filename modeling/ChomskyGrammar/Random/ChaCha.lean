/-
# The ChaCha key stream

ChaCha turns a key of eight 32-bit words and a 64-bit block counter into blocks of sixteen
words.  The state is a square of words: a row of constants, two rows of key, and a row
with the counter.  A round mixes the columns and then the diagonals; the diagonals become
columns if the rows are turned by zero, one, two and three places.  After all rounds the
state that was started from is added back.  This stream uses six double rounds.
-/

namespace ChomskyGrammar

namespace ChaCha

/-- A row of the state. -/
structure Row where
  (w0 w1 w2 w3 : UInt32)
deriving DecidableEq, Repr

namespace Row

/-- A function of two words, applied place by place. -/
def zip (f : UInt32 → UInt32 → UInt32) (r s : Row) : Row :=
  ⟨f r.w0 s.w0, f r.w1 s.w1, f r.w2 s.w2, f r.w3 s.w3⟩

/-- Every word rotated left by some number of bits. -/
def rotate (k : UInt32) (r : Row) : Row :=
  let rot (x : UInt32) : UInt32 := (x <<< k) ||| (x >>> (32 - k))
  ⟨rot r.w0, rot r.w1, rot r.w2, rot r.w3⟩

/-- The row turned by one place: every word moves one place to the left. -/
def turn (r : Row) : Row := ⟨r.w1, r.w2, r.w3, r.w0⟩

/-- The words of the row. -/
def toList (r : Row) : List UInt32 := [r.w0, r.w1, r.w2, r.w3]

end Row

/-- The state. -/
structure State where
  /-- The row that starts with the constants. -/
  a : Row
  /-- The row that starts with the first half of the key. -/
  b : Row
  /-- The row that starts with the second half of the key. -/
  c : Row
  /-- The row that starts with the counter. -/
  d : Row
deriving DecidableEq, Repr

namespace State

/-- One half of a quarter round: adds `b` to `a` and `d` to `c`, and lets the sums change
`d` and `b`, which are then rotated by `m` and `n` bits. -/
def halfMix (m n : UInt32) (s : State) : State :=
  let a := s.a.zip (· + ·) s.b
  let d := (s.d.zip (· ^^^ ·) a).rotate m
  let c := s.c.zip (· + ·) d
  let b := (s.b.zip (· ^^^ ·) c).rotate n
  ⟨a, b, c, d⟩

/-- Mixes every column. -/
def mixColumns (s : State) : State := (s.halfMix 16 12).halfMix 8 7

/-- Makes the diagonals columns. -/
def turn (s : State) : State := ⟨s.a, s.b.turn, s.c.turn.turn, s.d.turn.turn.turn⟩

/-- Makes the columns diagonals again. -/
def turnBack (s : State) : State := ⟨s.a, s.b.turn.turn.turn, s.c.turn.turn, s.d.turn⟩

/-- Mixes every column and then every diagonal. -/
def doubleRound (s : State) : State := s.mixColumns.turn.mixColumns.turnBack

/-- The sum of two states. -/
def add (s t : State) : State :=
  ⟨s.a.zip (· + ·) t.a, s.b.zip (· + ·) t.b, s.c.zip (· + ·) t.c, s.d.zip (· + ·) t.d⟩

/-- The words of the state, row by row. -/
def toList (s : State) : List UInt32 := s.a.toList ++ s.b.toList ++ s.c.toList ++ s.d.toList

end State

/-- The constants of the first row. -/
def constants : Row := ⟨0x61707865, 0x3320646e, 0x79622d32, 0x6b206574⟩

/-- A key: the two rows of the state that hold it. -/
structure Key where
  low : Row
  high : Row
deriving DecidableEq, Repr

/-- The state that a block starts from. -/
def initial (key : Key) (counter : UInt64) : State :=
  -- The low half of the counter comes first, and the last two words stay zero.
  ⟨constants, key.low, key.high, ⟨counter.toUInt32, (counter >>> 32).toUInt32, 0, 0⟩⟩

/-- The number of double rounds. -/
def doubleRounds : Nat := 6

/-- The words of one block. -/
def block (key : Key) (counter : UInt64) : List UInt32 :=
  let s := initial key counter
  ((Nat.repeat State.doubleRound doubleRounds s).add s).toList

/-- The words of all blocks, one after the other. -/
def keyStream (key : Key) (i : Nat) : UInt32 :=
  (block key (UInt64.ofNat (i / 16))).getD (i % 16) 0

end ChaCha

end ChomskyGrammar
