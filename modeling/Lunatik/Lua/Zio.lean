import Lunatik.Kernel.Memory

/-! # Buffered streams (`lzio.c`, `lauxlib.c`)

The reader of a chunk is `getS`: it hands out the whole buffer once and then NULL.
`code` is the memory from `code_kern` on, beyond the end of the buffer as well, and a
position is an offset into it.  `n` is the unsigned counter of `struct Zio`, which
`zgetc` decrements before it looks at it.

Every access to `code` is entered in `reads` as an offset and a length; an access through
the NULL that `luaZ_init` leaves is recorded in `nullRead`.
-/

namespace Lunatik.Lua

open Lunatik.Kernel

structure Zio where
  code : Nat → UInt8
  -- LoadS.size: what getS has not handed out yet
  size : Nat
  n : Nat
  p : Option Nat
  reads : List (Nat × Nat)
  nullRead : Bool

namespace Zio

/-- `luaZ_init` on the buffer that `luaL_loadbuffer(L, code, size, name)` describes. -/
def luaZInit (code : Nat → UInt8) (size : Nat) : Zio := ⟨code, size, 0, none, [], false⟩

-- the byte at *p
def peek (z : Zio) : UInt8 × Zio :=
  match z.p with
  | none => (0, { z with nullRead := true })
  | some p => (z.code p, { z with reads := z.reads ++ [(p, 1)] })

-- *p++
def readByte (z : Zio) : UInt8 × Zio :=
  let (c, z) := z.peek
  (c, { z with p := z.p.map (· + 1) })

/-- `luaZ_fill(z)`; `none` is `EOZ`. -/
def luaZFill (z : Zio) : Option UInt8 × Zio :=
  if z.size = 0 then (none, z)
  else
    let (c, z) := { z with size := 0, n := z.size - 1, p := some 0 }.readByte
    (some c, z)

/-- `zgetc(z)`. -/
def zgetc (z : Zio) : Option UInt8 × Zio :=
  let n := z.n
  let z := { z with n := wrap (n + (sizeModulus - 1)) }
  if 0 < n then
    let (c, z) := z.readByte
    (some c, z)
  else z.luaZFill

/-- `luaZ_lookahead(z)`. -/
def luaZLookahead (z : Zio) : Option UInt8 × Zio :=
  if z.n = 0 then
    match z.luaZFill with
    | (none, z) => (none, z)
    | (some _, z) =>
      -- luaZ_fill removed first byte; put back it
      let (c, z) := { z with n := z.n + 1, p := z.p.map (· - 1) }.peek
      (some c, z)
  else
    let (c, z) := z.peek
    (some c, z)

-- memcpy(b, z->p, m), then advance
def copyOut (z : Zio) (m : Nat) : List UInt8 × Zio :=
  match z.p with
  | none => ([], { z with nullRead := true })
  | some p =>
    ((List.range m).map fun i => z.code (p + i),
      { z with n := z.n - m, p := some (p + m), reads := z.reads ++ [(p, m)] })

/-- The loop of `luaZ_read(z, b, n)`: the bytes stored in `b` and the number of missing ones.
    Every round copies at least one byte, so `n` rounds are enough. -/
def luaZReadLoop : Nat → Nat → Zio → List UInt8 × Nat × Zio
  | 0, n, z => ([], n, z)
  | rounds + 1, n, z =>
    if n = 0 then ([], 0, z)
    else
      match z.luaZLookahead with
      | (none, z) => ([], n, z)
      | (some _, z) =>
        let m := if n ≤ z.n then n else z.n
        let (bytes, z) := z.copyOut m
        let (rest, missing, z) := luaZReadLoop rounds (n - m) z
        (bytes ++ rest, missing, z)

def luaZRead (z : Zio) (n : Nat) : List UInt8 × Nat × Zio := luaZReadLoop n n z

end Zio

end Lunatik.Lua
